/-!
# Causes of failure

Why a call on a file tree fails, in the terms and the wording of the operating system.
-/

namespace Relink

/-- Why a system call fails. -/
inductive Cause where
  | notFound
  | alreadyExists
  | busy
  | notDirectory
  | isDirectory
  | invalidArgument
  | nameTooLong
  | notEmpty
  | tooManyLinks
  | notExecutable
deriving DecidableEq, Repr

namespace Cause

/-- What the operating system calls a cause. -/
def description : Cause -> String
  | notFound => "No such file or directory"
  | alreadyExists => "File exists"
  | busy => "Device or resource busy"
  | notDirectory => "Not a directory"
  | isDirectory => "Is a directory"
  | invalidArgument => "Invalid argument"
  | nameTooLong => "File name too long"
  | notEmpty => "Directory not empty"
  | tooManyLinks => "Too many levels of symbolic links"
  | notExecutable => "Exec format error"

/-- The number that the operating system gives a cause. -/
def number : Cause -> Nat
  | notFound => 2
  | notExecutable => 8
  | busy => 16
  | alreadyExists => 17
  | notDirectory => 20
  | isDirectory => 21
  | invalidArgument => 22
  | nameTooLong => 36
  | notEmpty => 39
  | tooManyLinks => 40

/-- The wording of a cause. -/
def message (cause : Cause) : String :=
  cause.description ++ " (os error " ++ Nat.repr cause.number ++ ")"

end Cause
end Relink
