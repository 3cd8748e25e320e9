import Relink.Shell.Token

/-!
# Shell steps

A script as a list of simple commands. What stands between two of them says whether the second
runs at all.
-/

namespace Relink.Shell

/-- When a command runs. -/
inductive Condition where
  | always
  | afterSuccess
  | afterFailure
deriving DecidableEq, Repr

/-- Where a stream of a command leads to, before parameters are put in. -/
structure Redirection where
  stream : Stream
  redirect : Redirect
  target : Word
deriving DecidableEq, Repr

/-- One simple command. -/
structure Step where
  condition : Condition
  words : List Word
  redirections : List Redirection
deriving DecidableEq, Repr

namespace Step

/-- Whether nothing was read of a command. -/
def isBlank (step : Step) : Bool :=
  step.words.isEmpty && step.redirections.isEmpty

/-- The steps of a list of tokens. `current` is the one that is being read. Signs that follow
upon each other count as the first of them. -/
def ofTokens (current : Step) : List Token -> List Step
  | [] => [current]
  | .word word :: rest => ofTokens { current with words := current.words ++ [word] } rest
  | .redirect stream redirect :: .word target :: rest =>
    ofTokens
      { current with redirections := current.redirections ++ [⟨stream, redirect, target⟩] } rest
  | .redirect _ _ :: rest => ofTokens current rest
  | .separator :: rest =>
    if current.isBlank then ofTokens current rest
    else current :: ofTokens ⟨.always, [], []⟩ rest
  | .andThen :: rest =>
    if current.isBlank then ofTokens current rest
    else current :: ofTokens ⟨.afterSuccess, [], []⟩ rest
  | .orElse :: rest =>
    if current.isBlank then ofTokens current rest
    else current :: ofTokens ⟨.afterFailure, [], []⟩ rest

/-- The commands of a script. -/
def ofScript (script : String) : List Step :=
  (ofTokens ⟨.always, [], []⟩ (Token.ofScript script)).filter fun step => !step.isBlank

end Step
end Relink.Shell
