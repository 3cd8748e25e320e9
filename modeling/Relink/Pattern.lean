/-!
# Patterns

Regular expressions, as they are commonly understood. A pattern is tried from the left of a text on,
and of the ways in which it matches the first is taken: an alternative comes before those that are
written behind it, and a repetition or an option takes as much as it can before it takes less. A
group remembers what it matched. The end is the end of the text, and no line end before it.
-/

namespace Relink

/-- A regular expression. -/
inductive Pattern where
  /-- The start of the text. -/
  | start
  /-- The end of the text. -/
  | finish
  | single (character : Char)
  /-- One character of some ranges, each from its first to its last character. -/
  | oneOf (ranges : List (Char × Char))
  | inOrder (first second : Pattern)
  | either (first second : Pattern)
  | option (pattern : Pattern)
  | repetition (pattern : Pattern)
  /-- A group with its number. -/
  | group (number : Nat) (pattern : Pattern)
deriving DecidableEq, Repr

namespace Pattern

/-- How a character is written in a set of characters. -/
def writtenInSet (character : Char) : String :=
  if character = '-' then "\\-" else String.ofList [character]

/-- How a range of characters is written. -/
def writtenRange (range : Char × Char) : String :=
  if range.1 = range.2 then writtenInSet range.1
  else writtenInSet range.1 ++ "-" ++ writtenInSet range.2

/-- How a pattern is written, if alternatives stand in a group of their own, and what is optional
or repeated is a group or one character. -/
def written : Pattern -> String
  | start => "^"
  | finish => "$"
  | single character => String.ofList [character]
  | oneOf ranges => "[" ++ ranges.foldr (fun range rest => writtenRange range ++ rest) "]"
  | inOrder first second => first.written ++ second.written
  | either first second => first.written ++ "|" ++ second.written
  | option pattern => pattern.written ++ "?"
  | repetition pattern => pattern.written ++ "*"
  | group _ pattern => "(" ++ pattern.written ++ ")"

/-- Where a match has come to in a text. -/
structure Match where
  /-- What stands before this place, from its end. -/
  before : List Char
  rest : List Char
  /-- What the groups have matched, by their numbers, the latest first. -/
  groups : List (Nat × List Char) := []
deriving DecidableEq, Repr

/-- Whether a character lies in one of some ranges. -/
def isInRanges (ranges : List (Char × Char)) (character : Char) : Bool :=
  ranges.any fun (first, last) => first ≤ character && character ≤ last

/-- The match after one character that passes a test. -/
def Match.advance (place : Match) (accepts : Char -> Bool) : List Match :=
  match place.rest with
  | [] => []
  | character :: rest =>
    if accepts character then [{ place with before := character :: place.before, rest }] else []

/-- The ways to go on from a place as often as possible, the longest first. A round that takes
nothing is not counted. -/
def repeated (once : Match -> List Match) : Nat -> Match -> List Match
  | 0, place => [place]
  | rounds + 1, place =>
    ((once place).filter fun next => next.rest.length < place.rest.length).flatMap
      (repeated once rounds) ++ [place]

/-- The ways in which a pattern matches from a place on, the preferred first. -/
def ways : Pattern -> Match -> List Match
  | start, place => if place.before.isEmpty then [place] else []
  | finish, place => if place.rest.isEmpty then [place] else []
  | single character, place => place.advance (· == character)
  | oneOf ranges, place => place.advance (isInRanges ranges)
  | inOrder first second, place => (first.ways place).flatMap second.ways
  | either first second, place => first.ways place ++ second.ways place
  | option pattern, place => pattern.ways place ++ [place]
  | repetition pattern, place => repeated pattern.ways place.rest.length place
  | group number pattern, place =>
    (pattern.ways place).map fun next =>
      let matched := place.rest.take (place.rest.length - next.rest.length)
      { next with groups := (number, matched) :: next.groups }

/-- The match of a pattern that begins first, with what stands before its place given from its
end. -/
def findFrom? (pattern : Pattern) (before : List Char) : List Char -> Option Match
  | [] => (pattern.ways ⟨before, [], []⟩).head?
  | character :: rest =>
    match (pattern.ways ⟨before, character :: rest, []⟩).head? with
    | some found => some found
    | none => pattern.findFrom? (character :: before) rest

/-- What a group of a pattern matches in a text. -/
def captured? (pattern : Pattern) (number : Nat) (text : List Char) : Option (List Char) :=
  (pattern.findFrom? [] text).bind fun found => found.groups.lookup number

end Pattern
end Relink
