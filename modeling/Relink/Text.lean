/-!
# Text as characters

Questions about the ends of a text, its lines and its pieces, all read off its
list of characters, so that they reason with the lemmas of `List`.
-/

namespace Relink.Text

/-- Whether `text` begins with `lead`. -/
def startsWith (text lead : String) : Bool :=
  lead.toList.isPrefixOf text.toList

/-- Whether `text` ends with `tail`. -/
def endsWith (text tail : String) : Bool :=
  tail.toList.isSuffixOf text.toList

/-- What follows `lead` in a text that begins with it. -/
def after? (text lead : String) : Option String :=
  if startsWith text lead then some (String.ofList (text.toList.drop lead.toList.length)) else none

/-- The pieces of a character list between the occurrences of a separator.
There is always one piece more than there are separators. -/
def splitAt (separator : Char) : List Char -> List (List Char)
  | [] => [[]]
  | character :: rest =>
    if character = separator then
      [] :: splitAt separator rest
    else
      match splitAt separator rest with
      | [] => [[character]]
      | piece :: pieces => (character :: piece) :: pieces

/-- The pieces of a character list put together again, a separator between each two. -/
def joinWith (separator : Char) : List (List Char) -> List Char
  | [] => []
  | [piece] => piece
  | piece :: pieces => piece ++ separator :: joinWith separator pieces

theorem splitAt_ne_nil (separator : Char) (text : List Char) : splitAt separator text ≠ [] := by
  cases text with
  | nil => simp [splitAt]
  | cons character rest =>
    rw [splitAt]
    split
    · simp
    · split <;> simp

/-- No piece of `splitAt` holds the separator. -/
theorem not_mem_of_mem_splitAt {separator : Char} {text piece : List Char}
    (member : piece ∈ splitAt separator text) : separator ∉ piece := by
  induction text generalizing piece with
  | nil => simp_all [splitAt]
  | cons character rest ih =>
    rw [splitAt] at member
    split at member
    · rcases List.mem_cons.1 member with rfl | later
      · simp
      · exact ih later
    · rename_i different
      cases split : splitAt separator rest with
      | nil => exact absurd split (splitAt_ne_nil separator rest)
      | cons first others =>
        rw [split] at member ih
        rcases List.mem_cons.1 member with rfl | later
        · have := ih (List.mem_cons_self ..)
          simp only [List.mem_cons, not_or]
          exact ⟨fun equal => different equal.symm, this⟩
        · exact ih (List.mem_cons_of_mem _ later)

/-- Texts put together with a separator between each two. -/
def intercalate (separator : String) : List String -> String
  | [] => ""
  | [text] => text
  | text :: texts => text ++ separator ++ intercalate separator texts

/-- The lines of a text: the pieces between its line feeds, without the empty piece that
follows a final line feed. -/
def lines (text : String) : List String :=
  let pieces := (splitAt '\n' text.toList).map String.ofList
  if pieces.getLast? = some "" then pieces.dropLast else pieces

/-- How many characters of a list are line feeds. -/
def lineFeeds (characters : List Char) : Nat :=
  characters.count '\n'

/-- How many bytes a character list takes in UTF-8. -/
def byteLength (characters : List Char) : Nat :=
  characters.foldr (fun character rest => character.utf8Size + rest) 0

@[simp] theorem byteLength_nil : byteLength [] = 0 := rfl

@[simp] theorem byteLength_append (first second : List Char) :
    byteLength (first ++ second) = byteLength first + byteLength second := by
  induction first with
  | nil => simp [byteLength]
  | cons character rest ih =>
    simp only [byteLength, List.cons_append, List.foldr_cons] at ih ⊢
    omega

/-- What follows the first occurrence of `part` in a list, that occurrence included. -/
def fromFirst? (part : List Char) : List Char -> Option (List Char)
  | [] => if part = [] then some [] else none
  | character :: rest =>
    if part.isPrefixOf (character :: rest) then some (character :: rest) else fromFirst? part rest

end Relink.Text
