import Relink.Text

/-!
# Names that are not Unicode

A file system knows names by their bytes, and nothing keeps them from being no UTF-8. A name is
written as a text all the same. Bytes that are UTF-8 are written as their characters, and any
other byte as the character of its number with a null character in front, which no name holds.

A text that is read as a path can hold null characters. They lead nowhere, but they are written
twice, so that no text is taken for a name that is not Unicode.
-/

namespace Relink

namespace Name

/-- The character in front of a stray byte. -/
def mark : Char := '\x00'

/-- What a name is made of: characters, and bytes that belong to no character. -/
inductive Atom where
  | character (char : Char)
  | stray (byte : UInt8)
deriving DecidableEq, Repr

namespace Atom

/-- The bytes that the file system knows. -/
def bytes : Atom -> List UInt8
  | character char => String.utf8EncodeChar char
  | stray byte => [byte]

/-- How an atom is written in a name. -/
def written : Atom -> List Char
  | character char => if char = mark then [mark, mark] else [char]
  | stray byte => [mark, Char.ofNat byte.toNat]

def isCharacter : Atom -> Bool
  | character _ => true
  | stray _ => false

end Atom

/-- Whether a character stands for a stray byte behind a null character. -/
def isStray (char : Char) : Bool :=
  0x80 ≤ char.toNat && char.toNat ≤ 0xFF

/-- What is written in a name, `marked` if a null character came before. A null character that
nothing follows to make sense of it is a stray byte itself. -/
def atomsFrom (marked : Bool) : List Char -> List Atom
  | [] => if marked then [.stray 0] else []
  | char :: rest =>
    if marked then
      if char = mark then .character mark :: atomsFrom false rest
      else if isStray char then .stray (UInt8.ofNat char.toNat) :: atomsFrom false rest
      else .stray 0 :: .character char :: atomsFrom false rest
    else if char = mark then atomsFrom true rest
    else .character char :: atomsFrom false rest

/-- What a name is made of. -/
def atoms (name : String) : List Atom :=
  atomsFrom false name.toList

/-- The bytes of a name. -/
def bytes (name : String) : List UInt8 :=
  (atoms name).flatMap Atom.bytes

/-- How many bytes a name takes. -/
def size (name : String) : Nat :=
  (bytes name).length

/-- Whether the bytes of a name are those of a text. -/
def isUnicode (name : String) : Bool :=
  (atoms name).all Atom.isCharacter

/-- The order in which names are listed: by their bytes, and then as they are written. -/
def le (first second : String) : Bool :=
  if bytes first = bytes second then decide (¬ second < first)
  else decide (bytes first < bytes second)

/-! ## Names and texts -/

/-- A text as a name. -/
def ofText (text : String) : String :=
  String.ofList (text.toList.flatMap fun char => (Atom.character char).written)

/-- Whether two bytes begin a character that takes more of them. -/
def areCutShort (first second : UInt8) : Bool :=
  0xE0 ≤ first && first ≤ 0xF4 &&
    (if first = 0xE0 then 0xA0 ≤ second else if first = 0xF0 then 0x90 ≤ second else 0x80 ≤ second) &&
    (if first = 0xED then second ≤ 0x9F else if first = 0xF4 then second ≤ 0x8F
      else second ≤ 0xBF)

/-- Whether two or three bytes begin a character and do not end it. -/
def isCutShort : List UInt8 -> Bool
  | [first, second] => areCutShort first second
  | [first, second, third] =>
    areCutShort first second && 0xF0 ≤ first && 0x80 ≤ third && third ≤ 0xBF
  | _ => false

/-- The text that is shown for atoms, after stray bytes that one replacement character stands for
already. It stands for as many of them as begin a character. -/
def shownFrom (before : List UInt8) : List Atom -> List Char
  | [] => []
  | .character char :: rest => char :: shownFrom [] rest
  | .stray byte :: rest =>
    if isCutShort (before ++ [byte]) then shownFrom (before ++ [byte]) rest
    else '\uFFFD' :: shownFrom [byte] rest

/-- The text that is shown for a name: its stray bytes are replaced. -/
def shown (name : String) : String :=
  String.ofList (shownFrom [] (atoms name))

/-- The text of a name, if it is Unicode. -/
def text? (name : String) : Option String :=
  if isUnicode name then some (shown name) else none

/-- The name that bytes write. The first `pending` of them belong to a character that is written
already. -/
def writtenFrom (pending : Nat) : List UInt8 -> List Char
  | [] => []
  | byte :: rest =>
    match pending with
    | more + 1 => writtenFrom more rest
    | 0 =>
      match ByteArray.utf8DecodeChar? ⟨((byte :: rest).take 4).toArray⟩ 0 with
      | some char => (Atom.character char).written ++ writtenFrom (char.utf8Size - 1) rest
      | none => (Atom.stray byte).written ++ writtenFrom 0 rest

/-- The name that bytes write. -/
def ofBytes (bytes : List UInt8) : String :=
  String.ofList (writtenFrom 0 bytes)

example : ofBytes [0x2E, 0xFF] = ".\x00ÿ" := by decide

example : shown (ofBytes [0x61, 0xE2, 0x82, 0xFF, 0x2E]) = "a\uFFFD\uFFFD." := by decide +kernel

end Name

/-- Whether a name is hidden. One that is not Unicode never is. -/
def isHiddenName (name : String) : Bool :=
  Name.isUnicode name && name.toList.head? == some '.'

end Relink
