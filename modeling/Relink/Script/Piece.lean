import Relink.Script.Site

/-!
# A script in pieces

A script is cut into plain text and the specifiers of its sites. Nothing is lost: the pieces put
together are the script. Where each specifier stands, in bytes and in lines, is read off the
pieces before it.
-/

namespace Relink.Script

/-- A part of a script. -/
inductive Piece where
  | plain (text : List Char)
  | site (form : Form) (specifier : List Char)
deriving DecidableEq, Repr

/-- The characters of a piece. -/
def Piece.text : Piece -> List Char
  | plain text => text
  | site _ specifier => specifier

/-- The pieces of a text that stands after `before`, given from its last character back. The
first `pending` characters are in `found` already, the latest piece first. -/
def piecesFrom (before : List Char) (pending : Nat) (found : List Piece) : List Char -> List Piece
  | [] => found.reverse
  | character :: rest =>
    match pending with
    | more + 1 => piecesFrom (character :: before) more found rest
    | 0 =>
      match siteAt? before.head? (character :: rest) with
      | some site =>
        let size := site.lead + site.specifier.length
        piecesFrom (character :: before) size
          (.plain (((character :: rest).drop size).take 1) :: .site site.form site.specifier ::
            .plain ((character :: rest).take site.lead) :: found) rest
      | none =>
        let length := (lexemeLength? before (character :: rest)).getD 1
        piecesFrom (character :: before) (length - 1)
          (.plain ((character :: rest).take length) :: found) rest

/-- The pieces of a script. -/
def pieces (script : List Char) : List Piece :=
  piecesFrom [] 0 [] script

/-- A specifier where it stands in a script: from the byte `start` up to the byte `stop`, on a
line counted from one. -/
structure Occurrence where
  specifier : String
  start : Nat
  stop : Nat
  form : Form
  line : Nat
deriving DecidableEq, Repr

/-- The specifiers of pieces that begin at the byte `offset` of the line `line`. -/
def occurrencesFrom (offset line : Nat) : List Piece -> List Occurrence
  | [] => []
  | .plain text :: rest =>
    occurrencesFrom (offset + Text.byteLength text) (line + Text.lineFeeds text) rest
  | .site form specifier :: rest =>
    let stop := offset + Text.byteLength specifier
    ⟨String.ofList specifier, offset, stop, form, line⟩ :: occurrencesFrom stop line rest

/-- Every specifier of a script, in order. One that stands at two sites occurs twice. -/
def occurrences (script : String) : List Occurrence :=
  occurrencesFrom 0 1 (pieces script.toList)

end Relink.Script
