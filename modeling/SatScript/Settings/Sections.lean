import SatScript.Settings.Document
import SatScript.Text.Digits
import SatScript.Text.Split
/-!
# SatScript — sections of settings

A plain format for settings. A line `name:` opens a section and indented
lines `key: value` belong to it; a line `name: value` that is not
indented stands for itself and closes the section. A comment begins with
a number sign behind a space and runs to the end of the line. Other lines
are passed over. Values are flags, integers, or texts.

Lines end with a line feed. A carriage return, or another of the
characters that end a line in Unicode, does not end it, but no comment
runs across one.

One key is reserved: nothing is entered under it, be it a value or a
section.
-/

namespace SatScript

/-- What stands under a name: a plain value, or a section. -/
inductive Entry where
  | scalar (value : Scalar)
  | section (entries : Table Scalar)
deriving DecidableEq

/-- A document of sections and plain values. -/
abbrev Sections := Table Entry

namespace Sections

/-- Whether a comment can hold the character. -/
def staysInComment (c : Char) : Bool :=
  !(c == '\n' || c == '\r' || c == '\u2028' || c == '\u2029')

/-- Whether the text is spaces and then a comment to its end. -/
def isComment (cs : List Char) : Bool :=
  match cs.dropWhile Text.isSpace with
  | '#' :: rest => rest.all staysInComment
  | _ => false

/-- The line without the comment at its end. -/
def stripComment : List Char → List Char
  | [] => []
  | c :: cs => if Text.isSpace c && isComment (c :: cs) then [] else c :: stripComment cs

/-- The plain value that a text stands for. -/
def scalar (cs : List Char) : Scalar :=
  if cs = "true".toList then .flag true
  else if cs = "false".toList then .flag false
  else
    match Text.integer? cs with
    | some n => .number (Number.ofInt n)
    | none => .text (String.ofList cs)

/-- A key and the text behind its colon, and whether the line is indented. -/
structure Line where
  indented : Bool
  key : String
  value : List Char
deriving DecidableEq

/-- What a line says; none if it says nothing. -/
def line? (cs : List Char) : Option Line :=
  let line := stripComment cs
  match Text.trim line with
  | [] => none
  | '#' :: _ => none
  | trimmed =>
    match trimmed.dropWhile (· != ':') with
    | [] => none
    | _ :: value =>
      some
        { indented := (line.head?.map Text.isSpace).getD false
          key := String.ofList (Text.trim (trimmed.takeWhile (· != ':')))
          value := Text.trim value }

/-- The key that names what a record inherits from. -/
def reservedKey : String := "__proto__"

/-- Enter a value under a key, unless the key is reserved. -/
def assign {α : Type} (table : Table α) (key : String) (value : α) : Table α :=
  if key = reservedKey then table else table.set key value

/-- Entering a value changes the look-up of its key and of no other, and not even of
that if the key is reserved. -/
theorem get?_assign {α : Type} (table : Table α) (key other : String) (value : α) :
    (assign table key value).get? other =
      if key ≠ reservedKey ∧ other = key then some value else table.get? other := by
  by_cases hkey : key = reservedKey
  · simp [assign, hkey]
  · simp [assign, hkey]

/-- The document so far, and the section that is open. -/
structure State where
  document : Sections := Table.empty
  current : Option (String × Table Scalar) := none

/-- Take a line. A section under the reserved key is open like any other, but
no part of the document. -/
def State.take (state : State) (line : Line) : State :=
  if line.indented then
    match state.current with
    | none => state
    | some (name, entries) =>
      let entries := assign entries line.key (scalar line.value)
      { document := assign state.document name (.section entries), current := some (name, entries) }
  else if line.value.isEmpty then
    { document := assign state.document line.key (.section Table.empty)
      current := some (line.key, Table.empty) }
  else { document := assign state.document line.key (.scalar (scalar line.value)) }

/-- The document that a text is. -/
def read (cs : List Char) : Sections :=
  (((Text.split '\n' cs).filterMap line?).foldl State.take {}).document

/-- The plain value of an entry of a section. -/
def value? (sections : Sections) (part name : String) : Option Scalar :=
  match sections.get? part with
  | some (.section entries) => entries.get? name
  | _ => none

end Sections

/-- The settings that a document of sections gives. -/
def Overrides.ofSections (sections : Sections) : Overrides := ofLookup sections.value?

end SatScript
