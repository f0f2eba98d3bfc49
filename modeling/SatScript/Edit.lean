import SatScript.Span
import SatScript.Text.Units
/-!
# SatScript — edits

An edit puts a new text in place of a range of a text, in code units.
Several edits are sorted by where they start, in a stable way, then each
is checked in that order: it lies in the text, and it does not overlap
the edit before it. They are applied from the last to the first, so that
the ranges of those still to come are as they were.
-/

namespace SatScript

/-- A new text for a range of a text. -/
structure Edit where
  start : Int
  stop : Int
  newText : String
deriving DecidableEq

/-- Why edits cannot be applied. -/
inductive EditFault where
  | outside (edit : Span)
  | overlap (first second : Span)
deriving DecidableEq

namespace EditFault

/-- A range as it is written in a message. -/
def range (span : Span) : String := toString span.start ++ ".." ++ toString span.stop

/-- The wording of an edit fault. -/
def message : EditFault → String
  | .outside edit => "edit " ++ range edit ++ " is outside the source"
  | .overlap first second => "edits " ++ range first ++ " and " ++ range second ++ " overlap"

/-- The range of the edit at fault. -/
def span : EditFault → Span
  | .outside edit => edit
  | .overlap _ second => second

end EditFault

namespace Edit

/-- The range that is replaced. -/
def span (edit : Edit) : Span := ⟨edit.start, edit.stop⟩

/-- Whether the range lies in a text of this length. -/
def fits (length : Nat) (edit : Edit) : Bool :=
  0 ≤ edit.start && edit.stop ≤ length && edit.start ≤ edit.stop

/-- The edits in the order of their starts; those that start together keep
their order. -/
def sorted (edits : List Edit) : List Edit := edits.mergeSort fun a b => a.start ≤ b.start

/-- Check edits that stand in order, each against the text and the edit
before it. -/
def checkFrom (length : Nat) (before : Option Edit) : List Edit → Except EditFault Unit
  | [] => .ok ()
  | edit :: rest =>
    if !edit.fits length then .error (.outside edit.span)
    else
      match before with
      | none => checkFrom length (some edit) rest
      | some previous =>
        if previous.span.overlaps edit.span then .error (.overlap previous.span edit.span)
        else checkFrom length (some edit) rest

/-- Apply one edit to the code units of a text. -/
def splice (edit : Edit) (text : List UInt16) : List UInt16 :=
  text.take edit.start.toNat ++ Text.encode edit.newText.toList ++ text.drop edit.stop.toNat

/-- Apply edits that stand in order, the last one first. -/
def spliceAll (edits : List Edit) (text : List UInt16) : List UInt16 :=
  edits.foldr splice text

/-- Apply edits to a text. -/
def applyAll (text : String) (edits : List Edit) : Except EditFault String := do
  let units := Text.encode text.toList
  checkFrom units.length none (sorted edits)
  return String.ofList (Text.decode (spliceAll (sorted edits) units))

end Edit

end SatScript
