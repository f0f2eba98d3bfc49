import SatScript.Form.Reader
import SatScript.Session.Basic
import SatScript.Text.Comment
/-!
# SatScript — running a script

A script is run form by form: comments are deleted, one form is read, it
is handed to the session, and so on until `exit` or the end of the text.
The first fault ends the run; what the forms before it did stays done. A
run ends on every text, since a form from which a session goes on is a
list, and reading a list moves on (`length_next_lt_of_take`).
-/

namespace SatScript

/-- How a run without fault ends. -/
inductive Ending where
  | exit
  | endOfInput
deriving DecidableEq

/-- The name of an ending. -/
def Ending.name : Ending → String
  | .exit => "exit"
  | .endOfInput => "end-of-input"

/-- What a run comes to: the session behind it, the number of forms taken,
and how it ended. -/
structure Outcome (σ : Type) where
  session : Session σ
  forms : Nat
  ending : Except Fault Ending

/-- An open list at the end of the text, as a fault. -/
def Unclosed.fault (unclosed : Unclosed) : Fault :=
  .found (.unterminated unclosed.start) ⟨unclosed.start, unclosed.stop⟩

/-- The text between two positions. -/
def Cursor.upTo (cursor next : Cursor) : List Char :=
  cursor.rest.take (cursor.rest.length - next.rest.length)

namespace Session

variable {σ : Type}

/-- The event of a form that was read between two positions. -/
def readingEvent (cursor : Cursor) (reading : Reading) : Event :=
  .parsed (String.ofList (cursor.upTo reading.next)) reading.form.render

/-- Hand a form that was read to the session. -/
def take [Solver σ] (options : Options) (session : Session σ) (cursor : Cursor)
    (reading : Reading) : Session σ × Except Fault Status :=
  (session.record options [readingEvent cursor reading]).step options reading.form

/-- Where a list closes that is not open, the empty atom is read. -/
theorem form_of_readOne_close {strict : Bool} {offset : Nat} {cs : List Char} {reading : Reading}
    (h : Cursor.readOne strict ⟨offset, ')' :: cs⟩ = .ok reading) :
    reading.form = .atom "" offset offset := by
  unfold Cursor.readOne Reader.readFrom at h
  have hs : Reader.step Reader.State.initial offset ')' =
      .done (Reader.emptyAtom offset) false := rfl
  rw [hs] at h
  cases h
  rfl

/-- **A run moves on** with every form from which the session goes on. -/
theorem length_next_lt_of_take [Solver σ] {options : Options}
    {session session' : Session σ} {cursor : Cursor} {offset : Nat} {c : Char} {cs : List Char}
    {reading : Reading} (hb : cursor.skipBlanks = ⟨offset, c :: cs⟩)
    (hr : Cursor.readOne options.strictLists ⟨offset, c :: cs⟩ = .ok reading)
    (hd : session.take options ⟨offset, c :: cs⟩ reading = (session', .ok .running)) :
    reading.next.rest.length < cursor.rest.length := by
  have hl := Cursor.length_skipBlanks_le cursor
  rw [hb] at hl
  refine Nat.lt_of_lt_of_le (Reader.length_next_lt ?_ hr) hl
  rintro rfl
  exact ne_atom_of_step hd "" offset offset (form_of_readOne_close hr)

/-- Run the forms from a position on; `forms` were taken before. -/
def runFrom [Solver σ] (options : Options) (session : Session σ) (cursor : Cursor)
    (forms : Nat) : Outcome σ :=
  match _hb : cursor.skipBlanks with
  | ⟨_, []⟩ => ⟨session, forms, .ok .endOfInput⟩
  | ⟨offset, c :: cs⟩ =>
    match _hr : Cursor.readOne options.strictLists ⟨offset, c :: cs⟩ with
    | .error unclosed => ⟨session, forms, .error unclosed.fault⟩
    | .ok reading =>
      match _hd : session.take options ⟨offset, c :: cs⟩ reading with
      | (session', .error fault) => ⟨session', forms + 1, .error fault⟩
      | (session', .ok .terminated) => ⟨session', forms + 1, .ok .exit⟩
      | (session', .ok .running) => runFrom options session' reading.next (forms + 1)
termination_by cursor.rest.length
decreasing_by exact length_next_lt_of_take _hb _hr _hd

/-- Run a script against a solver. -/
def run [Solver σ] (options : Options) (solver : σ) (script : List Char) : Outcome σ :=
  runFrom options { solver } (Cursor.ofText (Text.withoutComments script)) 0

end Session

end SatScript
