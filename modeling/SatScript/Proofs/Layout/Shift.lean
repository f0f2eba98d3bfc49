import SatScript.Proofs.Layout.Pieces
/-!
# SatScript — reading from another offset

The reader counts where it is, but what it does never depends on that: the
same characters, read from an offset that lies `n` further on, give the same
forms, `n` further on. This is said for a character (`step_shift`), for a
run of the machine (`readFrom_shift`), and for all forms up to the end of
the text (`readAll_shift`), where a list that is left open is reported `n`
further on too.
-/

namespace SatScript

namespace Form

mutual

/-- The form, `n` further on. -/
def shift (n : Nat) : Form → Form
  | .atom text start stop => .atom text (start + n) (stop + n)
  | .list items start stop => .list (shiftAll n items) (start + n) (stop + n)

/-- The forms, `n` further on. -/
def shiftAll (n : Nat) : List Form → List Form
  | [] => []
  | form :: forms => shift n form :: shiftAll n forms

end

variable (n : Nat)

theorem shiftAll_eq_map (forms : List Form) : shiftAll n forms = forms.map (shift n) := by
  induction forms with
  | nil => rfl
  | cons form forms ih => rw [shiftAll, ih, List.map_cons]

mutual

/-- A form that is not moved stays as it is. -/
@[simp] theorem shift_zero : ∀ form : Form, form.shift 0 = form
  | .atom _ _ _ => rfl
  | .list items _ _ => by rw [shift, shiftAll_zero items]; rfl

@[simp] theorem shiftAll_zero : ∀ forms : List Form, shiftAll 0 forms = forms
  | [] => rfl
  | form :: forms => by rw [shiftAll, shift_zero form, shiftAll_zero forms]

end

mutual

/-- Where a form stands does not show in how it is written. -/
@[simp] theorem chars_shift : ∀ form : Form, (form.shift n).chars = form.chars
  | .atom _ _ _ => rfl
  | .list items _ _ => by rw [shift, chars, chars, (charsOfItems_shiftAll items).1]

theorem charsOfItems_shiftAll : ∀ forms : List Form,
    charsOfItems (shiftAll n forms) = charsOfItems forms ∧
      charsOfMore (shiftAll n forms) = charsOfMore forms
  | [] => ⟨rfl, rfl⟩
  | form :: forms => by
    simp only [shiftAll, charsOfItems, charsOfMore, chars_shift form,
      (charsOfItems_shiftAll forms).2, and_self]

end

@[simp] theorem render_shift (form : Form) : (form.shift n).render = form.render := by
  rw [render, render, chars_shift]

end Form

/-- The open list, `n` further on. -/
def Unclosed.shift (n : Nat) (unclosed : Unclosed) : Unclosed :=
  ⟨unclosed.start + n, unclosed.stop + n⟩

/-- The position in the text, counted from `n` further on. -/
def Cursor.shift (n : Nat) (cursor : Cursor) : Cursor := ⟨cursor.offset + n, cursor.rest⟩

/-- The form that was read and the position behind it, `n` further on. -/
def Reading.shift (n : Nat) (reading : Reading) : Reading :=
  ⟨reading.form.shift n, reading.next.shift n⟩

namespace Reader

/-! ## The machine -/

/-- The open list, `n` further on. -/
def Frame.shift (n : Nat) (frame : Frame) : Frame :=
  ⟨frame.start + n, Form.shiftAll n frame.items⟩

/-- What the reader is in the middle of, `n` further on. -/
def Mode.shift (n : Nat) : Mode → Mode
  | .opening => .opening
  | .due => .due
  | .between => .between
  | .plain start taken => .plain (start + n) taken
  | .quoted start taken => .quoted (start + n) taken

/-- The state of the reader, `n` further on. -/
def State.shift (n : Nat) (state : State) : State :=
  ⟨state.frames.map (Frame.shift n), state.mode.shift n⟩

/-- What a character does, `n` further on. -/
def Step.shift (n : Nat) : Step → Step
  | .more state => .more (state.shift n)
  | .done form taken => .done (form.shift n) taken

variable (n : Nat)

theorem atomOf_shift (start stop : Nat) (taken : List Char) :
    atomOf (start + n) (stop + n) taken = (atomOf start stop taken).shift n := rfl

theorem Frame.push_shift (frame : Frame) (item : Form) :
    (frame.shift n).push (item.shift n) = (frame.push item).shift n := rfl

theorem Frame.close_shift (frame : Frame) (stop : Nat) :
    (frame.shift n).close (stop + n) = (frame.close stop).shift n := by
  simp only [close, shift, Form.shift, Form.shiftAll_eq_map, List.map_reverse]

theorem deliver_shift (frames : List Frame) (form : Form) :
    deliver (frames.map (Frame.shift n)) (form.shift n) = (deliver frames form).shift n := by
  cases frames <;> rfl

theorem closeList_shift (frames : List Frame) (offset : Nat) :
    closeList (frames.map (Frame.shift n)) (offset + n) = (closeList frames offset).shift n := by
  cases frames with
  | nil => rfl
  | cons frame frames =>
    rw [List.map_cons, closeList, closeList, ← deliver_shift, ← Frame.close_shift,
      Nat.add_right_comm]

theorem beginForm_shift (frames : List Frame) (offset : Nat) (c : Char) :
    beginForm (frames.map (Frame.shift n)) (offset + n) c =
      (beginForm frames offset c).shift n := by
  unfold beginForm
  split
  · rfl
  · split <;> rfl

theorem stepBetween_shift (frames : List Frame) (offset : Nat) (c : Char) :
    stepBetween (frames.map (Frame.shift n)) (offset + n) c =
      (stepBetween frames offset c).shift n := by
  unfold stepBetween
  split
  · rfl
  · split
    · exact closeList_shift n frames offset
    · exact beginForm_shift n frames offset c

theorem stepBehind_shift (frames : List Frame) (atom : Form) (offset : Nat) (c : Char) :
    stepBehind (frames.map (Frame.shift n)) (atom.shift n) (offset + n) c =
      (stepBehind frames atom offset c).shift n := by
  cases frames with
  | nil => rfl
  | cons frame frames => exact stepBetween_shift n (frame.push atom :: frames) offset c

/-- **What a character does goes along with the offset.** -/
theorem step_shift (state : State) (offset : Nat) (c : Char) :
    step (state.shift n) (offset + n) c = (step state offset c).shift n := by
  obtain ⟨frames, mode⟩ := state
  cases mode with
  | opening =>
    simp only [step, State.shift, Mode.shift]
    split
    · rfl
    · split
      · exact closeList_shift n frames offset
      · exact beginForm_shift n frames offset c
  | due =>
    simp only [step, State.shift, Mode.shift]
    split
    · rfl
    · split
      · exact stepBehind_shift n frames (emptyAtom offset) offset c
      · exact beginForm_shift n frames offset c
  | between => exact stepBetween_shift n frames offset c
  | plain start taken =>
    simp only [step, State.shift, Mode.shift]
    split
    · exact stepBehind_shift n frames (atomOf start offset taken) offset c
    · rfl
  | quoted start taken =>
    simp only [step, State.shift, Mode.shift]
    split
    · rw [Nat.add_right_comm, atomOf_shift, deliver_shift]
    · rfl

theorem closeAll_shift (frames : List Frame) (frame : Frame) (offset : Nat) :
    closeAll (offset + n) (frame.shift n) (frames.map (Frame.shift n)) =
      (closeAll offset frame frames).shift n := by
  induction frames generalizing frame with
  | nil => exact Frame.close_shift n frame offset
  | cons outer frames ih =>
    rw [List.map_cons, closeAll, closeAll, ← ih, Frame.close_shift, Frame.push_shift]

/-- What the end of the text makes of a state goes along with the offset. -/
theorem finish_shift (strict : Bool) (state : State) (offset : Nat) :
    finish strict (state.shift n) (offset + n) =
      ((finish strict state offset).map (Form.shift n)).mapError (Unclosed.shift n) := by
  obtain ⟨frames, mode⟩ := state
  have hpending : pending (mode.shift n) (offset + n) =
      (pending mode offset).map (Form.shift n) := by
    cases mode <;> rfl
  simp only [finish, State.shift, hpending]
  cases frames with
  | nil => cases pending mode offset <;> rfl
  | cons frame frames =>
    cases strict with
    | true => cases pending mode offset <;> rfl
    | false =>
      cases pending mode offset with
      | none => exact congrArg Except.ok (closeAll_shift n frames frame offset)
      | some item => exact congrArg Except.ok (closeAll_shift n frames (frame.push item) offset)

/-- **A run of the machine goes along with the offset**, whether it ends with a
form or with a list that is left open. -/
theorem readFrom_shift (strict : Bool) (state : State) (offset : Nat) (cs : List Char) :
    readFrom strict (state.shift n) (offset + n) cs =
      ((readFrom strict state offset cs).map (Reading.shift n)).mapError (Unclosed.shift n) := by
  induction cs generalizing state offset with
  | nil =>
    rw [readFrom, readFrom, finish_shift]
    cases finish strict state offset <;> rfl
  | cons c cs ih =>
    rw [readFrom, readFrom, step_shift]
    cases step state offset c with
    | more state' =>
      simp only [Step.shift]
      rw [Nat.add_right_comm, ih]
    | done form taken =>
      cases taken with
      | false => rfl
      | true =>
        simp only [Step.shift]
        rw [Nat.add_right_comm]
        rfl

end Reader

/-! ## Forms at top level -/

namespace Cursor

variable (n : Nat)

/-- Going past blanks goes along with the offset. -/
theorem skipFrom_shift (offset : Nat) (cs : List Char) :
    skipFrom (offset + n) cs = (skipFrom offset cs).shift n := by
  induction cs generalizing offset with
  | nil => rfl
  | cons c cs ih =>
    rw [skipFrom, skipFrom]
    split
    · rw [Nat.add_right_comm, ih]
    · rfl

theorem skipBlanks_shift (cursor : Cursor) :
    (cursor.shift n).skipBlanks = cursor.skipBlanks.shift n :=
  skipFrom_shift n cursor.offset cursor.rest

/-- Reading one form goes along with the offset. -/
theorem readOne_shift (strict : Bool) (cursor : Cursor) :
    (cursor.shift n).readOne strict =
      ((cursor.readOne strict).map (Reading.shift n)).mapError (Unclosed.shift n) :=
  Reader.readFrom_shift n strict Reader.State.initial cursor.offset cursor.rest

theorem behind_shift (reading : Reading) :
    behind (reading.shift n) = (behind reading).shift n := by
  obtain ⟨form, offset, rest⟩ := reading
  cases form with
  | list items start stop => exact skipFrom_shift n offset rest
  | atom text start stop =>
    by_cases hstray : text = "" ∧ rest.head? = some ')'
    · obtain ⟨rfl, hhead⟩ := hstray
      cases rest with
      | nil => cases hhead
      | cons c cs =>
        cases hhead
        simp only [behind, Reading.shift, Form.shift, shift, Nat.add_right_comm]
    · have hskip (start stop offset : Nat) :
          behind ⟨.atom text start stop, ⟨offset, rest⟩⟩ = skipFrom offset rest := by
        unfold behind
        split
        · rename_i hform hrest
          rw [Form.atom.injEq] at hform
          exact absurd ⟨hform.1, congrArg List.head? hrest⟩ hstray
        · rfl
      rw [hskip, ← skipFrom_shift, ← hskip (start + n) (stop + n)]
      rfl

/-- A list that is left open ends the reading of all forms. -/
theorem readMore_of_readOne_error {strict : Bool} {cursor : Cursor} {unclosed : Unclosed}
    (hrest : cursor.rest ≠ []) (hone : cursor.readOne strict = .error unclosed) :
    readMore strict cursor = .error unclosed := by
  obtain ⟨offset, cs⟩ := cursor
  cases cs with
  | nil => exact absurd rfl hrest
  | cons c cs =>
    rw [readMore]
    split
    · rename_i found hfound
      rw [hfound] at hone
      cases hone
      rfl
    · simp_all

/-- Reading all forms goes along with the offset. -/
theorem readMore_shift (strict : Bool) (cursor : Cursor) :
    readMore strict (cursor.shift n) =
      ((readMore strict cursor).map (Form.shiftAll n)).mapError (Unclosed.shift n) := by
  induction cursor using readMore.induct strict with
  | case1 offset =>
    rw [shift, readMore, readMore]
    rfl
  | case2 offset c cs unclosed hone =>
    have hone' := readOne_shift n strict ⟨offset, c :: cs⟩
    rw [hone] at hone'
    rw [readMore_of_readOne_error (List.cons_ne_nil c cs) hone,
      readMore_of_readOne_error (List.cons_ne_nil c cs) hone']
    rfl
  | case3 offset c cs reading hone ih =>
    have hone' := readOne_shift n strict ⟨offset, c :: cs⟩
    rw [hone] at hone'
    rw [readMore_of_readOne (List.cons_ne_nil c cs) hone,
      readMore_of_readOne (List.cons_ne_nil c cs) hone', behind_shift, ih]
    cases readMore strict (behind reading) <;> rfl

/-- **Reading all forms from an offset that lies further on** gives the same
forms, and reports the same open list, as much further on. -/
theorem readAll_shift (strict : Bool) (cursor : Cursor) :
    (cursor.shift n).readAll strict =
      ((cursor.readAll strict).map (Form.shiftAll n)).mapError (Unclosed.shift n) := by
  rw [readAll, readAll, skipBlanks_shift, readMore_shift]

end Cursor

end SatScript
