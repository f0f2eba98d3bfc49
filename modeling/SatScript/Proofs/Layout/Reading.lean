import SatScript.Proofs.Layout.Basic
/-!
# SatScript — reading layouts

The reader takes one character at a time; this file says what it makes of
a whole layout. From any state in which a form may begin, a layout brings
the reader to the state that its form leaves behind (`readFrom_layout`),
and in the strict mode a list left open is reported (`readFrom_open`).
`readOne_layout` is the case of a form asked for at top level.
-/

namespace SatScript

namespace Reader

/-! ## Single characters and runs of them -/

/-- A form may begin: directly behind a parenthesis, where one is due, or
behind an item. -/
def Mode.IsFresh : Mode → Prop
  | .opening => True
  | .due => True
  | .between => True
  | .plain .. => False
  | .quoted .. => False

theorem Mode.isFresh_opening : Mode.opening.IsFresh := trivial

theorem Mode.isFresh_due : Mode.due.IsFresh := trivial

theorem Mode.isFresh_between : Mode.between.IsFresh := trivial

variable {strict : Bool} {frames : List Frame} {frame : Frame} {offset : Nat}

/-- What is left to read behind a form that is complete: it was asked for, or
it is an item of the innermost open list. -/
def resume (strict : Bool) (frames : List Frame) (form : Form) (offset : Nat)
    (rest : List Char) : Except Unclosed Reading :=
  match frames with
  | [] => .ok ⟨form, ⟨offset, rest⟩⟩
  | frame :: frames => readFrom strict ⟨frame.push form :: frames, .between⟩ offset rest

theorem readFrom_cons_of_more {state state' : State} {c : Char} {cs : List Char}
    (h : step state offset c = .more state') :
    readFrom strict state offset (c :: cs) =
      readFrom strict state' (offset + Text.width c) cs := by
  rw [readFrom, h]

/-- A form that is delivered is what is resumed from. -/
theorem readFrom_cons_of_deliver {state : State} {form : Form} {c : Char} {cs : List Char}
    (h : step state offset c = deliver frames form) :
    readFrom strict state offset (c :: cs) =
      resume strict frames form (offset + Text.width c) cs := by
  cases frames with
  | nil => rw [readFrom, h]; rfl
  | cons frame frames => rw [readFrom, h]; rfl

/-- Blanks are passed over where a form is due. -/
theorem readFrom_due_blanks {before cs : List Char} (h : Blanks before) :
    readFrom strict ⟨frames, .due⟩ offset (before ++ cs) =
      readFrom strict ⟨frames, .due⟩ (offset + Text.units before) cs := by
  induction before generalizing offset with
  | nil => rfl
  | cons c before ih =>
    obtain ⟨hc, hbefore⟩ := h.of_cons
    have hstep : step ⟨frames, .due⟩ offset c = .more ⟨frames, .due⟩ := by
      simp [step, hc]
    rw [List.cons_append, readFrom_cons_of_more hstep, ih hbefore, Text.units_cons,
      Nat.add_assoc]

/-- Blanks are passed over behind an item. -/
theorem readFrom_between_blanks {before cs : List Char} (h : Blanks before) :
    readFrom strict ⟨frames, .between⟩ offset (before ++ cs) =
      readFrom strict ⟨frames, .between⟩ (offset + Text.units before) cs := by
  induction before generalizing offset with
  | nil => rfl
  | cons c before ih =>
    obtain ⟨hc, hbefore⟩ := h.of_cons
    have hstep : step ⟨frames, .between⟩ offset c = .more ⟨frames, .between⟩ := by
      simp [step, stepBetween, hc]
    rw [List.cons_append, readFrom_cons_of_more hstep, ih hbefore, Text.units_cons,
      Nat.add_assoc]

/-- Blanks behind an opening parenthesis make a form due. -/
theorem readFrom_opening_blanks {before cs : List Char} (hne : before ≠ []) (h : Blanks before) :
    readFrom strict ⟨frames, .opening⟩ offset (before ++ cs) =
      readFrom strict ⟨frames, .due⟩ (offset + Text.units before) cs := by
  obtain ⟨c, before, rfl⟩ := List.exists_cons_of_ne_nil hne
  obtain ⟨hc, hbefore⟩ := h.of_cons
  have hstep : step ⟨frames, .opening⟩ offset c = .more ⟨frames, .due⟩ := by
    simp [step, hc]
  rw [List.cons_append, readFrom_cons_of_more hstep, readFrom_due_blanks hbefore,
    Text.units_cons, Nat.add_assoc]

/-- **Wherever a form may begin, it begins as where one is due**, behind the
blanks before it. -/
theorem readFrom_begin {mode : Mode} (hm : mode.IsFresh) {before cs : List Char} {c : Char}
    (h : Blanks before) (hc : Text.isBlank c = false) (hclose : c ≠ ')') :
    readFrom strict ⟨frames, mode⟩ offset (before ++ c :: cs) =
      readFrom strict ⟨frames, .due⟩ (offset + Text.units before) (c :: cs) := by
  cases mode with
  | due => exact readFrom_due_blanks h
  | between =>
    rw [readFrom_between_blanks h, readFrom, readFrom]
    simp [step, stepBetween, hc, hclose]
  | opening =>
    by_cases hne : before = []
    · subst hne
      rw [List.nil_append, Text.units_nil, Nat.add_zero, readFrom, readFrom]
      simp [step, hc, hclose]
    · exact readFrom_opening_blanks hne h
  | plain => exact hm.elim
  | quoted => exact hm.elim

/-- Characters that end no atom go into the atom. -/
theorem readFrom_plain_run {start : Nat} {taken cs rest : List Char}
    (h : ∀ c ∈ cs, endsAtom c = false) :
    readFrom strict ⟨frames, .plain start taken⟩ offset (cs ++ rest) =
      readFrom strict ⟨frames, .plain start (cs.reverse ++ taken)⟩ (offset + Text.units cs)
        rest := by
  induction cs generalizing offset taken with
  | nil => rfl
  | cons c cs ih =>
    have hstep : step ⟨frames, .plain start taken⟩ offset c =
        .more ⟨frames, .plain start (c :: taken)⟩ := by
      simp [step, h c List.mem_cons_self]
    rw [List.cons_append, readFrom_cons_of_more hstep,
      ih fun d hd => h d (List.mem_cons_of_mem _ hd)]
    simp [Nat.add_assoc]

/-- Characters that are no bar go into the quoted atom. -/
theorem readFrom_quoted_run {start : Nat} {taken cs rest : List Char} (h : '|' ∉ cs) :
    readFrom strict ⟨frames, .quoted start taken⟩ offset (cs ++ rest) =
      readFrom strict ⟨frames, .quoted start (cs.reverse ++ taken)⟩ (offset + Text.units cs)
        rest := by
  induction cs generalizing offset taken with
  | nil => rfl
  | cons c cs ih =>
    obtain ⟨hc, hcs⟩ : '|' ≠ c ∧ '|' ∉ cs := by simpa using h
    have hstep : step ⟨frames, .quoted start taken⟩ offset c =
        .more ⟨frames, .quoted start (c :: taken)⟩ := by
      simp [step, Ne.symm hc]
    rw [List.cons_append, readFrom_cons_of_more hstep, ih hcs]
    simp [Nat.add_assoc]

/-! ## Atoms -/

/-- The end of the text completes an atom as a delimiter does. -/
theorem readFrom_plain_end {start : Nat} {taken rest : List Char} (h : Delimited rest) :
    readFrom strict ⟨frames, .plain start taken⟩ offset rest =
      resume strict frames (atomOf start offset taken) offset rest := by
  cases rest with
  | nil => cases frames <;> rfl
  | cons c cs =>
    have hc : endsAtom c = true := delimited_cons.1 h
    cases frames with
    | nil =>
      have hstep : step ⟨[], .plain start taken⟩ offset c =
          .done (atomOf start offset taken) false := by
        simp [step, stepBehind, hc]
      rw [readFrom, hstep]
      rfl
    | cons frame frames =>
      rw [resume, readFrom, readFrom]
      simp only [step, stepBehind, hc, if_true]

/-- **An atom is read as it stands.** -/
theorem readFrom_atom {text rest : List Char} (h : AtomStands text rest) :
    readFrom strict ⟨frames, .due⟩ offset (text ++ rest) =
      resume strict frames (.atom (String.ofList text) offset (offset + Text.units text))
        (offset + Text.units text) rest := by
  have hbar : step ⟨frames, .due⟩ offset '|' = .more ⟨frames, .quoted offset ['|']⟩ := rfl
  cases h with
  | plain hp hd =>
    obtain ⟨c, cs, rfl⟩ := List.exists_cons_of_ne_nil hp.ne_nil
    obtain ⟨hblank, hopen, hclose⟩ := of_endsAtom_eq_false (hp.not_endsAtom c List.mem_cons_self)
    have hne : c ≠ '|' := fun e => hp.head_ne_bar (by rw [e]; rfl)
    have hstep : step ⟨frames, .due⟩ offset c = .more ⟨frames, .plain offset [c]⟩ := by
      simp [step, beginForm, hblank, hclose, hopen, hne]
    rw [List.cons_append, readFrom_cons_of_more hstep,
      readFrom_plain_run fun d hd => hp.not_endsAtom d (List.mem_cons_of_mem _ hd),
      readFrom_plain_end hd]
    simp [atomOf, Nat.add_assoc]
  | @quoted inner _ hi =>
    have hlast : ∀ o, step ⟨frames, .quoted offset (inner.reverse ++ ['|'])⟩ o '|' =
        deliver frames (atomOf offset (o + 1) ('|' :: (inner.reverse ++ ['|']))) := by
      intro o
      simp [step]
    rw [quoted, List.cons_append, readFrom_cons_of_more hbar, List.append_assoc,
      readFrom_quoted_run hi, List.singleton_append, readFrom_cons_of_deliver (hlast _)]
    have hw : Text.width '|' = 1 := rfl
    simp [atomOf, hw, Nat.add_assoc]
  | @cut inner hi =>
    rw [List.append_nil, readFrom_cons_of_more hbar, ← List.append_nil inner,
      readFrom_quoted_run hi]
    cases frames <;>
      simp [readFrom, resume, finish, pending, atomOf, Frame.push, Nat.add_assoc]

/-! ## Lists -/

/-- Closing lists at the end of the text resumes from the innermost. -/
theorem resume_close_nil {inner : Frame} :
    resume false frames (inner.close offset) offset [] =
      .ok ⟨closeAll offset inner frames, ⟨offset, []⟩⟩ := by
  cases frames <;> rfl

/-- The frame of a list with further items. -/
def Frame.pushAll (frame : Frame) (items : List Form) : Frame :=
  { frame with items := items.reverse ++ frame.items }

@[simp] theorem Frame.pushAll_nil : frame.pushAll [] = frame := rfl

@[simp] theorem Frame.pushAll_cons {item : Form} {items : List Form} :
    frame.pushAll (item :: items) = (frame.push item).pushAll items := by
  simp [pushAll, push]

/-- A list that was just opened is, with its items, the list of them. -/
theorem Frame.close_pushAll {start stop : Nat} {items : List Form} :
    (Frame.pushAll ⟨start, []⟩ items).close stop = .list items start stop := by
  simp [pushAll, close]

/-- Behind an item a list is closed, or the text ends and the list is left
open. -/
theorem readFrom_shut {rest : List Char} {closed : Bool} (hend : closed = false → rest = [])
    (hstrict : strict = true → closed = true) :
    readFrom strict ⟨frame :: frames, .between⟩ offset (Layout.closing closed ++ rest) =
      resume strict frames (frame.close (offset + Text.units (Layout.closing closed)))
        (offset + Text.units (Layout.closing closed)) rest := by
  cases closed with
  | true =>
    have hstep : step ⟨frame :: frames, .between⟩ offset ')' =
        deliver frames (frame.close (offset + 1)) := rfl
    rw [Layout.closing_true, List.singleton_append, readFrom_cons_of_deliver hstep]
    rfl
  | false =>
    have hs : strict = false := by
      cases strict with
      | false => rfl
      | true => exact (hstrict rfl).symm
    subst hs
    rw [hend rfl, Layout.closing_false, Text.units_nil, Nat.add_zero, resume_close_nil]
    rfl

/-- A list may close directly behind its parenthesis, without items. -/
theorem readFrom_opening_closing {rest : List Char} {closed : Bool}
    (hend : closed = false → rest = []) :
    readFrom strict ⟨frame :: frames, .opening⟩ offset (Layout.closing closed ++ rest) =
      readFrom strict ⟨frame :: frames, .between⟩ offset (Layout.closing closed ++ rest) := by
  cases closed with
  | true => rfl
  | false =>
    rw [hend rfl]
    rfl

/-- A list that closes where a form is due holds the empty atom. -/
theorem readFrom_due_closing {rest : List Char} {closed : Bool}
    (hend : closed = false → rest = []) :
    readFrom strict ⟨frame :: frames, .due⟩ offset (Layout.closing closed ++ rest) =
      readFrom strict ⟨frame.push (emptyAtom offset) :: frames, .between⟩ offset
        (Layout.closing closed ++ rest) := by
  cases closed with
  | true => rfl
  | false =>
    rw [hend rfl]
    rfl

/-! ## Layouts -/

mutual

/-- **A layout is read as its form**, from every state in which a form may
begin; in the strict mode it must leave nothing open. -/
theorem readFrom_layout (strict : Bool) :
    ∀ (layout : Layout) {frames : List Frame} {mode : Mode} {offset : Nat} {rest : List Char},
      mode.IsFresh → layout.Stands rest →
      (strict = true → layout.openAt? offset = none) →
      readFrom strict ⟨frames, mode⟩ offset (layout.chars ++ rest) =
        resume strict frames (layout.form offset) (offset + Text.units layout.chars) rest
  | .atom before text, frames, mode, offset, rest, hm, h, _ => by
    rw [Layout.Stands] at h
    obtain ⟨c, cs, htext, hc⟩ := h.2.exists_cons
    obtain ⟨hblank, -, hclose⟩ := of_endsAtom_eq_false hc
    rw [Layout.chars, List.append_assoc, htext, List.cons_append,
      readFrom_begin hm h.1 hblank hclose, ← List.cons_append, ← htext, readFrom_atom h.2]
    simp [Layout.form, Nat.add_assoc]
  | .list before items gap closed, frames, mode, offset, rest, hm, h, hstrict => by
    rw [Layout.Stands] at h
    obtain ⟨hbefore, hend, hfilled⟩ := h
    -- in the strict mode the list is closed
    have hclosed : strict = true → closed = true := by
      intro hs
      have hopen := hstrict hs
      rw [Layout.openAt?] at hopen
      cases closed with
      | true => rfl
      | false => simp at hopen
    have hparen : step ⟨frames, .due⟩ (offset + Text.units before) '(' =
        .more ⟨⟨offset + Text.units before, []⟩ :: frames, .opening⟩ := rfl
    have hw : Text.width '(' = 1 := rfl
    -- what stands between the parentheses is read, and then the list is shut
    have hfill : readFrom strict ⟨⟨offset + Text.units before, []⟩ :: frames, .opening⟩
        (offset + Text.units before + 1)
        (Layout.charsAll items ++ (gap ++ (Layout.closing closed ++ rest))) =
          resume strict frames ((Layout.list before items gap closed).form offset)
            (offset + Text.units (Layout.list before items gap closed).chars) rest := by
      rcases hfilled with ⟨rfl, rfl⟩ | ⟨blanks, hne, hblanks, rfl, rfl⟩ | ⟨hne, hgap, hitems⟩
      · -- nothing stands between the parentheses
        rw [Layout.charsAll, List.nil_append, List.nil_append,
          readFrom_opening_closing hend, readFrom_shut hend hclosed]
        simp [Layout.form, Layout.forms, Layout.chars, Layout.charsAll, Frame.close, hw,
          Nat.add_assoc]
      · -- the empty atom stands for the form that is due and does not come
        rw [Layout.charsAll, Layout.charsAll, Layout.chars, List.append_nil, List.append_nil,
          List.nil_append, readFrom_opening_blanks hne hblanks, readFrom_due_closing hend,
          readFrom_shut hend hclosed]
        simp [Layout.form, Layout.forms, Layout.chars, Layout.charsAll, Frame.close, Frame.push,
          emptyAtom, hw, Nat.add_assoc]
      · have hopen : strict = true →
            Layout.openAtIn? (offset + Text.units before + 1) items = none := by
          intro hs
          refine Layout.openAtIn?_eq_none hitems ?_
          rw [hclosed hs]
          simp
        rw [readFrom_layouts strict items (Or.inr hne) Mode.isFresh_opening hitems hopen,
          readFrom_between_blanks hgap, readFrom_shut hend hclosed, Frame.close_pushAll]
        simp [Layout.form, Layout.chars, hw, Nat.add_assoc]
    rw [Layout.chars, List.append_assoc, List.cons_append,
      readFrom_begin hm hbefore rfl (by decide), readFrom_cons_of_more hparen, hw,
      List.append_assoc, List.append_assoc]
    exact hfill

/-- Layouts one after another are read as items of the innermost open
list. -/
theorem readFrom_layouts (strict : Bool) :
    ∀ (items : List Layout) {frame : Frame} {frames : List Frame} {mode : Mode} {offset : Nat}
      {rest : List Char}, mode = .between ∨ items ≠ [] → mode.IsFresh →
      Layout.StandAll items rest →
      (strict = true → Layout.openAtIn? offset items = none) →
      readFrom strict ⟨frame :: frames, mode⟩ offset (Layout.charsAll items ++ rest) =
        readFrom strict ⟨frame.pushAll (Layout.forms offset items) :: frames, .between⟩
          (offset + Text.units (Layout.charsAll items)) rest
  | [], frame, frames, mode, offset, rest, hmode, _, _, _ => by
    rcases hmode with rfl | hne
    · rfl
    · exact absurd rfl hne
  | item :: items, frame, frames, mode, offset, rest, _, hm, h, hstrict => by
    rw [Layout.StandAll] at h
    rw [Layout.openAtIn?] at hstrict
    rw [Layout.charsAll, List.append_assoc,
      readFrom_layout strict item hm h.1 fun hs => (Option.or_eq_none_iff.1 (hstrict hs)).1,
      resume, readFrom_layouts strict items (Or.inl rfl) Mode.isFresh_between h.2
        fun hs => (Option.or_eq_none_iff.1 (hstrict hs)).2,
      Layout.forms, Frame.pushAll_cons, Text.units_append, Nat.add_assoc]

end

/-! ## Lists that are left open -/

/-- At the end of the text the strict mode reports the innermost open list. -/
theorem readFrom_end_strict (mode : Mode) :
    readFrom true ⟨frame :: frames, mode⟩ offset [] = .error ⟨frame.start, offset⟩ := by
  cases mode <;> rfl

mutual

/-- **In the strict mode a list that is left open is reported**, the
innermost of several, from its parenthesis to the end of the text. -/
theorem readFrom_open :
    ∀ (layout : Layout) {frames : List Frame} {mode : Mode} {offset p : Nat} {rest : List Char},
      mode.IsFresh → layout.Stands rest → layout.openAt? offset = some p →
      readFrom true ⟨frames, mode⟩ offset (layout.chars ++ rest) =
        .error ⟨p, offset + Text.units layout.chars⟩
  | .atom before text, frames, mode, offset, p, rest, _, _, ho => by cases ho
  | .list before items gap true, frames, mode, offset, p, rest, _, _, ho => by cases ho
  | .list before items gap false, frames, mode, offset, p, rest, hm, h, ho => by
    rw [Layout.Stands] at h
    obtain ⟨hbefore, hend, hfilled⟩ := h
    obtain rfl := hend rfl
    have hparen : step ⟨frames, .due⟩ (offset + Text.units before) '(' =
        .more ⟨⟨offset + Text.units before, []⟩ :: frames, .opening⟩ := rfl
    have hw : Text.width '(' = 1 := rfl
    rw [Layout.openAt?, if_neg Bool.false_ne_true] at ho
    rw [Layout.chars, List.append_nil, readFrom_begin hm hbefore rfl (by decide),
      readFrom_cons_of_more hparen, hw]
    rw [Layout.closing_false, List.append_nil] at hfilled ⊢
    rcases hfilled with ⟨rfl, rfl⟩ | ⟨blanks, hne, hblanks, rfl, rfl⟩ | ⟨hne, hgap, hitems⟩
    · cases ho
      rw [Layout.charsAll, List.nil_append, readFrom_end_strict]
      simp [hw, Nat.add_assoc]
    · cases ho
      rw [Layout.charsAll, Layout.charsAll, Layout.chars, List.append_nil, List.append_nil,
        List.append_nil, ← List.append_nil blanks, readFrom_opening_blanks hne hblanks,
        readFrom_end_strict]
      simp [hw, Nat.add_assoc]
    · rw [List.append_nil] at hitems
      have hfresh : Mode.opening.IsFresh := trivial
      cases hin : Layout.openAtIn? (offset + Text.units before + 1) items with
      | some q =>
        rw [hin, Option.some_or] at ho
        cases ho
        -- the text ends in the item, so no blanks follow it
        have hnil : gap = [] := by
          refine Classical.byContradiction fun hgapne => ?_
          rw [Layout.openAtIn?_eq_none hitems hgapne] at hin
          cases hin
        rw [readFrom_open_in items hfresh hitems hin, hnil]
        simp [hw, Nat.add_assoc]
      | none =>
        rw [hin, Option.none_or] at ho
        cases ho
        rw [readFrom_layouts true items (Or.inr hne) hfresh hitems fun _ => hin,
          ← List.append_nil gap, readFrom_between_blanks hgap,
          readFrom_end_strict]
        simp [Frame.pushAll, hw, Nat.add_assoc]

/-- Among layouts one after another, a list that is left open is reported. -/
theorem readFrom_open_in :
    ∀ (items : List Layout) {frame : Frame} {frames : List Frame} {mode : Mode}
      {offset p : Nat} {rest : List Char}, mode.IsFresh → Layout.StandAll items rest →
      Layout.openAtIn? offset items = some p →
      readFrom true ⟨frame :: frames, mode⟩ offset (Layout.charsAll items ++ rest) =
        .error ⟨p, offset + Text.units (Layout.charsAll items)⟩
  | [], frame, frames, mode, offset, p, rest, _, _, ho => by cases ho
  | item :: items, frame, frames, mode, offset, p, rest, hm, h, ho => by
    rw [Layout.StandAll] at h
    rw [Layout.openAtIn?] at ho
    rw [Layout.charsAll, List.append_assoc]
    cases hitem : item.openAt? offset with
    | some q =>
      rw [hitem, Option.some_or] at ho
      cases ho
      -- an item that leaves a list open is the last
      obtain ⟨hnil, -⟩ := List.append_eq_nil_iff.1 (h.1.rest_eq_nil hitem)
      rw [readFrom_open item hm h.1 hitem, hnil, List.append_nil]
    | none =>
      rw [hitem, Option.none_or] at ho
      rw [readFrom_layout true item hm h.1 fun _ => hitem, resume,
        readFrom_open_in items Mode.isFresh_between h.2 ho, Text.units_append, Nat.add_assoc]

end

end Reader

/-! ## Forms at top level -/

namespace Cursor

/-- Blanks at top level are passed over. -/
theorem skipFrom_blanks {before cs : List Char} {offset : Nat} (h : Blanks before) :
    skipFrom offset (before ++ cs) = skipFrom (offset + Text.units before) cs := by
  induction before generalizing offset with
  | nil => rfl
  | cons c before ih =>
    obtain ⟨hc, hbefore⟩ := h.of_cons
    rw [List.cons_append, skipFrom, if_pos hc, ih hbefore, Text.units_cons,
      width_of_isBlank hc, Nat.add_assoc]

/-- **Reading one form passes over the blanks before it**, so nothing changes
if they are passed over first. -/
theorem readOne_skipBlanks (strict : Bool) (cursor : Cursor) :
    cursor.skipBlanks.readOne strict = cursor.readOne strict := by
  obtain ⟨offset, cs⟩ := cursor
  induction cs generalizing offset with
  | nil => rfl
  | cons c cs ih =>
    cases hc : Text.isBlank c with
    | false => simp [skipBlanks, skipFrom, hc]
    | true =>
      have hstep : Reader.step Reader.State.initial offset c = .more Reader.State.initial := by
        simp [Reader.step, Reader.State.initial, hc]
      have hskip : skipBlanks ⟨offset, c :: cs⟩ = skipBlanks ⟨offset + 1, cs⟩ := by
        simp [skipBlanks, skipFrom, hc]
      rw [hskip, ih, readOne, readOne, Reader.readFrom_cons_of_more hstep, width_of_isBlank hc]

/-- **A layout at top level is read as its form**, and what follows it is left
to read. -/
theorem readOne_layout {strict : Bool} {layout : Layout} {offset : Nat} {rest : List Char}
    (h : layout.Stands rest) (hopen : strict = true → layout.openAt? offset = none) :
    readOne strict ⟨offset, layout.chars ++ rest⟩ =
      .ok ⟨layout.form offset, ⟨offset + Text.units layout.chars, rest⟩⟩ :=
  Reader.readFrom_layout strict layout Reader.Mode.isFresh_due h hopen

/-- In the strict mode a layout that leaves a list open is reported. -/
theorem readOne_open {layout : Layout} {offset p : Nat} {rest : List Char}
    (h : layout.Stands rest) (hopen : layout.openAt? offset = some p) :
    readOne true ⟨offset, layout.chars ++ rest⟩ =
      .error ⟨p, offset + Text.units layout.chars⟩ :=
  Reader.readFrom_open layout Reader.Mode.isFresh_due h hopen

end Cursor

end SatScript
