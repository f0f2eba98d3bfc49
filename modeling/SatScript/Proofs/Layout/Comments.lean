import SatScript.Proofs.Layout.Pieces
import SatScript.Proofs.Text.Comment
/-!
# SatScript — reading around comments

There are two ways to take the comments out of a text, and the reader sees
different texts: a deleted comment leaves nothing, not even its line feed,
and a blanked one leaves blanks. Where a comment stands directly behind a
blank or a parenthesis the forms come out written alike all the same
(`render_withoutComments`).

The reader runs on both texts in step. Its states are *alike*
(`Reader.State.Alike`) if the open lists hold forms that are written alike
and both are in the middle of the same; only directly behind a parenthesis,
where the comment left nothing, a form is due already where it left blanks.
What the list comes to is written alike even so: it is empty, or it holds
the empty atom.
-/

namespace SatScript

namespace Text

/-! ## Where comments and parentheses stand -/

/-- Every comment begins the text or stands directly behind a blank or a
parenthesis. `inside` says whether the text begins in a comment, and `apart`
whether one may begin there. -/
def commentsApart (inside apart : Bool) : List Char → Bool
  | [] => true
  | c :: cs =>
    if inside then commentsApart (c != '\n') true cs
    else if c = ';' then apart && commentsApart true true cs
    else commentsApart false (Reader.endsAtom c) cs

/-- Outside of comments every closing parenthesis closes a list. `inside` says
whether the text begins in a comment, and `depth` how many lists are open
there. -/
def closesOpen (inside : Bool) (depth : Nat) : List Char → Bool
  | [] => true
  | c :: cs =>
    if inside then closesOpen (c != '\n') depth cs
    else if c = ';' then closesOpen true depth cs
    else if c = '(' then closesOpen false (depth + 1) cs
    else if c = ')' then depth != 0 && closesOpen false (depth - 1) cs
    else closesOpen false depth cs

/-- How many lists are open behind a character. -/
def depthAfter (depth : Nat) (c : Char) : Nat :=
  if c = '(' then depth + 1 else if c = ')' then depth - 1 else depth

/-- A text without bars whose comments stand apart and whose parentheses close
lists. -/
structure PlainlyCommented (inside apart : Bool) (depth : Nat) (cs : List Char) : Prop where
  no_bar : '|' ∉ cs
  apart : commentsApart inside apart cs = true
  closes : closesOpen inside depth cs = true

namespace PlainlyCommented

variable {inside apart : Bool} {depth : Nat} {c : Char} {cs : List Char}

/-- Behind a character of a comment. A comment that begins there may. -/
theorem of_comment (h : PlainlyCommented inside apart depth (c :: cs))
    (hcomment : inside = true ∨ c = ';') :
    (inside = true ∨ apart = true) ∧ PlainlyCommented (c != '\n') true depth cs := by
  obtain ⟨hbar, hapart, hcloses⟩ := h
  have hbars : '|' ∉ cs := fun hmem => hbar (List.mem_cons_of_mem _ hmem)
  cases inside with
  | true =>
    rw [commentsApart, if_pos rfl] at hapart
    rw [closesOpen, if_pos rfl] at hcloses
    exact ⟨.inl rfl, hbars, hapart, hcloses⟩
  | false =>
    obtain rfl : c = ';' := hcomment.resolve_left Bool.false_ne_true
    rw [commentsApart, if_neg Bool.false_ne_true, if_pos rfl, Bool.and_eq_true] at hapart
    rw [closesOpen, if_neg Bool.false_ne_true, if_pos rfl] at hcloses
    exact ⟨.inr hapart.1, hbars, hapart.2, hcloses⟩

/-- Behind any other character. -/
theorem of_cons (h : PlainlyCommented false apart depth (c :: cs)) (hc : c ≠ ';') :
    c ≠ '|' ∧ (c = ')' → depth ≠ 0) ∧
      PlainlyCommented false (Reader.endsAtom c) (depthAfter depth c) cs := by
  obtain ⟨hbar, hapart, hcloses⟩ := h
  rw [commentsApart, if_neg Bool.false_ne_true, if_neg hc] at hapart
  rw [closesOpen, if_neg Bool.false_ne_true, if_neg hc] at hcloses
  refine ⟨fun heq => hbar (heq ▸ List.mem_cons_self), ?_,
    fun hmem => hbar (List.mem_cons_of_mem _ hmem), hapart, ?_⟩
  · rintro rfl
    simpa using (Bool.and_eq_true_iff.1 hcloses).1
  · rw [depthAfter]
    split at hcloses
    · rwa [if_pos ‹_›]
    · rw [if_neg ‹_›]
      split at hcloses
      · rw [if_pos ‹_›]
        exact (Bool.and_eq_true_iff.1 hcloses).2
      · rwa [if_neg ‹_›]

/-- A comment may begin the text. -/
theorem mono (h : PlainlyCommented inside apart depth cs) :
    PlainlyCommented inside true depth cs := by
  obtain ⟨hbar, hapart, hcloses⟩ := h
  refine ⟨hbar, ?_, hcloses⟩
  cases cs with
  | nil => rfl
  | cons c cs =>
    rw [commentsApart] at hapart ⊢
    split
    · rwa [if_pos ‹_›] at hapart
    · rw [if_neg ‹_›] at hapart
      split
      · rw [if_pos ‹_›, Bool.and_eq_true] at hapart
        exact hapart.2
      · rwa [if_neg ‹_›] at hapart

end PlainlyCommented

theorem withoutFrom_cons_comment {inside : Bool} {c : Char} {cs : List Char}
    (h : inside = true ∨ c = ';') : withoutFrom inside (c :: cs) = withoutFrom (c != '\n') cs := by
  cases inside with
  | true => rw [withoutFrom, if_pos rfl]
  | false =>
    obtain rfl : c = ';' := h.resolve_left Bool.false_ne_true
    rw [withoutFrom, if_neg Bool.false_ne_true, if_pos rfl]
    rfl

theorem withoutFrom_cons {c : Char} (h : c ≠ ';') (cs : List Char) :
    withoutFrom false (c :: cs) = c :: withoutFrom false cs := by
  rw [withoutFrom, if_neg Bool.false_ne_true, if_neg h]

/-- A text with a comment blanked begins with blanks, where it begins in one. -/
theorem exists_blankedFrom_cons {inside : Bool} {c : Char} (h : inside = true ∨ c = ';')
    (cs : List Char) :
    ∃ blanks, Blanks blanks ∧
      blankedFrom inside (c :: cs) = blanks ++ blankedFrom (c != '\n') cs := by
  by_cases hline : c = '\n'
  · subst hline
    exact ⟨['\n'], by decide, by simp [blankedFrom]⟩
  · refine ⟨List.replicate (width c) ' ', fun d hd => ?_, ?_⟩
    · rw [List.eq_of_mem_replicate hd]
      rfl
    · have hcomment : (c != '\n' && (inside || c == ';')) = true := by
        rcases h with rfl | rfl <;> simp [hline]
      have hstays : (c != '\n') = true := bne_iff_ne.2 hline
      rw [blankedFrom, if_pos hcomment, hstays]

theorem blankedFrom_cons_of_ne {c : Char} (h : c ≠ ';') (cs : List Char) :
    blankedFrom false (c :: cs) = c :: blankedFrom false cs := by
  simp [blankedFrom, h]

end Text

namespace Form

/-! ## Lists that are written alike -/

theorem charsOfItems_eq_of_map : ∀ {items others : List Form},
    items.map chars = others.map chars →
      charsOfItems items = charsOfItems others ∧ charsOfMore items = charsOfMore others
  | [], [], _ => ⟨rfl, rfl⟩
  | [], _ :: _, h => nomatch h
  | _ :: _, [], h => nomatch h
  | item :: items, other :: others, h => by
    rw [List.map_cons, List.map_cons, List.cons.injEq] at h
    simp only [charsOfItems, charsOfMore, h.1, (charsOfItems_eq_of_map h.2).2, and_self]

/-- Lists are written alike if their items are. -/
theorem chars_list_eq {items others : List Form} (h : items.map chars = others.map chars)
    (start stop start' stop' : Nat) :
    (Form.list items start stop).chars = (Form.list others start' stop').chars := by
  rw [chars, chars, (charsOfItems_eq_of_map h).1]

end Form

namespace Reader

/-! ## States that are alike -/

/-- How the items of an open list are written. -/
def Frame.written (frame : Frame) : List (List Char) := frame.items.map Form.chars

/-- The reader is in the middle of the same, or a form is due already on the
other side. -/
inductive Mode.Alike : Mode → Mode → Prop
  | opening : Alike .opening .opening
  | blanked : Alike .opening .due
  | due : Alike .due .due
  | between : Alike .between .between
  | plain (start start' : Nat) (taken : List Char) : Alike (.plain start taken) (.plain start' taken)

/-- The states are alike: the open lists hold forms that are written alike, and
the reader is in the middle of the same. A list that was just opened holds
nothing. -/
structure State.Alike (state state' : State) : Prop where
  frames : state.frames.map Frame.written = state'.frames.map Frame.written
  mode : state.mode.Alike state'.mode
  opened : state.mode = .opening → ∃ start frames, state.frames = ⟨start, []⟩ :: frames

/-- A character does alike: the reader goes on, or a form is complete, which
takes the closing parenthesis or leaves the character that ended an atom.
Where the reader goes on, as many lists are open as should be. -/
inductive Step.Alike (depth : Nat) (c : Char) : Step → Step → Prop
  | more {state state' : State} : state.Alike state' →
    (endsAtom c = true → state.mode.IsFresh) → state.frames.length = Text.depthAfter depth c →
      Alike depth c (.more state) (.more state')
  | taken {form form' : Form} : form.chars = form'.chars → Text.depthAfter depth c = 0 →
      Alike depth c (.done form true) (.done form' true)
  | left {form form' : Form} : form.chars = form'.chars → depth = 0 →
      Alike depth c (.done form false) (.done form' false)

variable {frames frames' : List Frame} {frame frame' : Frame} {form form' : Form}
  {state state' : State} {offset offset' : Nat} {c : Char}

theorem Frame.written_push (frame : Frame) (form : Form) :
    (frame.push form).written = form.chars :: frame.written := rfl

/-- Open lists whose items are written alike are closed to lists that are. -/
theorem Frame.chars_close (h : frame.written = frame'.written) (stop stop' : Nat) :
    (frame.close stop).chars = (frame'.close stop').chars := by
  refine Form.chars_list_eq ?_ _ _ _ _
  rw [List.map_reverse, List.map_reverse]
  exact congrArg List.reverse h

/-- A list is written alike whether it is empty or holds the empty atom. -/
theorem Frame.chars_close_emptyAtom (h : ([] : List (List Char)) = frame'.written)
    (start place stop stop' : Nat) :
    (Frame.close ⟨start, []⟩ stop).chars = ((frame'.push (emptyAtom place)).close stop').chars := by
  obtain ⟨start', items⟩ := frame'
  obtain rfl : items = [] := List.map_eq_nil_iff.1 h.symm
  rfl

/-- Forms that are written alike are delivered alike. -/
theorem deliver_alike {depth : Nat} (hframes : frames.map Frame.written = frames'.map Frame.written)
    (hform : form.chars = form'.chars) (hdepth : frames.length = Text.depthAfter depth c) :
    Step.Alike depth c (deliver frames form) (deliver frames' form') := by
  match frames, frames', hframes with
  | [], [], _ => exact .taken hform hdepth.symm
  | frame :: frames, frame' :: frames', hframes =>
    rw [List.map_cons, List.map_cons, List.cons.injEq] at hframes
    refine .more ⟨?_, .between, by rintro ⟨⟩⟩ (fun _ => trivial) hdepth
    rw [List.map_cons, List.map_cons, Frame.written_push, Frame.written_push, hform, hframes.1,
      hframes.2]

/-- Open lists whose items are written alike are closed alike. -/
theorem closeList_alike {depth : Nat} (hframes : frames.map Frame.written = frames'.map Frame.written)
    (hne : frames ≠ []) (hdepth : frames.length = Text.depthAfter depth c + 1) :
    Step.Alike depth c (closeList frames offset) (closeList frames' offset') := by
  match frames, frames', hframes with
  | [], [], _ => exact absurd rfl hne
  | frame :: frames, frame' :: frames', hframes =>
    rw [List.map_cons, List.map_cons, List.cons.injEq] at hframes
    exact deliver_alike hframes.2 (Frame.chars_close hframes.1 _ _) (Nat.succ.inj hdepth)

/-- A form begins alike. -/
theorem beginForm_alike (hframes : frames.map Frame.written = frames'.map Frame.written)
    (hblank : Text.isBlank c = false) (hclose : c ≠ ')') (hbar : c ≠ '|') (offset offset' : Nat) :
    Step.Alike frames.length c (beginForm frames offset c) (beginForm frames' offset' c) := by
  unfold beginForm
  by_cases hopen : c = '('
  · rw [if_pos hopen, if_pos hopen]
    refine .more ⟨?_, .opening, fun _ => ⟨offset, frames, rfl⟩⟩ (fun _ => trivial) ?_
    · rw [List.map_cons, List.map_cons, hframes]
      rfl
    · rw [Text.depthAfter, if_pos hopen, List.length_cons]
  · rw [if_neg hopen, if_neg hopen, if_neg hbar, if_neg hbar]
    refine .more ⟨hframes, .plain _ _ _, by rintro ⟨⟩⟩ (fun hends => ?_) ?_
    · simp [endsAtom, hblank, hopen, hclose] at hends
    · rw [Text.depthAfter, if_neg hopen, if_neg hclose]

/-- Blanks change nothing in how many lists are open. -/
theorem depthAfter_of_isBlank (depth : Nat) (hc : Text.isBlank c = true) :
    Text.depthAfter depth c = depth := by
  have hopen : c ≠ '(' := by rintro rfl; exact absurd hc (by decide)
  have hclose : c ≠ ')' := by rintro rfl; exact absurd hc (by decide)
  rw [Text.depthAfter, if_neg hopen, if_neg hclose]

theorem depthAfter_close {frames : List Frame} (hne : frames ≠ []) :
    frames.length = Text.depthAfter frames.length ')' + 1 := by
  have hpos := List.length_pos_iff.2 hne
  have hparen : ')' ≠ '(' := by decide
  rw [Text.depthAfter, if_neg hparen, if_pos rfl]
  omega

/-- Behind a blank in a list that was just opened, a form is due on both sides. -/
theorem due_alike (hframes : frames.map Frame.written = frames'.map Frame.written)
    (hblank : Text.isBlank c = true) :
    Step.Alike frames.length c (.more ⟨frames, .due⟩) (.more ⟨frames', .due⟩) :=
  .more ⟨hframes, .due, by rintro ⟨⟩⟩ (fun _ => trivial) (depthAfter_of_isBlank _ hblank).symm

/-- Behind an item, a character does alike. -/
theorem stepBetween_alike (hframes : frames.map Frame.written = frames'.map Frame.written)
    (hbar : c ≠ '|') (hstray : c = ')' → frames ≠ []) :
    Step.Alike frames.length c (stepBetween frames offset c) (stepBetween frames' offset' c) := by
  unfold stepBetween
  split
  · rename_i hblank
    exact .more ⟨hframes, .between, by rintro ⟨⟩⟩ (fun _ => trivial)
      (depthAfter_of_isBlank _ hblank).symm
  · rename_i hblank
    split
    · rename_i hclose
      subst hclose
      exact closeList_alike hframes (hstray rfl) (depthAfter_close (hstray rfl))
    · rename_i hclose
      exact beginForm_alike hframes (by simpa using hblank) hclose hbar _ _

/-- A character that ends an atom does alike. -/
theorem stepBehind_alike (hframes : frames.map Frame.written = frames'.map Frame.written)
    (hform : form.chars = form'.chars) (hbar : c ≠ '|') :
    Step.Alike frames.length c (stepBehind frames form offset c)
      (stepBehind frames' form' offset' c) := by
  match frames, frames', hframes with
  | [], [], _ => exact .left hform rfl
  | frame :: frames, frame' :: frames', hframes =>
    have hpushed : (frame.push form :: frames).map Frame.written =
        (frame'.push form' :: frames').map Frame.written := by
      rw [List.map_cons, List.map_cons, List.cons.injEq] at hframes
      rw [List.map_cons, List.map_cons, Frame.written_push, Frame.written_push, hform, hframes.1,
        hframes.2]
    exact stepBetween_alike hpushed hbar fun _ => List.cons_ne_nil _ _

/-- **A character does alike in states that are alike.** -/
theorem step_alike (h : state.Alike state') (hbar : c ≠ '|')
    (hstray : c = ')' → state.frames ≠ []) (offset offset' : Nat) :
    Step.Alike state.frames.length c (step state offset c) (step state' offset' c) := by
  obtain ⟨frames, mode⟩ := state
  obtain ⟨frames', mode'⟩ := state'
  obtain ⟨hframes, hmode, hopened⟩ := h
  simp only at hframes hmode hopened hstray ⊢
  cases hmode with
  | between => exact stepBetween_alike hframes hbar hstray
  | opening =>
    simp only [step]
    split
    · rename_i hblank
      exact due_alike hframes hblank
    · rename_i hblank
      split
      · rename_i hclose
        subst hclose
        exact closeList_alike hframes (hstray rfl) (depthAfter_close (hstray rfl))
      · rename_i hclose
        exact beginForm_alike hframes (by simpa using hblank) hclose hbar _ _
  | due =>
    simp only [step]
    split
    · rename_i hblank
      exact due_alike hframes hblank
    · rename_i hblank
      split
      · exact stepBehind_alike hframes rfl hbar
      · rename_i hclose
        exact beginForm_alike hframes (by simpa using hblank) hclose hbar _ _
  | blanked =>
    simp only [step]
    split
    · rename_i hblank
      exact due_alike hframes hblank
    · rename_i hblank
      split
      · rename_i hclose
        subst hclose
        -- one list is closed empty, the other with the empty atom in it
        obtain ⟨start, rest, rfl⟩ := hopened rfl
        obtain ⟨frame', rest', rfl⟩ := List.exists_cons_of_ne_nil (l := frames') (by
          rintro rfl
          cases hframes)
        rw [List.map_cons, List.map_cons, List.cons.injEq] at hframes
        exact deliver_alike hframes.2 (Frame.chars_close_emptyAtom hframes.1 _ _ _ _) rfl
      · rename_i hclose
        exact beginForm_alike hframes (by simpa using hblank) hclose hbar _ _
  | plain start start' taken =>
    simp only [step]
    split
    · exact stepBehind_alike hframes rfl hbar
    · rename_i hends
      obtain ⟨-, hopen, hclose⟩ := of_endsAtom_eq_false (by simpa using hends)
      refine .more ⟨hframes, .plain _ _ _, by rintro ⟨⟩⟩ (fun h => absurd h hends) ?_
      rw [Text.depthAfter, if_neg hopen, if_neg hclose]

/-! ## Comments -/

/-- Where a form may begin, one side may be behind a blank already. -/
theorem exists_step_blank (h : state.Alike state') (hfresh : state.mode.IsFresh)
    (hc : Text.isBlank c = true) (offset : Nat) :
    ∃ state'', step state' offset c = .more state'' ∧ state.Alike state'' := by
  obtain ⟨frames, mode⟩ := state
  obtain ⟨frames', mode'⟩ := state'
  obtain ⟨hframes, hmode, hopened⟩ := h
  simp only at hframes hmode hopened hfresh
  cases hmode with
  | opening => exact ⟨⟨frames', .due⟩, by simp [step, hc], hframes, .blanked, hopened⟩
  | blanked => exact ⟨⟨frames', .due⟩, by simp [step, hc], hframes, .blanked, hopened⟩
  | due => exact ⟨⟨frames', .due⟩, by simp [step, hc], hframes, .due, hopened⟩
  | between =>
    exact ⟨⟨frames', .between⟩, by simp [step, stepBetween, hc], hframes, .between, hopened⟩
  | plain => exact hfresh.elim

/-- The reader may pass over blanks on one side. -/
theorem exists_readFrom_blanks (strict : Bool) {blanks : List Char} (h : state.Alike state')
    (hfresh : state.mode.IsFresh) (hblanks : Blanks blanks) (offset : Nat) (rest : List Char) :
    ∃ state'', readFrom strict state' offset (blanks ++ rest) =
      readFrom strict state'' (offset + Text.units blanks) rest ∧ state.Alike state'' := by
  induction blanks generalizing state' offset with
  | nil => exact ⟨state', rfl, h⟩
  | cons c blanks ih =>
    obtain ⟨hc, hblanks⟩ := hblanks.of_cons
    obtain ⟨next, hstep, hnext⟩ := exists_step_blank h hfresh hc offset
    obtain ⟨state'', hread, hlast⟩ := ih hnext hblanks (offset + Text.width c)
    refine ⟨state'', ?_, hlast⟩
    rw [List.cons_append, readFrom_cons_of_more hstep, hread, Text.units_cons, Nat.add_assoc]

/-- Closing all open lists comes to forms that are written alike. -/
theorem chars_closeAll (hframes : frames.map Frame.written = frames'.map Frame.written)
    (h : (frame.close offset).chars = (frame'.close offset').chars) :
    (closeAll offset frame frames).chars = (closeAll offset' frame' frames').chars := by
  induction frames generalizing frames' frame frame' with
  | nil =>
    obtain rfl := List.map_eq_nil_iff.1 hframes.symm
    exact h
  | cons outer frames ih =>
    obtain ⟨outer', frames', rfl⟩ := List.exists_cons_of_ne_nil (l := frames') (by
      rintro rfl
      cases hframes)
    rw [List.map_cons, List.map_cons, List.cons.injEq] at hframes
    rw [closeAll, closeAll]
    refine ih hframes.2 (Frame.chars_close ?_ _ _)
    rw [Frame.written_push, Frame.written_push, h, hframes.1]

/-- **The end of the text comes to forms that are written alike.** -/
theorem finish_alike (h : state.Alike state') (offset offset' : Nat) :
    ∃ form form', finish false state offset = .ok form ∧ finish false state' offset' = .ok form' ∧
      form.chars = form'.chars := by
  obtain ⟨frames, mode⟩ := state
  obtain ⟨frames', mode'⟩ := state'
  obtain ⟨hframes, hmode, hopened⟩ := h
  simp only at hframes hmode hopened
  match frames, frames', hframes with
  | [], [], _ => cases hmode <;> exact ⟨_, _, rfl, rfl, rfl⟩
  | frame :: frames, frame' :: frames', hframes =>
    rw [List.map_cons, List.map_cons, List.cons.injEq] at hframes
    obtain ⟨hframe, hframes⟩ := hframes
    -- an atom that the end of the text completes goes into both lists
    have hpush (form form' : Form) (hform : form.chars = form'.chars) :
        (closeAll offset (frame.push form) frames).chars =
          (closeAll offset' (frame'.push form') frames').chars := by
      refine chars_closeAll hframes (Frame.chars_close ?_ _ _)
      rw [Frame.written_push, Frame.written_push, hform, hframe]
    have hkeep := chars_closeAll hframes (Frame.chars_close hframe offset offset')
    cases hmode with
    | opening => exact ⟨_, _, rfl, rfl, hkeep⟩
    | between => exact ⟨_, _, rfl, rfl, hkeep⟩
    | due => exact ⟨_, _, rfl, rfl, hpush _ _ rfl⟩
    | plain start start' taken => exact ⟨_, _, rfl, rfl, hpush _ _ rfl⟩
    | blanked =>
      obtain ⟨start, rest, heq⟩ := hopened rfl
      obtain ⟨rfl, rfl⟩ := List.cons.inj heq
      exact ⟨_, _, rfl, rfl, chars_closeAll hframes (Frame.chars_close_emptyAtom hframe _ _ _ _)⟩

/-! ## Running on both texts -/

/-- What is read from both texts: forms that are written alike, and behind them
the same part of the text, with its comments deleted and blanked. -/
structure ReadAlike (cs behind : List Char) (reading reading' : Reading) : Prop where
  chars : reading.form.chars = reading'.form.chars
  le : behind.length ≤ cs.length
  deleted : reading.next.rest = Text.withoutComments behind
  blanked : reading'.next.rest = Text.blankedComments behind
  plainly : Text.PlainlyCommented false true 0 behind

/-- **A form is read alike whether the comments around it are deleted or
blanked**, from states that are alike. -/
theorem readFrom_comments : ∀ (cs : List Char) {inside apart : Bool} {state state' : State}
    (offset offset' : Nat), state.Alike state' →
    Text.PlainlyCommented inside apart state.frames.length cs →
    (inside = true ∨ apart = true → state.mode.IsFresh) →
    ∃ reading reading' behind,
      readFrom false state offset (Text.withoutFrom inside cs) = .ok reading ∧
      readFrom false state' offset' (Text.blankedFrom inside cs) = .ok reading' ∧
      ReadAlike cs behind reading reading'
  | [], inside, apart, state, state', offset, offset', h, hplain, _ => by
    obtain ⟨form, form', hform, hform', hchars⟩ := finish_alike h offset offset'
    refine ⟨⟨form, ⟨offset, []⟩⟩, ⟨form', ⟨offset', []⟩⟩, [], ?_, ?_, hchars, Nat.le_refl _, rfl, rfl,
      ?_⟩
    · rw [Text.withoutFrom, readFrom, hform]
    · rw [Text.blankedFrom, readFrom, hform']
    · exact ⟨List.not_mem_nil, rfl, rfl⟩
  | c :: cs, inside, apart, state, state', offset, offset', h, hplain, hfresh => by
    by_cases hcomment : inside = true ∨ c = ';'
    · -- a comment is deleted on one side and leaves blanks on the other
      obtain ⟨hbegin, hplain'⟩ := hplain.of_comment hcomment
      obtain ⟨blanks, hblanks, hblanked⟩ := Text.exists_blankedFrom_cons hcomment cs
      obtain ⟨state'', hread, h''⟩ := exists_readFrom_blanks false h (hfresh hbegin)
        hblanks offset' (Text.blankedFrom (c != '\n') cs)
      obtain ⟨reading, reading', behind, hone, hone', halike⟩ :=
        readFrom_comments cs _ _ h'' hplain' fun _ => hfresh hbegin
      refine ⟨reading, reading', behind, ?_, ?_,
        { halike with le := Nat.le_succ_of_le halike.le }⟩
      · rwa [Text.withoutFrom_cons_comment hcomment]
      · rwa [hblanked, hread]
    · obtain ⟨hinside, hc⟩ := not_or.1 hcomment
      obtain rfl : inside = false := by simpa using hinside
      obtain ⟨hbar, hstray, hplain'⟩ := hplain.of_cons hc
      have hstep := step_alike h hbar
        (fun hclose hnil => hstray hclose (List.length_eq_zero_iff.2 hnil)) offset offset'
      rw [Text.withoutFrom_cons hc, Text.blankedFrom_cons_of_ne hc]
      generalize hs : step state offset c = next at hstep
      generalize hs' : step state' offset' c = next' at hstep
      cases hstep with
      | more halike hends hlength =>
        rw [← hlength] at hplain'
        obtain ⟨reading, reading', behind, hone, hone', halike⟩ :=
          readFrom_comments cs _ _ halike hplain' fun h => hends (h.resolve_left Bool.false_ne_true)
        refine ⟨reading, reading', behind, ?_, ?_,
          { halike with le := Nat.le_succ_of_le halike.le }⟩
        · rwa [readFrom_cons_of_more hs]
        · rwa [readFrom_cons_of_more hs']
      | @taken form form' hchars hdepth =>
        rw [hdepth] at hplain'
        refine ⟨⟨form, ⟨offset + Text.width c, _⟩⟩, ⟨form', ⟨offset' + Text.width c, _⟩⟩, cs, ?_, ?_,
          hchars, Nat.le_succ _, rfl, rfl, hplain'.mono⟩
        · rw [readFrom, hs]
        · rw [readFrom, hs']
      | @left form form' hchars hdepth =>
        rw [hdepth] at hplain
        refine ⟨⟨form, ⟨offset, c :: Text.withoutFrom false cs⟩⟩,
          ⟨form', ⟨offset', c :: Text.blankedFrom false cs⟩⟩, c :: cs, ?_, ?_, hchars,
          Nat.le_refl _, ?_, ?_, hplain.mono⟩
        · rw [readFrom, hs]
        · rw [readFrom, hs']
        · exact (Text.withoutFrom_cons hc cs).symm
        · exact (Text.blankedFrom_cons_of_ne hc cs).symm

end Reader

namespace Text

/-- Where no list is open none is closed, in the text with its comments
deleted. -/
theorem withoutFrom_ne_close : ∀ {cs : List Char} {inside apart : Bool},
    PlainlyCommented inside apart 0 cs → ∀ ds, withoutFrom inside cs ≠ ')' :: ds
  | [], _, _, _, _ => nofun
  | c :: cs, inside, apart, h, ds => by
    by_cases hcomment : inside = true ∨ c = ';'
    · rw [withoutFrom_cons_comment hcomment]
      exact withoutFrom_ne_close (h.of_comment hcomment).2 ds
    · obtain ⟨hinside, hc⟩ := not_or.1 hcomment
      obtain rfl : inside = false := by simpa using hinside
      rw [withoutFrom_cons hc]
      intro heq
      exact (h.of_cons hc).2.1 (List.cons.inj heq).1 rfl

/-- Nor is one closed in the text with its comments blanked. -/
theorem blankedFrom_ne_close : ∀ {cs : List Char} {inside apart : Bool},
    PlainlyCommented inside apart 0 cs → ∀ ds, blankedFrom inside cs ≠ ')' :: ds
  | [], _, _, _, _ => nofun
  | c :: cs, inside, apart, h, ds => by
    by_cases hcomment : inside = true ∨ c = ';'
    · obtain ⟨blanks, hblanks, hblanked⟩ := exists_blankedFrom_cons hcomment cs
      rw [hblanked]
      cases blanks with
      | nil => exact blankedFrom_ne_close (h.of_comment hcomment).2 ds
      | cons d blanks =>
        intro heq
        have hblank := hblanks.of_cons.1
        rw [(List.cons.inj heq).1] at hblank
        exact absurd hblank (by decide)
    · obtain ⟨hinside, hc⟩ := not_or.1 hcomment
      obtain rfl : inside = false := by simpa using hinside
      rw [blankedFrom_cons_of_ne hc]
      intro heq
      exact (h.of_cons hc).2.1 (List.cons.inj heq).1 rfl

end Text

namespace Cursor

/-- Behind a form blanks are passed over, where no parenthesis follows it. -/
theorem behind_eq_skipBlanks {reading : Reading} (h : ∀ cs, reading.next.rest ≠ ')' :: cs) :
    behind reading = reading.next.skipBlanks := by
  unfold behind
  split
  · rename_i hrest
    exact absurd hrest (h _)
  · rfl

/-- Where a character stands that begins a form, a form is read alike. -/
theorem readOne_comments {c : Char} {cs : List Char} {apart : Bool}
    (h : Text.PlainlyCommented false apart 0 (c :: cs)) (hc : c ≠ ';')
    (hblank : Text.isBlank c = false) (offset offset' : Nat) :
    ∃ reading reading' behind,
      readOne false ⟨offset, c :: Text.withoutFrom false cs⟩ = .ok reading ∧
      readOne false ⟨offset', c :: Text.blankedFrom false cs⟩ = .ok reading' ∧
      Reader.ReadAlike cs behind reading reading' := by
  obtain ⟨hbar, hstray, hplain⟩ := h.of_cons hc
  have hclose : c ≠ ')' := fun hclose => hstray hclose rfl
  have hstep (offset : Nat) : Reader.step Reader.State.initial offset c =
      Reader.beginForm [] offset c := by
    simp [Reader.step, Reader.State.initial, hblank, hclose]
  obtain ⟨state, hs⟩ := Reader.exists_more_of_beginForm [] offset c
  obtain ⟨state', hs'⟩ := Reader.exists_more_of_beginForm [] offset' c
  have hbegin := @Reader.beginForm_alike [] [] c rfl hblank hclose hbar offset offset'
  rw [hs, hs'] at hbegin
  obtain ⟨halike, hends, hlength⟩ := hbegin
  rw [List.length_nil] at hlength
  rw [← hlength] at hplain
  obtain ⟨reading, reading', behind, hone, hone', hread⟩ :=
    Reader.readFrom_comments cs (offset + Text.width c) (offset' + Text.width c) halike hplain
      fun h => hends (h.resolve_left Bool.false_ne_true)
  refine ⟨reading, reading', behind, ?_, ?_, hread⟩
  · rwa [← Reader.readFrom_cons_of_more ((hstep offset).trans hs)] at hone
  · rwa [← Reader.readFrom_cons_of_more ((hstep offset').trans hs')] at hone'

/-- **All forms are read alike**, whether comments are deleted or blanked. -/
theorem readMore_comments (cs : List Char) (offset offset' : Nat) {inside apart : Bool}
    (h : Text.PlainlyCommented inside apart 0 cs) :
    ∃ found found',
      readMore false (skipFrom offset (Text.withoutFrom inside cs)) = .ok found ∧
      readMore false (skipFrom offset' (Text.blankedFrom inside cs)) = .ok found' ∧
      found.map Form.chars = found'.map Form.chars := by
  match cs with
  | [] =>
    refine ⟨[], [], ?_, ?_, rfl⟩
    · rw [Text.withoutFrom, skipFrom, readMore]
    · rw [Text.blankedFrom, skipFrom, readMore]
  | c :: cs =>
    by_cases hcomment : inside = true ∨ c = ';'
    · obtain ⟨blanks, hblanks, hblanked⟩ := Text.exists_blankedFrom_cons hcomment cs
      rw [Text.withoutFrom_cons_comment hcomment, hblanked, skipFrom_blanks hblanks]
      exact readMore_comments cs _ _ (h.of_comment hcomment).2
    · obtain ⟨hinside, hc⟩ := not_or.1 hcomment
      obtain rfl : inside = false := by simpa using hinside
      rw [Text.withoutFrom_cons hc, Text.blankedFrom_cons_of_ne hc, skipFrom, skipFrom]
      by_cases hblank : Text.isBlank c = true
      · rw [if_pos hblank, if_pos hblank]
        have hplain := (h.of_cons hc).2.2
        rw [Reader.depthAfter_of_isBlank 0 hblank] at hplain
        exact readMore_comments cs _ _ hplain
      · rw [if_neg hblank, if_neg hblank]
        obtain ⟨reading, reading', behind, hone, hone', hread⟩ :=
          readOne_comments h hc (by simpa using hblank) offset offset'
        -- behind the form the rest of both texts is read
        have hle := hread.le
        obtain ⟨found, found', hmore, hmore', hfound⟩ :=
          readMore_comments behind reading.next.offset reading'.next.offset hread.plainly
        refine ⟨reading.form :: found, reading'.form :: found', ?_, ?_, ?_⟩
        · rw [readMore_of_readOne (List.cons_ne_nil _ _) hone,
            behind_eq_skipBlanks (hread.deleted ▸ Text.withoutFrom_ne_close hread.plainly),
            skipBlanks, hread.deleted, Text.withoutComments, hmore]
          rfl
        · rw [readMore_of_readOne (List.cons_ne_nil _ _) hone',
            behind_eq_skipBlanks (hread.blanked ▸ Text.blankedFrom_ne_close hread.plainly),
            skipBlanks, hread.blanked, Text.blankedComments, hmore']
          rfl
        · rw [List.map_cons, List.map_cons, hread.chars, hfound]
termination_by cs.length
decreasing_by all_goals simp only [List.length_cons]; omega

end Cursor

/-- **A text is read alike whether its comments are deleted or blanked.** Let no
bar stand in it, let every comment begin the text or stand directly behind a
blank or a parenthesis, and let every closing parenthesis outside of comments
close a list. Then both readings find as many forms, written alike one by
one; lists and atoms that the end of the text cuts short are no exception. -/
theorem render_withoutComments (cs : List Char) (hbar : '|' ∉ cs)
    (hapart : Text.commentsApart false true cs = true)
    (hcloses : Text.closesOpen false 0 cs = true) :
    ∃ deleted blanked, readAll false (Text.withoutComments cs) = .ok deleted ∧
      readAll false (Text.blankedComments cs) = .ok blanked ∧
      deleted.map Form.render = blanked.map Form.render := by
  obtain ⟨deleted, blanked, hdeleted, hblanked, hchars⟩ :=
    Cursor.readMore_comments cs 0 0 ⟨hbar, hapart, hcloses⟩
  refine ⟨deleted, blanked, hdeleted, hblanked, ?_⟩
  have hrender (found : List Form) :
      found.map Form.render = (found.map Form.chars).map String.ofList := by
    rw [List.map_map]
    rfl
  rw [hrender, hrender, hchars]

/-- A comment directly behind a parenthesis, where the blanked text holds the
empty atom and the other nothing, and lists that are left open. -/
theorem render_withoutComments_unclosed :
    let text := "(;c\n)(f ;d\na(b".toList
    ('|' ∉ text ∧ Text.commentsApart false true text = true ∧
        Text.closesOpen false 0 text = true) ∧
      readAll false (Text.withoutComments text) =
        .ok [.list [] 0 2, .list [.atom "f" 3 4, .atom "a" 5 6, .list [.atom "b" 7 8] 6 8] 2 8] ∧
      ∃ blanked, readAll false (Text.blankedComments text) = .ok blanked ∧
        blanked.map Form.render = ["()", "(f a (b))"] := by
  have hdeleted : readAll false (Text.withoutComments "(;c\n)(f ;d\na(b".toList) =
      .ok [.list [] 0 2, .list [.atom "f" 3 4, .atom "a" 5 6, .list [.atom "b" 7 8] 6 8] 2 8] := by
    cbv
  have hbar : '|' ∉ "(;c\n)(f ;d\na(b".toList := by decide
  have hapart : Text.commentsApart false true "(;c\n)(f ;d\na(b".toList = true := by decide
  have hcloses : Text.closesOpen false 0 "(;c\n)(f ;d\na(b".toList = true := by decide
  intro text
  refine ⟨⟨hbar, hapart, hcloses⟩, hdeleted, ?_⟩
  obtain ⟨deleted, blanked, hread, hblanked, hrender⟩ :=
    render_withoutComments text hbar hapart hcloses
  obtain rfl := Except.ok.inj (hdeleted.symm.trans hread)
  exact ⟨blanked, hblanked, hrender.symm.trans (by decide)⟩

end SatScript
