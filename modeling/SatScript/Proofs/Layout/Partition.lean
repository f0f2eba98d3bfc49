import SatScript.Proofs.Layout.Nesting
import SatScript.Proofs.Text.Place
/-!
# SatScript — no character is lost or read twice

A text is taken apart by its forms: each character stands in an atom, is a
blank between atoms, opens a list, closes a list, or closes nothing and is
read as an empty atom. `accounts` counts in how many of these ways the
forms account for a character, and `forms_partition` says that it is one
for every character of every text. A list is closed by the parenthesis at
its end if that one is not part of an item: a list that is left open may
end with the parenthesis of its last item, or with an atom that holds one.

The count is kept for the atoms and the lists of one form and added up over
forms one after another, where all but one are silent about the character.
-/

namespace SatScript

namespace Span

/-- A span between two offsets of a text covers those from the first up to the
second. -/
theorem covers_natCast_iff {start stop offset : Nat} :
    (⟨start, stop⟩ : Span).covers offset = true ↔ start ≤ offset ∧ offset < stop := by
  rw [covers_iff, Int.ofNat_le, Int.ofNat_lt]

end Span

/-- Where the atom stands. -/
def Leaf.span (leaf : Leaf) : Span := ⟨leaf.start, leaf.stop⟩

namespace Group

/-- The character at the offset is the parenthesis that the list begins with. -/
def opensAt (group : Group) (offset : Nat) (c : Char) : Bool :=
  c == '(' && group.start == offset

/-- The character at the offset is the parenthesis that closes the list: it
stands at its end, and in none of its items. -/
def closesAt (group : Group) (offset : Nat) (c : Char) : Bool :=
  c == ')' && group.stop == offset + 1 && group.items.all fun item => !item.span.covers offset

end Group

/-- Whether the form is the empty atom. -/
def Form.isEmpty : Form → Bool
  | .atom text _ _ => text == ""
  | .list _ _ _ => false

/-- The character at the offset is a parenthesis that the form, an empty atom,
stands for. -/
def Form.isStrayAt (offset : Nat) (c : Char) (form : Form) : Bool :=
  c == ')' && form.start == offset && form.isEmpty

/-- In how many ways atoms and lists account for the character at an offset: as
part of an atom, as a blank outside of the atoms, as a parenthesis that opens
a list and as one that closes a list. -/
def accounts (leaves : List Leaf) (groups : List Group) (offset : Nat) (c : Char) : Nat :=
  leaves.countP (·.span.covers offset) +
    (if Text.isBlank c ∧ leaves.countP (·.span.covers offset) = 0 then 1 else 0) +
    groups.countP (·.opensAt offset c) + groups.countP (·.closesAt offset c)

/-- Atoms and lists none of which holds the character. -/
structure Silent (leaves : List Leaf) (groups : List Group) (offset : Nat) (c : Char) : Prop where
  covers : leaves.countP (·.span.covers offset) = 0
  opens : groups.countP (·.opensAt offset c) = 0
  closes : groups.countP (·.closesAt offset c) = 0

section

variable {leaves more : List Leaf} {groups others : List Group} {offset : Nat} {c : Char}

theorem Silent.nil : Silent [] [] offset c := ⟨rfl, rfl, rfl⟩

theorem Silent.append (h : Silent leaves groups offset c) (hmore : Silent more others offset c) :
    Silent (leaves ++ more) (groups ++ others) offset c :=
  ⟨by rw [List.countP_append, h.covers, hmore.covers],
    by rw [List.countP_append, h.opens, hmore.opens],
    by rw [List.countP_append, h.closes, hmore.closes]⟩

/-- A blank that is in nothing is accounted for as a blank. -/
theorem Silent.accounts_blank (h : Silent leaves groups offset c) (hc : Text.isBlank c = true) :
    accounts leaves groups offset c = 1 := by
  rw [accounts, h.covers, h.opens, h.closes, if_pos ⟨hc, rfl⟩]

/-- Any other character that is in nothing is not accounted for. -/
theorem Silent.accounts_eq_zero (h : Silent leaves groups offset c)
    (hc : Text.isBlank c = false) : accounts leaves groups offset c = 0 := by
  rw [accounts, h.covers, h.opens, h.closes, if_neg (by simp [hc])]

theorem accounts_append_of_silent_left (h : Silent leaves groups offset c) :
    accounts (leaves ++ more) (groups ++ others) offset c = accounts more others offset c := by
  simp only [accounts, List.countP_append, h.covers, h.opens, h.closes, Nat.zero_add]

theorem accounts_append_of_silent_right (h : Silent more others offset c) :
    accounts (leaves ++ more) (groups ++ others) offset c = accounts leaves groups offset c := by
  simp only [accounts, List.countP_append, h.covers, h.opens, h.closes, Nat.add_zero]

/-- One more list accounts for its parentheses. -/
theorem accounts_cons_group (group : Group) :
    accounts leaves (group :: groups) offset c = accounts leaves groups offset c +
      (if group.opensAt offset c then 1 else 0) + if group.closesAt offset c then 1 else 0 := by
  simp only [accounts, List.countP_cons]
  omega

end

namespace Form

mutual

/-- **Outside of a form nothing that is in it holds a character.** -/
theorem silent_of_outside (offset : Nat) (c : Char) : ∀ form : Form, form.start ≤ form.stop →
    (∀ group ∈ groups form, group.Fits) → offset < form.start ∨ form.stop ≤ offset →
      Silent (leaves form) (groups form) offset c
  | .atom text start stop, _, _, houtside => by
    simp only [Form.start, Form.stop] at houtside
    have hcovers : (Leaf.span ⟨text, start, stop⟩).covers offset = false := by
      rw [← Bool.not_eq_true, Leaf.span, Span.covers_natCast_iff]
      simp only
      omega
    exact ⟨by simp [leaves, hcovers], rfl, rfl⟩
  | .list items start stop, _, hfits, houtside => by
    obtain ⟨hgroup, hgroups⟩ := List.forall_mem_cons.1 hfits
    have hlt : start < stop := hgroup.lt
    simp only [Form.start, Form.stop] at houtside
    have hitems := silent_of_within offset c hgroup.within hgroups (by simp only; omega)
    have hopens : Group.opensAt ⟨items, start, stop⟩ offset c = false := by
      simp only [Group.opensAt, Bool.and_eq_false_imp, beq_eq_false_iff_ne]
      omega
    have hcloses : Group.closesAt ⟨items, start, stop⟩ offset c = false := by
      simp only [Group.closesAt, Bool.and_eq_false_imp, Bool.and_eq_true, beq_iff_eq]
      omega
    exact ⟨hitems.covers, by simp [groups, hopens, hitems.opens],
      by simp [groups, hcloses, hitems.closes]⟩

theorem silent_of_within (offset : Nat) (c : Char) : ∀ {low high : Nat} {forms : List Form},
    Within low high forms → (∀ group ∈ groupsAll forms, group.Fits) →
      offset < low ∨ high ≤ offset → Silent (leavesAll forms) (groupsAll forms) offset c
  | _, _, [], _, _, _ => .nil
  | low, high, form :: forms, hwithin, hfits, houtside => by
    obtain ⟨hform, hforms⟩ := List.forall_mem_cons.1 hwithin.1
    obtain ⟨hgroups, hmore⟩ := List.forall_mem_append.1 hfits
    have hrest : Within low high forms := ⟨hforms, (List.pairwise_cons.1 hwithin.2).2⟩
    exact (silent_of_outside offset c form hform.2.1 hgroups (by omega)).append
      (silent_of_within offset c hrest hmore houtside)

end

/-- The empty atom holds no character. -/
theorem silent_emptyAtom (offset place : Nat) (c : Char) :
    Silent (leaves (Reader.emptyAtom offset)) (groups (Reader.emptyAtom offset)) place c :=
  silent_of_outside place c _ (Nat.le_refl _) nofun (Nat.lt_or_ge _ _)

end Form

namespace Layout

open Form (leaves leavesAll groups groupsAll)

variable {offset place : Nat} {c : Char}

/-- A layout is no layout of the empty atom. -/
theorem Stands.isEmpty_form {layout : Layout} {rest : List Char} (h : layout.Stands rest)
    (offset : Nat) : (layout.form offset).isEmpty = false := by
  cases layout with
  | list before items gap closed => rfl
  | atom before text =>
    rw [Stands] at h
    obtain ⟨d, ds, rfl, -⟩ := h.2.exists_cons
    simp [form, Form.isEmpty]

/-- Outside of a layout's form nothing of it holds a character. -/
theorem Stands.silent {layout : Layout} {rest : List Char} (h : layout.Stands rest) (c : Char)
    (houtside : place < (layout.form offset).start ∨
      offset + Text.units layout.chars ≤ place) :
    Silent (leaves (layout.form offset)) (groups (layout.form offset)) place c := by
  obtain ⟨-, hlt, hstop⟩ := h.bounds offset
  rw [← hstop] at houtside
  exact Form.silent_of_outside place c _ (Nat.le_of_lt hlt)
    (fun group hgroup => (standsIn_of_mem_groups h group hgroup).fits) houtside

/-- A character of layouts that is no blank stands in the form of one of them. -/
theorem exists_covers : ∀ {items : List Layout} {rest : List Char} {offset : Nat},
    StandAll items rest → offset ≤ place →
      Text.charAt? (place - offset) (charsAll items) = some c → Text.isBlank c = false →
      ∃ form ∈ forms offset items, form.span.covers (place : Int) = true
  | [], _, _, _, _, hchar, _ => nomatch hchar
  | item :: items, rest, offset, h, hle, hchar, hc => by
    rw [StandAll] at h
    rw [charsAll] at hchar
    rw [forms]
    rcases Text.cases_charAt?_append hle hchar with ⟨hlt, hchar⟩ | ⟨hle, hchar⟩
    · obtain ⟨before, d, ds, hbefore, -, -, hchars, hspan⟩ := h.1.exists_written
      obtain ⟨hstart, hstop⟩ := hspan offset
      rw [hchars] at hchar
      rcases Text.cases_charAt?_append hle hchar with ⟨-, hchar⟩ | ⟨hge, -⟩
      · -- before the form stand blanks only
        rw [hbefore c (Text.mem_of_charAt? hchar)] at hc
        cases hc
      · exact ⟨item.form offset, List.mem_cons_self, Span.covers_natCast_iff.2 (by omega)⟩
    · obtain ⟨form, hform, hcovers⟩ := exists_covers h.2 hle hchar hc
      exact ⟨form, List.mem_cons_of_mem _ hform, hcovers⟩

/-- Behind the items of a list stand blanks. -/
theorem blanks_gap {before gap rest : List Char} {items : List Layout} {closed : Bool}
    (h : Stands (.list before items gap closed) rest) : Blanks gap := by
  rw [Stands] at h
  obtain ⟨-, -, ⟨-, rfl⟩ | ⟨_, -, -, -, rfl⟩ | ⟨-, hgap, -⟩⟩ := h
  · exact Blanks.nil
  · exact Blanks.nil
  · exact hgap

/-- Where the items of a list are written, a parenthesis stands in one of them. -/
theorem exists_covers_close {before gap rest : List Char} {items : List Layout} {closed : Bool}
    (h : Stands (.list before items gap closed) rest) (hle : offset ≤ place)
    (hchar : Text.charAt? (place - offset) (charsAll items) = some ')') :
    ∃ item ∈ forms offset items, item.span.covers (place : Int) = true := by
  rw [Stands] at h
  obtain ⟨-, -, ⟨rfl, -⟩ | ⟨blanks, -, hblanks, rfl, -⟩ | ⟨-, -, hitems⟩⟩ := h
  · cases hchar
  · rw [charsAll, charsAll, List.append_nil, chars, List.append_nil] at hchar
    exact absurd (hblanks ')' (Text.mem_of_charAt? hchar)) (by decide)
  · exact exists_covers hitems hle hchar rfl

/-- A list accounts for each of its characters, if its items do for theirs. A
parenthesis in an item is not the one that closes the list. -/
theorem accounts_list {before gap rest : List Char} {items : List Layout} {closed : Bool}
    (h : Stands (.list before items gap closed) rest) (hle : offset ≤ place)
    (hchar : Text.charAt? (place - offset) (chars (.list before items gap closed)) = some c)
    (hitems : ∀ {start : Nat}, start ≤ place →
      Text.charAt? (place - start) (charsAll items) = some c →
        accounts (leavesAll (forms start items)) (groupsAll (forms start items)) place c = 1) :
    accounts (leaves (form offset (.list before items gap closed)))
      (groups (form offset (.list before items gap closed))) place c = 1 := by
  have hunits := units_chars_list before gap items closed
  have hwithin := within_items h (offset + Text.units before + 1)
  have hsilent (houtside : place < offset + Text.units before + 1 ∨
      offset + Text.units before + 1 + Text.units (charsAll items) ≤ place) :=
    Form.silent_of_within place c hwithin
      (fun group hgroup => (standsIn_of_mem_groups h group (List.mem_cons_of_mem _ hgroup)).fits)
      houtside
  have hgap := blanks_gap h
  have hbefore : Blanks before := by
    rw [Stands] at h
    exact h.1
  change Text.charAt? _ (before ++ (['('] ++ (charsAll items ++ (gap ++ closing closed)))) = _
    at hchar
  rcases Text.cases_charAt?_append hle hchar with ⟨hlt, hchar⟩ | ⟨hbegin, hchar⟩
  · -- a blank before the list
    exact (h.silent c (.inl hlt)).accounts_blank (hbefore c (Text.mem_of_charAt? hchar))
  have hparen : Text.units ['('] = 1 := rfl
  rw [form, leaves, groups, accounts_cons_group, Group.opensAt, Group.closesAt, hunits]
  rcases Text.cases_charAt?_append hbegin hchar with ⟨hlt, hchar⟩ | ⟨hbehind, hchar⟩
  · -- the parenthesis that the list begins with
    obtain rfl := Text.eq_of_charAt?_singleton hchar
    have hplace : offset + Text.units before = place := by omega
    rw [(hsilent (.inl hlt)).accounts_eq_zero rfl]
    simp [hplace]
  rw [hparen] at hbehind hchar
  have hlater : offset + Text.units before ≠ place := Nat.ne_of_lt hbehind
  rcases Text.cases_charAt?_append hbehind hchar with ⟨hlt, hchar⟩ | ⟨hlast, hchar⟩
  · -- a character of the items
    rw [hitems hbehind hchar]
    by_cases hclose : c = ')'
    · have hall : (forms (offset + Text.units before + 1) items).all
          (fun item => !item.span.covers place) = false := by
        obtain ⟨item, hitem, hcovers⟩ := exists_covers_close h hbehind (hclose ▸ hchar)
        exact List.all_eq_false.2 ⟨item, hitem, by simp [hcovers]⟩
      simp [hlater, hall]
    · simp [hlater, hclose]
  rcases Text.cases_charAt?_append hlast hchar with ⟨-, hchar⟩ | ⟨hend, hchar⟩
  · -- a blank behind the items
    have hblank : Text.isBlank c = true := hgap c (Text.mem_of_charAt? hchar)
    have hclose : c ≠ ')' := by
      rintro rfl
      cases hblank
    rw [(hsilent (.inr hlast)).accounts_blank hblank]
    simp [hlater, hclose]
  · -- the parenthesis that closes the list
    cases closed with
    | false => cases hchar
    | true =>
      obtain rfl := Text.eq_of_charAt?_singleton hchar
      have hone : Text.units [')'] = 1 := rfl
      have hstop : offset + (Text.units before + 1 + Text.units (charsAll items) +
          Text.units gap + Text.units (closing true)) = place + 1 := by
        have hlt := Text.lt_units_of_charAt? hchar
        rw [closing_true] at hlt ⊢
        omega
      have hall : (forms (offset + Text.units before + 1) items).all
          (fun item => !item.span.covers place) = true := by
        refine List.all_eq_true.2 fun item hitem => ?_
        have hbounds := hwithin.1 item hitem
        rw [Bool.not_eq_true', ← Bool.not_eq_true, Form.span, Span.covers_natCast_iff]
        omega
      rw [(hsilent (.inr hlast)).accounts_eq_zero rfl, hstop]
      simp [hall]

/-- Blanks where an item is due are blanks, and the empty atom holds none of
them. -/
theorem accounts_due {blanks : List Char} (hblanks : Blanks blanks)
    (hchar : Text.charAt? (place - offset) (charsAll [.atom blanks []]) = some c) :
    accounts (leavesAll (forms offset [.atom blanks []]))
        (groupsAll (forms offset [.atom blanks []])) place c = 1 := by
  have hblank : Text.isBlank c = true := by
    rw [charsAll, charsAll, List.append_nil, chars, List.append_nil] at hchar
    exact hblanks c (Text.mem_of_charAt? hchar)
  have hsilent := (Form.silent_emptyAtom (offset + Text.units blanks) place c).append .nil
  exact hsilent.accounts_blank hblank

mutual

/-- **The form of a layout accounts for each of its characters.** -/
theorem accounts_form : ∀ {layout : Layout} {rest : List Char} {offset : Nat},
    layout.Stands rest → offset ≤ place →
      Text.charAt? (place - offset) layout.chars = some c →
      accounts (leaves (layout.form offset)) (groups (layout.form offset)) place c = 1
  | .atom before text, rest, offset, h, hle, hchar => by
    rw [chars] at hchar
    rcases Text.cases_charAt?_append hle hchar with ⟨hlt, hchar⟩ | ⟨hge, hchar⟩
    · -- a blank before the atom
      have hblank : Text.isBlank c = true := by
        rw [Stands] at h
        exact h.1 c (Text.mem_of_charAt? hchar)
      exact (h.silent c (.inl hlt)).accounts_blank hblank
    · have hlt := Text.lt_units_of_charAt? hchar
      have hcovers : (Leaf.span ⟨String.ofList text, offset + Text.units before,
          offset + Text.units before + Text.units text⟩).covers place = true :=
        Span.covers_natCast_iff.2 (by simp only; omega)
      rw [form, leaves, groups, accounts, List.countP_singleton, if_pos hcovers,
        if_neg (fun hblank => absurd hblank.2 Nat.one_ne_zero), List.countP_nil, List.countP_nil]
  | .list before items gap closed, rest, offset, h, hle, hchar => by
    refine accounts_list h hle hchar fun {start} hle hchar => ?_
    rw [Stands] at h
    obtain ⟨-, -, ⟨rfl, -⟩ | ⟨blanks, -, hblanks, rfl, -⟩ | ⟨-, -, hstand⟩⟩ := h
    · cases hchar
    · exact accounts_due hblanks hchar
    · exact accounts_forms hstand hle hchar

theorem accounts_forms : ∀ {items : List Layout} {rest : List Char} {offset : Nat},
    StandAll items rest → offset ≤ place →
      Text.charAt? (place - offset) (charsAll items) = some c →
      accounts (leavesAll (forms offset items)) (groupsAll (forms offset items)) place c = 1
  | [], _, _, _, _, hchar => nomatch hchar
  | item :: items, rest, offset, h, hle, hchar => by
    rw [StandAll] at h
    rw [charsAll] at hchar
    rw [forms, leavesAll, groupsAll]
    rcases Text.cases_charAt?_append hle hchar with ⟨hlt, hchar⟩ | ⟨hle, hchar⟩
    · rw [accounts_append_of_silent_right]
      · exact accounts_form h.1 ‹_› hchar
      · exact Form.silent_of_within _ c (within_forms h.2 _)
          (fun group hgroup => (standsIn_of_mem_groupsAll h.2 group hgroup).fits) (.inl hlt)
    · rw [accounts_append_of_silent_left (h.1.silent c (.inr hle))]
      exact accounts_forms h.2 hle hchar

end

end Layout

namespace Piece

open Form (leavesAll groupsAll)

variable {offset place : Nat} {c : Char}

/-- Before forms, none of them stands for a parenthesis. -/
theorem countP_isStrayAt {low high : Nat} {forms : List Form} (h : Form.Within low high forms)
    (hlow : place < low) : forms.countP (Form.isStrayAt place c) = 0 := by
  refine List.countP_eq_zero.2 fun form hform hstray => ?_
  have hbounds := h.1 form hform
  simp only [Form.isStrayAt, Bool.and_eq_true, beq_iff_eq] at hstray
  omega

/-- A blank is no parenthesis that a form could stand for. -/
theorem countP_isStrayAt_blank (hc : Text.isBlank c = true) (forms : List Form) :
    forms.countP (Form.isStrayAt place c) = 0 := by
  refine List.countP_eq_zero.2 fun form _ hstray => ?_
  simp only [Form.isStrayAt, Bool.and_eq_true, beq_iff_eq] at hstray
  rw [hstray.1.1] at hc
  cases hc

/-- **The forms of a text account for each of its characters**, where an empty
atom accounts for the parenthesis that it stands for. -/
theorem accounts_forms {afterStray : Bool} {pieces : List Piece} {gap : List Char}
    {offset : Nat} (h : Laid pieces gap) (hle : offset ≤ place)
    (hchar : Text.charAt? (place - offset) (charsAll pieces ++ gap) = some c) :
    accounts (leavesAll (forms afterStray offset gap pieces))
        (groupsAll (forms afterStray offset gap pieces)) place c +
      (forms afterStray offset gap pieces).countP (Form.isStrayAt place c) = 1 := by
  induction pieces generalizing afterStray offset with
  | nil =>
    have hblank : Text.isBlank c = true := by
      rw [Laid] at h
      exact h c (Text.mem_of_charAt? hchar)
    rw [countP_isStrayAt_blank hblank, forms]
    split
    · exact ((Form.silent_emptyAtom (offset + Text.units gap) place c).append .nil).accounts_blank
        hblank
    · exact Silent.nil.accounts_blank hblank
  | cons piece pieces ih =>
    have hfits (afterStray : Bool) (offset : Nat) (hlaid : Laid pieces gap) :
        ∀ group ∈ groupsAll (forms afterStray offset gap pieces), group.Fits :=
      fun group hgroup => (standsIn_of_mem_groupsAll hlaid group hgroup).fits
    rw [charsAll, List.append_assoc] at hchar
    cases piece with
    | form layout =>
      rw [Laid] at h
      have hwithin := within_forms h.2 false (offset + Text.units layout.chars)
      have hstray : (layout.form offset).isStrayAt place c = false := by
        rw [Form.isStrayAt, h.1.isEmpty_form, Bool.and_false]
      rw [forms, leavesAll, groupsAll, List.countP_cons, hstray]
      rcases Text.cases_charAt?_append hle hchar with ⟨hlt, hchar⟩ | ⟨hmore, hchar⟩
      · have hsilent := Form.silent_of_within place c hwithin (hfits _ _ h.2) (.inl hlt)
        rw [accounts_append_of_silent_right hsilent, countP_isStrayAt hwithin hlt,
          Layout.accounts_form h.1 hle hchar]
        rfl
      · rw [accounts_append_of_silent_left (h.1.silent c (.inr hmore))]
        exact ih h.2 hmore hchar
    | stray before =>
      rw [Laid] at h
      have hwithin := within_forms h.2 true (offset + Text.units (before ++ [')']))
      have hempty := Form.silent_emptyAtom (offset + Text.units before) place c
      rw [forms, leavesAll, groupsAll]
      rcases Text.cases_charAt?_append hle hchar with ⟨hlt, hchar⟩ | ⟨hmore, hchar⟩
      · have hsilent := hempty.append
          (Form.silent_of_within place c hwithin (hfits _ _ h.2) (.inl hlt))
        rcases Text.cases_charAt?_append hle hchar with ⟨-, hchar⟩ | ⟨hge, hchar⟩
        · have hblank := h.1 c (Text.mem_of_charAt? hchar)
          rw [hsilent.accounts_blank hblank, countP_isStrayAt_blank hblank]
        · -- the parenthesis that closes nothing
          obtain rfl := Text.eq_of_charAt?_singleton hchar
          have hplace : offset + Text.units before = place := by
            rw [units_chars_stray] at hlt
            omega
          rw [hsilent.accounts_eq_zero rfl, List.countP_cons, countP_isStrayAt hwithin hlt]
          simp [Form.isStrayAt, Reader.emptyAtom, Form.isEmpty, hplace]
      · have hbefore : offset + Text.units before ≠ place := by
          rw [units_chars_stray] at hmore
          omega
        have hstray : (Reader.emptyAtom (offset + Text.units before)).isStrayAt place c = false := by
          simp [Form.isStrayAt, Reader.emptyAtom, hbefore]
        rw [accounts_append_of_silent_left hempty, List.countP_cons, hstray]
        exact ih h.2 hmore hchar

end Piece

/-- **Every text is taken apart by its forms.** The text of each atom is what
stands between its offsets. Each list begins with a parenthesis; its items
stand in it behind that one, in order and apart, and so do the forms of the
text in the text. And for each unit of the text there is just one thing that
accounts for it: an atom that it is part of, a blank outside of the atoms, a
list that it opens, a list that it closes, or a parenthesis that closes nothing,
where an empty atom stands for it. -/
theorem forms_partition (cs : List Char) :
    (∀ leaf ∈ Form.leavesAll (forms cs), leaf.start ≤ leaf.stop ∧ leaf.stop ≤ Text.units cs ∧
      Text.slice leaf.start leaf.stop cs = leaf.text.toList) ∧
    (∀ group ∈ Form.groupsAll (forms cs), Text.charAt? group.start cs = some '(' ∧
      group.start < group.stop ∧ group.stop ≤ Text.units cs ∧
      Form.Within (group.start + 1) group.stop group.items) ∧
    Form.Within 0 (Text.units cs) (forms cs) ∧
    ∀ offset c, Text.charAt? offset cs = some c →
      accounts (Form.leavesAll (forms cs)) (Form.groupsAll (forms cs)) offset c +
        (forms cs).countP (Form.isStrayAt offset c) = 1 := by
  obtain ⟨pieces, gap, rfl, hlaid⟩ := exists_pieces cs
  rw [forms_pieces hlaid]
  refine ⟨fun leaf hleaf => ?_, fun group hgroup => ?_, ?_, fun offset c hchar => ?_⟩
  · obtain ⟨before, rest, hcs, hstart, hstop, -⟩ :=
      Piece.standsIn_of_mem_leavesAll hlaid leaf hleaf
    rw [Nat.zero_add] at hstart
    rw [hcs, hstop, hstart]
    refine ⟨Nat.le_add_right _ _, ?_, Text.slice_units _ _ _⟩
    simp only [Text.units_append]
    omega
  · obtain ⟨⟨before, rest, hcs, hstart⟩, hle, hfits⟩ :=
      Piece.standsIn_of_mem_groupsAll hlaid group hgroup
    rw [Nat.zero_add] at hstart hle
    refine ⟨?_, hfits.lt, hle, hfits.within⟩
    rw [hcs, hstart, Text.charAt?_units]
  · have hwithin := Piece.within_forms hlaid false 0
    rwa [Nat.zero_add] at hwithin
  · exact Piece.accounts_forms hlaid (Nat.zero_le offset) hchar

/-- One parenthesis closes a list whose item is the empty atom, the next closes
nothing, and the last is part of an atom that is cut off. -/
theorem forms_partition_stray :
    let text := "( )) |(".toList
    let all := forms text
    let accounted (offset : Nat) (c : Char) :=
      accounts (Form.leavesAll all) (Form.groupsAll all) offset c +
        all.countP (Form.isStrayAt offset c)
    (Text.charAt? 2 text = some ')' ∧ accounted 2 ')' = 1) ∧
      (Text.charAt? 3 text = some ')' ∧ accounted 3 ')' = 1) ∧
      (Text.charAt? 6 text = some '(' ∧ accounted 6 '(' = 1) := by
  intro text all accounted
  obtain ⟨-, -, -, haccounts⟩ := forms_partition text
  have hlist : Text.charAt? 2 text = some ')' := by decide
  have hstray : Text.charAt? 3 text = some ')' := by decide
  have hatom : Text.charAt? 6 text = some '(' := by decide
  exact ⟨⟨hlist, haccounts 2 ')' hlist⟩, ⟨hstray, haccounts 3 ')' hstray⟩,
    hatom, haccounts 6 '(' hatom⟩

end SatScript
