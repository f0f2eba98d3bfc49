import SatScript.Proofs.Layout.Existence
import SatScript.Proofs.Layout.Leaves
/-!
# SatScript — how the forms of a text are nested

The groups of a form are its lists, the outer before the inner. This file
says where the groups of a text stand: each begins with a parenthesis, and
its items stand behind that one, within the group and one behind the other
(`standsIn_of_mem_groupsAll`), as the forms of the text do within the text
(`within_forms`). What lies outside of a form lies outside of everything
that is in it, since whatever is within something that is within a range is
within the range.
-/

namespace SatScript

/-- A list and where it stands. -/
structure Group where
  items : List Form
  start : Nat
  stop : Nat

namespace Form

mutual

/-- The lists of a form. -/
def groups : Form → List Group
  | .atom _ _ _ => []
  | .list items start stop => ⟨items, start, stop⟩ :: groupsAll items

/-- The lists of forms one after another. -/
def groupsAll : List Form → List Group
  | [] => []
  | form :: forms => groups form ++ groupsAll forms

end

/-- The forms stand between two offsets, one behind the other. An empty form
shares its offset with no other. -/
def Within (low high : Nat) (forms : List Form) : Prop :=
  (∀ form ∈ forms, low ≤ form.start ∧ form.start ≤ form.stop ∧ form.stop ≤ high) ∧
    forms.Pairwise fun first second => first.start < second.start ∧ first.stop ≤ second.start

theorem within_nil (low high : Nat) : Within low high [] := ⟨nofun, .nil⟩

theorem within_singleton {low high : Nat} {form : Form} (hlow : low ≤ form.start)
    (hform : form.start ≤ form.stop) (hhigh : form.stop ≤ high) : Within low high [form] :=
  ⟨fun _ hother => List.mem_singleton.1 hother ▸ ⟨hlow, hform, hhigh⟩,
    List.pairwise_singleton _ _⟩

/-- One more form stands before the others. -/
theorem Within.cons {low middle high : Nat} {form : Form} {forms : List Form}
    (hforms : Within middle high forms) (hlow : low ≤ form.start) (hform : form.start ≤ form.stop)
    (hstart : form.start < middle) (hstop : form.stop ≤ middle) (hhigh : middle ≤ high) :
    Within low high (form :: forms) := by
  refine ⟨fun other hother => ?_, List.pairwise_cons.2 ⟨fun other hother => ?_, hforms.2⟩⟩
  · rcases List.mem_cons.1 hother with rfl | hother
    · omega
    · have hbounds := hforms.1 other hother
      omega
  · have hbounds := hforms.1 other hother
    omega

/-- A wider range will do. -/
theorem Within.mono {low high low' high' : Nat} {forms : List Form} (h : Within low high forms)
    (hlow : low' ≤ low) (hhigh : high ≤ high') : Within low' high' forms := by
  refine ⟨fun form hform => ?_, h.2⟩
  have hbounds := h.1 form hform
  omega

end Form

namespace Group

/-- The items of a group stand in it, behind the character that it begins with. -/
structure Fits (group : Group) : Prop where
  lt : group.start < group.stop
  within : Form.Within (group.start + 1) group.stop group.items

/-- In a text that is looked at from an offset on, the group begins with a
parenthesis and ends in the text, and its items stand in it. -/
structure StandsIn (group : Group) (offset : Nat) (cs : List Char) : Prop where
  opened : ∃ before rest, cs = before ++ '(' :: rest ∧ group.start = offset + Text.units before
  le : group.stop ≤ offset + Text.units cs
  fits : group.Fits

/-- What stands in a text stands in a longer one that ends with it. -/
theorem StandsIn.append {group : Group} {offset : Nat} {cs : List Char} (before : List Char)
    (h : group.StandsIn (offset + Text.units before) cs) :
    group.StandsIn offset (before ++ cs) := by
  obtain ⟨⟨before', rest, rfl, hstart⟩, hle, hfits⟩ := h
  refine ⟨⟨before ++ before', rest, by rw [List.append_assoc], ?_⟩, ?_, hfits⟩
  · rw [hstart, Text.units_append, Nat.add_assoc]
  · rw [Text.units_append, ← Nat.add_assoc]
    exact hle

end Group

namespace Layout

open Form (Within groups groupsAll)

/-- A layout takes up the text from where it begins to where its form ends. -/
theorem Stands.bounds {layout : Layout} {rest : List Char} (h : layout.Stands rest)
    (offset : Nat) :
    offset ≤ (layout.form offset).start ∧ (layout.form offset).start < (layout.form offset).stop ∧
      (layout.form offset).stop = offset + Text.units layout.chars := by
  obtain ⟨before, c, cs, -, -, -, hchars, hspan⟩ := h.exists_written
  obtain ⟨hstart, hstop⟩ := hspan offset
  have hpos := Text.width_pos c
  rw [hstart, hstop, hchars, Text.units_append, Text.units_cons]
  omega

/-- Layouts one after another stand in the text that they make up. -/
theorem within_forms {items : List Layout} {rest : List Char} (h : StandAll items rest)
    (offset : Nat) :
    Within offset (offset + Text.units (charsAll items)) (forms offset items) := by
  induction items generalizing offset with
  | nil => exact Form.within_nil _ _
  | cons item items ih =>
    rw [StandAll] at h
    obtain ⟨hlow, hlt, hstop⟩ := h.1.bounds offset
    have hmore := ih h.2 (offset + Text.units item.chars)
    rw [Nat.add_assoc, ← Text.units_append, ← charsAll, ← hstop] at hmore
    rw [forms, ← hstop]
    refine hmore.cons hlow (Nat.le_of_lt hlt) hlt (Nat.le_refl _) ?_
    rw [hstop, charsAll, Text.units_append]
    omega

/-- The items of a list stand in the text that they make up. -/
theorem within_items {before gap rest : List Char} {items : List Layout} {closed : Bool}
    (h : Stands (.list before items gap closed) rest) (offset : Nat) :
    Within offset (offset + Text.units (charsAll items)) (forms offset items) := by
  rw [Stands] at h
  obtain ⟨-, -, ⟨rfl, -⟩ | ⟨blanks, -, -, rfl, -⟩ | ⟨-, -, hitems⟩⟩ := h
  · exact Form.within_nil _ _
  · -- the empty atom stands behind the blanks
    rw [charsAll, charsAll, List.append_nil, chars, List.append_nil]
    exact Form.within_singleton (Nat.le_add_right _ _) (Nat.le_refl _) (Nat.le_refl _)
  · exact within_forms hitems offset

/-- What a list takes up: its items, and what stands around them. -/
theorem units_chars_list (before gap : List Char) (items : List Layout) (closed : Bool) :
    Text.units (chars (.list before items gap closed)) =
      Text.units before + 1 + Text.units (charsAll items) + Text.units gap +
        Text.units (closing closed) := by
  have hparen : Text.width '(' = 1 := rfl
  simp only [chars, Text.units_append, Text.units_cons, hparen]
  omega

/-- The items of a list stand in it. -/
theorem fits_list {before gap rest : List Char} {items : List Layout} {closed : Bool}
    (h : Stands (.list before items gap closed) rest) (offset : Nat) :
    Group.Fits ⟨forms (offset + Text.units before + 1) items, offset + Text.units before,
      offset + Text.units (chars (.list before items gap closed))⟩ := by
  have hunits := units_chars_list before gap items closed
  refine ⟨by simp only; omega, (within_items h _).mono (Nat.le_refl _) ?_⟩
  simp only
  omega

/-- Behind the parenthesis of a list stand its items, and what follows them. -/
theorem chars_list_append (before gap rest : List Char) (items : List Layout) (closed : Bool) :
    chars (.list before items gap closed) ++ rest =
      (before ++ ['(']) ++ (charsAll items ++ (gap ++ (closing closed ++ rest))) := by
  simp [chars]

theorem units_before_paren (offset : Nat) (before : List Char) :
    offset + Text.units (before ++ ['(']) = offset + Text.units before + 1 := by
  rw [Text.units_append, ← Nat.add_assoc]
  rfl

/-- A list holds items that stand one after another, or else nothing with a list
in it. -/
theorem items_of_stands {before gap rest : List Char} {items : List Layout} {closed : Bool}
    (h : Stands (.list before items gap closed) rest) (offset : Nat) :
    StandAll items (gap ++ (closing closed ++ rest)) ∨
      groupsAll (forms offset items) = [] ∧ openAtIn? offset items = none := by
  rw [Stands] at h
  obtain ⟨-, -, ⟨rfl, -⟩ | ⟨blanks, -, -, rfl, -⟩ | ⟨-, -, hitems⟩⟩ := h
  · exact .inr ⟨rfl, rfl⟩
  · exact .inr ⟨rfl, rfl⟩
  · exact .inl hitems

mutual

/-- Each group of a layout stands in the text where the layout does. -/
theorem standsIn_of_mem_groups : ∀ {layout : Layout} {offset : Nat} {rest : List Char},
    layout.Stands rest → ∀ group ∈ groups (layout.form offset),
      group.StandsIn offset (layout.chars ++ rest)
  | .atom _ _, _, _, _, group, hgroup => by cases hgroup
  | .list before items gap closed, offset, rest, h, group, hgroup => by
    rw [form, groups] at hgroup
    rcases List.mem_cons.1 hgroup with rfl | hgroup
    · refine ⟨⟨before, charsAll items ++ (gap ++ closing closed) ++ rest, ?_, rfl⟩, ?_,
        fits_list h offset⟩
      · rw [chars, List.append_assoc, List.cons_append]
      · rw [Text.units_append]
        simp only
        omega
    · -- the items stand behind the parenthesis
      rcases items_of_stands h (offset + Text.units before + 1) with hitems | ⟨hnone, -⟩
      · rw [← units_before_paren] at hgroup
        rw [chars_list_append]
        exact (standsIn_of_mem_groupsAll hitems group hgroup).append _
      · rw [hnone] at hgroup
        cases hgroup

theorem standsIn_of_mem_groupsAll : ∀ {items : List Layout} {offset : Nat} {rest : List Char},
    StandAll items rest → ∀ group ∈ groupsAll (forms offset items),
      group.StandsIn offset (charsAll items ++ rest)
  | [], _, _, _, group, hgroup => by cases hgroup
  | item :: items, offset, rest, h, group, hgroup => by
    rw [StandAll] at h
    rw [forms, groupsAll] at hgroup
    rw [charsAll, List.append_assoc]
    rcases List.mem_append.1 hgroup with hgroup | hgroup
    · exact standsIn_of_mem_groups h.1 group hgroup
    · exact (standsIn_of_mem_groupsAll h.2 group hgroup).append _

end

end Layout

namespace Piece

open Form (Within groupsAll)

theorem units_chars_stray (before : List Char) :
    Text.units (chars (.stray before)) = Text.units before + 1 :=
  Text.units_append _ _

/-- **The forms of a text stand in it one behind the other.** -/
theorem within_forms {pieces : List Piece} {gap : List Char} (h : Laid pieces gap)
    (afterStray : Bool) (offset : Nat) :
    Within offset (offset + Text.units (charsAll pieces ++ gap))
      (forms afterStray offset gap pieces) := by
  induction pieces generalizing afterStray offset with
  | nil =>
    rw [forms]
    split
    · exact Form.within_singleton (Nat.le_add_right _ _) (Nat.le_refl _) (Nat.le_refl _)
    · exact Form.within_nil _ _
  | cons piece pieces ih =>
    have hunits : offset + Text.units (charsAll (piece :: pieces) ++ gap) =
        offset + Text.units piece.chars + Text.units (charsAll pieces ++ gap) := by
      rw [charsAll, List.append_assoc, Text.units_append, Nat.add_assoc]
    rw [hunits]
    cases piece with
    | form layout =>
      rw [Laid] at h
      obtain ⟨hlow, hlt, hstop⟩ := h.1.bounds offset
      have hmore := ih h.2 false (offset + Text.units layout.chars)
      rw [forms, chars]
      rw [← hstop] at hmore ⊢
      exact hmore.cons hlow (Nat.le_of_lt hlt) hlt (Nat.le_refl _) (Nat.le_add_right _ _)
    | stray before =>
      rw [Laid] at h
      have hmore := ih h.2 true (offset + Text.units (chars (.stray before)))
      rw [forms, ← chars]
      rw [units_chars_stray, ← Nat.add_assoc] at hmore ⊢
      exact hmore.cons (Nat.le_add_right _ _) (Nat.le_refl _) (Nat.lt_succ_self _)
        (Nat.le_succ _) (Nat.le_add_right _ _)

/-- **Each group of a text stands in it.** -/
theorem standsIn_of_mem_groupsAll {pieces : List Piece} {gap : List Char}
    (h : Laid pieces gap) {afterStray : Bool} {offset : Nat} :
    ∀ group ∈ groupsAll (forms afterStray offset gap pieces),
      group.StandsIn offset (charsAll pieces ++ gap) := by
  induction pieces generalizing afterStray offset with
  | nil =>
    intro group hgroup
    rw [forms] at hgroup
    split at hgroup <;> cases hgroup
  | cons piece pieces ih =>
    intro group hgroup
    rw [charsAll, List.append_assoc]
    cases piece with
    | form layout =>
      rw [Laid] at h
      rw [forms, groupsAll] at hgroup
      rcases List.mem_append.1 hgroup with hgroup | hgroup
      · exact Layout.standsIn_of_mem_groups h.1 group hgroup
      · exact (ih h.2 group hgroup).append _
    | stray before =>
      rw [Laid] at h
      exact (ih h.2 group hgroup).append _

end Piece

end SatScript
