import SatScript.Proofs.Layout.Replacement
/-!
# SatScript — where the atoms of a text stand

The leaves of a form are its atoms in the order of the text. This file
says where the leaves of a text stand: each at its own offset, later ones
further on (`ordered_leavesAll`), and at its offset stands its text
(`standsIn_of_mem_leavesAll`). So an offset at which an atom begins tells
the atom, which is what makes it possible to speak of the atoms to be
edited by where they begin.
-/

namespace SatScript

/-- An atom and where it stands. -/
structure Leaf where
  text : String
  start : Nat
  stop : Nat
deriving DecidableEq

namespace Leaf

/-- The leaves begin one behind the other. -/
def Ordered (leaves : List Leaf) : Prop :=
  leaves.Pairwise fun first second => first.start < second.start

/-- In a text that is looked at from an offset on, the text of the leaf stands
where the leaf does. -/
def StandsIn (leaf : Leaf) (offset : Nat) (cs : List Char) : Prop :=
  ∃ before rest, cs = before ++ (leaf.text.toList ++ rest) ∧
    leaf.start = offset + Text.units before ∧
    leaf.stop = leaf.start + Text.units leaf.text.toList ∧
    (leaf.text ≠ "" → AtomStands leaf.text.toList rest)

/-- What stands in a text stands in a longer one that ends with it. -/
theorem StandsIn.append {leaf : Leaf} {offset : Nat} {cs : List Char} (before : List Char)
    (h : leaf.StandsIn (offset + Text.units before) cs) :
    leaf.StandsIn offset (before ++ cs) := by
  obtain ⟨before', rest, rfl, hstart, hstop, hatom⟩ := h
  refine ⟨before ++ before', rest, by rw [List.append_assoc], ?_, hstop, hatom⟩
  rw [hstart, Text.units_append, Nat.add_assoc]

/-- Leaves that begin at one offset are one leaf. -/
theorem Ordered.eq_of_start_eq {leaves : List Leaf} (h : Ordered leaves) {leaf other : Leaf}
    (hleaf : leaf ∈ leaves) (hother : other ∈ leaves) (heq : leaf.start = other.start) :
    leaf = other := by
  induction leaves with
  | nil => cases hleaf
  | cons first leaves ih =>
    obtain ⟨hfirst, hleaves⟩ := List.pairwise_cons.1 h
    rcases List.mem_cons.1 hleaf with rfl | hin
    · rcases List.mem_cons.1 hother with rfl | hin'
      · rfl
      · exact absurd heq (Nat.ne_of_lt (hfirst other hin'))
    · rcases List.mem_cons.1 hother with rfl | hin'
      · exact absurd heq.symm (Nat.ne_of_lt (hfirst leaf hin))
      · exact ih hleaves hin hin'

end Leaf

namespace Form

mutual

/-- The atoms of a form. -/
def leaves : Form → List Leaf
  | .atom text start stop => [⟨text, start, stop⟩]
  | .list items _ _ => leavesAll items

/-- The atoms of forms one after another. -/
def leavesAll : List Form → List Leaf
  | [] => []
  | form :: forms => leaves form ++ leavesAll forms

end

@[simp] theorem leavesAll_append (forms more : List Form) :
    leavesAll (forms ++ more) = leavesAll forms ++ leavesAll more := by
  induction forms with
  | nil => rfl
  | cons form forms ih => simp [leavesAll, ih]

end Form

namespace Layout

open Form (leaves leavesAll)

mutual

/-- The leaves of a layout begin in it, one behind the other. Only where the
text ends with the layout the last may begin at its end. -/
theorem ordered_leaves : ∀ {layout : Layout} {offset : Nat} {rest : List Char},
    layout.Stands rest →
      Leaf.Ordered (leaves (layout.form offset)) ∧
      ∀ leaf ∈ leaves (layout.form offset), offset ≤ leaf.start ∧
        (rest ≠ [] → leaf.start < offset + Text.units layout.chars)
  | .atom before text, offset, rest, h => by
    rw [Stands] at h
    obtain ⟨c, cs, rfl, -⟩ := h.2.exists_cons
    have hpos := Text.width_pos c
    rw [form, leaves, chars]
    refine ⟨List.pairwise_singleton _ _, fun leaf hleaf => ?_⟩
    rw [List.mem_singleton.1 hleaf]
    simp only [Text.units_append, Text.units_cons]
    omega
  | .list before items gap closed, offset, rest, h => by
    rw [Stands] at h
    obtain ⟨-, hend, hfilled⟩ := h
    have hpos := Text.width_pos '('
    have hw : Text.width '(' = 1 := rfl
    rw [form, leaves, chars]
    rcases hfilled with ⟨rfl, rfl⟩ | ⟨blanks, -, -, rfl, rfl⟩ | ⟨-, -, hitems⟩
    · exact ⟨List.Pairwise.nil, fun leaf hleaf => by cases hleaf⟩
    · -- behind the empty atom stands the closing parenthesis
      refine ⟨List.pairwise_singleton _ _, fun leaf hleaf => ?_⟩
      rw [List.mem_singleton.1 hleaf]
      refine ⟨by simp only; omega, fun hrest => ?_⟩
      cases closed with
      | false => exact absurd (hend rfl) hrest
      | true =>
        have hclose : Text.units (closing true) = 1 := rfl
        simp only [charsAll, chars, Text.units_append, Text.units_cons, Text.units_nil, hclose, hw]
        omega
    · obtain ⟨hordered, hbounds⟩ := @ordered_leavesAll _ (offset + Text.units before + 1) _ hitems
      refine ⟨hordered, fun leaf hleaf => ?_⟩
      obtain ⟨hlow, hhigh⟩ := hbounds leaf hleaf
      refine ⟨by omega, fun hrest => ?_⟩
      have hmore : gap ++ (closing closed ++ rest) ≠ [] := by simp [hrest]
      have hlt := hhigh hmore
      simp only [Text.units_append, Text.units_cons, hw]
      omega

/-- The leaves of layouts one after another begin in them, one behind the
other. -/
theorem ordered_leavesAll : ∀ {items : List Layout} {offset : Nat} {rest : List Char},
    StandAll items rest →
      Leaf.Ordered (leavesAll (forms offset items)) ∧
      ∀ leaf ∈ leavesAll (forms offset items), offset ≤ leaf.start ∧
        (rest ≠ [] → leaf.start < offset + Text.units (charsAll items))
  | [], _, _, _ => ⟨List.Pairwise.nil, fun leaf hleaf => by cases hleaf⟩
  | item :: items, offset, rest, h => by
    rw [StandAll] at h
    obtain ⟨hitem, hitems⟩ := h
    obtain ⟨hfirst, hfirstBounds⟩ := @ordered_leaves _ offset _ hitem
    obtain ⟨hmore, hmoreBounds⟩ :=
      @ordered_leavesAll _ (offset + Text.units item.chars) _ hitems
    rw [forms, leavesAll, charsAll]
    -- a leaf of the first item begins before the next item does
    refine ⟨List.pairwise_append.2 ⟨hfirst, hmore, fun leaf hleaf other hother => ?_⟩,
      fun leaf hleaf => ?_⟩
    · cases items with
      | nil => cases hother
      | cons next items =>
        have hne : charsAll (next :: items) ++ rest ≠ [] := by
          rw [StandAll] at hitems
          simp [charsAll, hitems.1.chars_ne_nil]
        have hlt := (hfirstBounds leaf hleaf).2 hne
        have hle := (hmoreBounds other hother).1
        omega
    · simp only [Text.units_append]
      rcases List.mem_append.1 hleaf with hleaf | hleaf
      · obtain ⟨hlow, hhigh⟩ := hfirstBounds leaf hleaf
        refine ⟨hlow, fun hrest => ?_⟩
        have hlt := hhigh (by simp [hrest])
        omega
      · obtain ⟨hlow, hhigh⟩ := hmoreBounds leaf hleaf
        refine ⟨by omega, fun hrest => ?_⟩
        have hlt := hhigh hrest
        omega

end

mutual

/-- The text of each leaf of a layout stands where the leaf does. -/
theorem standsIn_of_mem_leaves : ∀ {layout : Layout} {offset : Nat} {rest : List Char},
    layout.Stands rest → ∀ leaf ∈ leaves (layout.form offset),
      leaf.StandsIn offset (layout.chars ++ rest)
  | .atom before text, offset, rest, h, leaf, hleaf => by
    rw [Stands] at h
    rw [form, leaves, List.mem_singleton] at hleaf
    subst hleaf
    refine ⟨before, rest, ?_, rfl, ?_, fun _ => ?_⟩
    · rw [chars, String.toList_ofList, List.append_assoc]
    · simp only [String.toList_ofList]
    · simpa only [String.toList_ofList] using h.2
  | .list before items gap closed, offset, rest, h, leaf, hleaf => by
    rw [Stands] at h
    obtain ⟨-, -, hfilled⟩ := h
    rw [form, leaves] at hleaf
    -- the items stand behind the parenthesis
    have hchars : (Layout.list before items gap closed).chars ++ rest =
        (before ++ ['(']) ++ (charsAll items ++ (gap ++ (closing closed ++ rest))) := by
      simp [chars]
    have hparen : offset + Text.units (before ++ ['(']) = offset + Text.units before + 1 := by
      rw [Text.units_append, ← Nat.add_assoc]
      rfl
    rw [hchars]
    refine Leaf.StandsIn.append _ ?_
    rw [hparen]
    rcases hfilled with ⟨rfl, rfl⟩ | ⟨blanks, -, -, rfl, rfl⟩ | ⟨-, -, hitems⟩
    · cases hleaf
    · rw [forms, forms, form, leavesAll, leavesAll, leaves, List.append_nil,
        List.mem_singleton] at hleaf
      subst hleaf
      exact ⟨blanks, closing closed ++ rest, by simp [charsAll, chars], rfl, rfl,
        fun hne => absurd rfl hne⟩
    · exact standsIn_of_mem_leavesAll hitems leaf hleaf

theorem standsIn_of_mem_leavesAll : ∀ {items : List Layout} {offset : Nat} {rest : List Char},
    StandAll items rest → ∀ leaf ∈ leavesAll (forms offset items),
      leaf.StandsIn offset (charsAll items ++ rest)
  | [], _, _, _, leaf, hleaf => by cases hleaf
  | item :: items, offset, rest, h, leaf, hleaf => by
    rw [StandAll] at h
    rw [forms, leavesAll] at hleaf
    rw [charsAll, List.append_assoc]
    rcases List.mem_append.1 hleaf with hleaf | hleaf
    · exact standsIn_of_mem_leaves h.1 leaf hleaf
    · exact (standsIn_of_mem_leavesAll h.2 leaf hleaf).append _

end

end Layout

namespace Piece

open Form (leavesAll)

/-- **The atoms of a text stand one behind the other.** -/
theorem ordered_leavesAll {afterStray : Bool} {pieces : List Piece} {gap : List Char}
    {offset : Nat} (h : Laid pieces gap) :
    Leaf.Ordered (leavesAll (forms afterStray offset gap pieces)) ∧
      ∀ leaf ∈ leavesAll (forms afterStray offset gap pieces), offset ≤ leaf.start := by
  induction pieces generalizing afterStray offset with
  | nil =>
    rw [forms]
    split
    · refine ⟨List.pairwise_singleton _ _, fun leaf hleaf => ?_⟩
      rw [List.mem_singleton.1 hleaf]
      exact Nat.le_add_right _ _
    · exact ⟨List.Pairwise.nil, fun leaf hleaf => by cases hleaf⟩
  | cons piece pieces ih =>
    cases piece with
    | form layout =>
      rw [Laid] at h
      obtain ⟨hfirst, hbounds⟩ := @Layout.ordered_leaves _ offset _ h.1
      obtain ⟨hmore, hmoreBounds⟩ := @ih false (offset + Text.units layout.chars) h.2
      rw [forms, leavesAll]
      refine ⟨List.pairwise_append.2 ⟨hfirst, hmore, fun leaf hleaf other hother => ?_⟩,
        fun leaf hleaf => ?_⟩
      · -- behind the last layout of a text no atom begins
        have hne : charsAll pieces ++ gap ≠ [] := by
          intro hnil
          obtain ⟨hpieces, rfl⟩ := List.append_eq_nil_iff.1 hnil
          cases pieces with
          | nil => simp [forms, leavesAll] at hother
          | cons next pieces =>
            cases next with
            | form layout' =>
              rw [Laid] at h
              exact h.2.1.chars_ne_nil (List.append_eq_nil_iff.1 hpieces).1
            | stray before =>
              simp [charsAll, chars] at hpieces
        have hlt := (hbounds leaf hleaf).2 hne
        have hle := hmoreBounds other hother
        omega
      · rcases List.mem_append.1 hleaf with hleaf | hleaf
        · exact (hbounds leaf hleaf).1
        · have hle := hmoreBounds leaf hleaf
          omega
    | stray before =>
      rw [Laid] at h
      obtain ⟨hmore, hmoreBounds⟩ := @ih true (offset + Text.units (before ++ [')'])) h.2
      have hclose : Text.units [')'] = 1 := rfl
      rw [Text.units_append, hclose] at hmore hmoreBounds
      rw [forms, leavesAll, Reader.emptyAtom, Form.leaves, Text.units_append, hclose]
      refine ⟨List.pairwise_cons.2 ⟨fun leaf hleaf => ?_, hmore⟩, fun leaf hleaf => ?_⟩
      · have hle := hmoreBounds leaf hleaf
        simp only
        omega
      · rcases List.mem_cons.1 hleaf with rfl | hleaf
        · exact Nat.le_add_right _ _
        · have hle := hmoreBounds leaf hleaf
          omega

/-- **The text of each atom of a text stands where the atom does.** -/
theorem standsIn_of_mem_leavesAll {afterStray : Bool} {pieces : List Piece} {gap : List Char}
    {offset : Nat} (h : Laid pieces gap) :
    ∀ leaf ∈ leavesAll (forms afterStray offset gap pieces),
      leaf.StandsIn offset (charsAll pieces ++ gap) := by
  induction pieces generalizing afterStray offset with
  | nil =>
    intro leaf hleaf
    rw [forms] at hleaf
    split at hleaf
    · rw [leavesAll, leavesAll, List.append_nil, Reader.emptyAtom, Form.leaves,
        List.mem_singleton] at hleaf
      subst hleaf
      exact ⟨gap, [], by simp [charsAll], rfl, rfl, fun hne => absurd rfl hne⟩
    · cases hleaf
  | cons piece pieces ih =>
    intro leaf hleaf
    rw [charsAll, List.append_assoc]
    cases piece with
    | form layout =>
      rw [Laid] at h
      rw [forms, leavesAll] at hleaf
      rcases List.mem_append.1 hleaf with hleaf | hleaf
      · exact Layout.standsIn_of_mem_leaves h.1 leaf hleaf
      · exact (ih h.2 leaf hleaf).append _
    | stray before =>
      rw [Laid] at h
      rw [forms, leavesAll, Reader.emptyAtom, Form.leaves] at hleaf
      rcases List.mem_append.1 hleaf with hleaf | hleaf
      · rw [List.mem_singleton] at hleaf
        subst hleaf
        exact ⟨before, ')' :: (charsAll pieces ++ gap), by simp [chars], rfl, rfl,
          fun hne => absurd rfl hne⟩
      · exact (ih h.2 leaf hleaf).append _

end Piece

/-! ## The edits of leaves -/

namespace Leaf

/-- The edit that gives an atom a new text. -/
def edit (newText : String) (leaf : Leaf) : Edit := ⟨leaf.start, leaf.stop, newText⟩

/-- The leaves that are marked; the empty atom never is. -/
def marked (mark : Nat → Bool) (leaves : List Leaf) : List Leaf :=
  leaves.filter fun leaf => leaf.text != "" && mark leaf.start

@[simp] theorem marked_append (mark : Nat → Bool) (leaves more : List Leaf) :
    marked mark (leaves ++ more) = marked mark leaves ++ marked mark more := List.filter_append ..

end Leaf

namespace Layout

variable {mark : Nat → Bool} {newText : String}

mutual

/-- The edits of the parts of a layout are those of its marked leaves. -/
theorem edits_parts : ∀ (layout : Layout) (offset : Nat),
    Part.edits newText offset (layout.parts mark offset) =
      (Leaf.marked mark (layout.form offset).leaves).map (Leaf.edit newText)
  | .atom before text, offset => by
    have hempty : String.ofList text = "" ↔ text = [] := by
      rw [← String.toList_inj, String.toList_ofList]
      rfl
    rw [parts, Part.edits, form, Form.leaves, Leaf.marked, Part.ofAtom]
    by_cases h : text ≠ [] ∧ mark (offset + Text.units before) = true
    · rw [if_pos h]
      simp [Part.edits, Leaf.edit, hempty, h.1, h.2]
    · rw [if_neg h]
      have hnot : (String.ofList text != "" && mark (offset + Text.units before)) = false := by
        simpa [hempty] using h
      simp [Part.edits, hnot]
  | .list before items gap closed, offset => by
    have hparen : offset + Text.units (before ++ ['(']) = offset + Text.units before + 1 := by
      rw [Text.units_append, ← Nat.add_assoc]
      rfl
    rw [parts, Part.edits, form, Form.leaves, Part.edits_append, hparen, edits_partsAll items,
      Part.edits, Part.edits, List.append_nil]

theorem edits_partsAll : ∀ (items : List Layout) (offset : Nat),
    Part.edits newText offset (partsAll mark offset items) =
      (Leaf.marked mark (Form.leavesAll (forms offset items))).map (Leaf.edit newText)
  | [], _ => rfl
  | item :: items, offset => by
    rw [partsAll, Part.edits_append, edits_parts item, join_parts, edits_partsAll items, forms,
      Form.leavesAll, Leaf.marked_append, List.map_append]

end

end Layout

namespace Piece

variable {mark : Nat → Bool} {newText : String}

/-- **The edits of the parts of a text are those of its marked atoms.** -/
theorem edits_parts (afterStray : Bool) (pieces : List Piece) (gap : List Char) (offset : Nat) :
    Part.edits newText offset (parts mark offset pieces) =
      (Leaf.marked mark (Form.leavesAll (forms afterStray offset gap pieces))).map
        (Leaf.edit newText) := by
  induction pieces generalizing afterStray offset with
  | nil =>
    rw [forms]
    split <;> rfl
  | cons piece pieces ih =>
    cases piece with
    | form layout =>
      rw [parts, Part.edits_append, Layout.edits_parts, Layout.join_parts, ih false, forms,
        Form.leavesAll, Leaf.marked_append, List.map_append]
    | stray before =>
      rw [parts, Part.edits, ih true, forms, Form.leavesAll, Leaf.marked_append]
      rfl

end Piece

end SatScript
