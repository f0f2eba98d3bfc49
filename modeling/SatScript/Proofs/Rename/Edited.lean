import SatScript.Proofs.Layout.Leaves
import SatScript.Rename.Basic
/-!
# SatScript — forms after edits

What edits of a text are meant to do to its forms: the atoms whose ranges
are replaced get the new text, and everything comes to lie where the edits
before it move it. `Form.edit` says so without looking at the text.
`forms_replace` is the link to the text: the forms of a layout with a new
text for some atoms are the forms of the layout after the edits of these
atoms.
-/

namespace SatScript

namespace Renaming

/-- What an edit adds to the measure of a text. -/
def growth (edit : Edit) : Int :=
  Text.units edit.newText.toList - (edit.stop - edit.start)

/-- What edits add to the measure of a text. -/
def total : List Edit → Int
  | [] => 0
  | edit :: edits => growth edit + total edits

@[simp] theorem total_nil : total [] = 0 := rfl

@[simp] theorem total_cons (edit : Edit) (edits : List Edit) :
    total (edit :: edits) = growth edit + total edits := rfl

@[simp] theorem total_append (edits more : List Edit) :
    total (edits ++ more) = total edits + total more := by
  induction edits with
  | nil => simp
  | cons edit edits ih =>
    rw [List.cons_append, total_cons, total_cons, ih]
    omega

@[simp] theorem total_singleton (edit : Edit) : total [edit] = growth edit := by
  simp

/-- An offset is moved by what the edits that end before it add. -/
theorem shift_eq (edits : List Edit) (offset : Int) :
    shift edits offset = offset + total (edits.filter fun edit => edit.stop ≤ offset) := by
  -- the sum so far is arbitrary, so that the induction goes through
  have hfold : ∀ shifted : Int,
      edits.foldl (fun (shifted : Int) (edit : Edit) =>
        if edit.stop ≤ offset then
          shifted + (Text.units edit.newText.toList - (edit.stop - edit.start))
        else shifted) shifted =
      shifted + total (edits.filter fun edit => edit.stop ≤ offset) := by
    induction edits with
    | nil => intro shifted; simp
    | cons edit edits ih =>
      intro shifted
      rw [List.foldl_cons, ih]
      by_cases h : edit.stop ≤ offset
      · simp only [h, if_true, List.filter_cons, decide_true, total_cons, growth]
        omega
      · simp [h]
  exact hfold offset

/-- Edits before an offset move it, and edits behind it do not. -/
theorem shift_append {before after : List Edit} {offset : Int}
    (hbefore : ∀ edit ∈ before, edit.stop ≤ offset) (hafter : ∀ edit ∈ after, offset < edit.stop) :
    shift (before ++ after) offset = offset + total before := by
  have hkeep : (before.filter fun edit => edit.stop ≤ offset) = before :=
    List.filter_eq_self.2 fun edit hedit => decide_eq_true (hbefore edit hedit)
  have hdrop : (after.filter fun edit => edit.stop ≤ offset) = [] :=
    List.filter_eq_nil_iff.2 fun edit hedit => by
      have hlt := hafter edit hedit
      simp only [decide_eq_true_eq]
      omega
  rw [shift_eq, List.filter_append, hkeep, hdrop, List.append_nil]

/-- What the edits of parts add. -/
theorem total_edits (newText : String) (parts : List Part) (offset : Nat) :
    total (Part.edits newText offset parts) =
      Text.units (Part.joinWith newText.toList parts) - Text.units (Part.join parts) := by
  induction parts generalizing offset with
  | nil => rfl
  | cons part parts ih =>
    cases part with
    | kept text =>
      rw [Part.edits, ih, Part.joinWith_cons, Part.join_cons, Part.textWith_kept, Part.text_kept,
        Text.units_append, Text.units_append]
      omega
    | changed text =>
      rw [Part.edits, total_cons, ih, growth, Part.joinWith_cons, Part.join_cons,
        Part.textWith_changed, Part.text_changed, Text.units_append, Text.units_append]
      simp only
      omega

/-- The edits of parts move no offset to before the parts. -/
theorem le_shift_edits (newText : String) (parts : List Part) (base : Nat) (offset : Int) :
    min (base : Int) offset ≤ shift (Part.edits newText base parts) offset := by
  rw [shift_eq]
  induction parts generalizing base with
  | nil =>
    simp only [Part.edits, List.filter_nil, total_nil]
    omega
  | cons part parts ih =>
    cases part with
    | kept text =>
      have hmore := ih (base + Text.units text)
      rw [Part.edits]
      omega
    | changed text =>
      have hmore := ih (base + Text.units text)
      rw [Part.edits, List.filter_cons]
      split
      · -- the edit takes away no more than the part
        rename_i hstop
        simp only [decide_eq_true_eq] at hstop
        rw [total_cons, growth]
        simp only
        omega
      · omega

/-- The edits of the parts of a text move no offset to before the text. -/
theorem shift_edits_nonneg (newText : String) (parts : List Part) {offset : Int}
    (h : 0 ≤ offset) : 0 ≤ shift (Part.edits newText 0 parts) offset := by
  have hle := le_shift_edits newText parts 0 offset
  omega

end Renaming

namespace Form

/-- Where an offset comes to lie. -/
def shifted (edits : List Edit) (offset : Nat) : Nat := (Renaming.shift edits offset).toNat

/-- The text of an atom after edits: if its range is replaced, the new one. -/
def editedText (edits : List Edit) (text : String) (start stop : Nat) : String :=
  match edits.find? fun edit => edit.start == (start : Int) && edit.stop == (stop : Int) with
  | some edit => edit.newText
  | none => text

mutual

/-- The form after edits of atoms. -/
def edit (edits : List Edit) : Form → Form
  | .atom text start stop =>
    .atom (editedText edits text start stop) (shifted edits start) (shifted edits stop)
  | .list items start stop =>
    .list (editAll edits items) (shifted edits start) (shifted edits stop)

/-- The forms after edits of atoms. -/
def editAll (edits : List Edit) : List Form → List Form
  | [] => []
  | form :: forms => edit edits form :: editAll edits forms

end

/-- Where an offset comes to lie, given the edits before it and those behind
it. -/
theorem shifted_append {before after : List Edit} {offset offset' : Nat}
    (hbefore : ∀ edit ∈ before, edit.stop ≤ offset) (hafter : ∀ edit ∈ after, offset < edit.stop)
    (h : (offset' : Int) = offset + Renaming.total before) :
    shifted (before ++ after) offset = offset' := by
  rw [shifted, Renaming.shift_append hbefore hafter, ← h, Int.toNat_natCast]

/-- An atom whose range is replaced gets the new text. -/
theorem editedText_of_eq {before after : List Edit} {found : Edit} {text : String}
    {start stop : Nat} (hbefore : ∀ edit ∈ before, edit.start < start)
    (hstart : found.start = start) (hstop : found.stop = stop) :
    editedText (before ++ found :: after) text start stop = found.newText := by
  have hnone : (before.find? fun edit => edit.start == (start : Int) && edit.stop == (stop : Int)) =
      none :=
    List.find?_eq_none.2 fun edit hedit => by
      have hlt := hbefore edit hedit
      simp only [Bool.and_eq_true, beq_iff_eq, not_and]
      omega
  have hfound : (found.start == (start : Int) && found.stop == (stop : Int)) = true := by
    simp [hstart, hstop]
  rw [editedText, List.find?_append, hnone, Option.none_or, List.find?_cons, hfound]

/-- An atom whose range is that of an edit gets the new text, if all edits have
the same. -/
theorem editedText_of_mem {edits : List Edit} {found : Edit} {text newText : String}
    {start stop : Nat} (hall : ∀ edit ∈ edits, edit.newText = newText) (hmem : found ∈ edits)
    (hstart : found.start = start) (hstop : found.stop = stop) :
    editedText edits text start stop = newText := by
  rw [editedText]
  cases hfind : edits.find? fun edit =>
      edit.start == (start : Int) && edit.stop == (stop : Int) with
  | some edit => exact hall edit (List.mem_of_find?_eq_some hfind)
  | none =>
    have hnone := List.find?_eq_none.1 hfind found hmem
    simp [hstart, hstop] at hnone

/-- An atom whose range is not replaced keeps its text. -/
theorem editedText_of_ne {edits : List Edit} {text : String} {start stop : Nat}
    (h : ∀ edit ∈ edits, ¬ (edit.start = start ∧ edit.stop = stop)) :
    editedText edits text start stop = text := by
  have hnone : (edits.find? fun edit => edit.start == (start : Int) && edit.stop == (stop : Int)) =
      none :=
    List.find?_eq_none.2 fun edit hedit => by simpa using h edit hedit
  rw [editedText, hnone]

end Form

namespace Layout

/-- The edits before a layout and those behind it. -/
structure Beside (before after : List Edit) (start stop : Nat) : Prop where
  before : ∀ edit ∈ before, edit.start < edit.stop ∧ edit.stop ≤ start
  after : ∀ edit ∈ after, (stop : Int) ≤ edit.start ∧ edit.start < edit.stop

variable {marked : Nat → Bool} {newText : String}

/-- The edits of the parts of a text replace something each. -/
theorem start_lt_stop_of_mem_edits {parts : List Part} {rest : List Char} {offset : Nat}
    {edit : Edit} (h : Part.Each AtomStands parts rest)
    (hmem : edit ∈ Part.edits newText offset parts) :
    edit.start < edit.stop := by
  induction parts generalizing offset with
  | nil => cases hmem
  | cons part parts ih =>
    cases part with
    | kept text => exact ih h hmem
    | changed text =>
      rcases List.mem_cons.1 hmem with rfl | hmem
      · obtain ⟨c, cs, rfl, -⟩ := h.1.exists_cons
        have hpos := Text.width_pos c
        simp only [Text.units_cons]
        omega
      · exact ih h.2 hmem

theorem Beside.before_lt {before after : List Edit} {start stop p : Nat}
    (h : Beside before after start stop) (hp : start ≤ p) :
    ∀ edit ∈ before, edit.start < p ∧ edit.stop ≤ p := by
  intro edit hedit
  have hle := h.before edit hedit
  omega

theorem Beside.lt_after {before after : List Edit} {start stop p : Nat}
    (h : Beside before after start stop) (hp : p ≤ stop) :
    ∀ edit ∈ after, (p : Int) < edit.stop := by
  intro edit hedit
  have hle := h.after edit hedit
  omega

theorem Beside.narrow {before after : List Edit} {start stop start' stop' : Nat}
    (h : Beside before after start stop) (hstart : start ≤ start') (hstop : stop' ≤ stop) :
    Beside before after start' stop' := by
  refine ⟨fun edit hedit => ?_, fun edit hedit => ?_⟩
  · have hbefore := h.before edit hedit
    omega
  · have hafter := h.after edit hedit
    omega

/-- An offset in a layout that no edit of the layout moves. -/
theorem Beside.shifted_of_lt {before edits after : List Edit} {start stop p p' : Nat}
    (h : Beside before after start stop) (hstart : start ≤ p) (hstop : p ≤ stop)
    (hedits : ∀ edit ∈ edits, p < edit.stop) (hp : (p' : Int) = p + Renaming.total before) :
    Form.shifted (before ++ (edits ++ after)) p = p' := by
  refine Form.shifted_append (fun edit hedit => (h.before_lt hstart edit hedit).2) ?_ hp
  intro edit hedit
  rcases List.mem_append.1 hedit with hedit | hedit
  · exact hedits edit hedit
  · exact h.lt_after hstop edit hedit

/-- An offset in a layout that all edits of the layout move. -/
theorem Beside.shifted_of_le {before edits after : List Edit} {start stop p p' : Nat}
    (h : Beside before after start stop) (hstart : start ≤ p) (hstop : p ≤ stop)
    (hedits : ∀ edit ∈ edits, edit.stop ≤ p)
    (hp : (p' : Int) = p + Renaming.total before + Renaming.total edits) :
    Form.shifted (before ++ (edits ++ after)) p = p' := by
  rw [← List.append_assoc]
  refine Form.shifted_append ?_ (h.lt_after hstop) (by rw [hp, Renaming.total_append]; omega)
  intro edit hedit
  rcases List.mem_append.1 hedit with hedit | hedit
  · exact (h.before_lt hstart edit hedit).2
  · exact hedits edit hedit

/-- An atom whose range is replaced. -/
theorem Beside.edit_changed {before after : List Edit} {start stop p q p' : Nat} {text : String}
    (h : Beside before after start stop) (hstart : start ≤ p) (hlt : p < q) (hstop : q ≤ stop)
    (hp : (p' : Int) = p + Renaming.total before) :
    (Form.atom text p q).edit (before ++ ([⟨p, q, newText⟩] ++ after)) =
      .atom newText p' (p' + Text.units newText.toList) := by
  have htext : Form.editedText (before ++ ⟨p, q, newText⟩ :: after) text p q = newText :=
    Form.editedText_of_eq (fun edit hedit => (h.before_lt hstart edit hedit).1) rfl rfl
  have hbegin : Form.shifted (before ++ ([⟨p, q, newText⟩] ++ after)) p = p' := by
    refine h.shifted_of_lt hstart (by omega) (fun edit hedit => ?_) hp
    rw [List.mem_singleton.1 hedit]
    simp only
    omega
  have hend : Form.shifted (before ++ ([⟨p, q, newText⟩] ++ after)) q =
      p' + Text.units newText.toList := by
    refine h.shifted_of_le (by omega) hstop (fun edit hedit => ?_) ?_
    · exact Int.le_of_eq (by rw [List.mem_singleton.1 hedit])
    · rw [Renaming.total_singleton, Renaming.growth]
      simp only
      omega
  rw [Form.edit, hbegin, hend, List.singleton_append, htext]

/-- An atom whose range is not replaced. -/
theorem Beside.edit_kept {before after : List Edit} {start stop p q p' q' : Nat} {text : String}
    (h : Beside before after start stop) (hstart : start ≤ p) (hle : p ≤ q) (hstop : q ≤ stop)
    (hp : (p' : Int) = p + Renaming.total before) (hq : (q' : Int) = q + Renaming.total before) :
    (Form.atom text p q).edit (before ++ ([] ++ after)) = .atom text p' q' := by
  have htext : Form.editedText (before ++ ([] ++ after)) text p q = text := by
    refine Form.editedText_of_ne fun edit hedit => ?_
    rcases List.mem_append.1 hedit with hedit | hedit
    · have hlt := (h.before_lt hstart edit hedit).1
      omega
    · have hafter := h.after edit hedit
      omega
  have hnone : ∀ r : Nat, ∀ edit ∈ ([] : List Edit), (r : Int) < edit.stop :=
    fun _ _ hedit => by cases hedit
  rw [Form.edit, htext, h.shifted_of_lt hstart (by omega) (hnone p) hp,
    h.shifted_of_lt (by omega) hstop (hnone q) hq]

/-- A list with edits in it. -/
theorem Beside.edit_list {before edits after : List Edit} {start stop p q p' q' : Nat}
    {items : List Form} (h : Beside before after start stop) (hstart : start ≤ p) (hle : p ≤ q)
    (hstop : q ≤ stop) (hedits : ∀ edit ∈ edits, p < edit.stop ∧ edit.stop ≤ q)
    (hp : (p' : Int) = p + Renaming.total before)
    (hq : (q' : Int) = q + Renaming.total before + Renaming.total edits) :
    (Form.list items p q).edit (before ++ (edits ++ after)) =
      .list (Form.editAll (before ++ (edits ++ after)) items) p' q' := by
  rw [Form.edit,
    h.shifted_of_lt hstart (by omega) (fun edit hedit => (hedits edit hedit).1) hp,
    h.shifted_of_le (by omega) hstop (fun edit hedit => (hedits edit hedit).2) hq]

/-- The edits of a list are those of its items. -/
theorem edits_parts_list (blanks gap : List Char) (items : List Layout) (closed : Bool)
    (offset : Nat) :
    Part.edits newText offset ((Layout.list blanks items gap closed).parts marked offset) =
      Part.edits newText (offset + Text.units blanks + 1)
        (partsAll marked (offset + Text.units blanks + 1) items) := by
  have hparen : offset + Text.units (blanks ++ ['(']) = offset + Text.units blanks + 1 := by
    rw [Text.units_append, ← Nat.add_assoc]
    rfl
  rw [parts, Part.edits, hparen, Part.edits_append, Part.edits, Part.edits, List.append_nil]

/-- The edits of layouts lie in them. -/
theorem mem_edits_partsAll {items : List Layout} {rest : List Char} {offset : Nat} {edit : Edit}
    (h : StandAll items rest)
    (hedit : edit ∈ Part.edits newText offset (partsAll marked offset items)) :
    (offset : Int) ≤ edit.start ∧ edit.start < edit.stop ∧
      edit.stop ≤ (offset + Text.units (charsAll items) : Nat) := by
  obtain ⟨hlow, -, hhigh⟩ := Part.mem_edits_bounds hedit
  rw [join_partsAll] at hhigh
  exact ⟨hlow, start_lt_stop_of_mem_edits (each_atomStands_partsAll h) hedit, hhigh⟩

/-- The edits of a layout lie in it. -/
theorem mem_edits_parts {layout : Layout} {rest : List Char} {offset : Nat} {edit : Edit}
    (h : layout.Stands rest)
    (hedit : edit ∈ Part.edits newText offset (layout.parts marked offset)) :
    (offset : Int) ≤ edit.start ∧ edit.start < edit.stop ∧
      edit.stop ≤ (offset + Text.units layout.chars : Nat) := by
  obtain ⟨hlow, -, hhigh⟩ := Part.mem_edits_bounds hedit
  rw [join_parts] at hhigh
  exact ⟨hlow, start_lt_stop_of_mem_edits (each_atomStands_parts h) hedit, hhigh⟩

mutual

/-- **A layout with a new text for the marked atoms has the form that the
edits of these atoms make of its form.** Other edits may stand before and
behind it. -/
theorem form_replace : ∀ {layout : Layout} {offset offset' : Nat} {rest : List Char}
    {before after : List Edit}, layout.Stands rest →
      Beside before after offset (offset + Text.units layout.chars) →
      (offset' : Int) = offset + Renaming.total before →
      (layout.replace marked newText.toList offset).form offset' =
        (layout.form offset).edit
          (before ++ (Part.edits newText offset (layout.parts marked offset) ++ after))
  | .atom blanks text, offset, offset', rest, before, after, h, hbeside, hoffset => by
    rw [chars, Text.units_append] at hbeside
    rw [replace, form, form, parts, Part.edits, Part.ofAtom]
    split
    · rename_i hmarked
      obtain ⟨c, cs, rfl⟩ := List.exists_cons_of_ne_nil hmarked.1
      have hpos := Text.width_pos c
      have hunits : Text.units (c :: cs) = Text.width c + Text.units cs := rfl
      rw [Part.edits, Part.edits, Part.textWith_changed, String.ofList_toList]
      exact (hbeside.edit_changed (by omega) (by omega) (by omega) (by omega)).symm
    · rw [Part.edits, Part.edits, Part.textWith_kept]
      exact (hbeside.edit_kept (by omega) (by omega) (by omega) (by omega) (by omega)).symm
  | .list blanks items gap closed, offset, offset', rest, before, after, h, hbeside, hoffset => by
    rw [Stands] at h
    have hw : Text.width '(' = 1 := rfl
    -- the edits of the items lie behind the parenthesis and before what follows the items
    have hbounds : ∀ edit ∈ Part.edits newText (offset + Text.units blanks + 1)
        (partsAll marked (offset + Text.units blanks + 1) items),
          ((offset + Text.units blanks : Nat) : Int) < edit.stop ∧
            edit.stop ≤ (offset + Text.units blanks + 1 + Text.units (charsAll items) : Nat) := by
      intro edit hedit
      obtain ⟨hlow, hle, hhigh⟩ := Part.mem_edits_bounds hedit
      rw [join_partsAll] at hhigh
      exact ⟨by omega, hhigh⟩
    have htotal := Renaming.total_edits newText
      (partsAll marked (offset + Text.units blanks + 1) items) (offset + Text.units blanks + 1)
    rw [joinWith_partsAll, join_partsAll] at htotal
    rw [edits_parts_list, replace, form, form]
    rw [chars] at hbeside ⊢
    rw [chars]
    simp only [Text.units_append, Text.units_cons, hw] at hbeside ⊢
    -- the items are edited as they stand, with the edits around the list around them
    have hitems : forms (offset' + Text.units blanks + 1)
        (replaceAll marked newText.toList (offset + Text.units blanks + 1) items) =
          Form.editAll (before ++ (Part.edits newText (offset + Text.units blanks + 1)
            (partsAll marked (offset + Text.units blanks + 1) items) ++ after))
            (forms (offset + Text.units blanks + 1) items) := by
      have hin : Beside before after (offset + Text.units blanks + 1)
          (offset + Text.units blanks + 1 + Text.units (charsAll items)) :=
        hbeside.narrow (by omega) (by omega)
      rcases h.2.2 with ⟨rfl, -⟩ | ⟨inner, -, -, rfl, -⟩ | ⟨-, -, hitems⟩
      · rfl
      · -- the empty atom has no range to replace
        have hinner : Text.units (charsAll [.atom inner []]) = Text.units inner := by
          simp [charsAll, chars]
        rw [hinner] at hin
        have hatom : (Form.atom "" (offset + Text.units blanks + 1 + Text.units inner)
            (offset + Text.units blanks + 1 + Text.units inner)).edit (before ++ ([] ++ after)) =
              .atom "" (offset' + Text.units blanks + 1 + Text.units inner)
                (offset' + Text.units blanks + 1 + Text.units inner) :=
          hin.edit_kept (by omega) (Nat.le_refl _) (by omega) (by omega) (by omega)
        simp only [partsAll, parts, replaceAll, replace, forms, form, Part.edits, Form.editAll,
          Part.ofAtom_nil, Part.textWith_kept, Text.units_nil, Nat.add_zero, List.append_nil]
        exact congrArg (fun form => [form]) hatom.symm
      · exact forms_replaceAll hitems hin (by omega)
    rw [hitems]
    exact (hbeside.edit_list (by omega) (by omega) (by omega)
      (fun edit hedit => by have hmem := hbounds edit hedit; omega) (by omega) (by omega)).symm

/-- The forms of layouts one after another with a new text for the marked
atoms. -/
theorem forms_replaceAll : ∀ {items : List Layout} {offset offset' : Nat} {rest : List Char}
    {before after : List Edit}, StandAll items rest →
      Beside before after offset (offset + Text.units (charsAll items)) →
      (offset' : Int) = offset + Renaming.total before →
      forms offset' (replaceAll marked newText.toList offset items) =
        Form.editAll (before ++ (Part.edits newText offset (partsAll marked offset items) ++ after))
          (forms offset items)
  | [], _, _, _, _, _, _, _, _ => rfl
  | item :: items, offset, offset', rest, before, after, h, hbeside, hoffset => by
    rw [StandAll] at h
    rw [charsAll, Text.units_append, ← Nat.add_assoc] at hbeside
    have htotal := Renaming.total_edits newText (item.parts marked offset) offset
    rw [joinWith_parts, join_parts] at htotal
    -- for the first item the edits of the others stand behind it
    have hfirst : Beside before (Part.edits newText (offset + Text.units item.chars)
        (partsAll marked (offset + Text.units item.chars) items) ++ after)
          offset (offset + Text.units item.chars) := by
      refine ⟨fun edit hedit => hbeside.before edit hedit, fun edit hedit => ?_⟩
      rcases List.mem_append.1 hedit with hedit | hedit
      · have hmem := mem_edits_partsAll h.2 hedit
        omega
      · have hmem := hbeside.after edit hedit
        omega
    -- for the others the edits of the first item stand before them
    have hmore : Beside (before ++ Part.edits newText offset (item.parts marked offset)) after
        (offset + Text.units item.chars)
          (offset + Text.units item.chars + Text.units (charsAll items)) := by
      refine ⟨fun edit hedit => ?_, fun edit hedit => hbeside.after edit hedit⟩
      rcases List.mem_append.1 hedit with hedit | hedit
      · have hmem := hbeside.before edit hedit
        omega
      · have hmem := mem_edits_parts h.1 hedit
        omega
    rw [partsAll, Part.edits_append, join_parts, replaceAll, forms, forms, Form.editAll,
      List.append_assoc, form_replace h.1 hfirst hoffset,
      forms_replaceAll h.2 hmore (by rw [Renaming.total_append]; omega), List.append_assoc]

end

end Layout

namespace Piece

open Layout (Beside)

variable {marked : Nat → Bool} {newText : String}

/-- The edits of pieces lie behind where these begin. -/
theorem mem_edits_parts {pieces : List Piece} {gap : List Char} {offset : Nat} {edit : Edit}
    (h : Laid pieces gap) (hedit : edit ∈ Part.edits newText offset (parts marked offset pieces)) :
    (offset : Int) ≤ edit.start ∧ edit.start < edit.stop :=
  ⟨(Part.mem_edits_bounds hedit).1,
    Layout.start_lt_stop_of_mem_edits (each_atomStands_parts h) hedit⟩

/-- An empty atom stays, wherever it comes to lie. -/
theorem edit_emptyAtom {before after : List Edit} {offset p p' : Nat}
    (hbeside : Beside before after offset p) (hoffset : offset ≤ p)
    (hp : (p' : Int) = p + Renaming.total before) :
    (Reader.emptyAtom p).edit (before ++ after) = Reader.emptyAtom p' :=
  hbeside.edit_kept hoffset (Nat.le_refl _) (Nat.le_refl _) hp hp

/-- **The forms of a text with a new text for the marked atoms are the forms of
the text after the edits of these atoms.** -/
theorem forms_replace {afterStray : Bool} {pieces : List Piece} {gap : List Char}
    {offset offset' : Nat} {before : List Edit} (h : Laid pieces gap)
    (hbefore : ∀ edit ∈ before, edit.start < edit.stop ∧ edit.stop ≤ offset)
    (hoffset : (offset' : Int) = offset + Renaming.total before) :
    forms afterStray offset' gap (replace marked newText.toList offset pieces) =
      Form.editAll (before ++ Part.edits newText offset (parts marked offset pieces))
        (forms afterStray offset gap pieces) := by
  induction pieces generalizing afterStray offset offset' before with
  | nil =>
    rw [replace, forms, forms]
    split
    · have hbeside : Beside before [] offset (offset + Text.units gap) :=
        ⟨hbefore, fun edit hedit => by cases hedit⟩
      rw [Form.editAll, Form.editAll, parts, Part.edits,
        edit_emptyAtom hbeside (by omega)
          (show ((offset' + Text.units gap : Nat) : Int) = _ by omega)]
    · rfl
  | cons piece pieces ih =>
    cases piece with
    | form layout =>
      rw [Laid] at h
      have htotal := Renaming.total_edits newText (layout.parts marked offset) offset
      rw [Layout.joinWith_parts, Layout.join_parts] at htotal
      have hbeside : Beside before (Part.edits newText (offset + Text.units layout.chars)
          (parts marked (offset + Text.units layout.chars) pieces))
            offset (offset + Text.units layout.chars) :=
        ⟨hbefore, fun edit hedit => mem_edits_parts h.2 hedit⟩
      have hmore : ∀ edit ∈ before ++ Part.edits newText offset (layout.parts marked offset),
          edit.start < edit.stop ∧ edit.stop ≤ (offset + Text.units layout.chars : Nat) := by
        intro edit hedit
        rcases List.mem_append.1 hedit with hedit | hedit
        · have hmem := hbefore edit hedit
          omega
        · exact (Layout.mem_edits_parts h.1 hedit).2
      rw [replace, forms, forms, parts, Part.edits_append, Layout.join_parts, Form.editAll,
        Layout.form_replace h.1 hbeside hoffset,
        ih h.2 hmore (by rw [Renaming.total_append]; omega), List.append_assoc]
    | stray blanks =>
      rw [Laid] at h
      have hclose : Text.units [')'] = 1 := rfl
      have hbeside : Beside before (Part.edits newText (offset + Text.units (blanks ++ [')']))
          (parts marked (offset + Text.units (blanks ++ [')'])) pieces))
            offset (offset + Text.units blanks) := by
        refine ⟨hbefore, fun edit hedit => ?_⟩
        have hmem := mem_edits_parts h.2 hedit
        rw [Text.units_append] at hmem
        omega
      have hmore : ∀ edit ∈ before, edit.start < edit.stop ∧
          edit.stop ≤ (offset + Text.units (blanks ++ [')']) : Nat) := by
        intro edit hedit
        have hmem := hbefore edit hedit
        omega
      rw [replace, forms, forms, parts, Part.edits, Form.editAll,
        edit_emptyAtom hbeside (by omega)
          (show ((offset' + Text.units blanks : Nat) : Int) = _ by omega),
        ih h.2 hmore (by omega)]

end Piece

/-! ## Leaves after edits -/

namespace Form

/-- An atom after edits. -/
def editLeaf (edits : List Edit) (leaf : Leaf) : Leaf :=
  ⟨editedText edits leaf.text leaf.start leaf.stop, shifted edits leaf.start,
    shifted edits leaf.stop⟩

mutual

/-- The atoms of a form after edits. -/
theorem leaves_edit (edits : List Edit) :
    ∀ form : Form, (form.edit edits).leaves = form.leaves.map (editLeaf edits)
  | .atom text start stop => rfl
  | .list items start stop => by rw [edit, leaves, leaves, leavesAll_editAll]

/-- The atoms of forms after edits. -/
theorem leavesAll_editAll (edits : List Edit) :
    ∀ forms : List Form, leavesAll (editAll edits forms) = (leavesAll forms).map (editLeaf edits)
  | [] => rfl
  | form :: forms => by
    rw [editAll, leavesAll, leavesAll, leaves_edit, leavesAll_editAll, List.map_append]

end

end Form

end SatScript
