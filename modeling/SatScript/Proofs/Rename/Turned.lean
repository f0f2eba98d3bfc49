import SatScript.Proofs.Rename.Reread
/-!
# SatScript — edits turned round

The edits of a renaming put one new text in place of several parts of a
text. The edits that take it back put the old text in place of the parts
where the new one stands now. As parts that is the same list with the new
text in the changed places (`Part.turned`), and as edits it is the list of
the images of the edits (`edits_turned`). Offsets between the parts are
moved there and back (`returns_of_isCut`), and the atoms of a text are some
of its parts (`Piece.isPart_of_mem_leaves`).
-/

namespace SatScript

namespace Renaming

/-- The edit that puts the old text in the place of what an edit has put there. -/
def back (edits : List Edit) (oldText : String) (edit : Edit) : Edit :=
  ⟨shift edits edit.start, shift edits edit.stop, oldText⟩

/-- An offset that comes to lie somewhere in the text is moved back from there by
the edits that put the old text in its places. -/
structure Returns (edits : List Edit) (oldText : String) (offset : Int) : Prop where
  nonneg : 0 ≤ shift edits offset
  shift_back : shift (edits.map (back edits oldText)) (shift edits offset) = offset

/-- Offsets that return come to lie apart. -/
theorem Returns.eq_of_shift_eq {edits : List Edit} {oldText : String} {offset other : Int}
    (h : Returns edits oldText offset) (hother : Returns edits oldText other)
    (heq : shift edits offset = shift edits other) : offset = other := by
  rw [← h.shift_back, heq, hother.shift_back]

/-- An offset that returns comes to lie where it is shifted. -/
theorem Returns.shifted_eq {edits : List Edit} {oldText : String} {offset : Nat}
    (h : Returns edits oldText offset) :
    (Form.shifted edits offset : Int) = shift edits offset := Int.toNat_of_nonneg h.nonneg

end Renaming

namespace Part

/-- The part with the new text where it has changed, to be changed again. -/
def turn (new : List Char) : Part → Part
  | .kept text => .kept text
  | .changed _ => .changed new

/-- The parts of the text after the changes. -/
def turned (new : List Char) (parts : List Part) : List Part := parts.map (turn new)

/-- Every changed part measures what the text does. -/
def Measures (text : List Char) (parts : List Part) : Prop :=
  ∀ old, .changed old ∈ parts → Text.units old = Text.units text

variable {new old : List Char} {newText oldText : String} {parts before after : List Part}

@[simp] theorem turned_nil : turned new [] = [] := rfl

@[simp] theorem turned_cons (part : Part) (parts : List Part) :
    turned new (part :: parts) = turn new part :: turned new parts := rfl

@[simp] theorem turned_append (parts more : List Part) :
    turned new (parts ++ more) = turned new parts ++ turned new more := List.map_append

@[simp] theorem text_turn (part : Part) : (part.turn new).text = part.textWith new := by
  cases part <;> rfl

/-- The turned parts make up the text with the new one in it. -/
@[simp] theorem join_turned (parts : List Part) : join (turned new parts) = joinWith new parts := by
  induction parts with
  | nil => rfl
  | cons part parts ih => rw [turned_cons, join_cons, joinWith_cons, text_turn, ih]

/-- **The old text in the places of the new one gives the text back.** -/
theorem joinWith_turned (h : ∀ text, .changed text ∈ parts → text = old) :
    joinWith old (turned new parts) = join parts := by
  induction parts with
  | nil => rfl
  | cons part parts ih =>
    have hmore := ih fun text htext => h text (List.mem_cons_of_mem _ htext)
    rw [turned_cons, joinWith_cons, join_cons, hmore]
    cases part with
    | kept text => rfl
    | changed text => rw [h text List.mem_cons_self]; rfl

theorem measures_turned (parts : List Part) : Measures new (turned new parts) := by
  intro text htext
  obtain ⟨part, -, hpart⟩ := List.mem_map.1 htext
  cases part with
  | kept text => cases hpart
  | changed text => cases hpart; rfl

theorem Measures.mono (h : Measures old parts) {less : List Part} (hless : less ⊆ parts) :
    Measures old less := fun text htext => h text (hless htext)

/-- The old text in the places of the new one measures what the text did. -/
theorem units_joinWith_turned (h : Measures old parts) :
    Text.units (joinWith old (turned new parts)) = Text.units (join parts) := by
  induction parts with
  | nil => rfl
  | cons part parts ih =>
    have hmore := ih (h.mono (List.subset_cons_self _ _))
    rw [turned_cons, joinWith_cons, join_cons, Text.units_append, Text.units_append, hmore]
    cases part with
    | kept text => rfl
    | changed text => rw [text_changed, h text List.mem_cons_self]; rfl

/-! ## Offsets -/

/-- The edits of parts that measure something replace something each. -/
theorem start_lt_of_measures (h : Measures old parts) (hold : 0 < Text.units old) {offset : Nat}
    {edit : Edit} (hmem : edit ∈ edits newText offset parts) : (offset : Int) < edit.stop := by
  induction parts generalizing offset with
  | nil => cases hmem
  | cons part parts ih =>
    have hmore := h.mono (List.subset_cons_self _ _)
    cases part with
    | kept text =>
      have hlt := ih hmore hmem
      omega
    | changed text =>
      have hunits := h text List.mem_cons_self
      rcases List.mem_cons.1 hmem with rfl | hmem
      · simp only
        omega
      · have hlt := ih hmore hmem
        omega

/-- **An offset between parts comes to lie between them.** -/
theorem shift_edits (h : Measures old after) (hold : 0 < Text.units old) :
    Renaming.shift (edits newText 0 (before ++ after)) (Text.units (join before)) =
      Text.units (joinWith newText.toList before) := by
  have htotal := Renaming.total_edits newText before 0
  rw [edits_append, Nat.zero_add, Renaming.shift_append (fun edit hedit => ?_)
    fun edit hedit => start_lt_of_measures h hold hedit]
  · omega
  · have hbounds := mem_edits_bounds hedit
    omega

/-- **And the edits that take the changes back move it back.** -/
theorem shift_edits_turned (h : Measures oldText.toList before)
    (hnew : 0 < Text.units newText.toList) :
    Renaming.shift (edits oldText 0 (turned newText.toList (before ++ after)))
        (Text.units (joinWith newText.toList before)) =
      Text.units (join before) := by
  rw [turned_append, ← join_turned, shift_edits (measures_turned after) hnew,
    units_joinWith_turned h]

/-- **The edits that take the changes back are the images of the edits.** -/
theorem edits_turned (h : Measures oldText.toList parts) (hold : 0 < Text.units oldText.toList) :
    edits oldText 0 (turned newText.toList parts) =
      (edits newText 0 parts).map (Renaming.back (edits newText 0 parts) oldText) := by
  -- part by part, with those before it
  have hfrom : ∀ after before : List Part, parts = before ++ after →
      edits oldText (Text.units (joinWith newText.toList before)) (turned newText.toList after) =
        (edits newText (Text.units (join before)) after).map
          (Renaming.back (edits newText 0 parts) oldText) := by
    intro after
    induction after with
    | nil => intro before _; rfl
    | cons part after ih =>
      rintro before rfl
      have hmore := ih (before ++ [part]) (by simp)
      rw [join_append, joinWith_append, Text.units_append, Text.units_append] at hmore
      cases part with
      | kept text =>
        rw [turned_cons, turn, edits, edits]
        simpa using hmore
      | changed text =>
        have hstart := @shift_edits _ newText before (.changed text :: after)
          (h.mono (List.subset_append_right _ _)) hold
        have hstop := @shift_edits _ newText (before ++ [.changed text]) after
          (h.mono (by simp)) hold
        rw [List.append_assoc, List.singleton_append] at hstop
        simp only [join_append, join_cons, join_nil, List.append_nil, text_changed, joinWith_append,
          joinWith_cons, joinWith_nil, textWith_changed, Text.units_append] at hstop hmore
        rw [turned_cons, turn, edits, edits, List.map_cons, hmore, Renaming.back]
        simp only [hstart, hstop]
  exact hfrom parts [] rfl

/-- An offset between two parts. -/
def IsCut (offset : Nat) (parts : List Part) : Prop :=
  ∃ before after, parts = before ++ after ∧ offset = Text.units (join before)

/-- **An offset between parts returns.** -/
theorem returns_of_isCut {offset : Nat} (hcut : IsCut offset parts)
    (h : Measures oldText.toList parts) (hold : 0 < Text.units oldText.toList)
    (hnew : 0 < Text.units newText.toList) :
    Renaming.Returns (edits newText 0 parts) oldText offset := by
  obtain ⟨before, after, rfl, rfl⟩ := hcut
  have hthere := @shift_edits _ newText before after (h.mono (List.subset_append_right _ _)) hold
  have hback := @shift_edits_turned newText oldText before after
    (h.mono (List.subset_append_left _ _)) hnew
  rw [edits_turned h hold] at hback
  exact ⟨by omega, by rw [hthere]; exact hback⟩

/-! ## What was changed -/

/-- Where the slices at the edits are the old text, this is what was changed. -/
theorem changed_eq_of_slices
    (h : ∀ edit ∈ edits newText 0 parts,
      Text.slice edit.start.toNat edit.stop.toNat (join parts) = old) :
    ∀ text, .changed text ∈ parts → text = old := by
  intro text htext
  obtain ⟨before, after, rfl⟩ := List.append_of_mem htext
  have hslice := h _ (mem_edits newText before text after)
  simp only [Int.toNat_natCast] at hslice
  rwa [join_append, join_cons, text_changed, Text.slice_units] at hslice

/-- What changed measures what its edits replace, so parts with the same edits measure
the same. -/
theorem measures_of_edits_eq {raw : List Part}
    (hedits : edits newText 0 raw = edits newText 0 parts) (h : Measures old raw) :
    Measures old parts := by
  intro text htext
  obtain ⟨before, after, rfl⟩ := List.append_of_mem htext
  have hmem := mem_edits newText before text after
  rw [← hedits] at hmem
  obtain ⟨before', text', after', rfl, hedit⟩ := exists_of_mem_edits hmem
  have hunits := h text' (List.mem_append_right _ List.mem_cons_self)
  injection hedit with hstart hstop
  omega

/-- **Applying the edits that take the changes back restores the text**, if what
was changed was the old text everywhere. -/
theorem applyAll_back (h : ∀ text, .changed text ∈ parts → text = oldText.toList)
    (hold : 0 < Text.units oldText.toList) :
    Edit.applyAll (String.ofList (joinWith newText.toList parts))
        ((edits newText 0 parts).map (Renaming.back (edits newText 0 parts) oldText)) =
      .ok (String.ofList (join parts)) := by
  rw [← edits_turned (fun text htext => by rw [h text htext]) hold, ← join_turned, applyAll_edits,
    joinWith_turned h]

end Part

/-! ## Atoms as parts -/

/-- The atom is one of the parts of a text from an offset on. -/
def Leaf.IsPart (leaf : Leaf) (offset : Nat) (parts : List Part) : Prop :=
  ∃ before part after, parts = before ++ part :: after ∧
    leaf.start = offset + Text.units (Part.join before) ∧
    leaf.stop = leaf.start + Text.units part.text

/-- An atom that is a part begins and ends between parts. -/
theorem Leaf.IsPart.isCut {leaf : Leaf} {parts : List Part} (h : leaf.IsPart 0 parts) :
    Part.IsCut leaf.start parts ∧ Part.IsCut leaf.stop parts := by
  obtain ⟨before, part, after, rfl, hstart, hstop⟩ := h
  refine ⟨⟨before, part :: after, rfl, by omega⟩, ⟨before ++ [part], after, by simp, ?_⟩⟩
  rw [hstop, hstart]
  simp

/-- A part is one of more parts. -/
theorem Leaf.IsPart.append {leaf : Leaf} {offset : Nat} {parts : List Part}
    (before after : List Part) (h : leaf.IsPart (offset + Text.units (Part.join before)) parts) :
    leaf.IsPart offset (before ++ (parts ++ after)) := by
  obtain ⟨first, part, last, rfl, hstart, hstop⟩ := h
  refine ⟨before ++ first, part, last ++ after, by simp, ?_, hstop⟩
  rw [hstart, Part.join_append, Text.units_append, Nat.add_assoc]

/-- Of two parts the one that begins first ends before the other begins. -/
theorem Leaf.IsPart.stop_le {leaf other : Leaf} {offset : Nat} {parts : List Part}
    (h : leaf.IsPart offset parts) (hother : other.IsPart offset parts)
    (hlt : leaf.start < other.start) : leaf.stop ≤ other.start := by
  obtain ⟨before, part, after, hparts, hstart, hstop⟩ := h
  obtain ⟨before', part', after', hparts', hstart', -⟩ := hother
  rw [hparts] at hparts'
  rcases List.append_eq_append_iff.1 hparts' with ⟨more, rfl, hmore⟩ | ⟨more, rfl, -⟩
  · cases more with
    | nil =>
      rw [List.append_nil] at hstart'
      omega
    | cons first more =>
      obtain ⟨rfl, -⟩ := List.cons.inj hmore
      simp only [Part.join_append, Part.join_cons, Text.units_append] at hstart'
      omega
  · simp only [Part.join_append, Text.units_append] at hstart
    omega

namespace Layout

variable {mark : Nat → Bool}

mutual

/-- The atoms of a layout are parts of it. -/
theorem isPart_of_mem_leaves : ∀ (layout : Layout) (offset : Nat),
    ∀ leaf ∈ (layout.form offset).leaves, leaf.IsPart offset (layout.parts mark offset)
  | .atom before text, offset, leaf, hleaf => by
    rw [form, Form.leaves, List.mem_singleton] at hleaf
    subst hleaf
    exact ⟨[.kept before], _, [], rfl, by simp, by simp⟩
  | .list before items gap closed, offset, leaf, hleaf => by
    rw [form, Form.leaves] at hleaf
    have hparen : offset + Text.units (Part.join [.kept (before ++ ['('])]) =
        offset + Text.units before + 1 := by
      simp [Nat.add_assoc]
      rfl
    have hitems := isPart_of_mem_leavesAll items (offset + Text.units before + 1) leaf hleaf
    rw [← hparen] at hitems
    have hlist := hitems.append [.kept (before ++ ['('])] [.kept (gap ++ closing closed)]
    rw [hparen] at hlist
    rw [parts]
    exact hlist

theorem isPart_of_mem_leavesAll : ∀ (items : List Layout) (offset : Nat),
    ∀ leaf ∈ Form.leavesAll (forms offset items), leaf.IsPart offset (partsAll mark offset items)
  | [], _, leaf, hleaf => by cases hleaf
  | item :: items, offset, leaf, hleaf => by
    rw [forms, Form.leavesAll] at hleaf
    rw [partsAll]
    rcases List.mem_append.1 hleaf with hleaf | hleaf
    · exact (isPart_of_mem_leaves item offset leaf hleaf).append [] _
    · have hmore := isPart_of_mem_leavesAll items (offset + Text.units item.chars) leaf hleaf
      rw [← @join_parts mark item offset] at hmore
      have happend := hmore.append (item.parts mark offset) []
      rw [List.append_nil] at happend
      rw [join_parts] at happend
      exact happend

end

end Layout

/-- **The atoms of the lists of a text are parts of it.** -/
theorem Piece.isPart_of_mem_leaves {mark : Nat → Bool} {afterStray : Bool} {gap : List Char}
    {pieces : List Piece} {offset : Nat} :
    ∀ items start stop, Form.list items start stop ∈ forms afterStray offset gap pieces →
      ∀ leaf ∈ (Form.list items start stop).leaves,
        leaf.IsPart offset (parts mark offset pieces) := by
  induction pieces generalizing afterStray offset with
  | nil =>
    intro items start stop hform
    rw [forms] at hform
    split at hform
    · rw [List.mem_singleton] at hform
      cases hform
    · cases hform
  | cons piece pieces ih =>
    intro items start stop hform leaf hleaf
    cases piece with
    | form layout =>
      rw [forms] at hform
      rw [parts]
      rcases List.mem_cons.1 hform with hform | hform
      · rw [hform] at hleaf
        exact (Layout.isPart_of_mem_leaves layout offset leaf hleaf).append [] _
      · have hmore := ih items start stop hform leaf hleaf
        rw [← @Layout.join_parts mark layout offset] at hmore
        have happend := hmore.append (layout.parts mark offset) []
        rw [List.append_nil, Layout.join_parts] at happend
        exact happend
    | stray before =>
      rw [forms] at hform
      rw [parts]
      rcases List.mem_cons.1 hform with hform | hform
      · cases hform
      · have hmore := ih items start stop hform leaf hleaf
        have hstray : Text.units (Part.join [.kept (before ++ [')'])]) =
            Text.units (before ++ [')']) := by simp
        rw [← hstray] at hmore
        have happend := hmore.append [.kept (before ++ [')'])] []
        rw [List.append_nil, hstray] at happend
        exact happend

end SatScript
