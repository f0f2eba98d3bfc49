import SatScript.Proofs.Layout.Existence
import SatScript.Proofs.Rename.Edited
/-!
# SatScript — reading an edited text again

A name is replaced in the text, and then the text is read again. What is
read are the forms after the edits if and only if the new name stays
separate from what follows it (`forms_reread_iff`). A quoted name, such as
`|x|`, may be followed directly by another atom; a name without quotes in
its place runs together with that atom. Comments do not matter, since the
new name begins none.
-/

namespace SatScript

/-- What follows an offset of a text. -/
def Text.behind (cs : List Char) (offset : Int) : List Char :=
  (Text.after? offset.toNat cs).getD []

/-- The new name is quoted, or what follows each edit ends an atom. -/
def Renaming.Separated (newName : String) (cs : List Char) (edits : List Edit) : Prop :=
  newName.toList.head? = some '|' ∨ ∀ edit ∈ edits, Delimited (Text.behind cs edit.stop)

/-- What follows the beginning of a text. -/
theorem Text.behind_append (cs ds : List Char) : Text.behind (cs ++ ds) (Text.units cs) = ds := by
  rw [Text.behind, Int.toNat_natCast, Text.after?_units_append, Option.getD_some]

/-- What follows an offset behind the beginning of a text. -/
theorem Text.after?_append_of_le {cs : List Char} {offset : Nat} (h : units cs ≤ offset)
    (ds : List Char) : after? offset (cs ++ ds) = after? (offset - units cs) ds := by
  induction cs generalizing offset with
  | nil => rfl
  | cons c cs ih =>
    rw [units_cons] at h ⊢
    have hpos := width_pos c
    obtain ⟨n, rfl⟩ : ∃ n, offset = n + 1 := ⟨offset - 1, by omega⟩
    rw [List.cons_append, after?, if_pos (by omega), ih (by omega), Nat.sub_sub]

/-- **What ends an atom in a text ends it with the comments blanked**: the characters of a
comment become blanks, and others stay. -/
theorem Text.delimited_after_blankedFrom {inside : Bool} {cs : List Char} {offset : Nat}
    (h : Delimited ((after? offset cs).getD [])) :
    Delimited ((after? offset (blankedFrom inside cs)).getD []) := by
  induction cs generalizing inside offset with
  | nil => exact h
  | cons c cs ih =>
    rw [blankedFrom_cons]
    rcases Nat.lt_or_ge offset (width c) with hlt | hge
    · split
      · -- the rest of the character is blanks
        have hsplit : List.replicate (width c) ' ' =
            List.replicate offset ' ' ++ List.replicate (width c - offset) ' ' := by
          rw [List.replicate_append_replicate, Nat.add_sub_of_le (Nat.le_of_lt hlt)]
        have hblanks : List.replicate (width c - offset) ' ' =
            ' ' :: List.replicate (width c - offset - 1) ' ' := by
          rw [← List.replicate_succ, Nat.sub_add_cancel (by omega)]
        rw [hsplit, List.append_assoc, after?_append_of_le (Nat.le_of_eq (units_replicate_space _)),
          units_replicate_space, Nat.sub_self, after?, Option.getD_some, hblanks]
        exact delimited_cons.2 rfl
      · cases offset with
        | zero => exact delimited_cons.2 (delimited_cons.1 h)
        | succ n =>
          rw [List.singleton_append, after?, if_neg (Nat.not_le_of_lt hlt)]
          exact delimited_nil
    · -- the offset lies behind the character, which measures the same
      have hunits : units (if (c != '\n' && (inside || c == ';')) = true then
          List.replicate (width c) ' ' else [c]) = width c := by
        split
        · exact units_replicate_space _
        · rfl
      rw [← List.singleton_append, after?_append_of_le hge] at h
      rw [after?_append_of_le (Nat.le_trans (Nat.le_of_eq hunits) hge), hunits]
      exact ih h

theorem IsAtomText.isPlain {text : List Char} (h : IsAtomText text)
    (hbar : text.head? ≠ some '|') : IsPlain text := by
  rcases h with hplain | ⟨inner, -, rfl⟩
  · exact hplain
  · exact absurd rfl hbar

/-- Blanks can be told from the ends of an atom. -/
theorem AtomStands.firm {text rest : List Char} (h : AtomStands text rest) :
    Part.Firm text rest := by
  have hblank : ∀ {c : Char}, Reader.endsAtom c = false → Text.isBlank c = false :=
    fun hc => (of_endsAtom_eq_false hc).1
  obtain ⟨c, cs, htext, hc⟩ := h.exists_cons
  refine ⟨⟨c, by rw [htext]; rfl, hblank hc⟩, ?_⟩
  cases h with
  | plain hplain _ =>
    have hlast := List.getLast?_eq_some_getLast hplain.ne_nil
    exact .inr ⟨_, hlast, hblank (hplain.not_endsAtom _ (List.getLast_mem hplain.ne_nil))⟩
  | @quoted inner _ _ =>
    refine .inr ⟨'|', ?_, rfl⟩
    rw [SatScript.quoted, ← List.cons_append, List.getLast?_append]
    rfl
  | cut _ => exact .inl rfl

namespace Part

/-- A property of the changed parts is one of each of them in its place. -/
theorem each_iff {property : List Char → List Char → Prop} {parts : List Part}
    {rest : List Char} :
    Each property parts rest ↔
      ∀ before text after, parts = before ++ .changed text :: after →
        property text (join after ++ rest) := by
  induction parts with
  | nil => exact ⟨fun _ before text after h => by simp at h, fun _ => trivial⟩
  | cons part parts ih =>
    constructor
    · intro h before text after heq
      cases before with
      | nil =>
        obtain ⟨rfl, rfl⟩ := List.cons.inj heq
        exact h.1
      | cons first before =>
        obtain ⟨rfl, rfl⟩ := List.cons.inj heq
        have hparts : Each property (before ++ .changed text :: after) rest := by
          cases part with
          | kept _ => exact h
          | changed _ => exact h.2
        exact ih.1 hparts before text after rfl
    · intro h
      have hparts : Each property parts rest := ih.2 fun before text after heq =>
        h (part :: before) text after (by rw [heq]; rfl)
      cases part with
      | kept _ => exact hparts
      | changed text => exact ⟨h [] text parts rfl, hparts⟩

/-- An edit of parts is that of a changed part. -/
theorem exists_of_mem_edits {newText : String} {parts : List Part} {offset : Nat} {edit : Edit}
    (h : edit ∈ edits newText offset parts) :
    ∃ before text after, parts = before ++ .changed text :: after ∧
      edit = ⟨(offset + Text.units (join before) : Nat),
        (offset + Text.units (join before) + Text.units text : Nat), newText⟩ := by
  induction parts generalizing offset with
  | nil => cases h
  | cons part parts ih =>
    have hmore : edit ∈ edits newText (offset + Text.units part.text) parts →
        ∃ before text after, part :: parts = before ++ .changed text :: after ∧
          edit = ⟨(offset + Text.units (join before) : Nat),
            (offset + Text.units (join before) + Text.units text : Nat), newText⟩ := by
      intro hedit
      obtain ⟨before, text, after, rfl, rfl⟩ := ih hedit
      refine ⟨part :: before, text, after, rfl, ?_⟩
      rw [join_cons, Text.units_append, Nat.add_assoc]
    cases part with
    | kept text => exact hmore h
    | changed text =>
      rcases List.mem_cons.1 h with rfl | h
      · exact ⟨[], text, parts, rfl, rfl⟩
      · exact hmore h

/-- A changed part has its edit. -/
theorem mem_edits (newText : String) (before : List Part) (text : List Char) (after : List Part) :
    ⟨(Text.units (join before) : Nat), (Text.units (join before) + Text.units text : Nat),
      newText⟩ ∈ edits newText 0 (before ++ .changed text :: after) := by
  rw [edits_append, Nat.zero_add, edits]
  exact List.mem_append_right _ List.mem_cons_self

/-- **The new text may replace the parts just if it is separate from what
follows them**, in terms of the text and the edits. -/
theorem each_apart_iff {newText : String} (hnew : IsAtomText newText.toList) {parts : List Part}
    {rest : List Char} :
    Each (Apart newText.toList) parts rest ↔
      Renaming.Separated newText (join parts ++ rest) (edits newText 0 parts) := by
  have hedits : ∀ before text after, parts = before ++ .changed text :: after →
      ⟨(Text.units (join before) : Nat), (Text.units (join before) + Text.units text : Nat),
        newText⟩ ∈ edits newText 0 parts ∧
      Text.behind (join parts ++ rest) (Text.units (join before) + Text.units text : Nat) =
        join after ++ rest := by
    rintro before text after rfl
    refine ⟨mem_edits newText before text after, ?_⟩
    rw [join_append, join_cons, text_changed, List.append_assoc, List.append_assoc,
      ← List.append_assoc, ← Text.units_append, Text.behind_append]
  constructor
  · intro h
    by_cases hbar : newText.toList.head? = some '|'
    · exact .inl hbar
    · refine .inr fun edit hedit => ?_
      have hplain := hnew.isPlain hbar
      obtain ⟨before, text, after, hparts, rfl⟩ := exists_of_mem_edits hedit
      simp only [Nat.zero_add]
      rw [(hedits before text after hparts).2]
      exact each_iff.1 h before text after hparts hplain
  · intro h
    refine each_iff.2 fun before text after hparts hplain => ?_
    obtain ⟨hmem, hbehind⟩ := hedits before text after hparts
    rcases h with hbar | h
    · exact absurd hbar hplain.head_ne_bar
    · rw [← hbehind]
      exact h _ hmem

end Part

/-! ## The text read again -/

/-- **A text has parts of which the changed ones are the marked atoms**, whatever its
comments: their edits are those of the atoms, and with the new text in their
place the atoms are replaced in the text without comments. -/
theorem exists_parts {newText : String} (hsemi : ';' ∉ newText.toList) {text : String}
    {pieces : List Piece} {gap : List Char}
    (htext : Text.blankedComments text.toList = Piece.charsAll pieces ++ gap)
    (hlaid : Piece.Laid pieces gap) (marked : Nat → Bool) :
    ∃ raw, text.toList = Part.join raw ∧
      Part.edits newText 0 raw = Part.edits newText 0 (Piece.parts marked 0 pieces) ∧
      Text.blankedComments (Part.joinWith newText.toList raw) =
        Piece.charsAll (Piece.replace marked newText.toList 0 pieces) ++ gap := by
  have hfirm : Part.Each Part.Firm (Piece.parts marked 0 pieces ++ [.kept gap]) [] := by
    refine Part.each_append.2 ⟨?_, trivial⟩
    rw [Part.join_cons, Part.text_kept, Part.join_nil, List.append_nil, List.append_nil]
    exact (Piece.each_atomStands_parts hlaid).imp fun _ _ => AtomStands.firm
  -- the parts and the gap behind them make up the blanked text
  have hjoin : Text.blankedFrom false text.toList =
      [] ++ Part.join (Piece.parts marked 0 pieces ++ [.kept gap]) := by
    rw [List.nil_append, Part.join_append, Piece.join_parts, Part.join_cons, Part.text_kept,
      Part.join_nil, List.append_nil]
    exact htext
  obtain ⟨raw, hraw, hedits, hblanked⟩ :=
    @Part.exists_parts_of_blanked _ hsemi _ _ _ _ 0 hfirm hjoin
  rw [Text.units_nil, Nat.add_zero, Part.edits_append, Part.edits, Part.edits,
    List.append_nil] at hedits
  rw [List.nil_append, Part.joinWith_append, Piece.joinWith_parts, Part.joinWith_cons,
    Part.textWith_kept, Part.joinWith_nil, List.append_nil] at hblanked
  exact ⟨raw, hraw, hedits, hblanked⟩

/-- **Applying the edits of marked atoms to a text replaces these atoms in the
text without comments**, whatever that means for the forms. -/
theorem exists_applied {newText : String} (hsemi : ';' ∉ newText.toList) {text : String}
    {pieces : List Piece} {gap : List Char}
    (htext : Text.blankedComments text.toList = Piece.charsAll pieces ++ gap)
    (hlaid : Piece.Laid pieces gap) (marked : Nat → Bool) :
    ∃ text', Edit.applyAll text (Part.edits newText 0 (Piece.parts marked 0 pieces)) = .ok text' ∧
      Text.blankedComments text'.toList =
        Piece.charsAll (Piece.replace marked newText.toList 0 pieces) ++ gap := by
  obtain ⟨raw, hraw, hedits, hblanked⟩ := exists_parts hsemi htext hlaid marked
  refine ⟨String.ofList (Part.joinWith newText.toList raw), ?_, ?_⟩
  · rw [← hedits, ← Part.applyAll_edits, ← hraw, String.ofList_toList]
  · rw [String.toList_ofList]
    exact hblanked

/-- A text without comments, laid out as pieces, has its edits applied piece by
piece. -/
theorem toList_of_applied {newName text text' : String} {pieces : List Piece} {gap : List Char}
    {mark : Nat → Bool} (htext : text.toList = Piece.charsAll pieces ++ gap)
    (happlied : Edit.applyAll text (Part.edits newName 0 (Piece.parts mark 0 pieces)) = .ok text') :
    text'.toList = Piece.charsAll (Piece.replace mark newName.toList 0 pieces) ++ gap := by
  have hjoin : Part.join (Piece.parts mark 0 pieces ++ [.kept gap]) = text.toList := by
    rw [Part.join_append, Piece.join_parts, htext, Part.join_cons, Part.text_kept, Part.join_nil,
      List.append_nil]
  have happly := Part.applyAll_edits newName (Piece.parts mark 0 pieces ++ [.kept gap])
  rw [hjoin, String.ofList_toList, Part.edits_append, Part.edits, Part.edits, List.append_nil,
    happlied] at happly
  rw [Except.ok.inj happly, String.toList_ofList, Part.joinWith_append, Piece.joinWith_parts,
    Part.joinWith_cons, Part.textWith_kept, Part.joinWith_nil, List.append_nil]

/-- A text without quotes that stands is delimited. -/
theorem AtomStands.delimited {text rest : List Char} (h : AtomStands text rest)
    (hplain : IsPlain text) : Delimited rest := by
  cases h with
  | plain _ hrest => exact hrest
  | quoted _ => exact absurd rfl hplain.head_ne_bar
  | cut _ => exact absurd rfl hplain.head_ne_bar

/-- A marked atom is found after the edits, with the new text, where the text
before it ends. -/
theorem mem_leavesAll_editAll {newText : String} {marked : Nat → Bool} {pieces : List Piece}
    {gap : List Char} (hlaid : Piece.Laid pieces gap) {before after : List Part}
    {text : List Char} (hparts : Piece.parts marked 0 pieces = before ++ .changed text :: after) :
    ∃ leaf ∈ Form.leavesAll (Form.editAll (Part.edits newText 0 (Piece.parts marked 0 pieces))
        (Piece.forms false 0 gap pieces)),
      leaf.text = newText ∧ leaf.start = Text.units (Part.joinWith newText.toList before) := by
  have hstands := @Piece.each_atomStands_parts marked _ _ 0 hlaid
  obtain ⟨c, cs, rfl, -⟩ := (Part.each_iff.1 hstands before text after hparts).exists_cons
  have hpos := Text.width_pos c
  have hunits : Text.units (c :: cs) = Text.width c + Text.units cs := rfl
  have hedits : Part.edits newText 0 (Piece.parts marked 0 pieces) =
      Part.edits newText 0 before ++ (⟨(Text.units (Part.join before) : Nat),
        (Text.units (Part.join before) + Text.units (c :: cs) : Nat), newText⟩ ::
          Part.edits newText (Text.units (Part.join before) + Text.units (c :: cs)) after) := by
    rw [hparts, Part.edits_append, Nat.zero_add, Part.edits]
  have hbefore : ∀ edit ∈ Part.edits newText 0 before,
      edit.start < edit.stop ∧ edit.stop ≤ (Text.units (Part.join before) : Nat) := by
    intro edit hedit
    have hmem : edit ∈ Part.edits newText 0 (Piece.parts marked 0 pieces) :=
      hedits ▸ List.mem_append_left _ hedit
    refine ⟨Layout.start_lt_stop_of_mem_edits hstands hmem, ?_⟩
    have hbounds := Part.mem_edits_bounds hedit
    rw [Nat.zero_add] at hbounds
    exact hbounds.2.2
  -- the edit is that of a leaf
  have hmem : ⟨(Text.units (Part.join before) : Nat),
      (Text.units (Part.join before) + Text.units (c :: cs) : Nat), newText⟩ ∈
        Part.edits newText 0 (Piece.parts marked 0 pieces) :=
    hedits ▸ List.mem_append_right _ List.mem_cons_self
  rw [Piece.edits_parts false pieces gap] at hmem
  obtain ⟨leaf, hleaf, hedit⟩ := List.mem_map.1 hmem
  injection hedit with hstart hstop
  refine ⟨Form.editLeaf (Part.edits newText 0 (Piece.parts marked 0 pieces)) leaf, ?_, ?_, ?_⟩
  · rw [Form.leavesAll_editAll]
    exact List.mem_map_of_mem (List.mem_filter.1 hleaf).1
  · rw [Form.editLeaf, hedits]
    refine Form.editedText_of_eq (fun edit hedit => ?_) hstart.symm hstop.symm
    have hlt := hbefore edit hedit
    omega
  -- the edits before it move the leaf to where the parts before it end
  · have htotal := Renaming.total_edits newText before 0
    have hshift : Form.shifted (Part.edits newText 0 (Piece.parts marked 0 pieces)) leaf.start =
        Text.units (Part.joinWith newText.toList before) := by
      rw [hedits]
      refine Form.shifted_append (fun edit hedit => ?_) (fun edit hedit => ?_) (by omega)
      · have hle := (hbefore edit hedit).2
        omega
      · rcases List.mem_cons.1 hedit with rfl | hedit
        · simp only
          omega
        · have hbounds := Part.mem_edits_bounds hedit
          omega
    exact hshift

/-- Where each marked atom is found again with the new name, this is separate from
what follows it: it is an atom there, and ends as one. -/
theorem each_apart_of_mem_leavesAll {newText : String} (hnew : IsAtomText newText.toList)
    {marked : Nat → Bool} {pieces : List Piece} {gap : List Char} (hlaid : Piece.Laid pieces gap)
    (h : ∀ before text after, Piece.parts marked 0 pieces = before ++ .changed text :: after →
      ∃ leaf ∈ Form.leavesAll
          (forms (Piece.charsAll (Piece.replace marked newText.toList 0 pieces) ++ gap)),
        leaf.text = newText ∧ leaf.start = Text.units (Part.joinWith newText.toList before)) :
    Part.Each (Part.Apart newText.toList) (Piece.parts marked 0 pieces) gap := by
  refine Part.each_iff.2 fun before text after hparts hplain => ?_
  obtain ⟨leaf, hleaf, htext, hstart⟩ := h before text after hparts
  obtain ⟨pieces', gap', hcs, hlaid'⟩ :=
    exists_pieces (Piece.charsAll (Piece.replace marked newText.toList 0 pieces) ++ gap)
  rw [hcs, forms_pieces hlaid'] at hleaf
  obtain ⟨before', rest, hchars, hbegin, -, hatom⟩ :=
    Piece.standsIn_of_mem_leavesAll hlaid' leaf hleaf
  rw [← hcs, ← Piece.joinWith_parts, hparts, Part.joinWith_append, Part.joinWith_cons,
    Part.textWith_changed, List.append_assoc, List.append_assoc, htext] at hchars
  -- the leaf stands in the text where the new name does, so the same follows it
  have hrest : Part.joinWith newText.toList after ++ gap = rest := by
    have hbehind := congrArg (Text.behind · (Text.units before')) hchars
    have hplace : Text.units before' = Text.units (Part.joinWith newText.toList before) := by omega
    simp only [Text.behind_append] at hbehind
    rw [hplace, Text.behind_append] at hbehind
    exact List.append_cancel_left hbehind
  have hne : leaf.text ≠ "" := by
    rw [htext]
    rintro rfl
    exact hplain.ne_nil rfl
  have hdelimited := (hatom hne).delimited (htext ▸ hplain)
  rw [← hrest] at hdelimited
  -- what follows is delimited with the new names in it just if it was before
  have hafter : Part.Each AtomStands after gap := by
    have hall := @Piece.each_atomStands_parts marked _ _ 0 hlaid
    rw [hparts, Part.each_append] at hall
    exact hall.2.2
  exact (Part.alike_join hnew hafter (Alike.refl gap)).delimited_iff.2 hdelimited

/-- Where the edited text reads as the forms after the edits, the new name is
separate from what follows it. -/
theorem each_apart_of_forms_eq {newText : String} (hnew : IsAtomText newText.toList)
    {marked : Nat → Bool} {pieces : List Piece} {gap : List Char} (hlaid : Piece.Laid pieces gap)
    (h : forms (Piece.charsAll (Piece.replace marked newText.toList 0 pieces) ++ gap) =
      Form.editAll (Part.edits newText 0 (Piece.parts marked 0 pieces))
        (Piece.forms false 0 gap pieces)) :
    Part.Each (Part.Apart newText.toList) (Piece.parts marked 0 pieces) gap :=
  each_apart_of_mem_leavesAll hnew hlaid fun before text after hparts => by
    rw [h]
    exact mem_leavesAll_editAll hlaid hparts

/-- **The edited text reads as the forms after the edits just if the new name
is separate from what follows each edit.** -/
theorem forms_reread_iff {newText : String} (hnew : IsAtomText newText.toList)
    {marked : Nat → Bool} {pieces : List Piece} {gap : List Char} (hlaid : Piece.Laid pieces gap) :
    forms (Piece.charsAll (Piece.replace marked newText.toList 0 pieces) ++ gap) =
        Form.editAll (Part.edits newText 0 (Piece.parts marked 0 pieces))
          (forms (Piece.charsAll pieces ++ gap)) ↔
      Renaming.Separated newText (Piece.charsAll pieces ++ gap)
        (Part.edits newText 0 (Piece.parts marked 0 pieces)) := by
  rw [forms_pieces hlaid, ← @Piece.join_parts marked pieces 0, ← Part.each_apart_iff hnew,
    ← Piece.joinWith_parts]
  constructor
  · intro h
    rw [Piece.joinWith_parts] at h
    exact each_apart_of_forms_eq hnew hlaid h
  · intro h
    rw [Piece.joinWith_parts, forms_pieces (Piece.laid_replace hnew hlaid h)]
    exact Piece.forms_replace hlaid (fun _ hedit => absurd hedit List.not_mem_nil) rfl

end SatScript
