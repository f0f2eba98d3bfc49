import SatScript.Edit
import SatScript.Proofs.Text.Comment
/-!
# SatScript — one new text for several parts

A renaming puts one new text in place of several parts of a text. A text is
taken as a list of parts, each of which is kept or changed; `edits` are the
edits for the changed ones, and `joinWith` is the text with the new one in
their place. Applying the edits gives that text (`applyAll_edits`), and so
it does where the parts are those of the blanked text, as long as the new
text begins no comment (`exists_parts_of_blanked`).
-/

namespace SatScript

/-- A part of a text: it stays, or it gets the new text. -/
inductive Part where
  | kept (text : List Char)
  | changed (text : List Char)

namespace Part

/-- The text of a part. -/
def text : Part → List Char
  | .kept text => text
  | .changed text => text

/-- The text of a part with the new text where it changes. -/
def textWith (new : List Char) : Part → List Char
  | .kept text => text
  | .changed _ => new

/-- The text of parts one after another. -/
def join (parts : List Part) : List Char := parts.flatMap text

/-- The text of parts one after another, with the new text where they
change. -/
def joinWith (new : List Char) (parts : List Part) : List Char := parts.flatMap (textWith new)

/-- The edits that change parts of a text from an offset on. -/
def edits (newText : String) (offset : Nat) : List Part → List Edit
  | [] => []
  | .kept text :: parts => edits newText (offset + Text.units text) parts
  | .changed text :: parts =>
    ⟨offset, (offset + Text.units text : Nat), newText⟩ ::
      edits newText (offset + Text.units text) parts

/-- Each changed part has a property, which may look at what follows the
part. -/
def Each (property : List Char → List Char → Prop) : List Part → List Char → Prop
  | [], _ => True
  | .kept _ :: parts, rest => Each property parts rest
  | .changed text :: parts, rest => property text (join parts ++ rest) ∧ Each property parts rest

/-! ## Parts one after another -/

@[simp] theorem join_nil : join [] = [] := rfl

@[simp] theorem join_cons (part : Part) (parts : List Part) :
    join (part :: parts) = part.text ++ join parts := rfl

@[simp] theorem join_append (parts more : List Part) :
    join (parts ++ more) = join parts ++ join more := by
  simp [join]

@[simp] theorem joinWith_nil (new : List Char) : joinWith new [] = [] := rfl

@[simp] theorem joinWith_cons (new : List Char) (part : Part) (parts : List Part) :
    joinWith new (part :: parts) = part.textWith new ++ joinWith new parts := rfl

@[simp] theorem joinWith_append (new : List Char) (parts more : List Part) :
    joinWith new (parts ++ more) = joinWith new parts ++ joinWith new more := by
  simp [joinWith]

@[simp] theorem text_kept (text : List Char) : (kept text).text = text := rfl

@[simp] theorem text_changed (text : List Char) : (changed text).text = text := rfl

@[simp] theorem textWith_kept (new text : List Char) : (kept text).textWith new = text := rfl

@[simp] theorem textWith_changed (new text : List Char) : (changed text).textWith new = new := rfl

theorem edits_append (newText : String) (parts more : List Part) (offset : Nat) :
    edits newText offset (parts ++ more) =
      edits newText offset parts ++ edits newText (offset + Text.units (join parts)) more := by
  induction parts generalizing offset with
  | nil => rfl
  | cons part parts ih =>
    cases part with
    | kept text => simp [edits, ih, Nat.add_assoc]
    | changed text => simp [edits, ih, Nat.add_assoc]

theorem each_append {property : List Char → List Char → Prop} {parts more : List Part}
    {rest : List Char} :
    Each property (parts ++ more) rest ↔
      Each property parts (join more ++ rest) ∧ Each property more rest := by
  induction parts with
  | nil => simp [Each]
  | cons part parts ih =>
    cases part with
    | kept text => simp [Each, ih]
    | changed text => simp [Each, ih, and_assoc]

theorem Each.imp {property property' : List Char → List Char → Prop} {parts : List Part}
    {rest : List Char} (h : Each property parts rest)
    (himp : ∀ text rest, property text rest → property' text rest) :
    Each property' parts rest := by
  induction parts with
  | nil => trivial
  | cons part parts ih =>
    cases part with
    | kept text => exact ih h
    | changed text => exact ⟨himp _ _ h.1, ih h.2⟩

/-! ## The edits of parts -/

/-- The edits of parts lie where the parts do. -/
theorem mem_edits_bounds {newText : String} {parts : List Part} {offset : Nat} {edit : Edit}
    (h : edit ∈ edits newText offset parts) :
    (offset : Int) ≤ edit.start ∧ edit.start ≤ edit.stop ∧
      edit.stop ≤ (offset + Text.units (join parts) : Nat) := by
  induction parts generalizing offset with
  | nil => cases h
  | cons part parts ih =>
    cases part with
    | kept text =>
      obtain ⟨hstart, hle, hstop⟩ := ih h
      simp only [join_cons, text_kept, Text.units_append]
      omega
    | changed text =>
      simp only [join_cons, text_changed, Text.units_append]
      rcases List.mem_cons.1 h with rfl | h
      · simp only
        omega
      · obtain ⟨hstart, hle, hstop⟩ := ih h
        omega

/-- The edits of parts stand in order. -/
theorem sorted_edits (newText : String) (parts : List Part) (offset : Nat) :
    Edit.sorted (edits newText offset parts) = edits newText offset parts := by
  refine List.mergeSort_of_pairwise ?_
  induction parts generalizing offset with
  | nil => exact List.Pairwise.nil
  | cons part parts ih =>
    cases part with
    | kept text => exact ih _
    | changed text =>
      refine List.Pairwise.cons ?_ (ih _)
      intro edit hedit
      obtain ⟨hstart, -, -⟩ := mem_edits_bounds hedit
      simp only [decide_eq_true_eq]
      omega

/-- The edits of parts lie in the text and do not overlap. -/
theorem checkFrom_edits {newText : String} {parts : List Part} {offset length : Nat}
    {before : Option Edit} (hbefore : ∀ edit ∈ before, edit.stop ≤ offset)
    (hlength : offset + Text.units (join parts) ≤ length) :
    Edit.checkFrom length before (edits newText offset parts) = .ok () := by
  induction parts generalizing offset before with
  | nil => cases before <;> rfl
  | cons part parts ih =>
    rw [join_cons, Text.units_append] at hlength
    cases part with
    | kept text =>
      rw [text_kept] at hlength
      exact ih (fun edit hedit => by have := hbefore edit hedit; omega) (by omega)
    | changed text =>
      -- the edit fits, and the one before it ends where this part begins
      rw [text_changed] at hlength
      have hfits : Edit.fits length ⟨offset, (offset + Text.units text : Nat), newText⟩ = true := by
        simp only [Edit.fits, Bool.and_eq_true, decide_eq_true_eq]
        omega
      have hrest := @ih (offset + Text.units text)
        (some ⟨offset, (offset + Text.units text : Nat), newText⟩)
        (fun edit hedit => by cases hedit; exact Int.le_refl _) (by omega)
      cases before with
      | none =>
        simp only [edits, Edit.checkFrom, hfits, Bool.not_true, Bool.false_eq_true, if_false]
        exact hrest
      | some previous =>
        have hprevious : ¬ (offset : Int) < previous.stop := by
          have hstop := hbefore previous rfl
          omega
        have hapart : previous.span.overlaps
            (Edit.span ⟨offset, (offset + Text.units text : Nat), newText⟩) = false := by
          simp [Span.overlaps, Edit.span, hprevious]
        simp only [edits, Edit.checkFrom, hfits, hapart, Bool.not_true, Bool.false_eq_true,
          if_false]
        exact hrest

/-- The edits put the new text in place of the changed parts, whatever stands
before them. -/
theorem spliceAll_edits (newText : String) (parts : List Part) (before : List UInt16) :
    Edit.spliceAll (edits newText before.length parts) (before ++ Text.encode (join parts)) =
      before ++ Text.encode (joinWith newText.toList parts) := by
  induction parts generalizing before with
  | nil => rfl
  | cons part parts ih =>
    cases part with
    | kept text =>
      have hrest := ih (before ++ Text.encode text)
      rw [List.length_append, Text.length_encode] at hrest
      rw [join_cons, joinWith_cons, text_kept, textWith_kept, Text.encode_append,
        Text.encode_append, ← List.append_assoc, ← List.append_assoc]
      exact hrest
    | changed text =>
      have hrest := ih (before ++ Text.encode text)
      rw [List.length_append, Text.length_encode] at hrest
      rw [join_cons, joinWith_cons, text_changed, textWith_changed, Text.encode_append,
        Text.encode_append, ← List.append_assoc, ← List.append_assoc, edits, Edit.spliceAll,
        List.foldr_cons]
      rw [Edit.spliceAll] at hrest
      rw [hrest, Edit.splice]
      -- the edit leaves what stands before it and puts the rest behind its new text
      have htake : (before ++ Text.encode text ++
          Text.encode (joinWith newText.toList parts)).take (before.length : Int).toNat =
            before := by
        rw [Int.toNat_natCast, List.append_assoc, List.take_left']
        rfl
      have hdrop : (before ++ Text.encode text ++
          Text.encode (joinWith newText.toList parts)).drop
            ((before.length + Text.units text : Nat) : Int).toNat =
              Text.encode (joinWith newText.toList parts) := by
        rw [Int.toNat_natCast, List.drop_left']
        simp
      rw [htake, hdrop]

/-- **Applying the edits of parts gives the text with the new one in place of
the changed parts.** -/
theorem applyAll_edits (newText : String) (parts : List Part) :
    Edit.applyAll (String.ofList (join parts)) (edits newText 0 parts) =
      .ok (String.ofList (joinWith newText.toList parts)) := by
  have hcheck : Edit.checkFrom (Text.encode (join parts)).length none
      (edits newText 0 parts) = .ok () :=
    checkFrom_edits (fun _ h => by cases h) (by simp)
  have hsplice : Edit.spliceAll (edits newText 0 parts) (Text.encode (join parts)) =
      Text.encode (joinWith newText.toList parts) := spliceAll_edits newText parts []
  rw [Edit.applyAll, String.toList_ofList, sorted_edits, hcheck, hsplice, Text.decode_encode]
  rfl

/-! ## Parts of a blanked text -/

/-- A part of which the ends can be told from blanks, given what follows it. -/
structure Firm (part behind : List Char) : Prop where
  head : ∃ c, part.head? = some c ∧ Text.isBlank c = false
  last : behind = [] ∨ ∃ c, part.getLast? = some c ∧ Text.isBlank c = false

/-- **Parts of the blanked text come from parts of the text**, with the same
edits. The new text begins no comment, so blanking commutes with the
edits. -/
theorem exists_parts_of_blanked {newText : String} (hnew : ';' ∉ newText.toList)
    {parts : List Part} {inside : Bool} {cs before : List Char} {offset : Nat}
    (hparts : Each Firm parts []) (h : Text.blankedFrom inside cs = before ++ join parts) :
    ∃ raw, cs = join raw ∧
      edits newText offset raw = edits newText (offset + Text.units before) parts ∧
      Text.blankedFrom inside (joinWith newText.toList raw) =
        before ++ joinWith newText.toList parts := by
  induction parts generalizing inside cs before offset with
  | nil => exact ⟨[.kept cs], by simp, rfl, by simpa using h⟩
  | cons part parts ih =>
    cases part with
    | kept text =>
      rw [join_cons, text_kept, ← List.append_assoc] at h
      obtain ⟨raw, hraw, hedits, hjoin⟩ := @ih inside cs (before ++ text) offset hparts h
      refine ⟨raw, hraw, ?_, by simpa using hjoin⟩
      rw [hedits, edits, Text.units_append, Nat.add_assoc]
    | changed text =>
      obtain ⟨hfirm, hparts⟩ := hparts
      rw [List.append_nil] at hfirm
      -- a changed part begins with no blank, so it was outside of a comment
      obtain ⟨cs₁, cs₂, cs₃, rfl, hbefore, hstate, hunits, hbehind⟩ :=
        Text.exists_of_blankedFrom hfirm.head hfirm.last h
      have hoffset : Text.units cs₁ = Text.units before := by
        rw [← hbefore, Text.units_blankedFrom]
      obtain ⟨raw, rfl, hedits, hjoin⟩ :=
        @ih false cs₃ [] (offset + Text.units before + Text.units text) hparts hbehind
      refine ⟨.kept cs₁ :: .changed cs₂ :: raw, rfl, ?_, ?_⟩
      · rw [edits, edits, edits, hoffset, hunits, hedits, Text.units_nil, Nat.add_zero]
      · rw [joinWith_cons, joinWith_cons, textWith_kept, textWith_changed, joinWith_cons,
          textWith_changed, Text.blankedFrom_append, hbefore, hstate, Text.blankedFrom_append,
          Text.blankedFrom_of_not_mem hnew, Text.insideAfter_of_not_mem hnew, hjoin,
          List.nil_append]

end Part

end SatScript
