import Mathlib.Data.List.Chain
import Mathlib.Data.List.Sort
import SatScript.Edit
/-!
# SatScript — which edits are accepted

Edits are checked in the order of their starts, each against the text and
against the one before it. `Accepted` says what this check comes to, and
`applyAll_eq_ok_iff` that nothing else decides whether edits are applied.
As long as no edit is an insertion, comparing neighbours is enough: edits
are refused if and only if one of them leaves the text or two of them,
however far apart in the list, share a character, and the order in which
they are given does not matter (`applyAll_refuses_iff`).
-/

namespace SatScript

/-- Two ranges that are not empty overlap just if there is an offset that both
cover. -/
theorem Span.overlaps_iff {first second : Span} (hfirst : first.start < first.stop)
    (hsecond : second.start < second.stop) :
    first.overlaps second = true ↔
      ∃ offset, first.covers offset = true ∧ second.covers offset = true := by
  constructor
  · intro h
    simp only [overlaps, Bool.and_eq_true, decide_eq_true_eq] at h
    -- the later of the two starts is covered by both
    refine ⟨max first.start second.start, ?_, ?_⟩
    · rw [covers_iff]
      omega
    · rw [covers_iff]
      omega
  · rintro ⟨offset, h₁, h₂⟩
    exact overlaps_of_covers h₁ h₂

namespace Edit

variable {text result : String} {edits other : List Edit} {length : Nat}

/-! ## Sorting -/

/-- Sorting loses no edit and adds none. -/
theorem perm_sorted (edits : List Edit) : (sorted edits).Perm edits := List.mergeSort_perm _ _

theorem mem_sorted {edit : Edit} : edit ∈ sorted edits ↔ edit ∈ edits := (perm_sorted edits).mem_iff

/-- Starts are compared by a total order, so sorting keeps the order of edits that start
together. -/
theorem start_le_trans (a b c : Edit) :
    decide (a.start ≤ b.start) = true → decide (b.start ≤ c.start) = true →
      decide (a.start ≤ c.start) = true := by
  simp only [decide_eq_true_eq]
  exact Int.le_trans

theorem start_le_total (a b : Edit) :
    (decide (a.start ≤ b.start) || decide (b.start ≤ a.start)) = true := by
  rw [Bool.or_eq_true, decide_eq_true_eq, decide_eq_true_eq]
  exact Int.le_total _ _

/-- **Sorted edits stand in the order of their starts.** -/
theorem pairwise_sorted (edits : List Edit) :
    (sorted edits).Pairwise fun first second => first.start ≤ second.start :=
  (List.pairwise_mergeSort start_le_trans start_le_total edits).imp of_decide_eq_true

/-- An edit is inserted behind those that start sooner and in front of all others. -/
theorem orderedInsert_append {edit : Edit} {before behind : List Edit}
    (hbefore : ∀ other ∈ before, ¬ edit.start ≤ other.start)
    (hbehind : ∀ other ∈ behind, edit.start ≤ other.start) :
    (before ++ behind).orderedInsert (fun first second => first.start ≤ second.start) edit =
      before ++ edit :: behind := by
  induction before with
  | nil =>
    cases behind with
    | nil => rfl
    | cons next behind =>
      rw [List.nil_append, List.orderedInsert_cons, if_pos (hbehind next List.mem_cons_self),
        List.nil_append]
  | cons first before ih =>
    obtain ⟨hfirst, hbefore⟩ := List.forall_mem_cons.1 hbefore
    rw [List.cons_append, List.orderedInsert_cons, if_neg hfirst, ih hbefore, List.cons_append]

/-- **Edits can be sorted by insertion**, from the last to the first: sorting keeps those in
order that start together. -/
theorem sorted_eq_insertionSort (edits : List Edit) :
    sorted edits = edits.insertionSort fun first second => first.start ≤ second.start := by
  induction edits with
  | nil => exact List.mergeSort_nil
  | cons edit edits ih =>
    obtain ⟨before, behind, hcons, hsorted, hbefore⟩ :=
      List.mergeSort_cons start_le_trans start_le_total edit edits
    have hpairwise := pairwise_sorted (edit :: edits)
    rw [sorted, hcons, List.pairwise_append] at hpairwise
    rw [List.insertionSort_cons, ← ih, sorted, sorted, hcons, hsorted,
      orderedInsert_append (fun other hother => ?_) (List.pairwise_cons.1 hpairwise.2.1).1]
    simpa using hbefore other hother

/-! ## The check -/

/-- The range lies in a text of this length, from where it starts to where it
stops. -/
theorem fits_iff {edit : Edit} :
    edit.fits length = true ↔ 0 ≤ edit.start ∧ edit.start ≤ edit.stop ∧ edit.stop ≤ length := by
  simp only [fits, Bool.and_eq_true, decide_eq_true_eq]
  omega

/-- The range of the one edit does not overlap that of the other. -/
def Clear (first second : Edit) : Prop := first.span.overlaps second.span = false

theorem clear_iff {first second : Edit} :
    Clear first second ↔ second.stop ≤ first.start ∨ first.stop ≤ second.start :=
  Span.overlaps_eq_false_iff

theorem clear_comm {first second : Edit} : Clear first second ↔ Clear second first := by
  rw [Clear, Clear, Span.overlaps_comm]

instance : Std.Symm Clear where
  symm _ _ := clear_comm.1

/-- **The check passes edits just if each fits and each is clear of the next.** -/
theorem checkFrom_eq_ok_iff {before : Option Edit} :
    checkFrom length before edits = .ok () ↔
      (∀ edit ∈ edits, edit.fits length = true) ∧ (before.toList ++ edits).IsChain Clear := by
  induction edits generalizing before with
  | nil => cases before <;> simp [checkFrom]
  | cons edit edits ih =>
    have hnext := @ih (some edit)
    rw [checkFrom.eq_def]
    cases hfits : edit.fits length with
    | false => simp [hfits]
    | true =>
      cases before with
      | none => simpa [hfits] using hnext
      | some previous =>
        cases hover : previous.span.overlaps edit.span with
        | true => simp [Clear, hover, hfits]
        | false => simpa [Clear, hover, hfits] using hnext

/-- Each of the edits lies in a text of this length, and in the order of their
starts each is clear of the next. -/
structure Accepted (length : Nat) (edits : List Edit) : Prop where
  fits : ∀ edit ∈ edits, edit.fits length = true
  clear : (sorted edits).IsChain Clear

theorem checkFrom_sorted_eq_ok_iff :
    checkFrom length none (sorted edits) = .ok () ↔ Accepted length edits := by
  rw [checkFrom_eq_ok_iff]
  constructor
  · rintro ⟨hfits, hclear⟩
    exact ⟨fun edit hedit => hfits edit (mem_sorted.2 hedit), hclear⟩
  · rintro ⟨hfits, hclear⟩
    exact ⟨fun edit hedit => hfits edit (mem_sorted.1 hedit), hclear⟩

/-- **Edits are applied just if they are accepted**, and then from the last to the
first. -/
theorem applyAll_eq_ok_iff :
    applyAll text edits = .ok result ↔ Accepted (Text.units text.toList) edits ∧
      result = String.ofList
        (Text.decode (spliceAll (sorted edits) (Text.encode text.toList))) := by
  rw [applyAll, ← checkFrom_sorted_eq_ok_iff, Text.length_encode]
  cases checkFrom (Text.units text.toList) none (sorted edits) with
  | error fault => exact ⟨fun h => (nomatch h), fun h => (nomatch h.1)⟩
  | ok _ => exact ⟨fun h => ⟨rfl, (Except.ok.inj h).symm⟩, fun h => congrArg Except.ok h.2.symm⟩

/-- Edits that are not accepted are refused. -/
theorem applyAll_eq_error_iff :
    (∃ fault, applyAll text edits = .error fault) ↔ ¬ Accepted (Text.units text.toList) edits := by
  constructor
  · rintro ⟨fault, hfault⟩ h
    rw [applyAll_eq_ok_iff.2 ⟨h, rfl⟩] at hfault
    cases hfault
  · intro h
    cases happlied : applyAll text edits with
    | error fault => exact ⟨fault, rfl⟩
    | ok result => exact absurd (applyAll_eq_ok_iff.1 happlied).1 h

/-! ## Edits that are no insertions -/

/-- **Neighbours that are clear of each other keep all apart**, as long as none is
empty: each edit ends where the next begins or before, and so before all that
are behind it. -/
theorem pairwise_clear_of_isChain (hsorted : edits.Pairwise fun a b => a.start ≤ b.start)
    (hne : ∀ edit ∈ edits, edit.start < edit.stop) (h : edits.IsChain Clear) :
    edits.Pairwise Clear := by
  induction edits with
  | nil => exact .nil
  | cons edit edits ih =>
    obtain ⟨hfirst, hsorted⟩ := List.pairwise_cons.1 hsorted
    obtain ⟨hedit, hne⟩ := List.forall_mem_cons.1 hne
    refine List.pairwise_cons.2 ⟨fun later hlater => ?_, ih hsorted hne h.of_cons⟩
    cases edits with
    | nil => cases hlater
    | cons next edits =>
      have hnext := List.isChain_cons_cons.1 h |>.1
      have hle := hfirst next List.mem_cons_self
      have hmore : next.start ≤ later.start := by
        rcases List.mem_cons.1 hlater with rfl | hlater
        · exact Int.le_refl _
        · exact (List.pairwise_cons.1 hsorted).1 later hlater
      have hnextNe := hne next List.mem_cons_self
      rw [clear_iff] at hnext ⊢
      omega

/-- Two edits at different places of the list share no character. -/
theorem pairwise_clear_iff (hne : ∀ edit ∈ edits, edit.start < edit.stop) :
    edits.Pairwise Clear ↔ ¬ ∃ first second, [first, second].Sublist edits ∧
      ∃ offset, first.span.covers offset = true ∧ second.span.covers offset = true := by
  rw [List.pairwise_iff_forall_sublist]
  constructor
  · rintro h ⟨first, second, hsublist, hshared⟩
    have hfirst := hne first (hsublist.subset List.mem_cons_self)
    have hsecond := hne second (hsublist.subset (List.mem_cons_of_mem _ List.mem_cons_self))
    have hclear : first.span.overlaps second.span = false := h hsublist
    rw [(Span.overlaps_iff hfirst hsecond).2 hshared] at hclear
    cases hclear
  · intro h first second hsublist
    rw [Clear, Bool.eq_false_iff]
    intro hover
    have hfirst := hne first (hsublist.subset List.mem_cons_self)
    have hsecond := hne second (hsublist.subset (List.mem_cons_of_mem _ List.mem_cons_self))
    exact h ⟨first, second, hsublist, (Span.overlaps_iff hfirst hsecond).1 hover⟩

/-- **Edits that replace something are accepted just if each fits and all are clear
of one another**, in whatever order they are given. -/
theorem accepted_iff (hne : ∀ edit ∈ edits, edit.start < edit.stop) :
    Accepted length edits ↔
      (∀ edit ∈ edits, edit.fits length = true) ∧ edits.Pairwise Clear := by
  have hperm := (perm_sorted edits).pairwise_iff (R := Clear) clear_comm.1
  constructor
  · rintro ⟨hfits, hclear⟩
    exact ⟨hfits, hperm.1 (pairwise_clear_of_isChain (pairwise_sorted edits)
      (fun edit hedit => hne edit (mem_sorted.1 hedit)) hclear)⟩
  · rintro ⟨hfits, hclear⟩
    exact ⟨hfits, (hperm.2 hclear).isChain⟩

/-- Accepted edits of which none is an insertion start at different places, so
there is one way to sort them. -/
theorem sorted_eq_of_perm (hne : ∀ edit ∈ edits, edit.start < edit.stop)
    (h : Accepted length edits) (hperm : other.Perm edits) : sorted other = sorted edits := by
  have hclear := ((accepted_iff hne).1 h).2
  refine List.Perm.eq_of_pairwise (fun first second hfirst hsecond hle hge => ?_)
    (pairwise_sorted other) (pairwise_sorted edits)
    ((perm_sorted other).trans (hperm.trans (perm_sorted edits).symm))
  by_contra hdiffer
  have hfirst := hperm.mem_iff.1 (mem_sorted.1 hfirst)
  have hsecond := mem_sorted.1 hsecond
  have hapart := clear_iff.1 (hclear.forall hfirst hsecond hdiffer)
  have hfirstNe := hne first hfirst
  have hsecondNe := hne second hsecond
  omega

/-- **Edits that are applied come to the same text in any other order.** -/
theorem applyAll_of_perm (hne : ∀ edit ∈ edits, edit.start < edit.stop)
    (hperm : other.Perm edits) (h : applyAll text edits = .ok result) :
    applyAll text other = .ok result := by
  obtain ⟨haccepted, hresult⟩ := applyAll_eq_ok_iff.1 h
  have hsorted := sorted_eq_of_perm hne haccepted hperm
  refine applyAll_eq_ok_iff.2 ⟨⟨fun edit hedit => ?_, hsorted ▸ haccepted.clear⟩, ?_⟩
  · exact haccepted.fits edit (hperm.mem_iff.1 hedit)
  · rw [hsorted, hresult]

/-- **Edits are refused just if one leaves the text or two share a character**,
whichever two of the list these are; and edits given in another order are
refused as well or come to the same text. No edit here is an insertion, which
would share no character with any other. -/
theorem applyAll_refuses_iff (hne : ∀ edit ∈ edits, edit.start < edit.stop) (text : String) :
    ((∃ fault, applyAll text edits = .error fault) ↔
      (∃ edit ∈ edits, edit.start < 0 ∨ (Text.units text.toList : Int) < edit.stop) ∨
        ∃ first second, [first, second].Sublist edits ∧
          ∃ offset, first.span.covers offset = true ∧ second.span.covers offset = true) ∧
    ∀ other, other.Perm edits →
      ∀ result, applyAll text other = .ok result ↔ applyAll text edits = .ok result := by
  constructor
  · rw [applyAll_eq_error_iff, accepted_iff hne, pairwise_clear_iff hne, not_and_or, not_not,
      not_forall₂]
    refine or_congr_left (exists_congr fun edit => ⟨?_, ?_⟩)
    · rintro ⟨hedit, hfits⟩
      have hlt := hne edit hedit
      rw [fits_iff] at hfits
      exact ⟨hedit, by omega⟩
    · rintro ⟨hedit, hleaves⟩
      refine ⟨hedit, fun hfits => ?_⟩
      rw [fits_iff] at hfits
      omega
  · intro other hperm result
    have hneOther : ∀ edit ∈ other, edit.start < edit.stop := fun edit hedit =>
      hne edit (hperm.mem_iff.1 hedit)
    exact ⟨applyAll_of_perm hneOther hperm.symm, applyAll_of_perm hne hperm⟩

/-- Two edits within the range of a third. Sorted, the third stands first, and only
one of the others is next to it. -/
def enclosed : List Edit := [⟨4, 5, "Z"⟩, ⟨1, 2, "Y"⟩, ⟨0, 6, "X"⟩]

/-- The first and the last share the character at 4, and sorting puts the second
between them; no order of the three can be applied. -/
theorem applyAll_refuses_enclosed :
    (∀ edit ∈ enclosed, edit.start < edit.stop) ∧
      (∃ fault, applyAll "abcdef" enclosed = .error fault) ∧
      ∀ other, other.Perm enclosed → ∀ result, applyAll "abcdef" other ≠ .ok result := by
  have hne : ∀ edit ∈ enclosed, edit.start < edit.stop := by decide
  obtain ⟨hrefuses, horder⟩ := applyAll_refuses_iff hne "abcdef"
  obtain ⟨fault, hfault⟩ := hrefuses.2 (.inr ⟨⟨4, 5, "Z"⟩, ⟨0, 6, "X"⟩,
    by simp [enclosed], 4, by decide, by decide⟩)
  refine ⟨hne, ⟨fault, hfault⟩, fun other hperm result happlied => ?_⟩
  rw [(horder other hperm result).1 happlied] at hfault
  cases hfault

end Edit

end SatScript
