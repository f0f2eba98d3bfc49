import SatScript.Proofs.Edit.Accepted
/-!
# SatScript — edits applied at once

Edits are applied one after another, the last one first, to a text that
changes on the way. What is wanted is the text in which all ranges are
replaced at once: the pieces of the text between the ranges, with the new
texts in between (`atOnce`). The two are the same where each edit ends
before the next begins (`spliceAll_eq_interleave`). The check lets one
other case pass, an insertion that is sorted behind an edit that starts in
the same place: then the edit takes away the beginning of what has been
inserted. That is the only way to go wrong (`applyAll_eq_atOnce_iff`).
-/

namespace SatScript

namespace Text

/-! ## Characters and their units -/

theorem toNat_ofNat {n : Nat} (h : n.isValidChar) : (Char.ofNat n).toNat = n := by
  rw [Char.ofNat, dif_pos h]
  rfl

/-- A character before the surrogates is decoded from its own unit only. -/
theorem decodeUnit_eq_iff {c : Char} (hc : c.toNat < 0xD800) {u : UInt16} :
    decodeUnit u = c ↔ u = UInt16.ofNat c.toNat := by
  have hunit : (UInt16.ofNat c.toNat).toNat = c.toNat :=
    UInt16.toNat_ofNat_of_lt' (by simp only [UInt16.size]; omega)
  rw [← UInt16.toNat_inj, hunit]
  constructor
  · rintro rfl
    rw [decodeUnit] at hc ⊢
    split at hc
    · exact absurd hc (by decide)
    next hsurrogate =>
      have := u.toNat_lt
      simp only [isHigh, isLow, Bool.or_eq_true, Bool.and_eq_true, decide_eq_true_eq] at hsurrogate
      rw [if_neg (by simpa [isHigh, isLow] using hsurrogate), toNat_ofNat]
      rw [Nat.isValidChar]
      omega
  · intro hu
    have hsurrogate : (isHigh u || isLow u) = false := by
      rw [Bool.eq_false_iff]
      simp only [isHigh, isLow, Ne, Bool.or_eq_true, Bool.and_eq_true, decide_eq_true_eq]
      omega
    rw [decodeUnit, hsurrogate, if_neg Bool.false_ne_true, hu, Char.ofNat_toNat]

/-- Half a pair is the unit of no such character. -/
theorem ne_of_surrogate {c : Char} (hc : c.toNat < 0xD800) {u : UInt16}
    (hu : (isHigh u || isLow u) = true) : u ≠ UInt16.ofNat c.toNat := by
  intro h
  have hunit := (decodeUnit_eq_iff hc).2 h
  rw [decodeUnit, if_pos hu] at hunit
  subst hunit
  exact absurd hc (by decide)

/-- What a pair stands for comes behind the surrogates. -/
theorem le_toNat_decodePair {high low : UInt16} (hhigh : isHigh high = true)
    (hlow : isLow low = true) : 0x10000 ≤ (decodePair high low).toNat := by
  simp only [isHigh, isLow, Bool.and_eq_true, decide_eq_true_eq] at hhigh hlow
  rw [decodePair, toNat_ofNat]
  · omega
  · rw [Nat.isValidChar]
    omega

/-- **A character before the surrogates is in a text as often as its unit is in the
text's units**, whatever the other units are. -/
theorem count_decode {c : Char} (hc : c.toNat < 0xD800) (us : List UInt16) :
    (decode us).count c = us.count (UInt16.ofNat c.toNat) := by
  induction us using decode.induct with
  | case1 => rfl
  | case2 u =>
    rw [decode, List.count_cons, List.count_cons]
    simp only [beq_iff_eq, decodeUnit_eq_iff hc]
    rfl
  | case3 u v rest hpair ih =>
    obtain ⟨hhigh, hlow⟩ := Bool.and_eq_true_iff.1 hpair
    have hfar := le_toNat_decodePair hhigh hlow
    have hne : decodePair u v ≠ c := by
      rintro rfl
      omega
    have hu := ne_of_surrogate hc (Bool.or_eq_true_iff.2 (.inl hhigh))
    have hv := ne_of_surrogate hc (Bool.or_eq_true_iff.2 (.inr hlow))
    rw [decode, if_pos hpair, List.count_cons_of_ne hne, List.count_cons_of_ne hu,
      List.count_cons_of_ne hv, ih]
  | case4 u v rest hpair ih =>
    rw [decode, if_neg hpair, List.count_cons, List.count_cons, ih]
    simp only [beq_iff_eq, decodeUnit_eq_iff hc]

end Text

namespace Edit

variable {text result : String} {edits : List Edit} {units : List UInt16} {offset length : Nat}

/-! ## All at once -/

/-- The pieces of a text from an offset on, before, between and behind the ranges
of edits that stand in order. Between ranges that share a start there is
nothing. -/
def pieces (units : List UInt16) (offset : Nat) : List Edit → List (List UInt16)
  | [] => [units.drop offset]
  | edit :: edits =>
    (units.take edit.start.toNat).drop offset :: pieces units (max offset edit.stop.toNat) edits

/-- Pieces with the new texts of edits between them. -/
def interleave : List (List UInt16) → List Edit → List UInt16
  | piece :: pieces, edit :: edits =>
    piece ++ (Text.encode edit.newText.toList ++ interleave pieces edits)
  | pieces, _ => pieces.flatten

/-- The text with all ranges replaced at once. -/
def atOnce (text : String) (edits : List Edit) : String :=
  let units := Text.encode text.toList
  String.ofList (Text.decode (interleave (pieces units 0 (sorted edits)) (sorted edits)))

/-- The units of a text that are in the range of no edit, where the first one stands
at an offset. -/
def uncovered (edits : List Edit) (offset : Nat) : List UInt16 → List UInt16
  | [] => []
  | unit :: units =>
    if edits.any fun edit => edit.span.covers offset then uncovered edits (offset + 1) units
    else unit :: uncovered edits (offset + 1) units

/-- An insertion comes behind an edit that starts in the same place and takes
something away. -/
def InsertsBehind (edits : List Edit) : Prop :=
  ∃ replaced inserted, [replaced, inserted] <:+: edits ∧ replaced.start < replaced.stop ∧
    inserted.span = ⟨replaced.start, replaced.start⟩

/-! ## The pieces are what no edit covers -/

theorem covers_iff {edit : Edit} :
    edit.span.covers offset = true ↔ edit.start ≤ offset ∧ (offset : Int) < edit.stop :=
  Span.covers_iff

theorem uncovered_append (first second : List UInt16) :
    uncovered edits offset (first ++ second) =
      uncovered edits offset first ++ uncovered edits (offset + first.length) second := by
  induction first generalizing offset with
  | nil => rfl
  | cons unit first ih =>
    rw [List.cons_append, uncovered, uncovered, ih, List.length_cons, Nat.add_assoc,
      Nat.add_comm 1]
    split <;> rfl

/-- Without edits all is left. -/
@[simp] theorem uncovered_nil : uncovered [] offset units = units := by
  induction units generalizing offset with
  | nil => rfl
  | cons unit units ih => simp [uncovered, ih]

/-- Up to where the first edit starts all is left. -/
theorem uncovered_eq_self
    (h : ∀ edit ∈ edits, ((offset + units.length : Nat) : Int) ≤ edit.start) :
    uncovered edits offset units = units := by
  induction units generalizing offset with
  | nil => rfl
  | cons unit units ih =>
    rw [List.length_cons] at h
    have hnone : (edits.any fun edit => edit.span.covers offset) = false := by
      rw [List.any_eq_false]
      intro edit hedit hcovers
      have hstart := h edit hedit
      rw [covers_iff] at hcovers
      omega
    rw [uncovered, hnone, if_neg Bool.false_ne_true, ih fun edit hedit => by
      have hstart := h edit hedit
      omega]

/-- From where an edit starts on, it takes away what is up to its stop, and does not
matter behind that. -/
theorem uncovered_cons {edit : Edit} (hstart : edit.start ≤ offset) :
    uncovered (edit :: edits) offset units =
      uncovered edits (max offset edit.stop.toNat) (units.drop (edit.stop.toNat - offset)) := by
  induction units generalizing offset with
  | nil => simp [uncovered]
  | cons unit units ih =>
    have hih := @ih (offset + 1) (by omega)
    by_cases hstop : (offset : Int) < edit.stop
    · have hcovers : edit.span.covers offset = true := covers_iff.2 ⟨hstart, hstop⟩
      have hdrop : edit.stop.toNat - offset = edit.stop.toNat - (offset + 1) + 1 := by omega
      have hmax : max (offset + 1) edit.stop.toNat = max offset edit.stop.toNat := by omega
      rw [uncovered, List.any_cons, hcovers, Bool.true_or, if_pos rfl, hih, hdrop, hmax,
        List.drop_succ_cons]
    · have hcovers : edit.span.covers offset = false := by
        rw [Bool.eq_false_iff, Ne, covers_iff]
        omega
      have hdrop : edit.stop.toNat - (offset + 1) = 0 := by omega
      have hdrop' : edit.stop.toNat - offset = 0 := by omega
      have hmax : max offset edit.stop.toNat = offset := by omega
      have hmax' : max (offset + 1) edit.stop.toNat = offset + 1 := by omega
      rw [uncovered, List.any_cons, hcovers, Bool.false_or, hih, hdrop, hdrop', hmax, hmax',
        List.drop_zero, List.drop_zero, uncovered]

/-- **The pieces of a text are what no edit covers**, in order and once each. -/
theorem flatten_pieces (hsorted : edits.Pairwise fun a b => a.start ≤ b.start)
    (hfits : ∀ edit ∈ edits, edit.fits units.length = true) :
    (pieces units offset edits).flatten = uncovered edits offset (units.drop offset) := by
  induction edits generalizing offset with
  | nil => simp [pieces]
  | cons edit edits ih =>
    obtain ⟨hfirst, hsorted⟩ := List.pairwise_cons.1 hsorted
    obtain ⟨hedit, hfits⟩ := List.forall_mem_cons.1 hfits
    obtain ⟨hzero, hle, hlength⟩ := fits_iff.1 hedit
    rw [pieces, List.flatten_cons, ih hsorted hfits]
    by_cases hbefore : (offset : Int) ≤ edit.start
    · -- the piece ends where the edit starts, and nothing covers it
      have hsplit : units.drop offset =
          (units.take edit.start.toNat).drop offset ++ units.drop edit.start.toNat := by
        conv_lhs => rw [← List.take_append_drop edit.start.toNat units]
        rw [List.drop_append_of_le_length (by rw [List.length_take]; omega)]
      have hpiece : ((units.take edit.start.toNat).drop offset).length =
          edit.start.toNat - offset := by
        rw [List.length_drop, List.length_take]
        omega
      have hstart : offset + (edit.start.toNat - offset) = edit.start.toNat := by omega
      have huncovered : uncovered (edit :: edits) offset
          ((units.take edit.start.toNat).drop offset) =
            (units.take edit.start.toNat).drop offset := by
        refine uncovered_eq_self fun later hlater => ?_
        rw [hpiece, hstart]
        rcases List.mem_cons.1 hlater with rfl | hlater
        · omega
        · have := hfirst later hlater
          omega
      have hmax : max edit.start.toNat edit.stop.toNat = max offset edit.stop.toNat := by omega
      have hdrop : edit.start.toNat + (edit.stop.toNat - edit.start.toNat) =
          max offset edit.stop.toNat := by omega
      rw [hsplit, uncovered_append, huncovered, hpiece, hstart, uncovered_cons (by omega), hmax,
        List.drop_drop, hdrop]
    · have hempty : (units.take edit.start.toNat).drop offset = [] := by
        rw [List.drop_eq_nil_iff, List.length_take]
        omega
      have hdrop : offset + (edit.stop.toNat - offset) = max offset edit.stop.toNat := by omega
      rw [hempty, List.nil_append, uncovered_cons (by omega), List.drop_drop, hdrop]

/-! ## Where each edit ends before the next begins -/

/-- Sorted edits that are clear of their neighbours end before the next begins,
unless one inserts behind another. -/
theorem isChain_of_not_insertsBehind (hsorted : edits.Pairwise fun a b => a.start ≤ b.start)
    (hfits : ∀ edit ∈ edits, edit.fits length = true) (hclear : edits.IsChain Clear)
    (h : ¬ InsertsBehind edits) : edits.IsChain fun a b => a.stop ≤ b.start := by
  rw [List.isChain_iff_forall_rel_of_append_cons_cons] at hclear ⊢
  rintro first second before after rfl
  by_contra hcovers
  refine h ⟨first, second, ⟨before, after, by simp⟩, ?_⟩
  have hle : first.start ≤ second.start :=
    List.rel_of_pairwise_cons (List.pairwise_append.1 hsorted).2.1 List.mem_cons_self
  obtain ⟨-, hfirst, -⟩ := fits_iff.1 (hfits first (by simp))
  obtain ⟨-, hsecond, -⟩ := fits_iff.1 (hfits second (by simp))
  have hapart := clear_iff.1 (hclear rfl)
  refine ⟨by omega, ?_⟩
  rw [span, Span.mk.injEq]
  omega

/-- **Edits of which each ends before the next begins are as good as applied at
once**: what an edit takes away lies in what the later ones have left alone. -/
theorem spliceAll_eq_interleave (hfits : ∀ edit ∈ edits, edit.fits units.length = true)
    (hchain : edits.IsChain fun a b => a.stop ≤ b.start)
    (hfrom : ∀ edit ∈ edits.head?, (offset : Int) ≤ edit.start) :
    spliceAll edits units = units.take offset ++ interleave (pieces units offset edits) edits := by
  induction edits generalizing offset with
  | nil => simp [spliceAll, pieces, interleave]
  | cons edit edits ih =>
    obtain ⟨hedit, hfits⟩ := List.forall_mem_cons.1 hfits
    obtain ⟨hzero, hle, hlength⟩ := fits_iff.1 hedit
    have hstart := hfrom edit rfl
    have hrest : spliceAll edits units =
        units.take edit.stop.toNat ++ interleave (pieces units edit.stop.toNat edits) edits := by
      refine ih hfits hchain.of_cons fun next hnext => ?_
      have := List.IsChain.rel_head? hchain hnext
      omega
    have hmax : max offset edit.stop.toNat = edit.stop.toNat := by omega
    have hkept : (units.take edit.stop.toNat).length = edit.stop.toNat := by
      rw [List.length_take]
      omega
    have hbegin : units.take edit.start.toNat =
        units.take offset ++ (units.take edit.start.toNat).drop offset := by
      conv_lhs => rw [← List.take_append_drop offset (units.take edit.start.toNat)]
      rw [List.take_take, Nat.min_eq_left (by omega)]
    rw [spliceAll, List.foldr_cons, ← spliceAll, hrest, splice,
      List.take_append_of_le_length (by omega), List.take_take, Nat.min_eq_left (by omega),
      List.drop_left' hkept, pieces, interleave, hmax, ← List.append_assoc (units.take offset),
      ← hbegin, List.append_assoc]

/-- Accepted edits of which none inserts behind another are as good as applied at
once. -/
theorem applyAll_eq_atOnce (h : Accepted (Text.units text.toList) edits)
    (hbehind : ¬ InsertsBehind (sorted edits)) :
    applyAll text edits = .ok (atOnce text edits) := by
  have hfits : ∀ edit ∈ sorted edits, edit.fits (Text.encode text.toList).length = true := by
    intro edit hedit
    rw [Text.length_encode]
    exact h.fits edit (mem_sorted.1 hedit)
  have hchain := isChain_of_not_insertsBehind (pairwise_sorted edits) hfits h.clear hbehind
  have hsplice := @spliceAll_eq_interleave _ _ 0 hfits hchain fun edit hedit =>
    (fits_iff.1 (hfits edit (List.mem_of_mem_head? hedit))).1
  rw [List.take_zero, List.nil_append] at hsplice
  rw [applyAll_eq_ok_iff, hsplice]
  exact ⟨h, rfl⟩

/-! ## Other texts in the same ranges -/

/-- The edit with another text for its range. -/
def reworded (newText : Edit → String) (edit : Edit) : Edit := { edit with newText := newText edit }

variable {newText : Edit → String}

@[simp] theorem start_reworded {edit : Edit} : (reworded newText edit).start = edit.start := rfl

@[simp] theorem stop_reworded {edit : Edit} : (reworded newText edit).stop = edit.stop := rfl

/-- What is sorted are the ranges. -/
theorem sorted_map_reworded :
    sorted (edits.map (reworded newText)) = (sorted edits).map (reworded newText) := by
  refine (List.map_mergeSort ?_).symm
  intro a _ b _
  rfl

theorem fits_reworded {edit : Edit} : (reworded newText edit).fits length = edit.fits length := rfl

/-- What is accepted are the ranges. -/
theorem accepted_map_reworded :
    Accepted length (edits.map (reworded newText)) ↔ Accepted length edits := by
  have hclear : ((sorted edits).map (reworded newText)).IsChain Clear ↔
      (sorted edits).IsChain Clear := List.isChain_map _
  constructor
  · rintro ⟨hfits, hchain⟩
    rw [sorted_map_reworded] at hchain
    refine ⟨fun edit hedit => ?_, hclear.1 hchain⟩
    exact hfits (reworded newText edit) (List.mem_map_of_mem hedit)
  · rintro ⟨hfits, hchain⟩
    refine ⟨fun edit hedit => ?_, ?_⟩
    · obtain ⟨original, horiginal, rfl⟩ := List.mem_map.1 hedit
      exact hfits original horiginal
    · rw [sorted_map_reworded]
      exact hclear.2 hchain

theorem insertsBehind_map_reworded :
    InsertsBehind (edits.map (reworded newText)) ↔ InsertsBehind edits := by
  constructor
  · rintro ⟨replaced, inserted, hinfix, hreplaced, hinserted⟩
    obtain ⟨originals, hinfix, horiginals⟩ := List.infix_map_iff.1 hinfix
    obtain ⟨first, others, rfl, rfl, hothers⟩ := List.map_eq_cons_iff.1 horiginals.symm
    obtain ⟨second, rest, rfl, rfl, hrest⟩ := List.map_eq_cons_iff.1 hothers
    obtain rfl := List.map_eq_nil_iff.1 hrest
    exact ⟨first, second, hinfix, hreplaced, hinserted⟩
  · rintro ⟨replaced, inserted, hinfix, hreplaced, hinserted⟩
    exact ⟨_, _, hinfix.map (reworded newText), hreplaced, hinserted⟩

/-! ## What is lost behind an edit -/

/-- How many of a unit the new texts of edits have. -/
def countNew (unit : UInt16) : List Edit → Nat
  | [] => 0
  | edit :: edits => (Text.encode edit.newText.toList).count unit + countNew unit edits

variable {unit : UInt16} {edit : Edit}

@[simp] theorem countNew_nil : countNew unit [] = 0 := rfl

@[simp] theorem countNew_cons :
    countNew unit (edit :: edits) =
      (Text.encode edit.newText.toList).count unit + countNew unit edits := rfl

theorem countNew_append (first second : List Edit) :
    countNew unit (first ++ second) = countNew unit first + countNew unit second := by
  induction first with
  | nil => exact (Nat.zero_add _).symm
  | cons edit first ih => rw [List.cons_append, countNew_cons, countNew_cons, ih, Nat.add_assoc]

/-- All at once keeps every new text. -/
theorem countNew_le_count_interleave :
    countNew unit edits ≤ (interleave (pieces units offset edits) edits).count unit := by
  induction edits generalizing offset with
  | nil => exact Nat.zero_le _
  | cons edit edits ih =>
    have := @ih (max offset edit.stop.toNat)
    rw [countNew_cons, pieces, interleave, List.count_append, List.count_append]
    omega

/-- What an edit takes away and what it leaves are what there was and what it
puts in. -/
theorem count_splice (units : List UInt16) (unit : UInt16) (hle : edit.start ≤ edit.stop) :
    (edit.splice units).count unit +
        ((units.take edit.stop.toNat).drop edit.start.toNat).count unit =
      (Text.encode edit.newText.toList).count unit + units.count unit := by
  have hsplit : units = units.take edit.start.toNat ++
      ((units.take edit.stop.toNat).drop edit.start.toNat ++ units.drop edit.stop.toNat) := by
    have hbegin : units.take edit.start.toNat =
        (units.take edit.stop.toNat).take edit.start.toNat := by
      rw [List.take_take, Nat.min_eq_left (by omega)]
    rw [← List.append_assoc, hbegin, List.take_append_drop, List.take_append_drop]
  have hcount := congrArg (List.count unit) hsplit
  rw [List.count_append, List.count_append] at hcount
  rw [splice, List.count_append, List.count_append]
  omega

theorem count_spliceAll_le (units : List UInt16) (unit : UInt16)
    (hle : ∀ edit ∈ edits, edit.start ≤ edit.stop) :
    (spliceAll edits units).count unit ≤ countNew unit edits + units.count unit := by
  induction edits with
  | nil => simp [spliceAll]
  | cons edit edits ih =>
    obtain ⟨hedit, hle⟩ := List.forall_mem_cons.1 hle
    have hcount := count_splice (spliceAll edits units) unit hedit
    have := ih hle
    rw [countNew_cons]
    show (edit.splice (spliceAll edits units)).count unit ≤ _
    omega

/-- Edits from an offset on leave a text at least that long. -/
theorem le_length_spliceAll (hlength : length ≤ units.length)
    (hfrom : ∀ edit ∈ edits, (length : Int) ≤ edit.start) :
    length ≤ (spliceAll edits units).length := by
  induction edits with
  | nil => exact hlength
  | cons edit edits ih =>
    obtain ⟨hedit, hfrom⟩ := List.forall_mem_cons.1 hfrom
    have := ih hfrom
    show length ≤ (edit.splice (spliceAll edits units)).length
    rw [splice, List.length_append, List.length_append, List.length_take]
    omega

/-- An edit takes away the beginning of what has been inserted where it starts. -/
theorem count_splice_splice_lt (units : List UInt16) {replaced inserted : Edit}
    (hzero : 0 ≤ replaced.start) (hreplaced : replaced.start < replaced.stop)
    (hinserted : inserted.span = ⟨replaced.start, replaced.start⟩)
    (hlength : replaced.start ≤ units.length)
    (hnew : (Text.encode inserted.newText.toList).head? = some unit) :
    (replaced.splice (inserted.splice units)).count unit <
      (Text.encode replaced.newText.toList).count unit +
        ((Text.encode inserted.newText.toList).count unit + units.count unit) := by
  rw [span, Span.mk.injEq] at hinserted
  obtain ⟨hstart, hstop⟩ := hinserted
  have hcut : unit ∈ ((inserted.splice units).take replaced.stop.toNat).drop
      replaced.start.toNat := by
    obtain ⟨others, hothers⟩ := List.head?_eq_some_iff.1 hnew
    obtain ⟨more, hmore⟩ : ∃ more, replaced.stop.toNat - replaced.start.toNat = more + 1 :=
      ⟨replaced.stop.toNat - replaced.start.toNat - 1, by omega⟩
    have hkept : (units.take replaced.start.toNat).length = replaced.start.toNat := by
      rw [List.length_take]
      omega
    rw [List.drop_take, hmore, splice, hstart, hstop, List.append_assoc, List.drop_left' hkept,
      hothers, List.cons_append, List.take_succ_cons]
    exact List.mem_cons_self
  have hpositive := List.count_pos_iff.2 hcut
  have hempty : inserted.start ≤ inserted.stop := by omega
  have hinner := count_splice units unit hempty
  have houter := count_splice (inserted.splice units) unit (Int.le_of_lt hreplaced)
  omega

/-- **Where one edit inserts behind another, something of the new texts is lost**, as
long as every insertion begins with the unit that is counted. -/
theorem count_spliceAll_lt (hfits : ∀ edit ∈ edits, edit.fits units.length = true)
    (hsorted : edits.Pairwise fun a b => a.start ≤ b.start)
    (hnew : ∀ edit ∈ edits, edit.start = edit.stop →
      (Text.encode edit.newText.toList).head? = some unit)
    (hbehind : InsertsBehind edits) :
    (spliceAll edits units).count unit < countNew unit edits + units.count unit := by
  obtain ⟨replaced, inserted, ⟨before, after, rfl⟩, hreplaced, hinserted⟩ := hbehind
  have hspan := hinserted
  rw [span, Span.mk.injEq] at hspan
  have hle : ∀ edit ∈ before ++ [replaced, inserted] ++ after, edit.start ≤ edit.stop :=
    fun edit hedit => (fits_iff.1 (hfits edit hedit)).2.1
  obtain ⟨hzero, -, hlength⟩ := fits_iff.1 (hfits replaced (by simp))
  have hfrom : ∀ edit ∈ after, (replaced.start.toNat : Int) ≤ edit.start := by
    intro edit hedit
    have := (List.pairwise_append.1 hsorted).2.2 replaced (by simp) edit hedit
    omega
  have hlong := le_length_spliceAll (by omega : replaced.start.toNat ≤ units.length) hfrom
  have hmiddle := count_splice_splice_lt (spliceAll after units) hzero hreplaced hinserted
    (by omega) (hnew inserted (by simp) (by omega))
  have hafter : (spliceAll after units).count unit ≤ countNew unit after + units.count unit :=
    count_spliceAll_le units unit fun edit hedit => hle edit (by simp [hedit])
  have hbefore := count_spliceAll_le (replaced.splice (inserted.splice (spliceAll after units)))
    unit (fun edit hedit => hle edit (by simp [hedit]) : ∀ edit ∈ before, edit.start ≤ edit.stop)
  have hsplice : spliceAll (before ++ [replaced, inserted] ++ after) units =
      spliceAll before (replaced.splice (inserted.splice (spliceAll after units))) := by
    rw [List.append_assoc, spliceAll, List.foldr_append]
    rfl
  rw [hsplice, countNew_append, countNew_append, countNew_cons, countNew_cons, countNew_nil]
  omega

/-- A text of a length in which no insertion is to be found. -/
def blank (length : Nat) : String := String.ofList (List.replicate length 'a')

/-- A text that tells an insertion. -/
def mark (edit : Edit) : String := if edit.start = edit.stop then "b" else ""

theorem encode_blank : Text.encode (blank length).toList = List.replicate length 97 := by
  rw [blank, String.toList_ofList]
  induction length with
  | zero => rfl
  | succ length ih =>
    rw [List.replicate_succ, List.replicate_succ, ← ih]
    rfl

/-- **Where one edit inserts behind another, some texts in the same ranges come out
wrong**: marks are lost that are there when all is applied at once. -/
theorem applyAll_ne_atOnce (h : Accepted length edits) (hbehind : InsertsBehind (sorted edits)) :
    applyAll (blank length) (edits.map (reworded mark)) ≠
      .ok (atOnce (blank length) (edits.map (reworded mark))) := by
  intro happlied
  have hresult := congrArg String.toList (applyAll_eq_ok_iff.1 happlied).2
  rw [atOnce, String.toList_ofList, String.toList_ofList] at hresult
  have hcount := congrArg (List.count 'b') hresult
  rw [Text.count_decode (by decide), Text.count_decode (by decide), encode_blank,
    sorted_map_reworded] at hcount
  have hfits : ∀ edit ∈ (sorted edits).map (reworded mark),
      edit.fits (List.replicate length (97 : UInt16)).length = true := by
    intro edit hedit
    obtain ⟨original, horiginal, rfl⟩ := List.mem_map.1 hedit
    rw [fits_reworded, List.length_replicate]
    exact h.fits original (mem_sorted.1 horiginal)
  have hmarks : ∀ edit ∈ (sorted edits).map (reworded mark), edit.start = edit.stop →
      (Text.encode edit.newText.toList).head? = some (UInt16.ofNat 'b'.toNat) := by
    intro edit hedit hempty
    obtain ⟨original, -, rfl⟩ := List.mem_map.1 hedit
    rw [start_reworded, stop_reworded] at hempty
    have hmark : (Text.encode "b".toList).head? = some (UInt16.ofNat 'b'.toNat) := by decide
    rw [reworded, mark, if_pos hempty, hmark]
  have hkept := @countNew_le_count_interleave ((sorted edits).map (reworded mark))
    (List.replicate length 97) 0 (UInt16.ofNat 'b'.toNat)
  have hlost := count_spliceAll_lt hfits (List.pairwise_map.2 (pairwise_sorted edits)) hmarks
    (insertsBehind_map_reworded.2 hbehind)
  have hnone : (List.replicate length (97 : UInt16)).count (UInt16.ofNat 'b'.toNat) = 0 := by
    rw [List.count_replicate]
    rfl
  omega

/-! ## When all is as if at once -/

theorem uncovered_sorted :
    uncovered (sorted edits) offset units = uncovered edits offset units := by
  induction units generalizing offset with
  | nil => rfl
  | cons unit units ih => rw [uncovered, uncovered, ih, (perm_sorted edits).any_eq]

/-- Edits that end before the next begins insert nothing behind another. -/
theorem not_insertsBehind_of_isChain (h : edits.IsChain fun a b => a.stop ≤ b.start) :
    ¬ InsertsBehind edits := by
  rintro ⟨replaced, inserted, hinfix, hreplaced, hinserted⟩
  rw [span, Span.mk.injEq] at hinserted
  have hchain := List.IsChain.infix h hinfix
  have := List.rel_of_isChain_cons_cons hchain
  omega

/-- **Edits that are applied come to the text with all ranges replaced at once, unless
one inserts behind another.** The pieces of the text that are kept are what no
edit covers, and between them stand the new texts, each of them whole. The
exception is a matter of the ranges alone, and a real one: some texts in the
same ranges come out wrong. -/
theorem applyAll_eq_atOnce_iff (h : applyAll text edits = .ok result) :
    (pieces (Text.encode text.toList) 0 (sorted edits)).flatten =
        uncovered edits 0 (Text.encode text.toList) ∧
      (¬ InsertsBehind (sorted edits) → result = atOnce text edits) ∧
      ((∀ other newText, Text.units other.toList = Text.units text.toList →
          applyAll other (edits.map (reworded newText)) =
            .ok (atOnce other (edits.map (reworded newText)))) ↔
        ¬ InsertsBehind (sorted edits)) := by
  obtain ⟨haccepted, -⟩ := applyAll_eq_ok_iff.1 h
  refine ⟨?_, fun hbehind => ?_, fun hall hbehind => ?_, fun hbehind other newText hunits => ?_⟩
  · rw [flatten_pieces (pairwise_sorted edits), uncovered_sorted, List.drop_zero]
    intro edit hedit
    rw [Text.length_encode]
    exact haccepted.fits edit (mem_sorted.1 hedit)
  · rw [applyAll_eq_atOnce haccepted hbehind] at h
    exact (Except.ok.inj h).symm
  · refine applyAll_ne_atOnce haccepted hbehind (hall _ _ ?_)
    rw [← Text.length_encode, encode_blank, List.length_replicate]
  · refine applyAll_eq_atOnce (accepted_map_reworded.2 (hunits ▸ haccepted)) ?_
    rw [sorted_map_reworded, insertsBehind_map_reworded]
    exact hbehind

/-- An insertion before an edit, and one behind where it ends. -/
def around : List Edit := [⟨3, 3, "J"⟩, ⟨1, 1, "I"⟩, ⟨1, 3, "N"⟩]

theorem applyAll_around :
    applyAll "abcdef" around = .ok "aINJdef" ∧ ¬ InsertsBehind (sorted around) ∧
      "aINJdef" = atOnce "abcdef" around ∧
      applyAll "uvwxyz" (around.map (reworded fun _ => "--")) = .ok "u------xyz" := by
  have hsorted : sorted around = [⟨1, 1, "I"⟩, ⟨1, 3, "N"⟩, ⟨3, 3, "J"⟩] := by
    rw [sorted_eq_insertionSort]
    decide
  have happlied : applyAll "abcdef" around = .ok "aINJdef" := by
    rw [applyAll, hsorted]
    decide +kernel
  have hbehind : ¬ InsertsBehind (sorted around) := by
    rw [hsorted]
    exact not_insertsBehind_of_isChain (by simp)
  obtain ⟨-, hresult, hall⟩ := applyAll_eq_atOnce_iff happlied
  refine ⟨happlied, hbehind, hresult hbehind, ?_⟩
  rw [hall.2 hbehind "uvwxyz" (fun _ => "--") (by decide)]
  rw [atOnce, sorted_map_reworded, hsorted]
  decide +kernel

/-- An insertion behind an edit that starts in the same place. -/
def behind : List Edit := [⟨1, 3, "N"⟩, ⟨1, 1, "I"⟩]

/-- The edit takes away what has been inserted, and leaves a character that it
covers. -/
theorem applyAll_behind :
    applyAll "abcdef" behind = .ok "aNcdef" ∧ atOnce "abcdef" behind = "aNIdef" := by
  constructor
  · rw [applyAll, sorted_eq_insertionSort]
    decide +kernel
  · rw [atOnce, sorted_eq_insertionSort]
    decide +kernel

end Edit

end SatScript
