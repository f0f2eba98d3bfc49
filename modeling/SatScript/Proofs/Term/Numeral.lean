import Mathlib.Tactic.FieldSimp
import Mathlib.Tactic.Positivity
import SatScript.Numeral
/-!
# SatScript — what a numeral stands for

A decimal spells a rational (`Spells`), and fractions `.0` behind it change
nothing (`Denotes`). The texts that are taken for numerals are just these, and
what becomes of one is the one canonical writing of its rational (`Canonical`):
so two numerals become the same just if they stand for the same rational
(`canonical?_exact`).
-/

namespace SatScript

namespace Text

/-! ## Decimal writings of numbers -/

/-- The decimal writing of a number: digits, of which the first is no zero,
unless it is the only one. -/
structure IsDecimal (ds : List Char) : Prop where
  isDigits : Text.isDigits ds = true
  head : ds.head? = some '0' → ds = ['0']

theorem isDigits_iff {cs : List Char} :
    isDigits cs = true ↔ cs ≠ [] ∧ ∀ c ∈ cs, c.isDigit = true := by
  simp [isDigits]

/-- What is no digit stands in no run of digits. -/
theorem not_mem_of_isDigits {cs : List Char} {c : Char} (h : isDigits cs = true)
    (hc : c.isDigit = false) : c ∉ cs := by
  intro hmem
  rw [(isDigits_iff.1 h).2 c hmem] at hc
  cases hc

/-- Digits behind others count as many times ten less. -/
theorem value_append (ds es : List Char) :
    value (ds ++ es) = value ds * 10 ^ es.length + value es := by
  show Nat.ofDigitChars 10 (ds ++ es) 0 = _
  rw [Nat.ofDigitChars_append, Nat.ofDigitChars_eq_ofDigitChars_zero, Nat.mul_comm]
  rfl

theorem digitValue_lt {d : Char} (h : d.isDigit = true) : digitValue d < 10 := by
  obtain ⟨-, hle⟩ := Char.isDigit_iff_toNat.1 h
  have hnine : '9'.toNat = '0'.toNat + 9 := rfl
  rw [digitValue]
  omega

theorem digitChar_digitValue {d : Char} (h : d.isDigit = true) :
    (digitValue d).digitChar = d := by
  obtain ⟨hle, -⟩ := Char.isDigit_iff_toNat.1 h
  have hzero : '0'.toNat = 48 := rfl
  refine Char.toNat_inj.1 ?_
  rw [Nat.toNat_digitChar_of_lt_ten (digitValue_lt h), digitValue]
  omega

theorem value_digits (n : Nat) : value (digits n) = n := Nat.ofDigitChars_ten_toDigits

/-- **The digits of a number are its decimal writing.** -/
theorem isDecimal_digits (n : Nat) : IsDecimal (digits n) := by
  constructor
  · exact isDigits_iff.2 ⟨Nat.toDigits_ne_nil, fun c hc =>
      Nat.isDigit_of_mem_toDigits (by omega) (by omega) hc⟩
  · induction n using Nat.strongRecOn with
    | ind n ih =>
      rw [digits, Nat.toDigits_eq_if (by omega)]
      split
      · intro hhead
        rw [List.head?_cons, Option.some.injEq, Nat.digitChar_eq_zero] at hhead
        rw [hhead]
        rfl
      · -- the first digit is that of the tenth part, which is not zero
        intro hhead
        rw [List.head?_append_of_ne_nil _ Nat.toDigits_ne_nil] at hhead
        have hzero := congrArg value (ih (n / 10) (by omega) hhead)
        rw [value_digits] at hzero
        have hpos : n / 10 = 0 := hzero
        omega

/-- The digits before the last of a decimal writing are one too, and begin with no
zero. -/
theorem IsDecimal.init {ds : List Char} {d : Char} (h : IsDecimal (ds ++ [d])) (hne : ds ≠ []) :
    ds.head? ≠ some '0' ∧ IsDecimal ds := by
  have hhead : ds.head? ≠ some '0' := by
    intro hzero
    have hall := congrArg List.length (h.head (by rw [List.head?_append_of_ne_nil _ hne, hzero]))
    rw [List.length_append, List.length_singleton, List.length_singleton] at hall
    exact hne (List.length_eq_zero_iff.1 (Nat.succ_inj.1 hall))
  have hdigits := (isDigits_iff.1 h.isDigits).2
  exact ⟨hhead, isDigits_iff.2 ⟨hne, fun c hc => hdigits c (List.mem_append_left _ hc)⟩,
    fun hzero => absurd hzero hhead⟩

/-- **A decimal writing is that of its value.** -/
theorem digits_value {ds : List Char} (h : IsDecimal ds) : digits (value ds) = ds := by
  induction ds using List.reverseRecOn with
  | nil => exact absurd rfl (isDigits_iff.1 h.isDigits).1
  | append_singleton ds d ih =>
    have hd := (isDigits_iff.1 h.isDigits).2 d (List.mem_append_right _ (List.mem_singleton_self d))
    have hlt := digitValue_lt hd
    rw [value_concat]
    by_cases hnil : ds = []
    · subst hnil
      rw [value_nil, digits, Nat.toDigits_of_lt_base (by omega), Nat.mul_zero, Nat.zero_add,
        digitChar_digitValue hd, List.nil_append]
    · obtain ⟨hhead, hds⟩ := h.init hnil
      have hdigits := ih hds
      -- the digits before the last spell no zero
      have hpos : 0 < value ds := by
        rw [Nat.pos_iff_ne_zero]
        intro hzero
        rw [hzero] at hdigits
        exact hhead (by rw [← hdigits]; rfl)
      have hdiv : (10 * value ds + digitValue d) / 10 = value ds := by omega
      have hmod : (10 * value ds + digitValue d) % 10 = digitValue d := by omega
      rw [digits, Nat.toDigits_of_base_le (by omega) (by omega), hdiv, hmod,
        digitChar_digitValue hd, ← digits, hdigits]

end Text

namespace Numeral

open Text (isDigits value IsDecimal isDigits_iff not_mem_of_isDigits)

/-! ## What numerals stand for -/

/-- As many fractions `.0`. -/
def zeroFractions (n : Nat) : List Char := (List.replicate n ['.', '0']).flatten

/-- A decimal spells a rational: digits, or digits and a point among them, in
front of them or behind them. -/
inductive Spells : List Char → Rat → Prop
  | whole {ds : List Char} : isDigits ds = true → Spells ds (value ds)
  | pointed {whole fraction : List Char} : isDigits (whole ++ fraction) = true →
      Spells (whole ++ '.' :: fraction) (value whole + value fraction / 10 ^ fraction.length)

/-- A text stands for the rational that a decimal spells, and fractions `.0`
follow the decimal. -/
def Denotes (cs : List Char) (q : Rat) : Prop :=
  ∃ ds n, Spells ds q ∧ cs = ds ++ zeroFractions n

/-- The canonical writing of a rational: the decimal writing of an integer, or
those of a numerator and a denominator in lowest terms. -/
inductive Canonical : List Char → Rat → Prop
  | integer {ds : List Char} : IsDecimal ds → Canonical ds (value ds)
  | fraction {ns ds : List Char} : IsDecimal ns → IsDecimal ds → 2 ≤ value ds →
      (value ns).Coprime (value ds) → Canonical (ns ++ '/' :: ds) (value ns / value ds)

/-! ## Fractions that are dropped -/

theorem point_not_mem {cs : List Char} (h : isDigits cs = true) : '.' ∉ cs :=
  not_mem_of_isDigits h rfl

theorem zeroFractions_zero : zeroFractions 0 = [] := rfl

theorem zeroFractions_succ (n : Nat) : zeroFractions (n + 1) = zeroFractions n ++ ['.', '0'] := by
  rw [zeroFractions, List.replicate_succ', List.flatten_append, zeroFractions]
  rfl

/-- Fractions are dropped from the end of a text, one after the other. -/
theorem exists_zeroFractions_reverse_iff {P : List Char → Prop} (hnil : ¬ P [])
    (hdrop : ∀ cs, cs ≠ [] → P (cs ++ ['.', '0']) → P cs) (rs : List Char) :
    (∃ ds n, P ds ∧ rs.reverse = ds ++ zeroFractions n) ↔ P (dropZeroFractions rs).reverse := by
  fun_induction dropZeroFractions rs with
  | case1 c rs ih =>
    have hreverse : ('0' :: '.' :: c :: rs).reverse = (c :: rs).reverse ++ ['.', '0'] := by simp
    rw [← ih, hreverse]
    constructor
    · rintro ⟨ds, n, hds, heq⟩
      cases n with
      | zero =>
        rw [zeroFractions_zero, List.append_nil] at heq
        rw [← heq] at hds
        exact ⟨_, 0, hdrop _ (by simp) hds, (List.append_nil _).symm⟩
      | succ n =>
        rw [zeroFractions_succ, ← List.append_assoc] at heq
        exact ⟨ds, n, hds, List.append_cancel_right heq⟩
    · rintro ⟨ds, n, hds, heq⟩
      exact ⟨ds, n + 1, hds, by rw [heq, zeroFractions_succ, List.append_assoc]⟩
  | case2 rs hother =>
    refine ⟨?_, fun h => ⟨_, 0, h, (List.append_nil _).symm⟩⟩
    rintro ⟨ds, n, hds, heq⟩
    cases n with
    | zero =>
      rw [zeroFractions_zero, List.append_nil] at heq
      rwa [heq]
    | succ n =>
      -- then another fraction would have been dropped
      rw [zeroFractions_succ, ← List.append_assoc, List.reverse_eq_iff, List.reverse_append] at heq
      have hne : (ds ++ zeroFractions n).reverse ≠ [] := by
        rw [Ne, List.reverse_eq_nil_iff, List.append_eq_nil_iff]
        rintro ⟨rfl, -⟩
        exact hnil hds
      obtain ⟨c, cs, hcs⟩ := List.exists_cons_of_ne_nil hne
      rw [hcs] at heq
      exact (hother c cs heq).elim

/-- **Dropping fractions `.0` finds what they follow**, if that is something and
remains so when a fraction of it is dropped. -/
theorem exists_zeroFractions_iff {P : List Char → Prop} (hnil : ¬ P [])
    (hdrop : ∀ cs, cs ≠ [] → P (cs ++ ['.', '0']) → P cs) (cs : List Char) :
    (∃ ds n, P ds ∧ cs = ds ++ zeroFractions n) ↔ P (withoutZeroFractions cs) := by
  rw [withoutZeroFractions, ← exists_zeroFractions_reverse_iff hnil hdrop, List.reverse_reverse]

/-- A run of digits and fractions `.0` behind it. -/
theorem isDigits_withoutZeroFractions_iff {cs : List Char} :
    isDigits (withoutZeroFractions cs) = true ↔
      ∃ ds n, isDigits ds = true ∧ cs = ds ++ zeroFractions n := by
  refine (exists_zeroFractions_iff (P := fun ds => isDigits ds = true) nofun ?_ cs).symm
  intro ds _ hds
  exact absurd (List.mem_append_right ds List.mem_cons_self) (point_not_mem hds)

/-- A fraction `.0` behind a decimal adds nothing to what it spells. -/
theorem spells_of_append {cs : List Char} {q : Rat} (hne : cs ≠ [])
    (h : Spells (cs ++ ['.', '0']) q) : Spells cs q := by
  generalize htext : cs ++ ['.', '0'] = text at h
  cases h with
  | whole hdigits =>
    rw [← htext] at hdigits
    exact absurd (List.mem_append_right cs List.mem_cons_self) (point_not_mem hdigits)
  | @pointed whole fraction hdigits =>
    have hpoint := point_not_mem hdigits
    rw [List.mem_append, not_or] at hpoint
    obtain ⟨rfl, -, rfl⟩ := (List.append_cons_inj_of_notMem hpoint.1 hpoint.2).1 htext.symm
    have hzero : value ['0'] = 0 := rfl
    rw [hzero, Nat.cast_zero, zero_div, add_zero]
    exact .whole (isDigits_iff.2 ⟨hne, fun c hc =>
      (isDigits_iff.1 hdigits).2 c (List.mem_append_left _ hc)⟩)

theorem Spells.ne_nil {cs : List Char} {q : Rat} (h : Spells cs q) : cs ≠ [] := by
  cases h with
  | whole hdigits => exact (isDigits_iff.1 hdigits).1
  | pointed _ => simp

theorem denotes_iff {cs : List Char} {q : Rat} :
    Denotes cs q ↔ Spells (withoutZeroFractions cs) q :=
  exists_zeroFractions_iff (P := fun ds => Spells ds q) (fun h => h.ne_nil rfl)
    (fun _ hne => spells_of_append hne) cs

/-! ## The rational of a numeral -/

theorem hasDigits_iff (whole fraction : List Char) :
    (!(whole.isEmpty && fraction.isEmpty)) = true ↔ whole ++ fraction ≠ [] := by
  cases whole <;> simp

/-- The digits of a decimal stand on both sides of its point. -/
theorem decimal?_eq_some_iff {cs whole fraction : List Char} :
    decimal? cs = some (whole, fraction) ↔
      cs = whole ++ '.' :: fraction ∧ isDigits (whole ++ fraction) = true := by
  rw [isDigits_iff, List.forall_mem_append, decimal?]
  constructor
  · intro h
    have hcs := (@List.takeWhile_append_dropWhile _ Char.isDigit cs).symm
    have hwhole := List.all_eq_true.1 (@List.all_takeWhile _ Char.isDigit cs)
    split at h
    · rename_i rest hrest
      split at h
      · rename_i hdigits
        cases h
        rw [hrest] at hcs
        rw [Bool.and_eq_true, List.all_eq_true] at hdigits
        exact ⟨hcs, (hasDigits_iff _ _).1 hdigits.2, hwhole, hdigits.1⟩
      · cases h
    · cases h
  · rintro ⟨rfl, hne, hwhole, hfraction⟩
    have hdigit : '.'.isDigit = false := rfl
    simp only [List.takeWhile_append_of_pos hwhole, List.dropWhile_append_of_pos hwhole,
      List.takeWhile_cons, List.dropWhile_cons, hdigit, Bool.false_eq_true, if_false,
      List.append_nil, List.all_eq_true.2 hfraction,
      (hasDigits_iff _ _).2 hne, Bool.and_self, if_true]

/-- A decimal with a point spells its digits over a power of ten. -/
theorem ofScientific_digits (whole fraction : List Char) :
    Rat.ofScientific (value (whole ++ fraction)) true fraction.length =
      value whole + value fraction / 10 ^ fraction.length := by
  rw [Rat.ofScientific_true_def, Rat.mkRat_eq_div, Text.value_append]
  push_cast
  field_simp

theorem value?_eq_some_iff {text : String} {q : Rat} :
    value? true text = some q ↔ Denotes text.toList q := by
  rw [denotes_iff, value?]
  generalize withoutZeroFractions text.toList = cs
  constructor
  · intro h
    simp only [if_true] at h
    split at h
    · rename_i hdigits
      cases h
      exact .whole hdigits
    · obtain ⟨⟨whole, fraction⟩, hdecimal, rfl⟩ := Option.map_eq_some_iff.1 h
      obtain ⟨rfl, hdigits⟩ := decimal?_eq_some_iff.1 hdecimal
      simp only [ofScientific_digits]
      exact .pointed hdigits
  · intro h
    cases h with
    | whole hdigits => simp only [if_pos hdigits]
    | @pointed whole fraction hdigits =>
      -- a text with a point in it is no run of digits
      have hpoint : ¬ isDigits (whole ++ '.' :: fraction) = true := fun hall =>
        point_not_mem hall (List.mem_append_right _ List.mem_cons_self)
      simp only [if_neg hpoint, if_true, decimal?_eq_some_iff.2 ⟨rfl, hdigits⟩, Option.map_some,
        ofScientific_digits]

theorem Denotes.nonneg {cs : List Char} {q : Rat} (h : Denotes cs q) : 0 ≤ q := by
  obtain ⟨ds, n, hds, -⟩ := h
  cases hds with
  | whole _ => positivity
  | pointed _ => positivity

/-! ## Its canonical writing -/

/-- A rational that is not negative is written canonically. -/
theorem canonical_textOf {q : Rat} (h : 0 ≤ q) : Canonical (textOf q).toList q := by
  have hnum : ((q.num.natAbs : Nat) : Rat) = q.num := by
    rw [Nat.cast_natAbs, abs_of_nonneg (Rat.num_nonneg.2 h)]
  rw [textOf, String.toList_ofList]
  split
  · rename_i hden
    have hinteger := Canonical.integer (Text.isDecimal_digits q.num.natAbs)
    rwa [Text.value_digits, hnum, (Rat.den_eq_one_iff q).1 hden] at hinteger
  · rename_i hden
    have hpos := q.den_pos
    have hfraction := Canonical.fraction (Text.isDecimal_digits q.num.natAbs)
      (Text.isDecimal_digits q.den) (by rw [Text.value_digits]; omega)
      (by rw [Text.value_digits, Text.value_digits]; exact q.reduced)
    rwa [Text.value_digits, Text.value_digits, hnum, Rat.num_div_den] at hfraction

/-- There is no other canonical writing of it. -/
theorem Canonical.toList_textOf {cs : List Char} {q : Rat} (h : Canonical cs q) :
    (textOf q).toList = cs := by
  rw [textOf, String.toList_ofList]
  cases h with
  | integer hds =>
    rw [if_pos (Rat.den_natCast _), Rat.num_natCast, Int.natAbs_natCast, Text.digits_value hds]
  | @fraction ns ds hns hds htwo hcoprime =>
    have hpos : (0 : Int) < value ds := by omega
    have hnum := Rat.num_div_eq_of_coprime hpos (a := value ns) hcoprime
    have hden := Rat.den_div_eq_of_coprime hpos (a := value ns) hcoprime
    rw [Int.cast_natCast, Int.cast_natCast] at hnum hden
    rw [Nat.cast_inj] at hden
    rw [if_neg (by omega), hnum, hden, Int.natAbs_natCast, Text.digits_value hns,
      Text.digits_value hds]

/-- **A canonical writing tells the rational.** -/
theorem Canonical.inj {cs : List Char} {q q' : Rat} (h : Canonical cs q)
    (h' : Canonical cs q') : q = q' := by
  have hslash : '/'.isDigit = false := rfl
  cases h with
  | integer hds =>
    generalize hcs : cs = other at h'
    cases h' with
    | integer _ => rfl
    | fraction _ _ _ _ =>
      subst hcs
      exact absurd (List.mem_append_right _ List.mem_cons_self)
        (not_mem_of_isDigits hds.isDigits hslash)
  | fraction hns hds _ _ =>
    generalize hcs : _ ++ '/' :: _ = other at h'
    cases h' with
    | integer hall =>
      subst hcs
      exact absurd (List.mem_append_right _ List.mem_cons_self)
        (not_mem_of_isDigits hall.isDigits hslash)
    | fraction _ _ _ _ =>
      obtain ⟨rfl, -, rfl⟩ := (List.append_cons_inj_of_notMem
        (not_mem_of_isDigits hns.isDigits hslash) (not_mem_of_isDigits hds.isDigits hslash)).1 hcs
      rfl

/-- A numeral becomes the canonical writing of its rational. -/
theorem canonical?_eq_some_iff {text numeral : String} :
    canonical? true text = some numeral ↔
      ∃ q, Denotes text.toList q ∧ Canonical numeral.toList q := by
  rw [canonical?, Option.map_eq_some_iff]
  constructor
  · rintro ⟨q, hq, rfl⟩
    rw [value?_eq_some_iff] at hq
    exact ⟨q, hq, canonical_textOf hq.nonneg⟩
  · rintro ⟨q, hq, hnumeral⟩
    exact ⟨q, value?_eq_some_iff.2 hq, String.toList_inj.1 hnumeral.toList_textOf⟩

/-- Without fractions just the integers among the numerals are numerals. -/
theorem canonical?_false_eq_some_iff {text numeral : String} :
    canonical? false text = some numeral ↔
      (∃ ds n, isDigits ds = true ∧ text.toList = ds ++ zeroFractions n) ∧
        canonical? true text = some numeral := by
  rw [← isDigits_withoutZeroFractions_iff, canonical?, canonical?, value?, value?]
  by_cases hdigits : isDigits (withoutZeroFractions text.toList) = true
  · simp only [hdigits, if_true, true_and]
  · simp [hdigits]

/-- **Numerals are exact, and written canonically.** A text is a numeral just if
it stands for a rational, and it becomes the canonical writing of that rational.
So two of them become the same just if they stand for the same rational. Without
fractions the numerals are the runs of digits with fractions `.0` behind them,
and become what they become with them. -/
theorem canonical?_exact (text : String) :
    ((∃ numeral, canonical? true text = some numeral) ↔ ∃ q, Denotes text.toList q) ∧
    (∀ numeral, canonical? true text = some numeral ↔
      ∃ q, Denotes text.toList q ∧ Canonical numeral.toList q) ∧
    (∀ other q q', Denotes text.toList q → Denotes other.toList q' →
      (canonical? true text = canonical? true other ↔ q = q')) ∧
    ∀ numeral, canonical? false text = some numeral ↔
      (∃ ds n, isDigits ds = true ∧ text.toList = ds ++ zeroFractions n) ∧
        canonical? true text = some numeral := by
  refine ⟨⟨?_, ?_⟩, fun numeral => canonical?_eq_some_iff, fun other q q' hq hq' => ?_,
    fun numeral => canonical?_false_eq_some_iff⟩
  · rintro ⟨numeral, hnumeral⟩
    obtain ⟨q, hq, -⟩ := canonical?_eq_some_iff.1 hnumeral
    exact ⟨q, hq⟩
  · rintro ⟨q, hq⟩
    exact ⟨textOf q, canonical?_eq_some_iff.2 ⟨q, hq, canonical_textOf hq.nonneg⟩⟩
  rw [canonical?, canonical?, value?_eq_some_iff.2 hq, value?_eq_some_iff.2 hq', Option.map_some,
    Option.map_some, Option.some_inj]
  constructor
  · intro htext
    have hcanonical := canonical_textOf hq.nonneg
    rw [htext] at hcanonical
    exact hcanonical.inj (canonical_textOf hq'.nonneg)
  · rintro rfl
    rfl

/-- Zeros in front of a decimal and behind it do not tell. -/
theorem canonical?_exact_half :
    (Denotes "2.50.0".toList (5 / 2) ∧ Denotes "02.5".toList (5 / 2)) ∧
      canonical? true "2.50.0" = canonical? true "02.5" ∧
      canonical? true "02.5" = some "5/2" := by
  have hfirst : Denotes "2.50.0".toList (5 / 2) := value?_eq_some_iff.1 (by decide +kernel)
  have hsecond : Denotes "02.5".toList (5 / 2) := value?_eq_some_iff.1 (by decide +kernel)
  exact ⟨⟨hfirst, hsecond⟩, ((canonical?_exact "2.50.0").2.2.1 "02.5" _ _ hfirst hsecond).2 rfl,
    by decide +kernel⟩

/-- A point without a digit is no numeral, whatever follows it. -/
example : canonical? true "..0" = none ∧ canonical? true ".0.0" = some "0" := by decide +kernel

end Numeral

end SatScript
