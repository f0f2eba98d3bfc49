/-!
# SatScript — texts measured in code units

Offsets into a text count UTF-16 code units: a character above U+FFFF
counts two, every other character one. `units` is that measure, `after?`
finds the rest of a text behind an offset, and `encode` and `decode` go
between characters and code units for the operations that cut a text at
any unit. Decoding what was encoded gives the text back
(`decode_encode`), and its length in units is `units`
(`length_encode`). `onward` is the text from any unit on, as decoding has
it (`onward_eq_decode`).
-/

namespace SatScript

namespace Text

/-- How many code units a character takes. -/
def width (c : Char) : Nat := if c.toNat < 0x10000 then 1 else 2

/-- How many code units a text takes. -/
def units : List Char → Nat
  | [] => 0
  | c :: cs => width c + units cs

/-- The rest of a text after its first `n` units; none if the offset lies
past the end or inside a character. -/
def after? : Nat → List Char → Option (List Char)
  | 0, cs => some cs
  | _ + 1, [] => none
  | n + 1, c :: cs => if width c ≤ n + 1 then after? (n + 1 - width c) cs else none

/-- The text from an offset on. Past the end nothing is left; of a character that
the offset lies inside of half is left, which alone is the replacement
character. -/
def onward : Nat → List Char → List Char
  | 0, cs => cs
  | _ + 1, [] => []
  | n + 1, c :: cs => if width c ≤ n + 1 then onward (n + 1 - width c) cs else '\uFFFD' :: cs

/-- The code units of one character: above U+FFFF a high and a low
surrogate. -/
def encodeChar (c : Char) : List UInt16 :=
  if c.toNat < 0x10000 then [UInt16.ofNat c.toNat]
  else
    [UInt16.ofNat (0xD800 + (c.toNat - 0x10000) / 0x400),
     UInt16.ofNat (0xDC00 + (c.toNat - 0x10000) % 0x400)]

/-- The code units of a text. -/
def encode (cs : List Char) : List UInt16 := cs.flatMap encodeChar

/-- A unit that opens a pair. -/
def isHigh (u : UInt16) : Bool := 0xD800 ≤ u.toNat && u.toNat < 0xDC00

/-- A unit that closes a pair. -/
def isLow (u : UInt16) : Bool := 0xDC00 ≤ u.toNat && u.toNat < 0xE000

/-- The character of a unit that stands alone; half a pair has none and
becomes the replacement character. -/
def decodeUnit (u : UInt16) : Char :=
  if isHigh u || isLow u then '\uFFFD' else Char.ofNat u.toNat

/-- The character of a pair. -/
def decodePair (high low : UInt16) : Char :=
  Char.ofNat (0x10000 + (high.toNat - 0xD800) * 0x400 + (low.toNat - 0xDC00))

/-- The text of a list of code units. -/
def decode : List UInt16 → List Char
  | [] => []
  | [u] => [decodeUnit u]
  | u :: v :: rest =>
    if isHigh u && isLow v then decodePair u v :: decode rest
    else decodeUnit u :: decode (v :: rest)

/-- The part of a text between two offsets. -/
def slice (start stop : Nat) (cs : List Char) : List Char :=
  decode (((encode cs).take stop).drop start)

/-! ## The measure -/

@[simp] theorem units_nil : units [] = 0 := rfl

@[simp] theorem units_cons (c : Char) (cs : List Char) :
    units (c :: cs) = width c + units cs := rfl

@[simp] theorem units_append (cs ds : List Char) : units (cs ++ ds) = units cs + units ds := by
  induction cs with
  | nil => simp
  | cons c cs ih => simp [ih, Nat.add_assoc]

/-- Every character takes one unit or two. -/
theorem width_pos (c : Char) : 0 < width c := by
  unfold width
  split <;> omega

theorem width_le_two (c : Char) : width c ≤ 2 := by
  unfold width
  split <;> omega

@[simp] theorem length_encodeChar (c : Char) : (encodeChar c).length = width c := by
  unfold encodeChar width
  split <;> simp

/-- **A text has as many code units as it measures.** -/
@[simp] theorem length_encode (cs : List Char) : (encode cs).length = units cs := by
  induction cs with
  | nil => rfl
  | cons c cs ih => simp [encode, List.flatMap_cons, ← ih]

@[simp] theorem encode_nil : encode [] = [] := rfl

theorem encode_cons (c : Char) (cs : List Char) : encode (c :: cs) = encodeChar c ++ encode cs :=
  List.flatMap_cons

@[simp] theorem encode_append (cs ds : List Char) :
    encode (cs ++ ds) = encode cs ++ encode ds := by
  simp [encode]

/-- The rest behind the units of a beginning is the rest of the text. -/
@[simp] theorem after?_units_append (cs ds : List Char) :
    after? (units cs) (cs ++ ds) = some ds := by
  induction cs with
  | nil => simp [after?]
  | cons c cs ih =>
    have hw := width_pos c
    obtain ⟨n, hn⟩ : ∃ n, units (c :: cs) = n + 1 := ⟨units (c :: cs) - 1, by simp; omega⟩
    have hsub : n + 1 - width c = units cs := by
      rw [← hn, units_cons]
      omega
    have hle : width c ≤ n + 1 := by
      rw [← hn, units_cons]
      omega
    rw [hn, List.cons_append, after?, if_pos hle, hsub, ih]

/-! ## Decoding -/

/-- A character is no surrogate, and below U+110000. -/
theorem toNat_valid (c : Char) : c.toNat < 0xD800 ∨ (0xDFFF < c.toNat ∧ c.toNat < 0x110000) := by
  exact c.valid

/-- Decoding one encoded character gives it back, whatever follows. -/
theorem decode_encodeChar_append (c : Char) (rest : List UInt16) :
    decode (encodeChar c ++ rest) = c :: decode rest := by
  have hv := toNat_valid c
  unfold encodeChar
  by_cases h : c.toNat < 0x10000
  · rw [if_pos h]
    have hn : (UInt16.ofNat c.toNat).toNat = c.toNat := UInt16.toNat_ofNat_of_lt' (by simpa using h)
    have hh : isHigh (UInt16.ofNat c.toNat) = false := by
      simp only [isHigh, hn, Bool.and_eq_false_imp, decide_eq_true_eq, decide_eq_false_iff_not]
      omega
    have hl : isLow (UInt16.ofNat c.toNat) = false := by
      simp only [isLow, hn, Bool.and_eq_false_imp, decide_eq_true_eq, decide_eq_false_iff_not]
      omega
    have hd : decodeUnit (UInt16.ofNat c.toNat) = c := by
      simp [decodeUnit, hh, hl, hn]
    cases rest with
    | nil => simp [decode, hd]
    | cons v rest => simp [decode, hh, hd]
  · rw [if_neg h]
    have h1 : (UInt16.ofNat (0xD800 + (c.toNat - 0x10000) / 0x400)).toNat =
        0xD800 + (c.toNat - 0x10000) / 0x400 :=
      UInt16.toNat_ofNat_of_lt' (by simp only [UInt16.size]; omega)
    have h2 : (UInt16.ofNat (0xDC00 + (c.toNat - 0x10000) % 0x400)).toNat =
        0xDC00 + (c.toNat - 0x10000) % 0x400 :=
      UInt16.toNat_ofNat_of_lt' (by simp only [UInt16.size]; omega)
    have hh : isHigh (UInt16.ofNat (0xD800 + (c.toNat - 0x10000) / 0x400)) = true := by
      simp only [isHigh, h1, Bool.and_eq_true, decide_eq_true_eq]
      omega
    have hl : isLow (UInt16.ofNat (0xDC00 + (c.toNat - 0x10000) % 0x400)) = true := by
      simp only [isLow, h2, Bool.and_eq_true, decide_eq_true_eq]
      omega
    have hp : decodePair (UInt16.ofNat (0xD800 + (c.toNat - 0x10000) / 0x400))
        (UInt16.ofNat (0xDC00 + (c.toNat - 0x10000) % 0x400)) = c := by
      rw [decodePair, h1, h2]
      have hc : 0x10000 + (0xD800 + (c.toNat - 0x10000) / 0x400 - 0xD800) * 0x400 +
          (0xDC00 + (c.toNat - 0x10000) % 0x400 - 0xDC00) = c.toNat := by omega
      rw [hc, Char.ofNat_toNat]
    simp only [List.cons_append, List.nil_append, decode, hh, hl, hp, Bool.and_self, if_true]

/-- **Decoding what was encoded gives the text back.** -/
@[simp] theorem decode_encode (cs : List Char) : decode (encode cs) = cs := by
  induction cs with
  | nil => rfl
  | cons c cs ih =>
    show decode (encodeChar c ++ encode cs) = c :: cs
    rw [decode_encodeChar_append, ih]

/-- The unit that closes a pair is no character without the one before it. -/
theorem decode_cons_of_isLow {u : UInt16} (hu : isLow u = true) (rest : List UInt16) :
    decode (u :: rest) = '\uFFFD' :: decode rest := by
  have hhigh : isHigh u = false := by
    simp only [isLow, Bool.and_eq_true, decide_eq_true_eq] at hu
    simp only [isHigh, Bool.and_eq_false_imp, decide_eq_true_eq, decide_eq_false_iff_not]
    omega
  have hunit : decodeUnit u = '\uFFFD' := by rw [decodeUnit, hhigh, hu]; rfl
  cases rest with
  | nil => exact congrArg (· :: []) hunit
  | cons v rest => rw [decode, hhigh, Bool.false_and, if_neg Bool.false_ne_true, hunit]

/-- Behind the first unit of a pair the one is left that closes it. -/
theorem drop_one_encodeChar {c : Char} (hc : 1 < width c) :
    ∃ u, isLow u = true ∧ (encodeChar c).drop 1 = [u] := by
  have hc : ¬ c.toNat < 0x10000 := fun hlt => by
    rw [width, if_pos hlt] at hc
    exact Nat.lt_irrefl 1 hc
  refine ⟨UInt16.ofNat (0xDC00 + (c.toNat - 0x10000) % 0x400), ?_, ?_⟩
  · rw [isLow, UInt16.toNat_ofNat_of_lt' (by simp only [UInt16.size]; omega)]
    simp only [Bool.and_eq_true, decide_eq_true_eq]
    omega
  · rw [encodeChar, if_neg hc]
    rfl

/-- **The text from an offset on is what decoding makes of the units from there
on.** -/
theorem onward_eq_decode (n : Nat) (cs : List Char) :
    onward n cs = decode ((encode cs).drop n) := by
  fun_induction onward n cs with
  | case1 cs => rw [List.drop_zero, decode_encode]
  | case2 n => rfl
  | case3 n c cs hle ih =>
    have hdrop : (encodeChar c).drop (n + 1) = [] :=
      List.drop_eq_nil_of_le (length_encodeChar c ▸ hle)
    rw [ih, encode_cons, List.drop_append, hdrop, List.nil_append, length_encodeChar]
  | case4 n c cs hlt =>
    -- the character takes two units, and the offset is behind the first of them
    obtain rfl : n = 0 := by
      have hle := width_le_two c
      omega
    obtain ⟨u, hu, hdrop⟩ := drop_one_encodeChar (Nat.lt_of_not_le hlt)
    rw [encode_cons, List.drop_append_of_le_length (length_encodeChar c ▸ width_pos c), hdrop,
      List.singleton_append, decode_cons_of_isLow hu, decode_encode]

/-- **A part of a text is the slice between where it begins and where it
ends.** -/
theorem slice_units (before part after : List Char) :
    slice (units before) (units before + units part) (before ++ (part ++ after)) = part := by
  have hlength : units before + units part = (encode before ++ encode part).length := by simp
  have htake : (encode (before ++ (part ++ after))).take (units before + units part) =
      encode before ++ encode part := by
    rw [encode_append, encode_append, ← List.append_assoc, hlength, List.take_left]
  have hdrop : (encode before ++ encode part).drop (units before) = encode part := by
    rw [← length_encode before, List.drop_left]
  rw [slice, htake, hdrop, decode_encode]

end Text

end SatScript
