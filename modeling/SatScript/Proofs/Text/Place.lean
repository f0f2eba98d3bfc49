import SatScript.Text.Units
/-!
# SatScript — the character at an offset

Offsets count code units, and `charAt?` finds the character that the unit at
an offset belongs to. Where a text is looked at from an offset on, a place
in it is given by its own offset, so that a place in two texts one behind
the other is a place in one of them (`cases_charAt?_append`).
-/

namespace SatScript

namespace Text

/-- The character to which the unit at an offset belongs. -/
def charAt? : Nat → List Char → Option Char
  | _, [] => none
  | n, c :: cs => if n < width c then some c else charAt? (n - width c) cs

/-- The characters in the first part of a text are those of the part. -/
theorem charAt?_append_of_lt {offset place : Nat} {cs : List Char} (hle : offset ≤ place)
    (hlt : place < offset + units cs) (ds : List Char) :
    charAt? (place - offset) (cs ++ ds) = charAt? (place - offset) cs := by
  induction cs generalizing offset with
  | nil => exact absurd hle (Nat.not_le_of_lt hlt)
  | cons d cs ih =>
    rw [units_cons] at hlt
    rw [List.cons_append, charAt?, charAt?]
    by_cases hd : place - offset < width d
    · rw [if_pos hd, if_pos hd]
    · rw [if_neg hd, if_neg hd, Nat.sub_sub]
      exact ih (by omega) (by omega)

/-- The characters behind a part of a text are those of the rest. -/
theorem charAt?_append_of_le {offset place : Nat} {cs : List Char}
    (hle : offset + units cs ≤ place) (ds : List Char) :
    charAt? (place - offset) (cs ++ ds) = charAt? (place - (offset + units cs)) ds := by
  induction cs generalizing offset with
  | nil => rfl
  | cons d cs ih =>
    rw [units_cons] at hle ⊢
    rw [List.cons_append, charAt?, if_neg (by omega), Nat.sub_sub, ← Nat.add_assoc]
    exact ih (by omega)

/-- A character of two texts one behind the other stands in one of them. -/
theorem cases_charAt?_append {offset place : Nat} {cs ds : List Char} {c : Char}
    (hle : offset ≤ place) (h : charAt? (place - offset) (cs ++ ds) = some c) :
    (place < offset + units cs ∧ charAt? (place - offset) cs = some c) ∨
      (offset + units cs ≤ place ∧ charAt? (place - (offset + units cs)) ds = some c) := by
  rcases Nat.lt_or_ge place (offset + units cs) with hlt | hge
  · rw [charAt?_append_of_lt hle hlt] at h
    exact .inl ⟨hlt, h⟩
  · rw [charAt?_append_of_le hge] at h
    exact .inr ⟨hge, h⟩

/-- Where a character stands, the text goes on. -/
theorem lt_units_of_charAt? {n : Nat} {cs : List Char} {c : Char} (h : charAt? n cs = some c) :
    n < units cs := by
  induction cs generalizing n with
  | nil => cases h
  | cons d cs ih =>
    rw [charAt?] at h
    rw [units_cons]
    split at h
    · omega
    · have hlt := ih h
      omega

theorem mem_of_charAt? {n : Nat} {cs : List Char} {c : Char} (h : charAt? n cs = some c) :
    c ∈ cs := by
  induction cs generalizing n with
  | nil => cases h
  | cons d cs ih =>
    rw [charAt?] at h
    split at h
    · cases h
      exact List.mem_cons_self
    · exact List.mem_cons_of_mem _ (ih h)

/-- A text of one character has no other. -/
theorem eq_of_charAt?_singleton {n : Nat} {c d : Char} (h : charAt? n [d] = some c) : c = d :=
  List.mem_singleton.1 (mem_of_charAt? h)

/-- The character behind a part of a text. -/
theorem charAt?_units (before rest : List Char) (c : Char) :
    charAt? (units before) (before ++ c :: rest) = some c := by
  induction before with
  | nil => rw [units_nil, List.nil_append, charAt?, if_pos (width_pos c)]
  | cons d before ih =>
    rw [units_cons, List.cons_append, charAt?, if_neg (by omega), Nat.add_sub_cancel_left, ih]

/-- An offset in a text is where something ends and the rest begins. -/
theorem exists_of_after? {n : Nat} {cs rest : List Char} (h : after? n cs = some rest) :
    ∃ before, cs = before ++ rest ∧ n = units before := by
  fun_induction after? n cs with
  | case1 cs => exact ⟨[], Option.some.inj h, rfl⟩
  | case2 n => cases h
  | case3 n c cs hle ih =>
    obtain ⟨before, rfl, hn⟩ := ih h
    exact ⟨c :: before, rfl, by rw [units_cons]; omega⟩
  | case4 n c cs hlt => cases h

/-- Where the rest begins the text goes on with it. Elsewhere it goes on with half of a
character, or not at all. -/
theorem onward_of_after? (n : Nat) (cs : List Char) :
    (∀ rest, after? n cs = some rest → onward n cs = rest) ∧
      (after? n cs = none → ∀ c ∈ (onward n cs).head?, c = '\uFFFD') := by
  fun_induction onward n cs with
  | case1 cs =>
    rw [after?]
    exact ⟨fun rest h => Option.some.inj h, fun h => absurd h (Option.some_ne_none cs)⟩
  | case2 n =>
    rw [after?]
    exact ⟨fun rest h => absurd h.symm (Option.some_ne_none rest),
      fun _ c hc => absurd hc (Option.not_mem_none c)⟩
  | case3 n c cs hle ih =>
    rw [after?, if_pos hle]
    exact ih
  | case4 n c cs hlt =>
    rw [after?, if_neg hlt]
    exact ⟨fun rest h => absurd h.symm (Option.some_ne_none rest),
      fun _ d hd => (Option.some.inj hd).symm⟩

/-! ## The text from an offset on -/

/-- A text has no more characters than units. -/
theorem length_le_units (cs : List Char) : cs.length ≤ units cs := by
  induction cs with
  | nil => exact Nat.le_refl 0
  | cons c cs ih =>
    have hpos := width_pos c
    rw [List.length_cons, units_cons]
    omega

theorem onward_units_append (before rest : List Char) :
    onward (units before) (before ++ rest) = rest :=
  (onward_of_after? _ _).1 rest (after?_units_append before rest)

/-- Up to the end of the text and from there on it is the whole text. -/
theorem add_units_onward {n : Nat} {cs : List Char} (h : n ≤ units cs) :
    n + units (onward n cs) = units cs := by
  fun_induction onward n cs with
  | case1 cs => exact Nat.zero_add _
  | case2 n => exact absurd h (Nat.not_succ_le_zero n)
  | case3 n c cs hle ih =>
    rw [units_cons] at h ⊢
    have hmore := ih (by omega)
    omega
  | case4 n c cs hlt =>
    have hle := width_le_two c
    have hhalf : width '\uFFFD' = 1 := rfl
    rw [units_cons, units_cons, hhalf]
    omega

theorem onward_eq_nil_iff {n : Nat} {cs : List Char} : onward n cs = [] ↔ units cs ≤ n := by
  fun_induction onward n cs with
  | case1 cs =>
    cases cs with
    | nil => exact iff_of_true rfl (Nat.le_refl 0)
    | cons c cs =>
      have hpos := width_pos c
      exact iff_of_false (List.cons_ne_nil _ _) (by rw [units_cons]; omega)
  | case2 n => exact iff_of_true rfl (Nat.zero_le _)
  | case3 n c cs hle ih =>
    rw [ih, units_cons]
    omega
  | case4 n c cs hlt =>
    exact iff_of_false (List.cons_ne_nil _ _) (by rw [units_cons]; omega)

/-- **Behind a part of what stands from an offset on stands the rest of it**, also where
the part begins with half a character. -/
theorem onward_add_units {n : Nat} {cs part rest : List Char} (h : onward n cs = part ++ rest) :
    onward (n + units part) cs = rest := by
  fun_induction onward n cs with
  | case1 cs =>
    rw [h, Nat.zero_add, onward_units_append]
  | case2 n =>
    obtain ⟨rfl, rfl⟩ := List.append_eq_nil_iff.1 h.symm
    rfl
  | case3 n c cs hle ih =>
    rw [Nat.succ_add, onward, if_pos (by omega), ← ih h]
    congr 1
    omega
  | case4 n c cs hlt =>
    cases part with
    | nil =>
      rw [units_nil, Nat.add_zero, onward, if_neg hlt, h, List.nil_append]
    | cons d part =>
      obtain ⟨rfl, rfl⟩ := List.cons.inj h
      have hle := width_le_two c
      have hhalf : width '\uFFFD' = 1 := rfl
      rw [units_cons, hhalf, Nat.succ_add, onward, if_pos (by omega)]
      have hn : n + (1 + units part) + 1 - width c = units part := by omega
      rw [hn]
      exact onward_units_append part rest

/-- A character that takes one unit stands at an offset just if the text goes on with it
there, the character apart that half a character is read as. -/
theorem head?_onward_eq_some_iff {n : Nat} {cs : List Char} {c : Char} (hwidth : width c = 1)
    (hhalf : c ≠ '\uFFFD') : (onward n cs).head? = some c ↔ charAt? n cs = some c := by
  fun_induction onward n cs with
  | case1 cs =>
    cases cs with
    | nil => rfl
    | cons d cs => rw [charAt?, if_pos (width_pos d), List.head?_cons]
  | case2 n => rfl
  | case3 n d cs hle ih => rw [charAt?, if_neg (Nat.not_lt.2 hle), ih]
  | case4 n d cs hlt =>
    rw [charAt?, if_pos (Nat.lt_of_not_le hlt), List.head?_cons, Option.some_inj, Option.some_inj]
    refine iff_of_false hhalf.symm ?_
    rintro rfl
    omega

end Text

end SatScript
