import Mathlib.Data.List.DropRight
import SatScript.Text.Blank
import SatScript.Text.Split
/-!
# SatScript — lines, and the spaces around a text

A text that was put together from pieces without the mark, with marks between
them, is split into these pieces (`split_intercalate`). Spaces around a text do
not count when it is trimmed (`trim_between`), and a text without outer spaces
stays as it is (`trim_eq_self`).
-/

namespace SatScript

namespace Text

variable {mark : Char} {cs ds : List Char}

/-! ## Pieces -/

/-- A text without the mark is one piece. -/
theorem split_of_not_mem (h : mark ∉ cs) : split mark cs = [cs] := by
  induction cs with
  | nil => rfl
  | cons c cs ih =>
    rw [List.mem_cons, not_or] at h
    rw [split, if_neg (Ne.symm h.1), ih h.2]

/-- A mark parts the pieces before it from those behind it. -/
theorem split_append_mark (cs rest : List Char) :
    split mark (cs ++ mark :: rest) = split mark cs ++ split mark rest := by
  induction cs with
  | nil => simp [split]
  | cons c cs ih =>
    rw [List.cons_append, split, split]
    split
    · rw [ih, List.cons_append]
    · obtain ⟨piece, pieces, hp⟩ := List.exists_cons_of_ne_nil (split_ne_nil mark cs)
      rw [ih, hp]
      rfl

/-- What stands before the first mark is the first piece. -/
theorem split_append (h : mark ∉ cs) (rest : List Char) :
    split mark (cs ++ mark :: rest) = cs :: split mark rest := by
  rw [split_append_mark, split_of_not_mem h, List.singleton_append]

/-- **Pieces that were put together are found again.** -/
theorem split_intercalate {pieces : List (List Char)} (hne : pieces ≠ [])
    (h : ∀ piece ∈ pieces, mark ∉ piece) : split mark ([mark].intercalate pieces) = pieces := by
  induction pieces with
  | nil => exact absurd rfl hne
  | cons piece pieces ih =>
    obtain ⟨hpiece, hpieces⟩ := List.forall_mem_cons.1 h
    cases pieces with
    | nil => rw [List.intercalate_singleton, split_of_not_mem hpiece]
    | cons next pieces =>
      rw [List.intercalate_cons_cons, List.append_assoc, List.singleton_append,
        split_append hpiece, ih (List.cons_ne_nil _ _) hpieces]

/-! ## Spaces around a text -/

/-- Nothing but spaces. -/
def IsSpaces (cs : List Char) : Prop := ∀ c ∈ cs, isSpace c = true

theorem IsSpaces.not_mem {c : Char} (h : IsSpaces cs) (hc : isSpace c = false) : c ∉ cs :=
  fun hmem => by
    rw [h c hmem] at hc
    cases hc

/-- A text with no space before or behind it. -/
structure IsTrimmed (cs : List Char) : Prop where
  head : ∀ c ∈ cs.head?, isSpace c = false
  last : ∀ c ∈ cs.getLast?, isSpace c = false

/-- A text without spaces has none around it. -/
theorem isTrimmed_of_forall (h : ∀ c ∈ cs, isSpace c = false) : IsTrimmed cs where
  head c hc := h c (List.mem_of_mem_head? hc)
  last c hc := h c (List.mem_of_getLast? hc)

/-- A digit is no space. -/
theorem isSpace_of_isDigit {c : Char} (h : c.isDigit = true) : isSpace c = false := by
  obtain ⟨hlow, hhigh⟩ := Char.isDigit_iff_toNat.1 h
  have hzero : '0'.toNat = 48 := rfl
  have hnine : '9'.toNat = 57 := rfl
  simp only [isSpace, Bool.or_eq_false_iff, Bool.and_eq_false_iff, decide_eq_false_iff_not,
    beq_eq_false_iff_ne]
  omega

/-- Spaces before a text do not count. -/
theorem trimStart_append (h : IsSpaces cs) (ds : List Char) :
    trimStart (cs ++ ds) = trimStart ds :=
  List.dropWhile_append_of_pos h

theorem trimStart_eq_self (h : ∀ c ∈ cs.head?, isSpace c = false) : trimStart cs = cs := by
  cases cs with
  | nil => rfl
  | cons c cs => exact List.dropWhile_cons_of_neg (by simpa using h c rfl)

/-- Spaces behind a text do not count. -/
theorem trimEnd_append (h : IsSpaces ds) (cs : List Char) : trimEnd (cs ++ ds) = trimEnd cs := by
  rw [trimEnd, trimEnd, List.reverse_append,
    List.dropWhile_append_of_pos fun c hc => h c (List.mem_reverse.1 hc)]

theorem trimEnd_eq_self (h : ∀ c ∈ cs.getLast?, isSpace c = false) : trimEnd cs = cs := by
  rw [trimEnd]
  have hreverse : trimStart cs.reverse = cs.reverse :=
    trimStart_eq_self (by rwa [List.head?_reverse])
  rw [trimStart] at hreverse
  rw [hreverse, List.reverse_reverse]

/-- A text without outer spaces stays as it is. -/
theorem trim_eq_self (h : IsTrimmed cs) : trim cs = cs := by
  rw [trim, trimStart_eq_self h.head, trimEnd_eq_self h.last]

/-- Spaces are trimmed to nothing. -/
theorem trim_spaces (h : IsSpaces cs) : trim cs = [] := by
  rw [trim, trimStart, List.dropWhile_eq_nil_iff.2 h]
  rfl

/-- Spaces behind a text make no difference. -/
theorem trim_append (h : IsSpaces ds) (cs : List Char) : trim (cs ++ ds) = trim cs := by
  by_cases hcs : IsSpaces cs
  · rw [trim_spaces hcs, trim_spaces fun c hc => (List.mem_append.1 hc).elim (hcs c) (h c)]
  · have hne : trimStart cs ≠ [] := fun hnil => hcs (List.dropWhile_eq_nil_iff.1 hnil)
    have hstart : trimStart (cs ++ ds) = trimStart cs ++ ds := by
      rw [trimStart, List.dropWhile_append, if_neg (by simpa [trimStart] using hne), trimStart]
    rw [trim, hstart, trimEnd_append h, trim]

/-- What is trimmed behind a text are spaces. -/
theorem exists_trimEnd (cs : List Char) : ∃ spaces, IsSpaces spaces ∧ cs = trimEnd cs ++ spaces := by
  refine ⟨(cs.reverse.takeWhile isSpace).reverse, fun c hc => ?_, ?_⟩
  · exact List.mem_takeWhile_imp (List.mem_reverse.1 hc)
  · rw [trimEnd, ← List.reverse_append, List.takeWhile_append_dropWhile, List.reverse_reverse]

/-- It is the same to trim a text that was trimmed at one end. -/
theorem trim_trimStart (cs : List Char) : trim (trimStart cs) = trim cs := by
  rw [trim, trim, trimStart, trimStart, List.dropWhile_idempotent]

theorem trim_trimEnd (cs : List Char) : trim (trimEnd cs) = trim cs := by
  obtain ⟨spaces, hspaces, hcs⟩ := exists_trimEnd cs
  conv_rhs => rw [hcs, trim_append hspaces]

/-- No spaces are trimmed behind a character that is none. -/
theorem trimStart_append_cons {c : Char} (hc : isSpace c = false) (cs ds : List Char) :
    trimStart (cs ++ c :: ds) = trimStart cs ++ c :: ds := by
  have hself : trimStart (c :: ds) = c :: ds := List.dropWhile_cons_of_neg (by simp [hc])
  rw [trimStart, List.dropWhile_append]
  split
  · next h =>
    rw [trimStart, List.isEmpty_iff.1 h, List.nil_append]
    exact hself
  · rfl

theorem trimEnd_append_cons {c : Char} (hc : isSpace c = false) (cs ds : List Char) :
    trimEnd (cs ++ c :: ds) = cs ++ c :: trimEnd ds := by
  have hstart := trimStart_append_cons hc ds.reverse cs.reverse
  rw [trimStart, trimStart] at hstart
  rw [trimEnd, List.reverse_append, List.reverse_cons, List.append_assoc, List.singleton_append,
    hstart, List.reverse_append, List.reverse_cons, List.reverse_reverse, trimEnd,
    List.append_assoc, List.singleton_append]

/-- A text around a character that is no space is trimmed at its two ends. -/
theorem trim_append_cons {c : Char} (hc : isSpace c = false) (cs ds : List Char) :
    trim (cs ++ c :: ds) = trimStart cs ++ c :: trimEnd ds := by
  rw [trim, trimStart_append_cons hc, trimEnd_append_cons hc]

/-- **Spaces around a text are trimmed**, and nothing else is. -/
theorem trim_between {before behind : List Char} (hbefore : IsSpaces before)
    (h : IsTrimmed cs) (hbehind : IsSpaces behind) : trim (before ++ cs ++ behind) = cs := by
  rw [trim_append hbehind, trim, trimStart_append hbefore, ← trim, trim_eq_self h]

end Text

end SatScript
