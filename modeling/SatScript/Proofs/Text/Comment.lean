import SatScript.Text.Blank
import SatScript.Text.Comment
/-!
# SatScript — what blanking comments does to a part of a text

Whether a character is part of a comment depends on what stands before it.
`insideAfter` follows that along a text, so that a text can be blanked in
parts (`blankedFrom_append`). A part that begins with no blank, as an atom
does, was outside of a comment, and then the parts of the blanked text come
from parts of the text itself (`exists_of_blankedFrom`): this is how an
edit that was found in the blanked text can be applied to the text.
-/

namespace SatScript

namespace Text

/-- Whether a comment goes on behind a text. -/
def insideAfter (inside : Bool) : List Char → Bool
  | [] => inside
  | c :: cs => insideAfter (c != '\n' && (inside || c == ';')) cs

/-- One character is blanked or stays. -/
theorem blankedFrom_cons (inside : Bool) (c : Char) (cs : List Char) :
    blankedFrom inside (c :: cs) =
      (if c != '\n' && (inside || c == ';') then List.replicate (width c) ' ' else [c]) ++
        blankedFrom (insideAfter inside [c]) cs := by
  rw [blankedFrom, insideAfter, insideAfter]
  by_cases h : (c != '\n' && (inside || c == ';')) = true
  · simp [h]
  · simp [h]

/-- **A text is blanked part by part.** -/
theorem blankedFrom_append (inside : Bool) (cs ds : List Char) :
    blankedFrom inside (cs ++ ds) =
      blankedFrom inside cs ++ blankedFrom (insideAfter inside cs) ds := by
  induction cs generalizing inside with
  | nil => rfl
  | cons c cs ih =>
    rw [List.cons_append, blankedFrom_cons, ih, blankedFrom_cons inside c cs, List.append_assoc]
    rfl

/-- **Comments are deleted part by part**, too. -/
theorem withoutFrom_append (inside : Bool) (cs ds : List Char) :
    withoutFrom inside (cs ++ ds) =
      withoutFrom inside cs ++ withoutFrom (insideAfter inside cs) ds := by
  induction cs generalizing inside with
  | nil => rfl
  | cons c cs ih =>
    rw [List.cons_append, withoutFrom, withoutFrom, insideAfter]
    cases inside with
    | true => rw [if_pos rfl, if_pos rfl, ih, Bool.true_or, Bool.and_true]
    | false =>
      rw [if_neg Bool.false_ne_true, if_neg Bool.false_ne_true]
      by_cases hc : c = ';'
      · rw [if_pos hc, if_pos hc, ih, hc]
        rfl
      · rw [if_neg hc, if_neg hc, ih, beq_false_of_ne hc, Bool.or_false, Bool.and_false,
          List.cons_append]

/-- Where no comment begins nothing is blanked. -/
theorem blankedFrom_of_not_mem {cs : List Char} (h : ';' ∉ cs) : blankedFrom false cs = cs := by
  induction cs with
  | nil => rfl
  | cons c cs ih =>
    obtain ⟨hc, hcs⟩ : ';' ≠ c ∧ ';' ∉ cs := by simpa using h
    simp [blankedFrom, Ne.symm hc, ih hcs]

/-- Nor is any deleted. -/
theorem withoutComments_of_not_mem {cs : List Char} (h : ';' ∉ cs) : withoutComments cs = cs := by
  rw [withoutComments]
  induction cs with
  | nil => rfl
  | cons c cs ih =>
    obtain ⟨hc, hcs⟩ : ';' ≠ c ∧ ';' ∉ cs := by simpa using h
    rw [withoutFrom, if_neg Bool.false_ne_true, if_neg (Ne.symm hc), ih hcs]

theorem insideAfter_of_not_mem {cs : List Char} (h : ';' ∉ cs) : insideAfter false cs = false := by
  induction cs with
  | nil => rfl
  | cons c cs ih =>
    obtain ⟨hc, hcs⟩ : ';' ≠ c ∧ ';' ∉ cs := by simpa using h
    rw [insideAfter, Bool.false_or, beq_false_of_ne (Ne.symm hc), Bool.and_false, ih hcs]

/-- A blanked text holds no semicolon. -/
theorem semicolon_not_mem_blankedFrom (inside : Bool) (cs : List Char) :
    ';' ∉ blankedFrom inside cs := by
  induction cs generalizing inside with
  | nil => simp [blankedFrom]
  | cons c cs ih =>
    rw [blankedFrom_cons, List.mem_append]
    rintro (h | h)
    · split at h
      · have heq := List.eq_of_mem_replicate h
        revert heq
        decide
      · rename_i hkept
        rw [List.mem_singleton] at h
        subst h
        simp at hkept
    · exact ih _ h

/-- Nor does a text without its comments. -/
theorem semicolon_not_mem_withoutFrom (inside : Bool) (cs : List Char) :
    ';' ∉ withoutFrom inside cs := by
  induction cs generalizing inside with
  | nil => exact List.not_mem_nil
  | cons c cs ih =>
    rw [withoutFrom]
    split
    · exact ih _
    · split
      next => exact ih _
      next hc =>
        rw [List.mem_cons, not_or]
        exact ⟨Ne.symm hc, ih _⟩

/-- **Blanking comments leaves a text as it is just if none begins in it.** -/
theorem blankedComments_eq_self_iff {cs : List Char} : blankedComments cs = cs ↔ ';' ∉ cs := by
  refine ⟨fun h => ?_, blankedFrom_of_not_mem⟩
  rw [← h]
  exact semicolon_not_mem_blankedFrom false cs

/-- And so does deleting them. -/
theorem withoutComments_eq_self_iff {cs : List Char} : withoutComments cs = cs ↔ ';' ∉ cs := by
  refine ⟨fun h => ?_, withoutComments_of_not_mem⟩
  rw [← h]
  exact semicolon_not_mem_withoutFrom false cs

/-- A character of the blanked text that is no blank stands in the text, outside
of a comment, and what is around it in the one comes from what is around
it in the other. -/
theorem exists_of_blankedFrom_cons {inside : Bool} {cs before behind : List Char} {c : Char}
    (hc : isBlank c = false) (h : blankedFrom inside cs = before ++ c :: behind) :
    ∃ cs₁ cs₂, cs = cs₁ ++ c :: cs₂ ∧ blankedFrom inside cs₁ = before ∧
      insideAfter inside cs₁ = false ∧ blankedFrom false (c :: cs₂) = c :: behind ∧
      blankedFrom false cs₂ = behind := by
  induction cs generalizing inside before with
  | nil =>
    rw [blankedFrom] at h
    exact absurd h.symm (List.append_ne_nil_of_right_ne_nil _ (List.cons_ne_nil _ _))
  | cons d cs ih =>
    rw [blankedFrom_cons] at h
    by_cases hd : (d != '\n' && (inside || d == ';')) = true
    · -- the first character is blanked, so the given one stands further on
      rw [if_pos hd] at h
      rcases List.append_eq_append_iff.1 h with ⟨more, hbefore, hmore⟩ | ⟨more, hspaces, hmore⟩
      · obtain ⟨cs₁, cs₂, rfl, hbefore', hstate, hkept, hbehind⟩ := ih hmore
        refine ⟨d :: cs₁, cs₂, rfl, ?_, hstate, hkept, hbehind⟩
        rw [blankedFrom_cons, if_pos hd, hbefore', hbefore]
      · cases more with
        | nil =>
          rw [List.append_nil] at hspaces
          obtain ⟨cs₁, cs₂, rfl, hbefore', hstate, hkept, hbehind⟩ :=
            @ih (insideAfter inside [d]) [] hmore.symm
          refine ⟨d :: cs₁, cs₂, rfl, ?_, hstate, hkept, hbehind⟩
          rw [blankedFrom_cons, if_pos hd, hbefore', List.append_nil, hspaces]
        | cons e more =>
          obtain ⟨rfl, -⟩ := List.cons.inj hmore
          have hspace : c = ' ' :=
            List.eq_of_mem_replicate (hspaces ▸ List.mem_append_right _ List.mem_cons_self)
          rw [hspace] at hc
          exact absurd hc (by decide)
    · rw [if_neg hd, List.singleton_append] at h
      cases before with
      | nil =>
        obtain ⟨rfl, hbehind⟩ := List.cons.inj h
        have hline : d ≠ '\n' := by
          rintro rfl
          exact absurd hc (by decide)
        obtain ⟨hinside, hsemi⟩ : inside = false ∧ d ≠ ';' := by simpa [hline] using hd
        have hstate : insideAfter inside [d] = false := by simp [insideAfter, hinside, hsemi]
        rw [hstate] at hbehind
        refine ⟨[], cs, rfl, rfl, hinside, ?_, hbehind⟩
        rw [blankedFrom, hbehind]
        simp [hsemi]
      | cons e before =>
        obtain ⟨rfl, hmore⟩ := List.cons.inj h
        obtain ⟨cs₁, cs₂, rfl, hbefore', hstate, hkept, hbehind⟩ := ih hmore
        refine ⟨d :: cs₁, cs₂, rfl, ?_, hstate, hkept, hbehind⟩
        rw [blankedFrom_cons, if_neg hd, hbefore', List.singleton_append]

/-- **A part of the blanked text that begins with no blank comes from a part of
the text**, if it ends with no blank or with the text. -/
theorem exists_of_blankedFrom {inside : Bool} {cs before part behind : List Char}
    (hhead : ∃ c, part.head? = some c ∧ isBlank c = false)
    (hlast : behind = [] ∨ ∃ c, part.getLast? = some c ∧ isBlank c = false)
    (h : blankedFrom inside cs = before ++ (part ++ behind)) :
    ∃ cs₁ cs₂ cs₃, cs = cs₁ ++ (cs₂ ++ cs₃) ∧ blankedFrom inside cs₁ = before ∧
      insideAfter inside cs₁ = false ∧ units cs₂ = units part ∧
      blankedFrom false cs₃ = behind := by
  obtain ⟨c, hpart, hc⟩ := hhead
  obtain ⟨part, rfl⟩ : ∃ rest, part = c :: rest := List.head?_eq_some_iff.1 hpart
  rw [List.cons_append] at h
  obtain ⟨cs₁, cs₂, rfl, hbefore, hstate, hkept, -⟩ := exists_of_blankedFrom_cons hc h
  rcases hlast with rfl | ⟨d, hlast, hd⟩
  · refine ⟨cs₁, c :: cs₂, [], by simp, hbefore, hstate, ?_, rfl⟩
    rw [← units_blankedFrom false, hkept, List.append_nil]
  · obtain ⟨front, hfront⟩ : ∃ front, c :: part = front ++ [d] := List.getLast?_eq_some_iff.1 hlast
    rw [← List.cons_append, hfront, List.append_assoc, List.singleton_append] at hkept
    obtain ⟨ds₁, ds₂, hds, hfront', -, -, hbehind⟩ := exists_of_blankedFrom_cons hd hkept
    refine ⟨cs₁, ds₁ ++ [d], ds₂, by simp [hds], hbefore, hstate, ?_, hbehind⟩
    rw [hfront, units_append, units_append, ← hfront', units_blankedFrom]

end Text

end SatScript
