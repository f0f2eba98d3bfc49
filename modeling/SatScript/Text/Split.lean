/-!
# SatScript — pieces of a text

A text is split at a mark into the pieces between its marks, one more
than there are marks. Nothing is lost: `intercalate_split` puts the text
together again, and `not_mem_of_mem_split` says that no piece holds the
mark.
-/

namespace SatScript

namespace Text

/-- The pieces of a text between the marks in it. -/
def split (mark : Char) : List Char → List (List Char)
  | [] => [[]]
  | c :: cs =>
    if c = mark then [] :: split mark cs
    else
      match split mark cs with
      | [] => [[c]]
      | piece :: pieces => (c :: piece) :: pieces

/-- There is always a piece. -/
theorem split_ne_nil (mark : Char) (cs : List Char) : split mark cs ≠ [] := by
  cases cs with
  | nil => simp [split]
  | cons c cs =>
    unfold split
    split
    · simp
    · split <;> simp

/-- **The pieces with marks between them are the text.** -/
theorem intercalate_split (mark : Char) (cs : List Char) :
    [mark].intercalate (split mark cs) = cs := by
  induction cs with
  | nil => rfl
  | cons c cs ih =>
    unfold split
    split
    · rename_i h
      obtain ⟨piece, pieces, hp⟩ := List.exists_cons_of_ne_nil (split_ne_nil mark cs)
      rw [hp] at ih ⊢
      simpa [List.intercalate, h] using ih
    · obtain ⟨piece, pieces, hp⟩ := List.exists_cons_of_ne_nil (split_ne_nil mark cs)
      rw [hp] at ih ⊢
      cases pieces with
      | nil => simpa [List.intercalate] using ih
      | cons next rest => simpa [List.intercalate] using ih

/-- No piece holds the mark. -/
theorem not_mem_of_mem_split {mark : Char} {cs piece : List Char}
    (h : piece ∈ split mark cs) : mark ∉ piece := by
  induction cs generalizing piece with
  | nil => simp_all [split]
  | cons c cs ih =>
    unfold split at h
    split at h
    · rcases List.mem_cons.1 h with rfl | h
      · simp
      · exact ih h
    · rename_i hc
      obtain ⟨first, pieces, hp⟩ := List.exists_cons_of_ne_nil (split_ne_nil mark cs)
      rw [hp] at h ih
      rcases List.mem_cons.1 h with rfl | h
      · intro hm
        rcases List.mem_cons.1 hm with rfl | hm
        · exact hc rfl
        · exact ih List.mem_cons_self hm
      · exact ih (List.mem_cons_of_mem _ h)

end Text

end SatScript
