import Mathlib.Data.List.Basic
import SatScript.Proofs.Text.Comment
/-!
# SatScript — which code units are part of a comment

What a comment is can be said of a text without any scanner: the unit at a
position is `Commented` if a semicolon stands there or before, and no line feed
from that semicolon on up to the position. Both ways to take comments out of a
text follow this one notion (`comments_by_unit`). Blanking writes a space for
just the units that are commented; deleting drops just these, and the line feeds
that end a comment, which stand directly behind one.

The invariant of both scans is that they are inside of a comment just if the unit
directly before the one that comes next is commented (`CommentedBefore`).
-/

namespace SatScript

namespace Text

/-- The code unit of a character that takes one. -/
def unitOf (c : Char) : UInt16 := UInt16.ofNat c.toNat

/-- The unit at a position is part of a comment: a semicolon stands there or before,
and no line feed from that one on up to the position. -/
def Commented (us : List UInt16) (i : Nat) : Prop :=
  ∃ j ≤ i, us[j]? = some (unitOf ';') ∧ ∀ k ≤ i, j ≤ k → us[k]? ≠ some (unitOf '\n')

instance (us : List UInt16) (i : Nat) : Decidable (Commented us i) :=
  inferInstanceAs (Decidable (∃ j ≤ i, us[j]? = some (unitOf ';') ∧
    ∀ k ≤ i, j ≤ k → us[k]? ≠ some (unitOf '\n')))

/-- The unit directly before a position is part of a comment. -/
def CommentedBefore (us : List UInt16) : Nat → Prop
  | 0 => False
  | i + 1 => Commented us i

instance (us : List UInt16) : (i : Nat) → Decidable (CommentedBefore us i)
  | 0 => inferInstanceAs (Decidable False)
  | i + 1 => inferInstanceAs (Decidable (Commented us i))

/-- The unit at a position goes with the comments: it is part of one, or it is the line
feed that ends one. -/
def GoesWithComment (us : List UInt16) (i : Nat) : Prop :=
  Commented us i ∨ us[i]? = some (unitOf '\n') ∧ CommentedBefore us i

instance (us : List UInt16) (i : Nat) : Decidable (GoesWithComment us i) :=
  inferInstanceAs (Decidable (_ ∨ _))

variable {us before behind : List UInt16} {inside : Bool} {c : Char} {i : Nat}

/-- **A unit is commented if no line feed stands there, and a semicolon does or the unit
before is commented.** -/
theorem commented_iff : Commented us i ↔
    us[i]? ≠ some (unitOf '\n') ∧ (us[i]? = some (unitOf ';') ∨ CommentedBefore us i) := by
  constructor
  · rintro ⟨j, hj, hsemicolon, hline⟩
    refine ⟨hline i (Nat.le_refl i) hj, ?_⟩
    rcases Nat.lt_or_eq_of_le hj with hlt | rfl
    · obtain ⟨i, rfl⟩ := Nat.exists_eq_add_one.2 (Nat.zero_lt_of_lt hlt)
      exact .inr ⟨j, Nat.le_of_lt_succ hlt, hsemicolon,
        fun k hk => hline k (Nat.le_succ_of_le hk)⟩
    · exact .inl hsemicolon
  · rintro ⟨hi, hsemicolon | hbefore⟩
    · exact ⟨i, Nat.le_refl i, hsemicolon, fun k hk hik => Nat.le_antisymm hik hk ▸ hi⟩
    · cases i with
      | zero => exact hbefore.elim
      | succ i =>
        obtain ⟨j, hj, hsemicolon, hline⟩ := hbefore
        refine ⟨j, Nat.le_succ_of_le hj, hsemicolon, fun k hk hjk => ?_⟩
        rcases Nat.lt_or_eq_of_le hk with hlt | rfl
        · exact hline k (Nat.le_of_lt_succ hlt) hjk
        · exact hi

/-! ## Units and characters -/

/-- A unit tells a character below the surrogates from all others. -/
theorem eq_unitOf_iff {u : UInt16} {d : Char} (hu : u ∈ encodeChar c) (hd : d.toNat < 0xD800) :
    u = unitOf d ↔ c = d := by
  have hunit : (unitOf d).toNat = d.toNat :=
    UInt16.toNat_ofNat_of_lt' (Nat.lt_trans hd (by decide))
  have hchar : c = d ↔ c.toNat = d.toNat := ⟨congrArg _, fun h => Char.toNat_inj.1 h⟩
  rw [← UInt16.toNat_inj, hunit, hchar]
  have hvalid := toNat_valid c
  rw [encodeChar] at hu
  split at hu
  · next hc =>
    rw [List.mem_singleton.1 hu, UInt16.toNat_ofNat_of_lt' hc]
  · next hc =>
    -- half of a pair is no character, and the pair is above all characters of one unit
    have hhalf : 0xD800 ≤ u.toNat := by
      simp only [List.mem_cons, List.not_mem_nil, or_false] at hu
      rcases hu with rfl | rfl <;>
        rw [UInt16.toNat_ofNat_of_lt' (by simp only [UInt16.size]; omega)] <;> omega
    omega

theorem encode_replicate_space (n : Nat) :
    encode (List.replicate n ' ') = List.replicate n (unitOf ' ') := by
  induction n with
  | zero => rfl
  | succ n ih => rw [List.replicate_succ, encode_cons, ih]; rfl

/-! ## The invariant of the scans -/

/-- A unit of a character stands where the character does. -/
theorem exists_getElem?_encodeChar (hi : i < width c) :
    ∃ u ∈ encodeChar c, (before ++ (encodeChar c ++ behind))[before.length + i]? = some u := by
  rw [← length_encodeChar c] at hi
  refine ⟨(encodeChar c)[i], List.getElem_mem hi, ?_⟩
  rw [List.getElem?_append_right (Nat.le_add_right _ _), Nat.add_sub_cancel_left,
    List.getElem?_append_left hi, List.getElem?_eq_getElem hi]

/-- **All units of a character are commented or none is**, as a scan has it that is
inside of a comment or not where the character begins. -/
theorem commented_encodeChar_iff
    (hinside : inside = true ↔
      CommentedBefore (before ++ (encodeChar c ++ behind)) before.length) (hi : i < width c) :
    Commented (before ++ (encodeChar c ++ behind)) (before.length + i) ↔
      (c != '\n' && (inside || c == ';')) = true := by
  simp only [Bool.and_eq_true, Bool.or_eq_true, bne_iff_ne, beq_iff_eq]
  induction i with
  | zero =>
    obtain ⟨u, hu, hget⟩ := @exists_getElem?_encodeChar before behind c 0 hi
    rw [commented_iff, hget, Ne, Option.some_inj, Option.some_inj,
      eq_unitOf_iff hu (by decide), eq_unitOf_iff hu (by decide), hinside]
    tauto
  | succ i ih =>
    obtain ⟨u, hu, hget⟩ := @exists_getElem?_encodeChar before behind c (i + 1) hi
    have hbefore := ih (Nat.lt_of_succ_lt hi)
    rw [commented_iff, hget, Ne, Option.some_inj, Option.some_inj,
      eq_unitOf_iff hu (by decide), eq_unitOf_iff hu (by decide)]
    tauto

/-- Whether the units of a character go with the comments shows in the same way. -/
theorem goesWithComment_encodeChar_iff
    (hinside : inside = true ↔
      CommentedBefore (before ++ (encodeChar c ++ behind)) before.length) (hi : i < width c) :
    GoesWithComment (before ++ (encodeChar c ++ behind)) (before.length + i) ↔
      inside = true ∨ c = ';' := by
  rw [GoesWithComment, commented_encodeChar_iff hinside hi]
  obtain ⟨u, hu, hget⟩ := @exists_getElem?_encodeChar before behind c i hi
  rw [hget, Option.some_inj, eq_unitOf_iff hu (by decide)]
  by_cases hline : c = '\n'
  · -- a line feed takes one unit
    subst hline
    obtain rfl : i = 0 := Nat.lt_one_iff.1 hi
    simp [hinside]
  · simp [hline]

/-- Behind the character the scan is inside of a comment just if the last unit of it is
commented. -/
theorem insideAfter_iff_commentedBefore
    (hinside : inside = true ↔
      CommentedBefore (before ++ (encodeChar c ++ behind)) before.length) :
    insideAfter inside [c] = true ↔
      CommentedBefore ((before ++ encodeChar c) ++ behind) (before ++ encodeChar c).length := by
  obtain ⟨n, hn⟩ := Nat.exists_eq_add_one.2 (width_pos c)
  rw [List.length_append, length_encodeChar, hn, List.append_assoc]
  exact (commented_encodeChar_iff hinside (by omega)).symm

/-- The units of a character and where they stand. -/
theorem bounds_of_mem_zipIdx {p : UInt16 × Nat} {n : Nat} (h : p ∈ (encodeChar c).zipIdx n) :
    ∃ i < width c, p.2 = n + i := by
  have hle := List.le_snd_of_mem_zipIdx h
  have hlt := List.snd_lt_of_mem_zipIdx h
  rw [length_encodeChar] at hlt
  exact ⟨p.2 - n, by omega, by omega⟩

/-! ## The scans -/

/-- **Blanking writes a space for just the units that are commented**, from wherever the
scan has come. -/
theorem encode_blankedFrom (cs : List Char) {before : List UInt16} {inside : Bool}
    (hinside : inside = true ↔ CommentedBefore (before ++ encode cs) before.length) :
    encode (blankedFrom inside cs) = ((encode cs).zipIdx before.length).map fun p =>
      if Commented (before ++ encode cs) p.2 then unitOf ' ' else p.1 := by
  induction cs generalizing before inside with
  | nil => rfl
  | cons c cs ih =>
    rw [encode_cons] at hinside ⊢
    have hmore := ih (insideAfter_iff_commentedBefore hinside)
    rw [List.append_assoc, List.length_append] at hmore
    rw [blankedFrom_cons, encode_append, hmore, List.zipIdx_append, List.map_append]
    congr 1
    have hfirst : ((encodeChar c).zipIdx before.length).map (fun p =>
        if Commented (before ++ (encodeChar c ++ encode cs)) p.2 then unitOf ' ' else p.1) =
          ((encodeChar c).zipIdx before.length).map fun p =>
            if c != '\n' && (inside || c == ';') then unitOf ' ' else p.1 := by
      refine List.map_congr_left fun p hp => ?_
      obtain ⟨i, hi, hp⟩ := bounds_of_mem_zipIdx hp
      simp only [hp, commented_encodeChar_iff hinside hi]
    rw [hfirst]
    split
    · rw [encode_replicate_space, List.map_const', List.length_zipIdx, length_encodeChar]
    · rw [encode_cons, encode_nil, List.append_nil]
      exact (List.zipIdx_map_fst _ _).symm

/-- **Deleting drops just the units that go with the comments.** -/
theorem encode_withoutFrom (cs : List Char) {before : List UInt16} {inside : Bool}
    (hinside : inside = true ↔ CommentedBefore (before ++ encode cs) before.length) :
    encode (withoutFrom inside cs) = (((encode cs).zipIdx before.length).filter fun p =>
      ¬ GoesWithComment (before ++ encode cs) p.2).map Prod.fst := by
  induction cs generalizing before inside with
  | nil => rfl
  | cons c cs ih =>
    rw [← List.singleton_append, withoutFrom_append, List.singleton_append]
    rw [encode_cons] at hinside ⊢
    have hmore := ih (insideAfter_iff_commentedBefore hinside)
    rw [List.append_assoc, List.length_append] at hmore
    rw [encode_append, hmore, List.zipIdx_append, List.filter_append, List.map_append]
    congr 1
    have hfirst : ((encodeChar c).zipIdx before.length).filter (fun p =>
        ¬ GoesWithComment (before ++ (encodeChar c ++ encode cs)) p.2) =
          ((encodeChar c).zipIdx before.length).filter fun _ =>
            ¬ (inside = true ∨ c = ';') := by
      refine List.filter_congr fun p hp => ?_
      obtain ⟨i, hi, hp⟩ := bounds_of_mem_zipIdx hp
      simp only [hp, goesWithComment_encodeChar_iff hinside hi]
    rw [hfirst]
    by_cases hc : inside = true ∨ c = ';'
    · rcases hc with rfl | rfl
      · simp [withoutFrom]
      · cases inside <;> simp [withoutFrom]
    · obtain ⟨hoff, hsemicolon⟩ := not_or.1 hc
      simp [withoutFrom, hoff, hsemicolon, encode_cons]

/-- **Both ways to take comments out of a text follow one notion of comment.** Blanking
writes a space for each code unit that is commented and keeps every other one, and so
the length of the text; deleting keeps, in order, just the units that are neither
commented nor a line feed that ends a comment. So nothing is left in either of the two
that could begin a comment, and each way leaves what the other comes to as it is. -/
theorem comments_by_unit (cs : List Char) :
    (encode (blankedComments cs)).length = (encode cs).length ∧
    encode (blankedComments cs) = (encode cs).mapIdx (fun i u =>
      if Commented (encode cs) i then unitOf ' ' else u) ∧
    encode (withoutComments cs) = ((encode cs).zipIdx.filter fun p =>
      ¬ GoesWithComment (encode cs) p.2).map Prod.fst ∧
    (';' ∉ blankedComments cs ∧ ';' ∉ withoutComments cs) ∧
    withoutComments (blankedComments cs) = blankedComments cs ∧
    blankedComments (withoutComments cs) = withoutComments cs := by
  have hinside : false = true ↔ CommentedBefore ([] ++ encode cs) 0 :=
    iff_of_false Bool.false_ne_true id
  have hblanked := semicolon_not_mem_blankedFrom false cs
  have hwithout := semicolon_not_mem_withoutFrom false cs
  refine ⟨?_, ?_, encode_withoutFrom cs hinside, ⟨hblanked, hwithout⟩,
    withoutComments_eq_self_iff.2 hblanked, blankedComments_eq_self_iff.2 hwithout⟩
  · rw [length_encode, length_encode, units_blankedComments]
  · rw [List.mapIdx_eq_zipIdx_map]
    exact encode_blankedFrom cs hinside

/-- A comment behind an atom, one on a line of its own, and one at the end of the text. -/
example : (List.range 8).filter (fun i => Commented (encode "a;b\n;\nc;".toList) i) =
      [1, 2, 4, 7] ∧
    (List.range 8).filter (fun i => GoesWithComment (encode "a;b\n;\nc;".toList) i) =
      [1, 2, 3, 4, 5, 7] := by decide

end Text

end SatScript
