import SatScript.Proofs.Text.Line
import SatScript.Settings.Sections
/-!
# SatScript — what a line of settings says

A line is read in two steps: the comment at its end is taken off
(`stripComment`), and what is left says something if it has a colon and does not
begin with a number sign (`said?`). What stands before the first colon is the
key and what stands behind it the value (`said?_of_colon`); nothing else makes
a line say something (`isSome_said?_iff`).
-/

namespace SatScript

namespace Sections

open Text (IsSpaces IsTrimmed)

variable {cs tail : List Char}

/-! ## Comments -/

/-- A comment behind something: spaces and a number sign, and then nothing that no
comment can hold. -/
def IsTail (cs : List Char) : Prop :=
  ∃ spaces rest, spaces ≠ [] ∧ IsSpaces spaces ∧ (∀ c ∈ rest, staysInComment c = true) ∧
    cs = spaces ++ '#' :: rest

/-- What a comment is, with the spaces before it. -/
theorem isComment_iff :
    isComment cs = true ↔
      ∃ spaces rest, IsSpaces spaces ∧ (∀ c ∈ rest, staysInComment c = true) ∧
        cs = spaces ++ '#' :: rest := by
  constructor
  · intro h
    rw [isComment] at h
    split at h
    · next rest hrest =>
      refine ⟨cs.takeWhile Text.isSpace, rest, fun c hc => List.mem_takeWhile_imp hc,
        List.all_eq_true.1 h, ?_⟩
      rw [← hrest, List.takeWhile_append_dropWhile]
    · cases h
  · rintro ⟨spaces, rest, hspaces, hrest, rfl⟩
    rw [isComment, List.dropWhile_append_of_pos hspaces]
    exact List.all_eq_true.2 hrest

/-- A comment is taken off that ends nothing but spaces. -/
theorem stripComment_tail (h : IsTail cs) : stripComment cs = [] := by
  obtain ⟨spaces, rest, hne, hspaces, hrest, rfl⟩ := h
  have hcomment : isComment (spaces ++ '#' :: rest) = true :=
    isComment_iff.2 ⟨spaces, rest, hspaces, hrest, rfl⟩
  obtain ⟨space, spaces, rfl⟩ := List.exists_cons_of_ne_nil hne
  rw [List.cons_append] at hcomment ⊢
  rw [stripComment, hcomment, hspaces space List.mem_cons_self]
  rfl

/-- Where no comment begins the line stays as it is. -/
theorem stripComment_append
    (h : ∀ part, part <:+ cs → part ≠ [] → isComment (part ++ tail) = false) :
    stripComment (cs ++ tail) = cs ++ stripComment tail := by
  induction cs with
  | nil => rfl
  | cons c cs ih =>
    have hcomment := h (c :: cs) (List.suffix_refl _) (List.cons_ne_nil _ _)
    rw [List.cons_append] at hcomment
    rw [List.cons_append, stripComment, hcomment, Bool.and_false, if_neg Bool.false_ne_true,
      ih fun part hpart => h part (hpart.trans (List.suffix_cons c cs)), List.cons_append]

/-- **A comment is taken off what stands before it**, if that holds no number sign
and no space ends it. -/
theorem stripComment_of_tail (hmark : '#' ∉ cs) (hlast : ∀ c ∈ cs.getLast?, Text.isSpace c = false)
    (htail : tail = [] ∨ IsTail tail) : stripComment (cs ++ tail) = cs := by
  have hstrip : stripComment tail = [] := by
    rcases htail with rfl | htail
    · rfl
    · exact stripComment_tail htail
  rw [stripComment_append, hstrip, List.append_nil]
  rintro part ⟨before, rfl⟩ hne
  -- a comment would begin within the part, whose last character is no space
  have hspaces : ¬ IsSpaces part := fun hspaces => by
    have hend := hlast (part.getLast hne) (by
      rw [List.getLast?_append_of_ne_nil _ hne, List.getLast?_eq_some_getLast hne]
      rfl)
    rw [hspaces _ (List.getLast_mem hne)] at hend
    cases hend
  refine Bool.eq_false_iff.2 fun hcomment => ?_
  obtain ⟨spaces, rest, hbefore, -, hsplit⟩ := isComment_iff.1 hcomment
  rcases List.append_eq_append_iff.1 hsplit with ⟨more, rfl, -⟩ | ⟨more, rfl, hmore⟩
  · exact hspaces fun c hc => hbefore c (List.mem_append_left _ hc)
  · cases more with
    | nil => exact hspaces (by rwa [List.append_nil])
    | cons c more =>
      obtain ⟨rfl, -⟩ := List.cons.inj hmore
      exact hmark (by simp)

/-- What is taken off is a comment behind something. -/
theorem exists_tail (cs : List Char) :
    ∃ tail, cs = stripComment cs ++ tail ∧ (tail = [] ∨ IsTail tail) := by
  induction cs with
  | nil => exact ⟨[], rfl, .inl rfl⟩
  | cons c cs ih =>
    obtain ⟨tail, hcs, htail⟩ := ih
    rw [stripComment]
    by_cases h : (Text.isSpace c && isComment (c :: cs)) = true
    · obtain ⟨hspace, hcomment⟩ := Bool.and_eq_true_iff.1 h
      obtain ⟨spaces, rest, hspaces, hrest, hsplit⟩ := isComment_iff.1 hcomment
      rw [if_pos h]
      refine ⟨c :: cs, rfl, .inr ⟨spaces, rest, ?_, hspaces, hrest, hsplit⟩⟩
      rintro rfl
      obtain ⟨rfl, -⟩ := List.cons.inj hsplit
      cases hspace
    · rw [if_neg h]
      exact ⟨tail, by rw [List.cons_append, ← hcs], htail⟩

/-! ## What is left -/

/-- What a line says that has no comment at its end; none if it says nothing. -/
def said? (cs : List Char) : Option Line :=
  match Text.trim cs with
  | [] => none
  | '#' :: _ => none
  | trimmed =>
    match trimmed.dropWhile (· != ':') with
    | [] => none
    | _ :: value =>
      some
        { indented := (cs.head?.map Text.isSpace).getD false
          key := String.ofList (Text.trim (trimmed.takeWhile (· != ':')))
          value := Text.trim value }

/-- What a line says is what it says without the comment at its end. -/
theorem line?_eq (cs : List Char) : line? cs = said? (stripComment cs) := rfl

/-- Whether a line is indented. -/
def isIndented (cs : List Char) : Bool := (cs.head?.map Text.isSpace).getD false

theorem said?_of_trim {c : Char} {trimmed : List Char} (htrim : Text.trim cs = c :: trimmed)
    (hmark : c ≠ '#') :
    said? cs =
      match (c :: trimmed).dropWhile (· != ':') with
      | [] => none
      | _ :: value =>
        some
          { indented := isIndented cs
            key := String.ofList (Text.trim ((c :: trimmed).takeWhile (· != ':')))
            value := Text.trim value } := by
  rw [said?, htrim]
  split
  · next h => cases h
  · next h => exact absurd (List.cons.inj h).1 hmark
  · rfl

/-- **What stands before the first colon is the key, and what stands behind it the
value**, unless the line begins with a number sign. -/
theorem said?_of_colon {key value : List Char} (hkey : ':' ∉ key)
    (hmark : '#' ∉ (Text.trimStart key).head?) :
    said? (key ++ ':' :: value) =
      some
        { indented := isIndented (key ++ ':' :: value)
          key := String.ofList (Text.trim key)
          value := Text.trim value } := by
  have htrim := Text.trim_append_cons (c := ':') (by decide) key value
  have hstart : ∀ c ∈ Text.trimStart key, (c != ':') = true := fun c hc => by
    have hmem : c ∈ key := (List.dropWhile_suffix _).subset hc
    simpa using ne_of_mem_of_not_mem hmem hkey
  have htake : (Text.trimStart key ++ ':' :: Text.trimEnd value).takeWhile (· != ':') =
      Text.trimStart key := by
    rw [List.takeWhile_append_of_pos hstart]
    simp
  have hdrop : (Text.trimStart key ++ ':' :: Text.trimEnd value).dropWhile (· != ':') =
      ':' :: Text.trimEnd value := by
    rw [List.dropWhile_append_of_pos hstart]
    simp
  obtain ⟨c, trimmed, hcons, hc⟩ : ∃ c trimmed,
      Text.trimStart key ++ ':' :: Text.trimEnd value = c :: trimmed ∧ c ≠ '#' := by
    cases h : Text.trimStart key with
    | nil => exact ⟨':', _, rfl, by decide⟩
    | cons c rest =>
      rw [h] at hmark
      exact ⟨c, _, rfl, fun hc => hmark (by simp [hc])⟩
  rw [hcons] at htrim htake hdrop
  rw [said?_of_trim htrim hc, htake, hdrop]
  simp only [Text.trim_trimStart, Text.trim_trimEnd]

/-- A line that says something: it has a colon, and the first character that is no
space is no number sign. -/
structure Speaks (cs : List Char) : Prop where
  colon : ':' ∈ cs
  start : '#' ∉ (Text.trimStart cs).head?

/-- A line that says something, taken apart at its first colon. -/
theorem Speaks.exists_colon (h : Speaks cs) :
    ∃ key value, cs = key ++ ':' :: value ∧ ':' ∉ key ∧ '#' ∉ (Text.trimStart key).head? := by
  obtain ⟨key, value, rfl, hkey⟩ := List.eq_append_cons_of_mem h.colon
  refine ⟨key, value, rfl, hkey, fun hmark => h.start ?_⟩
  rw [Text.trimStart_append_cons (by decide)]
  simp only [List.head?_append, Option.mem_def] at hmark ⊢
  rw [hmark]
  rfl

theorem said?_of_mark {rest : List Char} (htrim : Text.trim cs = '#' :: rest) :
    said? cs = none := by
  rw [said?, htrim]
  rfl

/-- Other lines say nothing. -/
theorem said?_eq_none (h : ¬ Speaks cs) : said? cs = none := by
  by_cases hmark : '#' ∈ (Text.trimStart cs).head?
  · obtain ⟨rest, hrest⟩ : ∃ rest, Text.trimStart cs = '#' :: rest := List.head?_eq_some_iff.1 hmark
    have htrim : Text.trim cs = '#' :: Text.trimEnd rest := by
      rw [Text.trim, hrest]
      exact Text.trimEnd_append_cons (by decide) [] rest
    exact said?_of_mark htrim
  · have hcolon : ':' ∉ Text.trim cs := fun hmem => by
      obtain ⟨spaces, -, hcs⟩ := Text.exists_trimEnd (Text.trimStart cs)
      have hstart : ':' ∈ Text.trimStart cs := by
        rw [hcs]
        exact List.mem_append_left _ hmem
      exact h ⟨(List.dropWhile_suffix _).subset hstart, hmark⟩
    cases htrim : Text.trim cs with
    | nil => rw [said?, htrim]
    | cons c trimmed =>
      have hdrop : (c :: trimmed).dropWhile (· != ':') = [] := by
        rw [← htrim, List.dropWhile_eq_nil_iff]
        exact fun c hc => by simpa using ne_of_mem_of_not_mem hc hcolon
      by_cases hc : c = '#'
      · exact said?_of_mark (hc ▸ htrim)
      · rw [said?_of_trim htrim hc, hdrop]

/-- **Just such lines say something.** -/
theorem isSome_said?_iff : (said? cs).isSome = true ↔ Speaks cs := by
  constructor
  · intro h
    by_contra hspeaks
    rw [said?_eq_none hspeaks] at h
    cases h
  · intro h
    obtain ⟨key, value, rfl, hkey, hmark⟩ := h.exists_colon
    rw [said?_of_colon hkey hmark]
    rfl

/-- A line that says something says something with more behind it. -/
theorem Speaks.append (h : Speaks cs) (more : List Char) : Speaks (cs ++ more) := by
  obtain ⟨key, value, rfl, -, hmark⟩ := h.exists_colon
  refine ⟨List.mem_append_left _ h.colon, fun hstart => h.start ?_⟩
  rw [List.append_assoc, List.cons_append] at hstart
  rw [Text.trimStart_append_cons (by decide)] at hstart ⊢
  cases hkey : Text.trimStart key with
  | nil =>
    rw [hkey] at hstart
    exact hstart
  | cons c rest =>
    rw [hkey] at hstart
    exact hstart

/-- A line says nothing without its comment if it says nothing with it. -/
theorem line?_eq_none (h : ¬ Speaks cs) : line? cs = none := by
  obtain ⟨tail, hcs, -⟩ := exists_tail cs
  rw [hcs] at h
  rw [line?_eq]
  exact said?_eq_none fun hspeaks => h (hspeaks.append tail)

end Sections

end SatScript
