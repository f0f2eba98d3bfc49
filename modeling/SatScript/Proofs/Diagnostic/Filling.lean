import Mathlib.Data.List.Find
import Mathlib.Data.List.Infix
import SatScript.Diagnostic.Template
/-!
# SatScript — what is filled into a template

The parameters of a message are filled in one after another. `atOnce` says what they
should come to: each placeholder of the template gives way to the text of its
parameter, as that text is and all of them at once. There are two reasons why a message
may be another one. A text is put in with the meanings that a dollar sign has before
some characters; it is put in as it is just if it holds none of these pairs
(`expand_eq_self_iff`). And a text that is put in may hold the placeholder of a
parameter that is filled in later, and stand before that placeholder in the template.
`fill_eq_atOnce` says that there is no other reason.
-/

namespace SatScript

namespace Template

/-! ## All at once -/

/-- The parameters filled in all at once. The text is gone through once; what is
left of a placeholder is passed over. -/
def atOnceFrom (params : List (String × String)) : Nat → List Char → List Char
  | _, [] => []
  | left + 1, _ :: cs => atOnceFrom params left cs
  | 0, c :: cs =>
    match params.find? fun p => (placeholder p.1).isPrefixOf (c :: cs) with
    | some p => p.2.toList ++ atOnceFrom params (p.1.toList.length + 1) cs
    | none => c :: atOnceFrom params 0 cs

/-- The message of a template in which every placeholder of a parameter is replaced by
the text of the parameter. -/
def atOnce (template : String) (params : List (String × String)) : String :=
  String.ofList (atOnceFrom params 0 template.toList)

/-! ## Dollar signs -/

/-- The characters before which a dollar sign has a meaning. -/
def meanings : List Char := ['$', '&', '`', '\'']

/-- No dollar sign in the text has a meaning. -/
def Plain (value : List Char) : Prop := ∀ c ∈ meanings, ¬ ['$', c] <:+: value

instance (value : List Char) : Decidable (Plain value) :=
  List.decidableBAll (fun c => ¬ ['$', c] <:+: value) meanings

/-- The text does not begin like the rest of a pair with a meaning. -/
def Begins (cs : List Char) : Prop := ∀ c ∈ cs.head?, c ∉ meanings

instance (cs : List Char) : Decidable (Begins cs) :=
  cs.head?.decidableForallMem

variable {before pattern after value : List Char} {c : Char}

theorem Plain.tail (h : Plain (c :: value)) : Plain value :=
  fun d hd hinside => h d hd (List.infix_cons_iff.2 (.inr hinside))

/-- A dollar sign without a meaning before a text without one. -/
theorem Plain.cons (h : Plain value) (hne : ∀ d ∈ meanings, c = '$' → value.head? ≠ some d) :
    Plain (c :: value) := by
  intro d hd hinside
  rcases List.infix_cons_iff.1 hinside with hbegins | hinside
  · obtain ⟨hc, hrest⟩ := List.cons_prefix_cons.1 hbegins
    obtain ⟨more, rfl⟩ := hrest
    exact hne d hd hc.symm rfl
  · exact h d hd hinside

theorem not_plain_pair (hc : c ∈ meanings) : ¬ Plain ('$' :: c :: value) :=
  fun h => h c hc (List.prefix_append ['$', c] value).isInfix

/-- **A text without meanings is put in as it is.** -/
theorem expand_of_plain (h : Plain value) : expand before pattern after value = value := by
  fun_induction expand before pattern after value with
  | case1 => exact absurd h (not_plain_pair (by decide))
  | case2 => exact absurd h (not_plain_pair (by decide))
  | case3 => exact absurd h (not_plain_pair (by decide))
  | case4 => exact absurd h (not_plain_pair (by decide))
  | case5 c cs _ _ _ _ ih => rw [ih h.tail]
  | case6 => rfl

/-- What is put in for a pair does not give back the pair, unless what follows grew
by characters such as those of a pair. -/
theorem splice_ne {put grown cs more : List Char} (hput : Begins put) (hc : c ∈ meanings)
    (hall : ∀ d ∈ more, d ∈ meanings)
    (hgrown : ∀ {more : List Char}, more ≠ [] → (∀ d ∈ more, d ∈ meanings) → grown ≠ more ++ cs) :
    put ++ grown ≠ more ++ '$' :: c :: cs := by
  have hdollar : '$' ∈ meanings := by decide
  intro heq
  cases put with
  | nil =>
    have hpair : ∀ d ∈ ['$', c], d ∈ meanings :=
      List.forall_mem_cons.2 ⟨hdollar, List.forall_mem_singleton.2 hc⟩
    refine hgrown (List.append_ne_nil_of_right_ne_nil more (List.cons_ne_nil '$' [c]))
      (List.forall_mem_append.2 ⟨hall, hpair⟩) ?_
    rw [List.append_assoc]
    exact heq
  | cons d put =>
    refine hput d rfl ?_
    cases more with
    | nil => rwa [(List.cons.inj heq).1]
    | cons first more => exact (List.cons.inj heq).1 ▸ hall first List.mem_cons_self

/-- A text that is put in does not grow by characters such as those of a pair at its
beginning. -/
theorem expand_ne (hbefore : Begins before) (hpattern : Begins pattern) (hafter : Begins after)
    {more : List Char} (hmore : more ≠ []) (hall : ∀ d ∈ more, d ∈ meanings) :
    expand before pattern after value ≠ more ++ value := by
  fun_induction expand before pattern after value generalizing more with
  | case1 cs ih =>
    intro heq
    obtain ⟨first, more, rfl⟩ := List.exists_cons_of_ne_nil hmore
    obtain ⟨-, htail⟩ := List.cons.inj heq
    have hdollar : '$' ∈ meanings := by decide
    have hpair : ∀ d ∈ ['$', '$'], d ∈ meanings :=
      List.forall_mem_cons.2 ⟨hdollar, List.forall_mem_singleton.2 hdollar⟩
    refine ih (List.append_ne_nil_of_right_ne_nil more (List.cons_ne_nil '$' ['$']))
      (List.forall_mem_append.2 ⟨(List.forall_mem_cons.1 hall).2, hpair⟩) ?_
    rw [List.append_assoc]
    exact htail
  | case2 cs ih => exact splice_ne hpattern (by decide) hall ih
  | case3 cs ih => exact splice_ne hbefore (by decide) hall ih
  | case4 cs ih => exact splice_ne hafter (by decide) hall ih
  | case5 c cs _ _ _ _ ih =>
    intro heq
    obtain ⟨first, more, rfl⟩ := List.exists_cons_of_ne_nil hmore
    obtain ⟨rfl, htail⟩ := List.cons.inj heq
    obtain ⟨hc, hall⟩ := List.forall_mem_cons.1 hall
    refine ih (List.append_ne_nil_of_right_ne_nil more (List.cons_ne_nil c []))
      (List.forall_mem_append.2 ⟨hall, List.forall_mem_singleton.2 hc⟩) ?_
    rw [List.append_assoc]
    exact htail
  | case6 => exact (List.append_ne_nil_of_left_ne_nil hmore []).symm

/-- **A text is put in as it is just if it has no meanings**, where nothing that it may be
replaced by begins like the rest of a pair. -/
theorem expand_eq_self_iff (hbefore : Begins before) (hpattern : Begins pattern)
    (hafter : Begins after) : expand before pattern after value = value ↔ Plain value := by
  refine ⟨fun h => ?_, expand_of_plain⟩
  have hgrown (cs : List Char) {more : List Char} (hmore : more ≠ [])
      (hall : ∀ d ∈ more, d ∈ meanings) : expand before pattern after cs ≠ more ++ cs :=
    expand_ne hbefore hpattern hafter hmore hall
  have hnone : ∀ d ∈ ([] : List Char), d ∈ meanings := List.forall_mem_nil _
  fun_induction expand before pattern after value with
  | case1 cs _ =>
    have hone : ∀ d ∈ ['$'], d ∈ meanings := List.forall_mem_singleton.2 (by decide)
    exact absurd (List.cons.inj h).2 (hgrown cs (List.cons_ne_nil '$' []) hone)
  | case2 cs _ => exact absurd h (splice_ne hpattern (by decide) hnone (hgrown cs))
  | case3 cs _ => exact absurd h (splice_ne hbefore (by decide) hnone (hgrown cs))
  | case4 cs _ => exact absurd h (splice_ne hafter (by decide) hnone (hgrown cs))
  | case5 c cs hdollar hand hgrave hquote ih =>
    refine (ih (List.cons.inj h).2).cons ?_
    rintro d hd rfl hhead
    obtain ⟨more, rfl⟩ := List.head?_eq_some_iff.1 hhead
    -- the pairs are the cases before this one
    simp only [meanings, List.mem_cons, List.not_mem_nil, or_false] at hd
    rcases hd with rfl | rfl | rfl | rfl
    · exact hdollar more rfl rfl
    · exact hand more rfl rfl
    · exact hgrave more rfl rfl
    · exact hquote more rfl rfl
  | case6 => exact fun d _ hinside => nomatch List.eq_nil_of_infix_nil hinside

/-! ## Placeholders -/

/-- A key without braces, as all placeholders have them. -/
def IsKey (key : String) : Prop := '\x7b' ∉ key.toList ∧ '\x7d' ∉ key.toList

instance (key : String) : Decidable (IsKey key) :=
  inferInstanceAs (Decidable ('\x7b' ∉ key.toList ∧ '\x7d' ∉ key.toList))

variable {key other : String} {cs ds text : List Char}

theorem placeholder_append (key : String) (cs : List Char) :
    placeholder key ++ cs = '\x7b' :: (key.toList ++ '\x7d' :: cs) := by
  rw [placeholder, List.cons_append, List.append_assoc, List.singleton_append]

/-- Behind its first character a placeholder has no opening brace. -/
theorem not_mem_placeholder_tail (hkey : IsKey key) : '\x7b' ∉ key.toList ++ ['\x7d'] := by
  intro hmem
  rcases List.mem_append.1 hmem with hmem | hmem
  · exact hkey.1 hmem
  · exact absurd (List.mem_singleton.1 hmem) (by decide)

/-- The part of a text before a character that is not in it is one. -/
theorem eq_of_append_cons {xs ys zs ws : List Char} (hx : c ∉ xs) (hy : c ∉ ys)
    (h : xs ++ c :: zs = ys ++ c :: ws) : xs = ys := by
  induction xs generalizing ys with
  | nil =>
    cases ys with
    | nil => rfl
    | cons y ys =>
      obtain ⟨rfl, -⟩ := List.cons.inj h
      exact absurd List.mem_cons_self hy
  | cons x xs ih =>
    cases ys with
    | nil =>
      obtain ⟨rfl, -⟩ := List.cons.inj h
      exact absurd List.mem_cons_self hx
    | cons y ys =>
      obtain ⟨rfl, htail⟩ := List.cons.inj h
      rw [ih (fun hmem => hx (List.mem_cons_of_mem _ hmem))
        (fun hmem => hy (List.mem_cons_of_mem _ hmem)) htail]

/-- A placeholder at the beginning of a text tells its key. -/
theorem eq_of_placeholder_begins (hkey : IsKey key) (hother : IsKey other)
    (h : placeholder key <+: placeholder other ++ cs) : key = other := by
  obtain ⟨rest, hrest⟩ := h
  rw [placeholder_append, placeholder_append] at hrest
  exact String.toList_inj.1 (eq_of_append_cons hkey.2 hother.2 (List.cons.inj hrest).2)

/-- Characters that are no opening brace are not part of a placeholder behind them. -/
theorem placeholder_infix_append (h : '\x7b' ∉ cs) (hinside : placeholder key <:+: cs ++ ds) :
    placeholder key <:+: ds := by
  induction cs with
  | nil => exact hinside
  | cons c cs ih =>
    obtain ⟨hc, hcs⟩ := not_or.1 (fun hmem => h (List.mem_cons.2 hmem))
    rcases List.infix_cons_iff.1 hinside with hbegins | hinside
    · exact absurd (List.cons_prefix_cons.1 hbegins).1 hc
    · exact ih hcs hinside

/-- A text without opening braces holds no placeholder. -/
theorem not_placeholder_infix_of_not_mem (h : '\x7b' ∉ cs) : ¬ placeholder key <:+: cs :=
  fun hinside => h (hinside.subset List.mem_cons_self)

/-- A placeholder does not stand in another one. -/
theorem not_placeholder_infix (hkey : IsKey key) (hother : IsKey other) (hne : key ≠ other) :
    ¬ placeholder key <:+: placeholder other := by
  intro hinside
  rcases List.infix_cons_iff.1 hinside with hbegins | hinside
  · rw [← placeholder, ← List.append_nil (placeholder other)] at hbegins
    exact hne (eq_of_placeholder_begins hkey hother hbegins)
  · exact not_placeholder_infix_of_not_mem (not_mem_placeholder_tail hother) hinside

/-- A text that goes on with a character which is not in a pattern holds the pattern
before it or behind it. -/
theorem infix_append_cons (hc : c ∉ pattern) (h : pattern <:+: cs ++ c :: ds) :
    pattern <:+: cs ∨ pattern <:+: ds := by
  -- a pattern at the beginning ends before the character
  have hbegin (cs : List Char) (h : pattern <+: cs ++ c :: ds) : pattern <+: cs := by
    rcases List.prefix_or_prefix_of_prefix h (List.prefix_append cs (c :: ds)) with h' | ⟨rest, rfl⟩
    · exact h'
    · rcases List.prefix_cons_iff.1 ((List.prefix_append_right_inj cs).1 h) with
        rfl | ⟨more, rfl, -⟩
      · rw [List.append_nil]
      · exact absurd (List.mem_append_right cs List.mem_cons_self) hc
  induction cs with
  | nil =>
    rcases List.infix_cons_iff.1 h with hbegins | hinside
    · exact .inl (hbegin [] hbegins).isInfix
    · exact .inr hinside
  | cons d cs ih =>
    rcases List.infix_cons_iff.1 h with hbegins | hinside
    · exact .inl (hbegin (d :: cs) hbegins).isInfix
    · exact (ih hinside).imp_left fun hcs => List.infix_cons_iff.2 (.inr hcs)

/-- **The first occurrence of a placeholder** is the one behind a text that holds none. -/
theorem split?_placeholder (hkey : IsKey key) (h : ¬ placeholder key <:+: before) :
    split? (placeholder key) (before ++ (placeholder key ++ after)) = some (before, after) := by
  induction before with
  | nil =>
    have hbegins : (placeholder key).isPrefixOf (placeholder key ++ after) = true :=
      List.isPrefixOf_iff_prefix.2 (List.prefix_append _ _)
    have hrest : (placeholder key ++ after).drop (placeholder key).length = after :=
      List.drop_left
    rw [List.nil_append]
    rw [placeholder_append] at hbegins hrest ⊢
    rw [split?, if_pos hbegins, hrest]
  | cons c before ih =>
    have hlater : ¬ placeholder key <:+: before :=
      fun hinside => h (List.infix_cons_iff.2 (.inr hinside))
    have hbegins : ¬ (placeholder key).isPrefixOf
        (c :: (before ++ (placeholder key ++ after))) = true := by
      rw [List.isPrefixOf_iff_prefix]
      intro hbegins
      rcases List.prefix_or_prefix_of_prefix hbegins
        (List.prefix_append (c :: before) (placeholder key ++ after)) with hbegin | ⟨rest, hrest⟩
      · exact h hbegin.isInfix
      -- it would go on with the brace at the beginning of the other
      have hlonger : c :: before ++ rest <+: c :: before ++ (placeholder key ++ after) := by
        rw [hrest]
        exact hbegins
      have hbrace := (List.prefix_append_right_inj (c :: before)).1 hlonger
      rw [placeholder_append] at hbrace
      rcases List.prefix_cons_iff.1 hbrace with rfl | ⟨more, rfl, -⟩
      · rw [List.append_nil] at hrest
        exact h (hrest ▸ List.infix_rfl)
      · have hmem : '\x7b' ∈ before ++ '\x7b' :: more :=
          List.mem_append_right before List.mem_cons_self
        have htail : before ++ '\x7b' :: more = key.toList ++ ['\x7d'] := (List.cons.inj hrest).2
        rw [htail] at hmem
        exact not_mem_placeholder_tail hkey hmem
    rw [List.cons_append, split?, if_neg hbegins, ih hlater]
    rfl

/-- The first placeholder that a text holds has none before it. -/
theorem exists_first_placeholder (h : placeholder key <:+: text) :
    ∃ before after, text = before ++ (placeholder key ++ after) ∧
      ¬ placeholder key <:+: before := by
  induction text with
  | nil => cases List.eq_nil_of_infix_nil h
  | cons c text ih =>
    by_cases hbegins : placeholder key <+: c :: text
    · obtain ⟨after, hafter⟩ := hbegins
      exact ⟨[], after, hafter.symm, fun hnil => nomatch List.eq_nil_of_infix_nil hnil⟩
    · obtain ⟨before, after, rfl, hbefore⟩ := ih ((List.infix_cons_iff.1 h).resolve_left hbegins)
      refine ⟨c :: before, after, rfl, fun hinside => ?_⟩
      rcases List.infix_cons_iff.1 hinside with hbegin | hinside
      · exact hbegins (hbegin.trans (List.prefix_append (c :: before) _))
      · exact hbefore hinside

/-- **A parameter is filled in for the first placeholder.** -/
theorem fillOne_of_absent (hkey : IsKey key) (h : ¬ placeholder key <:+: before)
    (value : String) :
    fillOne (before ++ (placeholder key ++ after)) key value =
      before ++ expand before (placeholder key) after value.toList ++ after := by
  rw [fillOne, split?_placeholder hkey h]

/-- If a text before a placeholder holds another, that one is filled in. -/
theorem exists_fillOne_of_present (hkey : IsKey key) (h : placeholder key <:+: before)
    (value : String) :
    ∃ other, fillOne (before ++ (placeholder key ++ after)) key value =
      other ++ (placeholder key ++ after) := by
  obtain ⟨first, rest, rfl, hfirst⟩ := exists_first_placeholder h
  refine ⟨first ++ expand first (placeholder key) (rest ++ (placeholder key ++ after))
    value.toList ++ rest, ?_⟩
  rw [List.append_assoc, List.append_assoc, fillOne_of_absent hkey hfirst, List.append_assoc,
    List.append_assoc, List.append_assoc]

/-- A parameter without meanings is filled in, or the placeholder that it is for stays. -/
theorem fillOne_cases (hkey : IsKey key) {written : String} (hplain : Plain written.toList)
    (before after : List Char) :
    (¬ placeholder key <:+: before ∧
      fillOne (before ++ (placeholder key ++ after)) key written =
        before ++ (written.toList ++ after)) ∨
    ∃ other, fillOne (before ++ (placeholder key ++ after)) key written =
      other ++ (placeholder key ++ after) := by
  by_cases h : placeholder key <:+: before
  · exact .inr (exists_fillOne_of_present hkey h written)
  · refine .inl ⟨h, ?_⟩
    rw [fillOne_of_absent hkey h, expand_of_plain hplain, List.append_assoc]

/-- A text with a placeholder at its end does not end with what has no closing brace. -/
theorem append_placeholder_ne (hne : ds ≠ []) (h : '\x7d' ∉ ds) (cs text : List Char) :
    cs ++ placeholder key ≠ text ++ ds := by
  intro heq
  have hbrace : (cs ++ placeholder key).getLast? = some '\x7d' := by
    have hplaceholder : placeholder key = ('\x7b' :: key.toList) ++ ['\x7d'] := rfl
    rw [hplaceholder, ← List.append_assoc, List.getLast?_concat]
  rw [heq, List.getLast?_append_of_ne_nil text hne] at hbrace
  exact h (List.mem_of_getLast? hbrace)

/-! ## Texts without dollar signs and braces -/

/-- The text has neither dollar signs nor braces. -/
def Inert (cs : List Char) : Prop := ∀ c ∈ cs, c ≠ '$' ∧ c ≠ '\x7b' ∧ c ≠ '\x7d'

instance (cs : List Char) : Decidable (Inert cs) :=
  List.decidableBAll (fun c => c ≠ '$' ∧ c ≠ '\x7b' ∧ c ≠ '\x7d') cs

namespace Inert

theorem append (hcs : Inert cs) (hds : Inert ds) : Inert (cs ++ ds) :=
  List.forall_mem_append.2 ⟨hcs, hds⟩

theorem cons {c : Char} (hc : c ≠ '$' ∧ c ≠ '\x7b' ∧ c ≠ '\x7d') (hcs : Inert cs) :
    Inert (c :: cs) := List.forall_mem_cons.2 ⟨hc, hcs⟩

/-- Digits are neither dollar signs nor braces. -/
theorem of_digits (h : ∀ c ∈ cs, c.isDigit = true) : Inert cs := by
  intro c hc
  have hdigit := h c hc
  refine ⟨?_, ?_, ?_⟩
  all_goals
    rintro rfl
    cases hdigit

theorem toDigits (n : Nat) : Inert (Nat.toDigits 10 n) :=
  of_digits fun _ hc => Nat.isDigit_of_mem_toDigits (by omega) (by omega) hc

theorem plain (h : Inert cs) : Plain cs :=
  fun _ _ hinside => (h '$' (hinside.subset List.mem_cons_self)).1 rfl

theorem absent (h : Inert cs) (key : String) : ¬ placeholder key <:+: cs :=
  fun hinside => (h _ (hinside.subset List.mem_cons_self)).2.1 rfl

theorem not_mem (h : Inert cs) : '\x7d' ∉ cs := fun hmem => (h _ hmem).2.2 rfl

end Inert

/-- What stands behind the placeholder of a parameter without meanings stays there. -/
theorem exists_fillOne_append (hkey : IsKey key) {written : String}
    (hplain : Plain written.toList) (before after : List Char) :
    ∃ text, fillOne (before ++ (placeholder key ++ after)) key written = text ++ after := by
  rcases fillOne_cases hkey hplain before after with ⟨-, hfilled⟩ | ⟨other, hkept⟩
  · exact ⟨before ++ written.toList, by rw [hfilled, List.append_assoc]⟩
  · exact ⟨other ++ placeholder key, by rw [hkept, List.append_assoc]⟩

/-- **An inert text was filled in where it stands**, and no placeholder before it: one that
stays where it was is still there in the end, and its brace with it. -/
theorem eq_of_fillOne {written : String} {before after cs literal : List Char}
    (hkey : IsKey key) (hwritten : Inert written.toList)
    (hliteral : literal ≠ [] ∧ '\x7d' ∉ literal)
    (h : fillOne (before ++ (placeholder key ++ after)) key written =
      cs ++ literal ++ written.toList ++ after) :
    ¬ placeholder key <:+: before ∧ before = cs ++ literal := by
  rcases fillOne_cases hkey hwritten.plain before after with ⟨hnone, hfilled⟩ | ⟨other, hkept⟩
  · rw [hfilled, ← List.append_assoc] at h
    exact ⟨hnone, List.append_cancel_right (List.append_cancel_right h)⟩
  · have hend : '\x7d' ∉ literal ++ written.toList := by
      rw [List.mem_append, not_or]
      exact ⟨hliteral.2, hwritten.not_mem⟩
    rw [hkept, ← List.append_assoc, List.append_assoc cs] at h
    exact absurd (List.append_cancel_right h)
      (append_placeholder_ne (List.append_ne_nil_of_left_ne_nil hliteral.1 _) hend _ _)

/-- **In a template with three placeholders**, of which the last two get inert texts, the
first text is put in as it is and no placeholder is filled in elsewhere, if the result is
the template with the three texts in it. -/
theorem quoted_of_fill {first literal literal' : List Char} {key' key'' : String}
    {form expected actual : String} (hkey : IsKey key) (hkey' : IsKey key') (hkey'' : IsKey key'')
    (hfirst : ¬ placeholder key <:+: first) (hliteral : literal ≠ [] ∧ '\x7d' ∉ literal)
    (hliteral' : literal' ≠ [] ∧ '\x7d' ∉ literal') (hexpected : Inert expected.toList)
    (hactual : Inert actual.toList)
    (h : [(key, form), (key', expected), (key'', actual)].foldl
        (fun text p => fillOne text p.1 p.2)
        (first ++ (placeholder key ++ (literal ++ (placeholder key' ++ (literal' ++
          (placeholder key'' ++ [])))))) =
      first ++ (form.toList ++ (literal ++ (expected.toList ++ (literal' ++ actual.toList))))) :
    expand first (placeholder key)
        (literal ++ (placeholder key' ++ (literal' ++ (placeholder key'' ++ [])))) form.toList =
        form.toList ∧
      ¬ placeholder key' <:+: form.toList ∧ ¬ placeholder key'' <:+: form.toList := by
  simp only [List.foldl_cons, List.foldl_nil] at h
  rw [fillOne_of_absent hkey hfirst] at h
  generalize expand first (placeholder key)
    (literal ++ (placeholder key' ++ (literal' ++ (placeholder key'' ++ []))))
      form.toList = put at h ⊢
  rw [← List.append_assoc (first ++ put)] at h
  -- the placeholders are gone from the last one to the first
  obtain ⟨text, htext⟩ := exists_fillOne_append hkey' hexpected.plain (first ++ put ++ literal)
    (literal' ++ (placeholder key'' ++ []))
  rw [htext, ← List.append_assoc text] at h
  have hfilled : fillOne (text ++ literal' ++ (placeholder key'' ++ [])) key'' actual =
      first ++ form.toList ++ literal ++ expected.toList ++ literal' ++ actual.toList ++ [] := by
    rw [h]
    simp only [List.append_assoc, List.append_nil]
  obtain ⟨hnone', hlast⟩ := eq_of_fillOne hkey'' hactual hliteral' hfilled
  rw [List.append_cancel_right hlast] at htext hnone'
  obtain ⟨hnone, hmiddle⟩ := eq_of_fillOne hkey' hexpected hliteral htext
  have hput : put = form.toList :=
    List.append_cancel_left (List.append_cancel_right hmiddle)
  have hinside : form.toList <:+: first ++ form.toList ++ literal := ⟨first, literal, rfl⟩
  have hbefore : first ++ form.toList ++ literal <:+:
      first ++ form.toList ++ literal ++ expected.toList ++ literal' :=
    ⟨[], expected.toList ++ literal', by simp only [List.nil_append, List.append_assoc]⟩
  rw [hput] at hnone
  exact ⟨hput, fun h => hnone (h.trans hinside), fun h => hnone' ((h.trans hinside).trans hbefore)⟩

/-! ## Templates taken apart -/

/-- A template taken apart: what stands before its placeholders, and the key of each of
them with what stands behind it. -/
structure Parts where
  first : List Char
  holes : List (String × List Char)

/-- The text of parts, given what stands in place of each placeholder. -/
def Parts.withValues (parts : Parts) (value : String → List Char) : List Char :=
  parts.first ++ parts.holes.flatMap fun hole => value hole.1 ++ hole.2

/-- The keys of the placeholders. -/
def Parts.keys (parts : Parts) : List String := parts.holes.map Prod.fst

/-- The text behind a placeholder keeps it apart from one that follows: it begins with a
character that is not in that one. -/
def Separates (later : String) (literal : List Char) : Prop :=
  literal ≠ [] ∧ ∀ c ∈ literal.head?, c ∉ placeholder later

instance (later : String) (literal : List Char) : Decidable (Separates later literal) :=
  @instDecidableAnd _ _ inferInstance literal.head?.decidableForallMem

/-- The braces of a template are those of its placeholders, which are different and kept
apart. -/
structure Parts.WellFormed (parts : Parts) : Prop where
  first : '\x7b' ∉ parts.first
  hole : ∀ hole ∈ parts.holes, IsKey hole.1 ∧ '\x7b' ∉ hole.2
  apart : parts.holes.Pairwise fun hole later => hole.1 ≠ later.1 ∧ Separates later.1 hole.2

namespace Parts

variable {parts : Parts} {params : List (String × String)}

theorem WellFormed.isKey (h : parts.WellFormed) (hkey : key ∈ parts.keys) : IsKey key := by
  obtain ⟨hole, hhole, rfl⟩ := List.mem_map.1 hkey
  exact (h.hole hole hhole).1

/-! ### One parameter -/

/-- Before a hole there is no placeholder of its key, if none of the texts that are filled in
there holds it. -/
theorem not_infix_flatMap {holes : List (String × List Char)} {values : String → List Char}
    (hholes : ∀ hole ∈ holes, '\x7b' ∉ hole.2 ∧ Separates key hole.2 ∧
      ¬ placeholder key <:+: values hole.1) :
    ¬ placeholder key <:+: holes.flatMap fun hole => values hole.1 ++ hole.2 := by
  induction holes with
  | nil => exact fun hnil => nomatch List.eq_nil_of_infix_nil hnil
  | cons hole holes ih =>
    obtain ⟨⟨hbrace, ⟨hne, hhead⟩, hvalue⟩, hmore⟩ := List.forall_mem_cons.1 hholes
    obtain ⟨name, literal⟩ := hole
    obtain ⟨c, literal, rfl⟩ := List.exists_cons_of_ne_nil hne
    rw [List.flatMap_cons, List.append_assoc, List.cons_append]
    intro hinside
    rcases infix_append_cons (hhead c rfl) hinside with hinside | hinside
    · exact hvalue hinside
    · exact ih hmore (placeholder_infix_append (List.not_mem_of_not_mem_cons hbrace) hinside)

/-- What stands in place of the other placeholders stays. -/
theorem flatMap_update {holes : List (String × List Char)} {values : String → List Char}
    (h : ∀ hole ∈ holes, hole.1 ≠ key) :
    (holes.flatMap fun hole => Function.update values key value hole.1 ++ hole.2) =
      holes.flatMap fun hole => values hole.1 ++ hole.2 :=
  List.flatMap_congr fun hole hhole => by rw [Function.update_of_ne (h hole hhole)]

/-- **A parameter is filled in where its placeholder stands in the template**, if no text
that was filled in before holds the placeholder. -/
theorem fillOne_withValues (h : parts.WellFormed) {values : String → List Char}
    (hkey : key ∈ parts.keys) (hunfilled : values key = placeholder key)
    (hfree : ∀ other ∈ parts.keys, other ≠ key → ¬ placeholder key <:+: values other)
    {written : String} (hplain : Plain written.toList) :
    fillOne (parts.withValues values) key written =
      parts.withValues (Function.update values key written.toList) := by
  obtain ⟨⟨name, literal⟩, hmem, hname⟩ := List.mem_map.1 hkey
  obtain rfl : name = key := hname
  obtain ⟨holes, more, hholes⟩ := List.append_of_mem hmem
  have hhole := h.hole
  have hapart := h.apart
  rw [hholes] at hhole hapart
  obtain ⟨-, hbehind, hbefore⟩ := List.pairwise_append.1 hapart
  obtain ⟨hnext, -⟩ := List.pairwise_cons.1 hbehind
  -- no other hole has the key
  have hearlier : ∀ hole ∈ holes, hole.1 ≠ name := fun hole hhole =>
    (hbefore hole hhole _ List.mem_cons_self).1
  have hlater : ∀ hole ∈ more, hole.1 ≠ name := fun hole hhole => (hnext hole hhole).1.symm
  have hnone : ¬ placeholder name <:+:
      parts.first ++ holes.flatMap fun hole => values hole.1 ++ hole.2 := by
    intro hinside
    refine not_infix_flatMap (fun hole hmem => ⟨?_, ?_, ?_⟩) (placeholder_infix_append h.first hinside)
    · exact (hhole hole (List.mem_append_left _ hmem)).2
    · exact (hbefore hole hmem _ List.mem_cons_self).2
    · refine hfree hole.1 (List.mem_map_of_mem ?_) (hearlier hole hmem)
      rw [hholes]
      exact List.mem_append_left _ hmem
  rw [withValues, withValues, hholes, List.flatMap_append, List.flatMap_append, List.flatMap_cons,
    List.flatMap_cons, hunfilled, Function.update_self, flatMap_update hearlier,
    flatMap_update hlater, ← List.append_assoc, List.append_assoc (placeholder name),
    fillOne_of_absent (h.isKey hkey) hnone, expand_of_plain hplain]
  simp only [List.append_assoc]

/-! ### All parameters -/

/-- What stands in place of each placeholder once the parameters are filled in. -/
def filled (params : List (String × String)) (values : String → List Char) (key : String) :
    List Char :=
  match params.find? fun p => p.1 == key with
  | some p => p.2.toList
  | none => values key

/-- **All parameters are filled in**, one after another. -/
theorem foldl_fillOne (h : parts.WellFormed) {values : String → List Char}
    (hnodup : (params.map Prod.fst).Nodup) (hkeys : ∀ p ∈ params, p.1 ∈ parts.keys)
    (hunfilled : ∀ p ∈ params, values p.1 = placeholder p.1)
    (hfree : ∀ p ∈ params, ∀ other ∈ parts.keys, other ≠ p.1 →
      ¬ placeholder p.1 <:+: values other)
    (hplain : ∀ p ∈ params, Plain p.2.toList)
    (hlater : params.Pairwise fun p later => ¬ placeholder later.1 <:+: p.2.toList) :
    params.foldl (fun text p => fillOne text p.1 p.2) (parts.withValues values) =
      parts.withValues (filled params values) := by
  induction params generalizing values with
  | nil => rfl
  | cons p params ih =>
    obtain ⟨hkey, hkeys⟩ := List.forall_mem_cons.1 hkeys
    obtain ⟨hself, hunfilled⟩ := List.forall_mem_cons.1 hunfilled
    obtain ⟨hfirst, hfree⟩ := List.forall_mem_cons.1 hfree
    obtain ⟨hwritten, hplain⟩ := List.forall_mem_cons.1 hplain
    obtain ⟨hheld, hlater⟩ := List.pairwise_cons.1 hlater
    obtain ⟨hnot, hnodup⟩ := List.nodup_cons.1 hnodup
    have hne : ∀ q ∈ params, q.1 ≠ p.1 := fun q hq heq => hnot (heq ▸ List.mem_map_of_mem hq)
    have hvalues : filled params (Function.update values p.1 p.2.toList) =
        filled (p :: params) values := by
      funext key
      rw [filled, filled, List.find?_cons]
      by_cases hpkey : p.1 = key
      · have hnone : params.find? (fun q => q.1 == key) = none :=
          List.find?_eq_none.2 fun q hq heq => hne q hq ((beq_iff_eq.1 heq).trans hpkey.symm)
        rw [hnone, hpkey, beq_self_eq_true]
        exact Function.update_self key p.2.toList values
      · rw [beq_eq_false_iff_ne.2 hpkey, Function.update_of_ne (Ne.symm hpkey)]
    rw [List.foldl_cons, fillOne_withValues h hkey hself hfirst hwritten, ← hvalues]
    refine ih hnodup hkeys (fun q hq => ?_) (fun q hq other hother hdifferent => ?_) hplain hlater
    · rw [Function.update_of_ne (hne q hq)]
      exact hunfilled q hq
    · by_cases hother' : other = p.1
      · rw [hother', Function.update_self]
        exact hheld q hq
      · rw [Function.update_of_ne hother']
        exact hfree q hq other hother hdifferent

/-! ### At once -/

/-- A text without opening braces is gone through as it is. -/
theorem atOnceFrom_append (h : '\x7b' ∉ cs) (ds : List Char) :
    atOnceFrom params 0 (cs ++ ds) = cs ++ atOnceFrom params 0 ds := by
  induction cs with
  | nil => rfl
  | cons c cs ih =>
    obtain ⟨hc, hcs⟩ := not_or.1 (fun hmem => h (List.mem_cons.2 hmem))
    have hnone : params.find? (fun p => (placeholder p.1).isPrefixOf (c :: (cs ++ ds))) = none := by
      refine List.find?_eq_none.2 fun p _ hbegins => ?_
      exact hc (List.cons_prefix_cons.1 (List.isPrefixOf_iff_prefix.1 hbegins)).1
    rw [List.cons_append, atOnceFrom, hnone, List.cons_append, ← ih hcs]

/-- What is left of a placeholder is passed over. -/
theorem atOnceFrom_length (cs ds : List Char) :
    atOnceFrom params cs.length (cs ++ ds) = atOnceFrom params 0 ds := by
  induction cs with
  | nil => rfl
  | cons c cs ih => exact ih

/-- In place of a placeholder stands the text of its parameter. -/
theorem atOnceFrom_placeholder (hparams : ∀ p ∈ params, IsKey p.1) (hkey : IsKey key)
    (ds : List Char) :
    atOnceFrom params 0 (placeholder key ++ ds) =
      filled params placeholder key ++ atOnceFrom params 0 ds := by
  have hfind : (params.find? fun p => (placeholder p.1).isPrefixOf (placeholder key ++ ds)) =
      params.find? fun p => p.1 == key := by
    refine List.find?_congr fun p hp => Bool.eq_iff_iff.2 ?_
    rw [List.isPrefixOf_iff_prefix, beq_iff_eq]
    constructor
    · exact eq_of_placeholder_begins (hparams p hp) hkey
    · rintro rfl
      exact List.prefix_append _ _
  have hrest : key.toList ++ '\x7d' :: ds = (key.toList ++ ['\x7d']) ++ ds := by
    rw [List.append_assoc, List.singleton_append]
  rw [placeholder_append] at hfind ⊢
  rw [atOnceFrom, hfind, filled]
  cases hfound : params.find? fun p => p.1 == key with
  | none =>
    simp only [hrest]
    rw [atOnceFrom_append (not_mem_placeholder_tail hkey)]
    rfl
  | some p =>
    have hname : p.1 = key := beq_iff_eq.1 (List.find?_eq_some_iff_append.1 hfound).1
    have hlength : p.1.toList.length + 1 = (key.toList ++ ['\x7d']).length := by
      rw [hname, List.length_append, List.length_singleton]
    simp only [hrest]
    rw [hlength, atOnceFrom_length]

/-- **All at once the parameters stand in place of their placeholders.** -/
theorem atOnceFrom_withValues (h : parts.WellFormed) (hparams : ∀ p ∈ params, IsKey p.1) :
    atOnceFrom params 0 (parts.withValues placeholder) =
      parts.withValues (filled params placeholder) := by
  have hholes (holes : List (String × List Char))
      (hhole : ∀ hole ∈ holes, IsKey hole.1 ∧ '\x7b' ∉ hole.2) :
      atOnceFrom params 0 (holes.flatMap fun hole => placeholder hole.1 ++ hole.2) =
        holes.flatMap fun hole => filled params placeholder hole.1 ++ hole.2 := by
    induction holes with
    | nil => rfl
    | cons hole holes ih =>
      obtain ⟨⟨hkey, hbrace⟩, hmore⟩ := List.forall_mem_cons.1 hhole
      rw [List.flatMap_cons, List.flatMap_cons, List.append_assoc, List.append_assoc,
        atOnceFrom_placeholder hparams hkey, atOnceFrom_append hbrace, ih hmore]
  rw [withValues, withValues, atOnceFrom_append h.first, hholes parts.holes h.hole]

end Parts

end Template

end SatScript
