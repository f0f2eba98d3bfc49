import SatScript.Proofs.Term.Names
/-!
# SatScript — sorts by rules

Expressions and terms have sorts by the same rules (`BaseSort.proper?`), an
expression under the sorts of its variables, a term by itself. The lowering
of an operator checks its arguments itself; `apply_makes` says of every
operator and every number of arguments how these checks relate to the rules.
Two gaps are left, where the sorts of arguments are not looked at: `distinct`
takes any, and so does a comparison of a single argument, which has no
neighbours to be compared. `BaseSort.admitted?` is the rules with these gaps.
-/

namespace SatScript

namespace BaseSort

/-! ## Rules -/

/-- Whether the sorts are all the same. -/
def uniform : List BaseSort → Bool
  | [] => true
  | sort :: sorts => sorts.all (· == sort)

/-- A sort, under a condition. -/
def provided (condition : Bool) (sort : BaseSort) : Option BaseSort :=
  if condition then some sort else none

/-- The sort of a choice under a truth value, between two of one sort. -/
def choice? : List BaseSort → Option BaseSort
  | [.bool, yes, no] => provided (yes == no) yes
  | _ => none

/-- The sort of an operator applied to arguments of these sorts, by the
rules. -/
def proper? (operator : String) (sorts : List BaseSort) : Option BaseSort :=
  match operator with
  | "and" => provided (sorts.all (· == .bool)) .bool
  | "or" => provided (sorts.all (· == .bool)) .bool
  | "=>" => provided (sorts.all (· == .bool)) .bool
  | "not" => provided (sorts == [.bool]) .bool
  | "=" => provided (uniform sorts) .bool
  | "distinct" => provided (uniform sorts) .bool
  | "<" => provided (sorts.all (· == .real)) .bool
  | ">" => provided (sorts.all (· == .real)) .bool
  | "<=" => provided (sorts.all (· == .real)) .bool
  | ">=" => provided (sorts.all (· == .real)) .bool
  | "+" => provided (sorts.all (· == .real)) .real
  | "-" => provided (sorts.all (· == .real)) .real
  | "*" => provided (sorts.all (· == .real)) .real
  | "/" => provided (sorts.all (· == .real)) .real
  | "ite" => choice? sorts
  | _ => none

/-- Whether the lowering looks at no sort when this operator is applied to so
many arguments. -/
def unchecked (operator : String) (count : Nat) : Bool :=
  operator == "distinct" || ["<", ">", "<=", ">="].contains operator && count == 1

/-- The sort of an operator applied to arguments of these sorts, as far as the
lowering looks at them. -/
def admitted? (operator : String) (sorts : List BaseSort) : Option BaseSort :=
  if unchecked operator sorts.length then some .bool else proper? operator sorts

/-- What is provided is so under the condition. -/
theorem provided_eq_some_iff {condition : Bool} {sort other : BaseSort} :
    provided condition sort = some other ↔ condition = true ∧ sort = other := by
  cases condition <;> simp [provided]

/-- Sorts that are all the same are. -/
theorem eq_of_uniform {sorts : List BaseSort} (h : uniform sorts = true) {a b : BaseSort}
    (ha : a ∈ sorts) (hb : b ∈ sorts) : a = b := by
  cases sorts with
  | nil => exact absurd ha List.not_mem_nil
  | cons first rest =>
    have hfirst (sort : BaseSort) (hsort : sort ∈ first :: rest) : sort = first := by
      rcases List.mem_cons.1 hsort with rfl | hrest
      · rfl
      · exact beq_iff_eq.1 (List.all_eq_true.1 h sort hrest)
    rw [hfirst a ha, hfirst b hb]

/-- A choice has three arguments. -/
theorem exists_of_choice? {sorts : List BaseSort} {sort : BaseSort}
    (h : choice? sorts = some sort) : ∃ yes no, sorts = [.bool, yes, no] := by
  unfold choice? at h
  split at h
  · exact ⟨_, _, rfl⟩
  · cases h

/-- Whatever has a sort by the rules has it where fewer sorts are looked at. -/
theorem admitted?_of_proper? {operator : String} {sorts : List BaseSort} {sort : BaseSort}
    (h : proper? operator sorts = some sort) : admitted? operator sorts = some sort := by
  unfold admitted?
  split
  · rename_i hunchecked
    -- where no sort is looked at, the operator gives a truth value
    have hop : operator = "distinct" ∨ operator = "<" ∨ operator = ">" ∨ operator = "<=" ∨
        operator = ">=" := by
      simp only [unchecked, Bool.or_eq_true, beq_iff_eq, Bool.and_eq_true, List.contains_cons,
        List.contains_nil, Bool.or_false] at hunchecked
      tauto
    rcases hop with rfl | rfl | rfl | rfl | rfl <;> exact (provided_eq_some_iff.1 h).2 ▸ rfl
  · exact h

end BaseSort

namespace Expr

/-- The sort of a name: that of the truth value or the numeral that it is, or of
the variable. -/
def namedSort? (env : String → Option BaseSort) (name : String) : Option BaseSort :=
  if name = "true" ∨ name = "false" then some .bool
  else if Numeral.startsNumeral name then some .real
  else env name

/-- The sorts of variables inside a `let`; of several sorts for one name the
first in the list counts. -/
def bindSorts (env : String → Option BaseSort) (bound : List (String × BaseSort))
    (name : String) : Option BaseSort :=
  (bound.lookup name).or (env name)

section

variable (rule : String → List BaseSort → Option BaseSort)

mutual

/-- The sort of an expression under a rule for operators and sorts of the
variables. -/
def sort? (env : String → Option BaseSort) : Expr → Option BaseSort
  | .node name _ [] => namedSort? env name
  | .node name _ (arg :: args) =>
    if name = "let" then letSort? env [] (arg :: args)
    else do rule name (← sorts? env (arg :: args))

/-- The sorts of several expressions. -/
def sorts? (env : String → Option BaseSort) : List Expr → Option (List BaseSort)
  | [] => some []
  | e :: es => do return (← sort? env e) :: (← sorts? env es)

/-- The sort of the body behind bindings, each of which has its sort around the
`let`; the later of two bindings of one name comes to stand first. -/
def letSort? (env : String → Option BaseSort) (bound : List (String × BaseSort)) :
    List Expr → Option BaseSort
  | [] => none
  | [body] => sort? (bindSorts env bound) body
  | .node _ _ [] :: _ :: _ => none
  | .node name _ (value :: _) :: next :: rest => do
    letSort? env ((name, ← sort? env value) :: bound) (next :: rest)

end

end

mutual

/-- The lowering looks at the sorts of the arguments of every operator in the
expression. -/
def Checked : Expr → Prop
  | .node _ _ [] => True
  | .node name _ (arg :: args) =>
    if name = "let" then CheckedLet (arg :: args)
    else BaseSort.unchecked name (arg :: args).length = false ∧ CheckedAll (arg :: args)

/-- It does so in all expressions. -/
def CheckedAll : List Expr → Prop
  | [] => True
  | e :: es => Checked e ∧ CheckedAll es

/-- It does so in the values and the body of a `let`. -/
def CheckedLet : List Expr → Prop
  | [] => True
  | [body] => Checked body
  | .node _ _ values :: next :: rest => CheckedAll values ∧ CheckedLet (next :: rest)

end

end Expr

/-- The operator that a relation stands for. -/
def Relation.operator : Relation → String
  | .eq => "="
  | .lt => "<"
  | .gt => ">"
  | .le => "<="
  | .ge => ">="

/-- The operator that an operation stands for. -/
def Operation.operator : Operation → String
  | .add => "+"
  | .sub => "-"
  | .mul => "*"
  | .div => "/"

namespace Term

mutual

/-- The sort of a term, by the rules. -/
def sort? : Term → Option BaseSort
  | .constant sort _ => some sort
  | .truth _ => some .bool
  | .numeral _ => some .real
  | .conj parts => do BaseSort.proper? "and" (← sorts? parts)
  | .disj parts => do BaseSort.proper? "or" (← sorts? parts)
  | .not part => do BaseSort.proper? "not" [← sort? part]
  | .implies left right => do BaseSort.proper? "=>" [← sort? left, ← sort? right]
  | .distinct parts => do BaseSort.proper? "distinct" (← sorts? parts)
  | .ite condition yes no => do
    BaseSort.proper? "ite" [← sort? condition, ← sort? yes, ← sort? no]
  | .relate relation left right => do
    BaseSort.proper? relation.operator [← sort? left, ← sort? right]
  | .operate operation left right => do
    BaseSort.proper? operation.operator [← sort? left, ← sort? right]
  | .neg part => do BaseSort.proper? "-" [← sort? part]

/-- The sorts of several terms. -/
def sorts? : List Term → Option (List BaseSort)
  | [] => some []
  | t :: ts => do return (← sort? t) :: (← sorts? ts)

end

end Term

/-! ## Operators -/

/-- The computation gives this value if the test holds, and a fault if not. -/
structure Decides {α : Type} (computation : Except BackendFault α) (test : Bool) (value : α) :
    Prop where
  ok : test = true → computation = .ok value
  error : test = false → ∃ fault, computation = .error fault

namespace Decides

variable {α β : Type}

/-- A value that is given without a test. -/
theorem pure (value : α) : Decides (.ok value) true value :=
  ⟨fun _ => rfl, fun h => absurd h.symm Bool.false_ne_true⟩

/-- A fault without a test. -/
theorem fault (fault : BackendFault) (value : α) : Decides (.error fault) false value :=
  ⟨fun h => absurd h Bool.false_ne_true, fun _ => ⟨fault, rfl⟩⟩

/-- Two computations one after another make both tests. -/
theorem bind {first : Except BackendFault α} {next : α → Except BackendFault β}
    {test test' : Bool} {value : α} {value' : β} (hfirst : Decides first test value)
    (hnext : Decides (next value) test' value') :
    Decides (first >>= next) (test && test') value' := by
  cases htest : test with
  | true =>
    rw [hfirst.ok htest, Bool.true_and]
    exact hnext
  | false =>
    obtain ⟨fault, hfault⟩ := hfirst.error htest
    rw [hfault, Bool.false_and]
    exact .fault fault value'

/-- What is made of the value of a computation needs no further test. -/
theorem map {first : Except BackendFault α} {next : α → Except BackendFault β} {test : Bool}
    {value : α} {value' : β} (hfirst : Decides first test value) (hnext : next value = .ok value') :
    Decides (first >>= next) test value' := by
  have h := hfirst.bind (hnext ▸ .pure value' : Decides (next value) true value')
  rwa [Bool.and_true] at h

end Decides

namespace SortedTerm

theorem asBool_decides (operator : String) (t : SortedTerm) :
    Decides (t.asBool operator) (t.sort == .bool) t.term := by
  unfold asBool
  split
  · rename_i hsort
    exact ⟨fun _ => rfl, fun h => absurd hsort (beq_eq_false_iff_ne.1 h)⟩
  · rename_i hsort
    exact ⟨fun h => absurd (beq_iff_eq.1 h) hsort, fun _ => ⟨_, rfl⟩⟩

theorem asReal_decides (operator : String) (t : SortedTerm) :
    Decides (t.asReal operator) (t.sort == .real) t.term := by
  unfold asReal
  split
  · rename_i hsort
    exact ⟨fun _ => rfl, fun h => absurd hsort (beq_eq_false_iff_ne.1 h)⟩
  · rename_i hsort
    exact ⟨fun h => absurd (beq_iff_eq.1 h) hsort, fun _ => ⟨_, rfl⟩⟩

/-- Terms are taken for truth values just if all of them are. -/
theorem allBool_decides (operator : String) (ts : List SortedTerm) :
    Decides (allBool operator ts) ((ts.map sort).all (· == .bool)) (ts.map term) := by
  induction ts with
  | nil => exact .pure []
  | cons t ts ih => exact (asBool_decides operator t).bind (ih.map rfl)

/-- Terms are taken for reals just if all of them are. -/
theorem allReal_decides (operator : String) (ts : List SortedTerm) :
    Decides (allReal operator ts) ((ts.map sort).all (· == .real)) (ts.map term) := by
  induction ts with
  | nil => exact .pure []
  | cons t ts ih => exact (asReal_decides operator t).bind (ih.map rfl)

end SortedTerm

namespace Term

/-- The term has its sort by the rules. -/
def WellSorted (t : SortedTerm) : Prop := t.term.sort? = some t.sort

/-- Terms that have their sorts have them as a list. -/
theorem sorts?_map_term {ts : List SortedTerm} (h : ∀ t ∈ ts, WellSorted t) :
    sorts? (ts.map SortedTerm.term) = some (ts.map SortedTerm.sort) := by
  induction ts with
  | nil => rfl
  | cons t ts ih =>
    obtain ⟨ht, hts⟩ := List.forall_mem_cons.1 h
    rw [WellSorted] at ht
    simp [sorts?, ht, ih hts]

/-! ### Relations between neighbours -/

/-- The relations between every two neighbours. -/
def links (relation : Relation) : List SortedTerm → List Term
  | a :: b :: rest => .relate relation a.term b.term :: links relation (b :: rest)
  | _ => []

/-- Whether a test holds between every two neighbours. -/
def linked (test : BaseSort → BaseSort → Bool) : List BaseSort → Bool
  | a :: b :: rest => test a b && linked test (b :: rest)
  | _ => true

theorem equate_decides (a b : SortedTerm) :
    Decides (equate a b) (a.sort == b.sort) (.relate .eq a.term b.term) := by
  unfold equate
  split
  · rename_i hsort
    exact ⟨fun _ => rfl, fun h => absurd hsort (beq_eq_false_iff_ne.1 h)⟩
  · rename_i hsort
    exact ⟨fun h => absurd (beq_iff_eq.1 h) hsort, fun _ => ⟨_, rfl⟩⟩

theorem compare_decides (operator : String) (relation : Relation) (a b : SortedTerm) :
    Decides (compare operator relation a b) (a.sort == .real && b.sort == .real)
      (.relate relation a.term b.term) :=
  (SortedTerm.asReal_decides operator a).bind ((SortedTerm.asReal_decides operator b).map rfl)

/-- A relation is made between every two neighbours just if the test holds between
them. -/
theorem pairwise_decides {relate : SortedTerm → SortedTerm → Except BackendFault Term}
    {test : BaseSort → BaseSort → Bool} {relation : Relation}
    (hrelate : ∀ a b, Decides (relate a b) (test a.sort b.sort) (.relate relation a.term b.term))
    (ts : List SortedTerm) :
    Decides (pairwise relate ts) (linked test (ts.map SortedTerm.sort))
      ⟨.bool, together (links relation ts)⟩ := by
  have hneighbours : Decides (neighbours relate ts) (linked test (ts.map SortedTerm.sort))
      (links relation ts) := by
    fun_induction neighbours relate ts with
    | case1 a b rest ih => exact (hrelate a b).bind (ih.map rfl)
    | case2 ts hne =>
      rcases ts with _ | ⟨a, _ | ⟨b, rest⟩⟩
      · exact .pure []
      · exact .pure []
      · exact absurd rfl (hne a b rest)
  exact hneighbours.map rfl

/-- Neighbours have the same sort just if all do. -/
theorem linked_beq (sorts : List BaseSort) : linked (· == ·) sorts = BaseSort.uniform sorts := by
  induction sorts with
  | nil => rfl
  | cons a sorts ih =>
    cases sorts with
    | nil => rfl
    | cons b sorts =>
      rw [linked, ih, BaseSort.uniform, BaseSort.uniform, List.all_cons]
      by_cases hab : a = b
      · rw [hab, beq_self_eq_true]
      · rw [beq_false_of_ne hab, beq_false_of_ne (Ne.symm hab), Bool.false_and, Bool.false_and]

/-- Where there are neighbours, they are reals just if all are. -/
theorem linked_real {sorts : List BaseSort} (h : sorts.length ≠ 1) :
    linked (fun a b => a == .real && b == .real) sorts = sorts.all (· == .real) := by
  match sorts with
  | [] => rfl
  | [_] => exact absurd rfl h
  | [a, b] => simp [linked]
  | a :: b :: c :: rest =>
    rw [linked, linked_real (by simp)]
    simp only [List.all_cons]
    cases a == .real <;> cases b == .real <;> rfl

/-- Terms of one sort have it as a list. -/
theorem sorts?_eq_replicate {parts : List Term} {sort : BaseSort}
    (h : ∀ part ∈ parts, part.sort? = some sort) :
    sorts? parts = some (List.replicate parts.length sort) := by
  induction parts with
  | nil => rfl
  | cons part parts ih =>
    obtain ⟨hpart, hparts⟩ := List.forall_mem_cons.1 h
    simp [sorts?, hpart, ih hparts, List.replicate_succ]

/-- Relations between terms that are related properly hold together properly. -/
theorem sort?_together {relation : Relation} {ts : List SortedTerm}
    (hrelation : ∀ a ∈ ts, ∀ b ∈ ts,
      BaseSort.proper? relation.operator [a.sort, b.sort] = some .bool)
    (h : ∀ t ∈ ts, WellSorted t) : (together (links relation ts)).sort? = some .bool := by
  have hlinks : ∀ part ∈ links relation ts, part.sort? = some .bool := by
    fun_induction links relation ts with
    | case1 a b rest ih =>
      obtain ⟨ha, hrest⟩ := List.forall_mem_cons.1 h
      have hb := hrest b List.mem_cons_self
      refine List.forall_mem_cons.2
        ⟨?_, ih (fun x hx y hy => hrelation x (.tail _ hx) y (.tail _ hy)) hrest⟩
      rw [WellSorted] at ha hb
      simp [sort?, ha, hb, hrelation a (by simp) b (by simp)]
    | case2 => exact fun _ hpart => absurd hpart List.not_mem_nil
  unfold together
  split
  · rename_i part hpart
    exact hlinks part (hpart ▸ List.mem_singleton_self part)
  · simp [sort?, sorts?_eq_replicate hlinks, BaseSort.proper?, BaseSort.provided]

/-! ### Implications and operations -/

theorem implications_cons_cons (first next : Term) (rest : List Term) :
    implications (first :: next :: rest) = (implications (next :: rest)).map (.implies first) := rfl

/-- Some term is the last of implications, if there are any terms. -/
theorem implications_cons (first : Term) (rest : List Term) :
    ∃ term, implications (first :: rest) = some term := by
  induction rest generalizing first with
  | nil => exact ⟨first, rfl⟩
  | cons next rest ih =>
    obtain ⟨term, hterm⟩ := ih next
    exact ⟨.implies first term, by rw [implications_cons_cons, hterm, Option.map_some]⟩

/-- Implications between truth values are truth values. -/
theorem sort?_implications {terms : List Term} {term : Term}
    (h : ∀ part ∈ terms, part.sort? = some .bool) (hterm : implications terms = some term) :
    term.sort? = some .bool := by
  induction terms generalizing term with
  | nil => cases hterm
  | cons first terms ih =>
    obtain ⟨hfirst, hterms⟩ := List.forall_mem_cons.1 h
    cases terms with
    | nil =>
      cases hterm
      exact hfirst
    | cons next rest =>
      rw [implications_cons_cons] at hterm
      obtain ⟨more, hmore, rfl⟩ := Option.map_eq_some_iff.1 hterm
      simp [sort?, hfirst, ih hterms hmore, BaseSort.proper?, BaseSort.provided]

/-- Operations on reals are reals. -/
theorem sort?_foldl_operate {operation : Operation} {terms : List Term} {first : Term}
    (hfirst : first.sort? = some .real) (h : ∀ part ∈ terms, part.sort? = some .real) :
    (terms.foldl (.operate operation) first).sort? = some .real := by
  induction terms generalizing first with
  | nil => exact hfirst
  | cons term terms ih =>
    obtain ⟨hterm, hterms⟩ := List.forall_mem_cons.1 h
    refine ih ?_ hterms
    cases operation <;> simp [sort?, hfirst, hterm, Operation.operator, BaseSort.proper?,
      BaseSort.provided]

/-- Operations are made to the left just if all terms are reals. -/
theorem leftwards_decides (operator : String) (operation : Operation) {ts : List SortedTerm}
    (hne : ts ≠ []) :
    ∃ term, Decides (leftwards operator operation ts)
        ((ts.map SortedTerm.sort).all (· == .real)) ⟨.real, term⟩ ∧
      ((∀ part ∈ ts.map SortedTerm.term, part.sort? = some .real) → term.sort? = some .real) := by
  obtain ⟨t, ts, rfl⟩ := List.exists_cons_of_ne_nil hne
  refine ⟨(ts.map SortedTerm.term).foldl (.operate operation) t.term,
    (SortedTerm.allReal_decides operator (t :: ts)).map rfl, fun h => ?_⟩
  obtain ⟨ht, hts⟩ := List.forall_mem_cons.1 h
  exact sort?_foldl_operate ht hts

/-! ### All operators -/

/-- Terms of one sort that they have by the rules. -/
theorem sort?_of_all {ts : List SortedTerm} {sort : BaseSort} (h : ∀ t ∈ ts, WellSorted t)
    (hall : (ts.map SortedTerm.sort).all (· == sort) = true) :
    ∀ part ∈ ts.map SortedTerm.term, part.sort? = some sort := by
  intro part hpart
  obtain ⟨t, ht, rfl⟩ := List.mem_map.1 hpart
  have hsort := List.all_eq_true.1 hall t.sort (List.mem_map_of_mem ht)
  rw [h t ht, beq_iff_eq.1 hsort]

/-- What the lowering makes of an operator: it looks at the sorts of the arguments
as far as is admitted, and what it makes of terms that have their sorts by the
rules has its sort by them, if the operator does. -/
def Makes (operator : String) (ts : List SortedTerm)
    (made : Except BackendFault SortedTerm) : Prop :=
  ∃ test sort term, BaseSort.admitted? operator (ts.map SortedTerm.sort) =
      BaseSort.provided test sort ∧
    Decides made test ⟨sort, term⟩ ∧
    ((∀ t ∈ ts, WellSorted t) →
      BaseSort.proper? operator (ts.map SortedTerm.sort) = some sort → term.sort? = some sort)

/-- What is refused whatever the sorts are is not admitted by the rules. -/
theorem makes_fault {operator : String} {ts : List SortedTerm} (fault : BackendFault)
    (hadmitted : BaseSort.admitted? operator (ts.map SortedTerm.sort) = none) :
    Makes operator ts (.error fault) :=
  ⟨false, .bool, .truth true, hadmitted, .fault _ _, fun _ hproper =>
    absurd ((BaseSort.admitted?_of_proper? hproper).symm.trans hadmitted) (Option.some_ne_none _)⟩

/-- A comparison looks at the sorts of neighbours. -/
theorem makes_comparison {operator : String} {relation : Relation} {ts : List SortedTerm}
    (hcomparison : ["<", ">", "<=", ">="].contains operator = true)
    (hproper : ∀ sorts, BaseSort.proper? operator sorts =
      BaseSort.provided (sorts.all (· == .real)) .bool)
    (hrelation : BaseSort.proper? relation.operator [.real, .real] = some .bool) :
    Makes operator ts (pairwise (compare operator relation) ts) := by
  refine ⟨_, _, _, ?_, @pairwise_decides _ (fun a b => a == .real && b == .real) _
    (compare_decides operator relation) ts, fun h hall => ?_⟩
  · rw [BaseSort.admitted?, hproper, List.length_map]
    by_cases hone : ts.length = 1
    · obtain ⟨t, rfl⟩ := List.length_eq_one_iff.1 hone
      rw [BaseSort.unchecked, hcomparison]
      simp [linked, BaseSort.provided]
    · have hmany : (ts.map SortedTerm.sort).length ≠ 1 := by rwa [List.length_map]
      rw [linked_real hmany, if_neg]
      intro hunchecked
      simp only [BaseSort.unchecked, Bool.or_eq_true, beq_iff_eq, Bool.and_eq_true] at hunchecked
      rcases hunchecked with rfl | hunchecked
      · exact absurd hcomparison (by decide)
      · exact hone hunchecked.2
  · rw [hproper, BaseSort.provided_eq_some_iff] at hall
    refine sort?_together (fun a ha b hb => ?_) h
    have hreal (t : SortedTerm) (ht : t ∈ ts) : t.sort = .real :=
      beq_iff_eq.1 (List.all_eq_true.1 hall.1 t.sort (List.mem_map_of_mem ht))
    rw [hreal a ha, hreal b hb, hrelation]

/-- An operation looks at all sorts. -/
theorem makes_operation {operator : String} {operation : Operation} {ts : List SortedTerm}
    (hne : ts ≠ []) (hadmitted : ∀ sorts, BaseSort.admitted? operator sorts =
      BaseSort.provided (sorts.all (· == .real)) .real) :
    Makes operator ts (leftwards operator operation ts) := by
  obtain ⟨term, hdecides, hsort⟩ := leftwards_decides operator operation hne
  refine ⟨_, _, _, hadmitted _, hdecides, fun h hproper => hsort ?_⟩
  have hprovided := BaseSort.admitted?_of_proper? hproper
  rw [hadmitted, BaseSort.provided_eq_some_iff] at hprovided
  exact sort?_of_all h hprovided.1

/-- A choice looks at all sorts. -/
theorem makes_choice (ts : List SortedTerm) : Makes "ite" ts (choice ts) := by
  unfold choice
  split
  · rename_i c yes no
    refine ⟨c.sort == .bool && yes.sort == no.sort, yes.sort, .ite c.term yes.term no.term, ?_,
      (SortedTerm.asBool_decides _ c).bind ?_, fun h hproper => ?_⟩
    · show BaseSort.proper? "ite" [c.sort, yes.sort, no.sort] = _
      cases c.sort <;> rfl
    · split
      · rename_i hsort
        rw [hsort, beq_self_eq_true]
        exact .pure _
      · rename_i hsort
        rw [beq_false_of_ne hsort]
        exact .fault _ _
    · have hc := h c (by simp)
      have hyes := h yes (by simp)
      have hno := h no (by simp)
      rw [WellSorted] at hc hyes hno
      simpa [sort?, hc, hyes, hno] using hproper
  · rename_i hne
    refine makes_fault _ (Option.eq_none_iff_forall_ne_some.2 fun sort hsort => ?_)
    obtain ⟨yes, no, hsorts⟩ := BaseSort.exists_of_choice? hsort
    obtain ⟨c, more, rfl, -, hmore⟩ := List.map_eq_cons_iff.1 hsorts
    obtain ⟨yes, more, rfl, -, hmore⟩ := List.map_eq_cons_iff.1 hmore
    obtain ⟨no, rfl, -⟩ := List.map_eq_singleton_iff.1 hmore
    exact hne c yes no rfl

/-- **Every operator is lowered as far as its arguments are admitted.** -/
theorem apply_makes (operator : String) {ts : List SortedTerm} (hne : ts ≠ []) :
    Makes operator ts (apply operator ts) := by
  unfold apply
  split
  case h_1 =>
    refine ⟨_, _, _, rfl, (SortedTerm.allBool_decides _ ts).map rfl, fun h hproper => ?_⟩
    simpa [sort?, sorts?_map_term h] using hproper
  case h_2 =>
    refine ⟨_, _, _, rfl, (SortedTerm.allBool_decides _ ts).map rfl, fun h hproper => ?_⟩
    simpa [sort?, sorts?_map_term h] using hproper
  case h_3 =>
    split
    · rename_i arg
      refine ⟨_, _, _, ?_, (SortedTerm.asBool_decides _ arg).map rfl, fun h hproper => ?_⟩
      · show BaseSort.proper? "not" [arg.sort] = _
        cases arg.sort <;> rfl
      · have harg := h arg (List.mem_singleton_self arg)
        rw [WellSorted] at harg
        simpa [sort?, harg] using hproper
    · rename_i hmany
      refine makes_fault _ ?_
      have htest : (ts.map SortedTerm.sort == [.bool]) = false := by
        refine beq_eq_false_iff_ne.2 fun heq => ?_
        obtain ⟨arg, rfl, -⟩ := List.map_eq_singleton_iff.1 heq
        exact hmany arg rfl
      show BaseSort.provided _ _ = _
      rw [htest]
      rfl
  case h_4 =>
    obtain ⟨first, rest, hts⟩ := List.exists_cons_of_ne_nil (mt List.map_eq_nil_iff.1 hne)
    obtain ⟨term, hterm⟩ := implications_cons first rest
    rw [← hts] at hterm
    refine ⟨_, _, term, rfl, (SortedTerm.allBool_decides _ ts).map (by rw [hterm]; rfl),
      fun h hproper => ?_⟩
    exact sort?_implications (sort?_of_all h (BaseSort.provided_eq_some_iff.1 hproper).1) hterm
  case h_5 =>
    refine ⟨_, _, _, ?_, pairwise_decides equate_decides ts, fun h hproper => ?_⟩
    · rw [linked_beq]
      rfl
    · refine sort?_together (fun a ha b hb => ?_) h
      rw [BaseSort.eq_of_uniform (BaseSort.provided_eq_some_iff.1 hproper).1
        (List.mem_map_of_mem ha) (List.mem_map_of_mem hb)]
      cases b.sort <;> rfl
  case h_6 =>
    refine ⟨true, _, _, rfl, .pure _, fun h hproper => ?_⟩
    simpa [sort?, sorts?_map_term h] using hproper
  case h_7 => exact makes_comparison rfl (fun _ => rfl) rfl
  case h_8 => exact makes_comparison rfl (fun _ => rfl) rfl
  case h_9 => exact makes_comparison rfl (fun _ => rfl) rfl
  case h_10 => exact makes_comparison rfl (fun _ => rfl) rfl
  case h_11 => exact makes_operation hne fun _ => rfl
  case h_12 => exact makes_operation hne fun _ => rfl
  case h_13 => exact makes_operation hne fun _ => rfl
  case h_14 =>
    split
    · rename_i arg
      refine ⟨_, _, _, ?_, (SortedTerm.asReal_decides _ arg).map rfl, fun h hproper => ?_⟩
      · show BaseSort.proper? "-" [arg.sort] = _
        cases arg.sort <;> rfl
      · have harg := h arg (List.mem_singleton_self arg)
        rw [WellSorted] at harg
        simpa [sort?, harg] using hproper
    · exact makes_operation hne fun _ => rfl
  case h_15 => exact makes_choice ts
  case h_16 =>
    refine makes_fault _ ?_
    have hunchecked (count : Nat) : BaseSort.unchecked operator count = false := by
      simp_all [BaseSort.unchecked]
    rw [BaseSort.admitted?, hunchecked, if_neg Bool.false_ne_true]
    unfold BaseSort.proper?
    split <;> simp_all

end Term

end SatScript
