import SatScript.Proofs.Term.Sorts
/-!
# SatScript — what is asserted has a sort

Whatever the rules for sorts allow is lowered to a term that they allow too,
and an assertion adds a term exactly if it has the sort of truth values by
the rules that the lowering checks (`assert_iff_sorted`). These are the
rules but for two gaps, `distinct` and the comparison of a single argument;
so where an expression is `Checked`, that is without these, what reaches the
back end has a sort by the rules.
-/

namespace SatScript

namespace Term

/-! ## Expressions -/

/-- The lowering gives a term of this sort, or a fault where there is no sort. -/
def Lowers (made : Except BackendFault SortedTerm) : Option BaseSort → Prop
  | some sort => ∃ term, made = .ok ⟨sort, term⟩
  | none => ∃ fault, made = .error fault

/-- The lowering gives terms of these sorts, or a fault where there are none. -/
def LowersAll (made : Except BackendFault (List SortedTerm)) : Option (List BaseSort) → Prop
  | some sorts => ∃ ts, made = .ok ts ∧ ts.map SortedTerm.sort = sorts
  | none => ∃ fault, made = .error fault

/-- What is lowered after a term is lowered with its sort. -/
theorem Lowers.bind {made : Except BackendFault SortedTerm} {sort? : Option BaseSort}
    {next : SortedTerm → Except BackendFault SortedTerm} {next? : BaseSort → Option BaseSort}
    (h : Lowers made sort?) (hnext : ∀ t, Lowers (next t) (next? t.sort)) :
    Lowers (made >>= next) (sort?.bind next?) := by
  cases sort? with
  | none =>
    obtain ⟨fault, rfl⟩ := h
    exact ⟨fault, rfl⟩
  | some sort =>
    obtain ⟨term, rfl⟩ := h
    exact hnext ⟨sort, term⟩

/-- An operator applied to terms gives a term as far as their sorts are
admitted. -/
theorem lowers_apply (operator : String) {ts : List SortedTerm} (hne : ts ≠ []) :
    Lowers (apply operator ts) (BaseSort.admitted? operator (ts.map SortedTerm.sort)) := by
  obtain ⟨test, sort, term, hsort, hdecides, -⟩ := apply_makes operator hne
  rw [hsort]
  cases test with
  | true => exact ⟨term, hdecides.ok rfl⟩
  | false => exact hdecides.error rfl

/-- **An operator applied properly gives a term that has its sort by the
rules.** -/
theorem exists_apply {operator : String} {ts : List SortedTerm} {sort : BaseSort} (hne : ts ≠ [])
    (hterms : ∀ t ∈ ts, WellSorted t)
    (h : BaseSort.proper? operator (ts.map SortedTerm.sort) = some sort) :
    ∃ term, apply operator ts = .ok ⟨sort, term⟩ ∧ term.sort? = some sort := by
  obtain ⟨test, sort', term, hsort, hdecides, hproper⟩ := apply_makes operator hne
  rw [BaseSort.admitted?_of_proper? h] at hsort
  obtain ⟨rfl, rfl⟩ := BaseSort.provided_eq_some_iff.1 hsort.symm
  exact ⟨term, hdecides.ok rfl, hproper hterms h⟩

/-- The table and the sorts of variables know the same names, at the same
sorts. -/
def AgreesOn (table : Table SortedTerm) (env : String → Option BaseSort) : Prop :=
  ∀ name, (table.get? name).map SortedTerm.sort = env name

/-- A name that is bound to a term is bound to its sort. -/
theorem AgreesOn.set {table : Table SortedTerm} {env : String → Option BaseSort}
    {bound : List (String × BaseSort)} (h : AgreesOn table (Expr.bindSorts env bound))
    (name : String) (t : SortedTerm) :
    AgreesOn (table.set name t) (Expr.bindSorts env ((name, t.sort) :: bound)) := by
  intro other
  rw [Table.get?_set, Expr.bindSorts, List.lookup_cons]
  by_cases hname : other = name
  · rw [if_pos hname, hname, beq_self_eq_true]
    rfl
  · rw [if_neg hname, beq_false_of_ne hname]
    exact h other

/-- A name is lowered to a term of its sort. -/
theorem lowers_ofName {table : Table SortedTerm} {env : String → Option BaseSort}
    (h : AgreesOn table env) (name : String) :
    Lowers (ofName table name) (Expr.namedSort? env name) := by
  unfold ofName Expr.namedSort?
  by_cases htrue : name = "true"
  · rw [if_pos htrue, if_pos (.inl htrue)]
    exact ⟨_, rfl⟩
  by_cases hfalse : name = "false"
  · rw [if_neg htrue, if_pos hfalse, if_pos (.inr hfalse)]
    exact ⟨_, rfl⟩
  rw [if_neg htrue, if_neg hfalse, if_neg (not_or.2 ⟨htrue, hfalse⟩)]
  split
  · exact ⟨_, rfl⟩
  · have hname := h name
    cases hget : table.get? name with
    | none =>
      rw [← hname, hget]
      exact ⟨_, rfl⟩
    | some t =>
      rw [← hname, hget]
      exact ⟨t.term, rfl⟩

/-- Of some expression some term is made. -/
theorem ne_nil_of_ofExprs {table : Table SortedTerm} {e : Expr} {es : List Expr}
    {ts : List SortedTerm} (h : ofExprs table (e :: es) = .ok ts) : ts ≠ [] := by
  rw [ofExprs] at h
  obtain ⟨t, -, h⟩ := bind_eq_ok_iff.1 h
  obtain ⟨more, -, h⟩ := bind_eq_ok_iff.1 h
  rw [pure_eq_ok_iff] at h
  subst h
  exact List.cons_ne_nil _ _

mutual

/-- **An expression is lowered to a term of its sort, as far as the sorts of
arguments are admitted**, and else not at all. -/
theorem lowers_ofExpr {table : Table SortedTerm} {env : String → Option BaseSort}
    (h : AgreesOn table env) :
    ∀ e : Expr, Lowers (ofExpr table e) (e.sort? BaseSort.admitted? env)
  | .node name _ [] => by
    rw [ofExpr, Expr.sort?]
    exact lowers_ofName h name
  | .node name _ (arg :: args) => by
    rw [ofExpr, Expr.sort?]
    by_cases hlet : name = "let"
    · rw [if_pos hlet, if_pos hlet]
      exact @lowers_ofLet table table env [] h h (arg :: args)
    · rw [if_neg hlet, if_neg hlet]
      have hargs := lowers_ofExprs h (arg :: args)
      cases hsorts : Expr.sorts? BaseSort.admitted? env (arg :: args) with
      | none =>
        rw [hsorts] at hargs
        obtain ⟨fault, hfault⟩ := hargs
        rw [hfault]
        exact ⟨fault, rfl⟩
      | some sorts =>
        rw [hsorts] at hargs
        obtain ⟨ts, hts, rfl⟩ := hargs
        rw [hts]
        exact lowers_apply name (ne_nil_of_ofExprs hts)

/-- Expressions are lowered so one after another. -/
theorem lowers_ofExprs {table : Table SortedTerm} {env : String → Option BaseSort}
    (h : AgreesOn table env) :
    ∀ es : List Expr, LowersAll (ofExprs table es) (Expr.sorts? BaseSort.admitted? env es)
  | [] => ⟨[], rfl, rfl⟩
  | e :: es => by
    have he := lowers_ofExpr h e
    have hes := lowers_ofExprs h es
    rw [ofExprs, Expr.sorts?]
    cases hsort : e.sort? BaseSort.admitted? env with
    | none =>
      rw [hsort] at he
      obtain ⟨fault, hfault⟩ := he
      rw [hfault]
      exact ⟨fault, rfl⟩
    | some sort =>
      rw [hsort] at he
      obtain ⟨term, hterm⟩ := he
      rw [hterm]
      cases hsorts : Expr.sorts? BaseSort.admitted? env es with
      | none =>
        rw [hsorts] at hes
        obtain ⟨fault, hfault⟩ := hes
        rw [hfault]
        exact ⟨fault, rfl⟩
      | some sorts =>
        rw [hsorts] at hes
        obtain ⟨ts, hts, rfl⟩ := hes
        rw [hts]
        exact ⟨⟨sort, term⟩ :: ts, rfl, rfl⟩

/-- The body of a `let` is lowered so, with the values that are bound. -/
theorem lowers_ofLet {table inner : Table SortedTerm} {env : String → Option BaseSort}
    {bound : List (String × BaseSort)} (h : AgreesOn table env)
    (hinner : AgreesOn inner (Expr.bindSorts env bound)) :
    ∀ args : List Expr,
      Lowers (ofLet table inner args) (Expr.letSort? BaseSort.admitted? env bound args)
  | [] => ⟨_, rfl⟩
  | [body] => by
    rw [ofLet, Expr.letSort?]
    exact lowers_ofExpr hinner body
  | .node name _ [] :: next :: rest => by
    rw [ofLet, Expr.letSort?]
    exact ⟨_, rfl⟩
  | .node name _ (value :: _) :: next :: rest => by
    rw [ofLet, Expr.letSort?]
    exact (lowers_ofExpr h value).bind fun t => lowers_ofLet h (hinner.set name t) (next :: rest)

end

/-- The table knows the names of the variables, with terms that have their sorts by
the rules. -/
structure Sound (table : Table SortedTerm) (env : String → Option BaseSort) : Prop where
  agrees : AgreesOn table env
  sorted : ∀ name t, table.get? name = some t → WellSorted t

/-- So does a table in which a name is bound to such a term. -/
theorem Sound.set {table : Table SortedTerm} {env : String → Option BaseSort}
    {bound : List (String × BaseSort)} (h : Sound table (Expr.bindSorts env bound))
    (name : String) {t : SortedTerm} (ht : WellSorted t) :
    Sound (table.set name t) (Expr.bindSorts env ((name, t.sort) :: bound)) := by
  refine ⟨h.agrees.set name t, fun other u hu => ?_⟩
  rw [Table.get?_set] at hu
  split at hu
  · rwa [← Option.some.inj hu]
  · exact h.sorted other u hu

/-- A name with a sort is lowered to a term that has it. -/
theorem exists_ofName {table : Table SortedTerm} {env : String → Option BaseSort}
    (h : Sound table env) {name : String} {sort : BaseSort}
    (hsort : Expr.namedSort? env name = some sort) :
    ∃ term, ofName table name = .ok ⟨sort, term⟩ ∧ term.sort? = some sort := by
  have hlowers := lowers_ofName h.agrees name
  rw [hsort] at hlowers
  obtain ⟨term, hterm⟩ := hlowers
  refine ⟨term, hterm, ?_⟩
  unfold ofName at hterm
  split at hterm
  · cases hterm
    rfl
  split at hterm
  · cases hterm
    rfl
  split at hterm
  · cases hterm
    rfl
  split at hterm
  · cases hterm
  · rename_i found hfound
    cases hterm
    exact h.sorted name _ hfound

mutual

/-- **An expression that has a sort by the rules is lowered to a term that has it
by the rules.** -/
theorem exists_ofExpr {table : Table SortedTerm} {env : String → Option BaseSort}
    (h : Sound table env) : ∀ (e : Expr) {sort : BaseSort},
      e.sort? BaseSort.proper? env = some sort →
      ∃ term, ofExpr table e = .ok ⟨sort, term⟩ ∧ term.sort? = some sort
  | .node name _ [], sort, hsort => by
    rw [Expr.sort?] at hsort
    rw [ofExpr]
    exact exists_ofName h hsort
  | .node name _ (arg :: args), sort, hsort => by
    rw [Expr.sort?] at hsort
    rw [ofExpr]
    by_cases hlet : name = "let"
    · rw [if_pos hlet] at hsort ⊢
      exact @exists_ofLet table table env [] h h (arg :: args) _ hsort
    · rw [if_neg hlet] at hsort ⊢
      obtain ⟨sorts, hsorts, hsort⟩ := Option.bind_eq_some_iff.1 hsort
      obtain ⟨ts, hts, rfl, hterms⟩ := exists_ofExprs h (arg :: args) hsorts
      rw [hts]
      exact exists_apply (ne_nil_of_ofExprs hts) hterms hsort

/-- Expressions that have sorts by the rules are lowered so one after another. -/
theorem exists_ofExprs {table : Table SortedTerm} {env : String → Option BaseSort}
    (h : Sound table env) : ∀ (es : List Expr) {sorts : List BaseSort},
      Expr.sorts? BaseSort.proper? env es = some sorts →
      ∃ ts, ofExprs table es = .ok ts ∧ ts.map SortedTerm.sort = sorts ∧ ∀ t ∈ ts, WellSorted t
  | [], _, hsorts => by
    cases hsorts
    exact ⟨[], rfl, rfl, fun _ ht => absurd ht List.not_mem_nil⟩
  | e :: es, sorts, hsorts => by
    rw [Expr.sorts?] at hsorts
    obtain ⟨sort, hsort, hsorts⟩ := Option.bind_eq_some_iff.1 hsorts
    obtain ⟨more, hmore, hsorts⟩ := Option.bind_eq_some_iff.1 hsorts
    cases hsorts
    obtain ⟨term, hterm, hwell⟩ := exists_ofExpr h e hsort
    obtain ⟨ts, hts, rfl, hterms⟩ := exists_ofExprs h es hmore
    rw [ofExprs, hterm, hts]
    exact ⟨⟨sort, term⟩ :: ts, rfl, rfl, List.forall_mem_cons.2 ⟨hwell, hterms⟩⟩

/-- A `let` that has a sort by the rules is lowered so. -/
theorem exists_ofLet {table inner : Table SortedTerm} {env : String → Option BaseSort}
    {bound : List (String × BaseSort)} (h : Sound table env)
    (hinner : Sound inner (Expr.bindSorts env bound)) :
    ∀ (args : List Expr) {sort : BaseSort},
      Expr.letSort? BaseSort.proper? env bound args = some sort →
      ∃ term, ofLet table inner args = .ok ⟨sort, term⟩ ∧ term.sort? = some sort
  | [], _, hsort => nomatch hsort
  | [body], sort, hsort => by
    rw [Expr.letSort?] at hsort
    rw [ofLet]
    exact exists_ofExpr hinner body hsort
  | .node name _ [] :: next :: rest, sort, hsort => by
    rw [Expr.letSort?] at hsort
    cases hsort
  | .node name _ (value :: _) :: next :: rest, sort, hsort => by
    rw [Expr.letSort?] at hsort
    obtain ⟨valueSort, hvalue, hsort⟩ := Option.bind_eq_some_iff.1 hsort
    obtain ⟨term, hterm, hwell⟩ := exists_ofExpr h value hvalue
    rw [ofLet, hterm]
    exact exists_ofLet h (hinner.set name (t := ⟨valueSort, term⟩) hwell) (next :: rest) hsort

end

end Term

namespace Expr

/-- As many sorts as expressions. -/
theorem length_of_sorts? {rule : String → List BaseSort → Option BaseSort}
    {env : String → Option BaseSort} {es : List Expr} {sorts : List BaseSort}
    (h : sorts? rule env es = some sorts) : sorts.length = es.length := by
  induction es generalizing sorts with
  | nil =>
    cases h
    rfl
  | cons e es ih =>
    rw [sorts?] at h
    obtain ⟨sort, -, h⟩ := Option.bind_eq_some_iff.1 h
    obtain ⟨more, hmore, h⟩ := Option.bind_eq_some_iff.1 h
    cases h
    rw [List.length_cons, List.length_cons, ih hmore]

mutual

/-- Where every operator is checked, what is admitted is what the rules allow. -/
theorem sort?_eq_of_checked (env : String → Option BaseSort) : ∀ e : Expr, e.Checked →
    e.sort? BaseSort.admitted? env = e.sort? BaseSort.proper? env
  | .node name _ [], _ => by rw [sort?, sort?]
  | .node name _ (arg :: args), h => by
    rw [Checked] at h
    rw [sort?, sort?]
    by_cases hlet : name = "let"
    · rw [if_pos hlet] at h
      rw [if_pos hlet, if_pos hlet]
      exact letSort?_eq_of_checked env [] (arg :: args) h
    · rw [if_neg hlet] at h
      rw [if_neg hlet, if_neg hlet, sorts?_eq_of_checked env (arg :: args) h.2]
      refine Option.bind_congr fun sorts hsorts => ?_
      rw [BaseSort.admitted?, length_of_sorts? hsorts, h.1, if_neg Bool.false_ne_true]

theorem sorts?_eq_of_checked (env : String → Option BaseSort) : ∀ es : List Expr, CheckedAll es →
    sorts? BaseSort.admitted? env es = sorts? BaseSort.proper? env es
  | [], _ => by rw [sorts?, sorts?]
  | e :: es, h => by
    rw [CheckedAll] at h
    rw [sorts?, sorts?, sort?_eq_of_checked env e h.1, sorts?_eq_of_checked env es h.2]

theorem letSort?_eq_of_checked (env : String → Option BaseSort)
    (bound : List (String × BaseSort)) : ∀ args : List Expr, CheckedLet args →
      letSort? BaseSort.admitted? env bound args = letSort? BaseSort.proper? env bound args
  | [], _ => by rw [letSort?, letSort?]
  | [body], h => by
    rw [CheckedLet] at h
    rw [letSort?, letSort?, sort?_eq_of_checked _ body h]
  | .node _ _ [] :: _ :: _, _ => by rw [letSort?, letSort?]
  | .node name _ (value :: _) :: next :: rest, h => by
    rw [CheckedLet, CheckedAll] at h
    rw [letSort?, letSort?, sort?_eq_of_checked env value h.1.1]
    exact Option.bind_congr fun sort _ =>
      letSort?_eq_of_checked env ((name, sort) :: bound) (next :: rest) h.2

end

end Expr

namespace Backend

/-- Where nothing is declared there is nothing to agree on. -/
theorem sound_empty (library : Library) :
    Term.Sound (Backend.declared { library }) (Scope.empty : Scope BaseSort).lookup :=
  ⟨fun _ => rfl, nofun⟩

/-- **A declaration keeps the scope and the declared variables in agreement**, and
its constant is of the sort that is declared. -/
theorem sound_declare {backend : Backend} {scope : Scope BaseSort}
    (h : Term.Sound backend.declared scope.lookup) (name : String) (sort : BaseSort) :
    Term.Sound (backend.declare name sort).declared (scope.define name sort).lookup := by
  refine ⟨fun other => ?_, fun other t ht => ?_⟩
  · rw [declare, Table.get?_set, Scope.lookup_define]
    split
    · rfl
    · exact h.agrees other
  · rw [declare, Table.get?_set] at ht
    split at ht
    · cases ht
      rfl
    · exact h.sorted other t ht

/-- What an assertion comes to, by the sort that the lowering finds. -/
theorem assert_of_lowers {backend : Backend} {e : Expr} {sort? : Option BaseSort}
    (h : Term.Lowers (Term.ofExpr backend.declared e) sort?) :
    (sort? = some .bool → ∃ term, Term.ofExpr backend.declared e = .ok ⟨.bool, term⟩ ∧
      backend.assert e = .ok { backend with library := backend.library.keep [.add term] }) ∧
    (sort? ≠ some .bool → ∃ fault, backend.assert e = .error fault) := by
  match sort?, h with
  | some .bool, ⟨term, hterm⟩ =>
    refine ⟨fun _ => ⟨term, hterm, ?_⟩, fun hne => absurd rfl hne⟩
    rw [assert, Term.ofAssertion, hterm]
    rfl
  | some .real, ⟨term, hterm⟩ =>
    refine ⟨nofun, fun _ => ⟨.wrongSort "assert" .bool .real, ?_⟩⟩
    rw [assert, Term.ofAssertion, hterm]
    rfl
  | none, ⟨fault, hfault⟩ =>
    refine ⟨nofun, fun _ => ⟨fault, ?_⟩⟩
    rw [assert, Term.ofAssertion, hfault]
    rfl

/-- **Which assertions the back end takes.** Let the scope and the declared
variables agree on names and sorts, and let the terms of the variables be of
their sorts. An assertion of sort `Bool` by the rules adds a term, and the term
is of sort `Bool` by the rules. Any assertion adds a term just if it has the
sort as far as the back end looks at the sorts of arguments, and is refused
with a fault if not. These are two things only where an operator is not
checked: it is `distinct`, or a comparison of a single argument. Without these
an assertion adds a term just if it is of sort `Bool` by the rules. -/
theorem assert_iff_sorted (backend : Backend) (scope : Scope BaseSort) (e : Expr)
    (hagree : ∀ name, (backend.declared.get? name).map SortedTerm.sort = scope.lookup name)
    (hterms : ∀ name t, backend.declared.get? name = some t → t.term.sort? = some t.sort) :
    (e.sort? BaseSort.proper? scope.lookup = some .bool →
      ∃ term, term.sort? = some .bool ∧
        backend.assert e = .ok { backend with library := backend.library.keep [.add term] }) ∧
    (e.sort? BaseSort.admitted? scope.lookup = some .bool →
      ∃ term,
        backend.assert e = .ok { backend with library := backend.library.keep [.add term] }) ∧
    (e.sort? BaseSort.admitted? scope.lookup ≠ some .bool →
      ∃ fault, backend.assert e = .error fault) ∧
    (e.Checked → ((∃ backend', backend.assert e = .ok backend') ↔
      e.sort? BaseSort.proper? scope.lookup = some .bool)) := by
  have hsound : Term.Sound backend.declared scope.lookup := ⟨hagree, hterms⟩
  obtain ⟨hadds, hrefuses⟩ := assert_of_lowers (Term.lowers_ofExpr hagree e)
  refine ⟨fun hsort => ?_, fun hsort => ?_, hrefuses, fun hchecked => ?_⟩
  · obtain ⟨term, hterm, hbool⟩ := Term.exists_ofExpr hsound e hsort
    refine ⟨term, hbool, ?_⟩
    rw [assert, Term.ofAssertion, hterm]
    rfl
  · obtain ⟨term, -, hassert⟩ := hadds hsort
    exact ⟨term, hassert⟩
  · rw [← Expr.sort?_eq_of_checked scope.lookup e hchecked]
    refine ⟨fun ⟨backend', hassert⟩ => ?_, fun hsort => ?_⟩
    · by_contra hsort
      obtain ⟨fault, hfault⟩ := hrefuses hsort
      rw [hfault] at hassert
      cases hassert
    · obtain ⟨term, -, hassert⟩ := hadds hsort
      exact ⟨_, hassert⟩

/-- A real and a truth value are declared; in `(let ((y x)) (ite p (< y 1) p))` every
operator is checked. -/
theorem assert_iff_sorted_let :
    let library : Library := { answers := ⟨[]⟩, loaded := true }
    let backend := (Backend.declare { library } "x" .real).declare "p" .bool
    let scope := (Scope.empty.define "x" BaseSort.real).define "p" .bool
    let p : Expr := .leaf "p" .bool
    let e : Expr := .node "let" .bool [.node "y" .real [.leaf "x" .real],
      .node "ite" .bool [p, .node "<" .bool [.leaf "y" .real, .leaf "1" .real], p]]
    (∀ name, (backend.declared.get? name).map SortedTerm.sort = scope.lookup name) ∧
      (∀ name t, backend.declared.get? name = some t → t.term.sort? = some t.sort) ∧
      e.Checked ∧ ∃ term, term.sort? = some .bool ∧
        backend.assert e = .ok { backend with library := backend.library.keep [.add term] } := by
  intro library backend scope p e
  have hsound := sound_declare (sound_declare (sound_empty library) "x" .real) "p" .bool
  have hchecked : e.Checked := by
    simp [e, p, Expr.leaf, Expr.Checked, Expr.CheckedAll, Expr.CheckedLet, BaseSort.unchecked]
  have hsort : e.sort? BaseSort.proper? scope.lookup = some .bool := by rfl
  exact ⟨hsound.agrees, hsound.sorted, hchecked,
    (assert_iff_sorted backend scope e hsound.agrees hsound.sorted).1 hsort⟩

/-- Two assertions that have no sort by the rules add a term: a comparison of a
single truth value, and `distinct` of a real and a truth value. The second term
has no sort by the rules either. -/
theorem assert_unsorted :
    let library : Library := { answers := ⟨[]⟩, loaded := true }
    let backend := (Backend.declare { library } "x" .real).declare "p" .bool
    let scope := (Scope.empty.define "x" BaseSort.real).define "p" .bool
    let lone : Form := .list [.atom "<" 1 2, .atom "p" 3 4] 0 5
    let mixed : Form := .list [.atom "distinct" 1 9, .atom "x" 10 11, .atom "p" 12 13] 0 14
    (∀ name, (backend.declared.get? name).map SortedTerm.sort = scope.lookup name) ∧
      lone.NoLoneAtom ∧ mixed.NoLoneAtom ∧
      (∃ e, (Expr.ofForm true scope lone).result = .ok e ∧
        e.sort? BaseSort.proper? scope.lookup = none ∧ ∃ term,
          backend.assert e = .ok { backend with library := backend.library.keep [.add term] }) ∧
      ∃ e, (Expr.ofForm true scope mixed).result = .ok e ∧
        e.sort? BaseSort.proper? scope.lookup = none ∧ ∃ term, term.sort? = none ∧
          backend.assert e = .ok { backend with library := backend.library.keep [.add term] } := by
  intro library backend scope lone mixed
  have hsound := sound_declare (sound_declare (sound_empty library) "x" .real) "p" .bool
  refine ⟨hsound.agrees, ?_, ?_, ?_, ?_⟩
  · simp [lone, Form.NoLoneAtom, Form.NoLoneAtoms]
  · simp [mixed, Form.NoLoneAtom, Form.NoLoneAtoms]
  · exact ⟨.node "<" .bool [.leaf "p" .bool], rfl, rfl, .conj [], rfl⟩
  · exact ⟨.node "distinct" .bool [.leaf "x" .real, .leaf "p" .bool], rfl, rfl,
      .distinct [.constant .real "x", .constant .bool "p"], rfl, rfl⟩

end Backend

end SatScript
