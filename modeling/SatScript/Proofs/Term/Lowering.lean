import Mathlib.Data.List.Forall2
import SatScript.Proofs.Computation
import SatScript.Proofs.Term.Meaning
/-!
# SatScript — lowering keeps the meaning

The term that an expression is lowered to has the value that the
expression has by its reference meaning, and the value is of the term's
sort (`value?_ofExpr`). The induction is over expressions; each operator
is one lemma about lists of terms that have values (`Denotes`), and
`apply_denotes` is the table of them.
-/

namespace SatScript

variable {arith : Arithmetic} {interp : Interpretation}

/-- A sorted term has this value, which is of its sort. -/
def Denotes (arith : Arithmetic) (interp : Interpretation) (t : SortedTerm) (v : Value) : Prop :=
  t.term.value? arith interp = some v ∧ v.sort = t.sort

/-- Terms have these values, one by one. -/
abbrev DenoteAll (arith : Arithmetic) (interp : Interpretation) :
    List SortedTerm → List Value → Prop :=
  List.Forall₂ (Denotes arith interp)

namespace Value

theorem eq_bool_of_sort {v : Value} (h : v.sort = .bool) : ∃ b, v = .bool b := by
  cases v with
  | bool b => exact ⟨b, rfl⟩
  | real q => cases h

theorem eq_real_of_sort {v : Value} (h : v.sort = .real) : ∃ q, v = .real q := by
  cases v with
  | bool b => cases h
  | real q => exact ⟨q, rfl⟩

@[simp] theorem bools?_map_bool (bs : List Bool) : bools? (bs.map .bool) = some bs := by
  induction bs with
  | nil => rfl
  | cons b bs ih => simp [bools?, bool?, ih]

@[simp] theorem reals?_map_real (qs : List Rat) : reals? (qs.map .real) = some qs := by
  induction qs with
  | nil => rfl
  | cons q qs ih => simp [reals?, real?, ih]

end Value

namespace SortedTerm

/-- A term that is taken for a truth value is one. -/
theorem asBool_denotes {operator : String} {t : SortedTerm} {term : Term} {v : Value}
    (h : t.asBool operator = .ok term) (hv : Denotes arith interp t v) :
    ∃ b, v = .bool b ∧ term.value? arith interp = some (.bool b) := by
  unfold asBool at h
  split at h
  · rename_i hs
    cases h
    obtain ⟨b, rfl⟩ := Value.eq_bool_of_sort (hv.2.trans hs)
    exact ⟨b, rfl, hv.1⟩
  · cases h

/-- A term that is taken for a real is one. -/
theorem asReal_denotes {operator : String} {t : SortedTerm} {term : Term} {v : Value}
    (h : t.asReal operator = .ok term) (hv : Denotes arith interp t v) :
    ∃ q, v = .real q ∧ term.value? arith interp = some (.real q) := by
  unfold asReal at h
  split at h
  · rename_i hs
    cases h
    obtain ⟨q, rfl⟩ := Value.eq_real_of_sort (hv.2.trans hs)
    exact ⟨q, rfl, hv.1⟩
  · cases h

/-- Terms that are all taken for truth values are truth values. -/
theorem allBool_denotes {operator : String} {ts : List SortedTerm} {terms : List Term}
    {vs : List Value} (h : allBool operator ts = .ok terms) (hv : DenoteAll arith interp ts vs) :
    ∃ bs : List Bool, vs = bs.map .bool ∧
      Term.values? arith interp terms = some (bs.map .bool) := by
  induction hv generalizing terms with
  | nil =>
    cases h
    exact ⟨[], rfl, rfl⟩
  | cons hd _ ih =>
    simp only [allBool, bind_eq_ok_iff, pure_eq_ok_iff] at h
    obtain ⟨term, ht, rest, hr, rfl⟩ := h
    obtain ⟨b, rfl, hb⟩ := asBool_denotes ht hd
    obtain ⟨bs, rfl, hbs⟩ := ih hr
    exact ⟨b :: bs, rfl, by simp [Term.values?, hb, hbs]⟩

/-- Terms that are all taken for reals are reals. -/
theorem allReal_denotes {operator : String} {ts : List SortedTerm} {terms : List Term}
    {vs : List Value} (h : allReal operator ts = .ok terms) (hv : DenoteAll arith interp ts vs) :
    ∃ qs : List Rat, vs = qs.map .real ∧
      Term.values? arith interp terms = some (qs.map .real) := by
  induction hv generalizing terms with
  | nil =>
    cases h
    exact ⟨[], rfl, rfl⟩
  | cons hd _ ih =>
    simp only [allReal, bind_eq_ok_iff, pure_eq_ok_iff] at h
    obtain ⟨term, ht, rest, hr, rfl⟩ := h
    obtain ⟨q, rfl, hq⟩ := asReal_denotes ht hd
    obtain ⟨qs, rfl, hqs⟩ := ih hr
    exact ⟨q :: qs, rfl, by simp [Term.values?, hq, hqs]⟩

end SortedTerm

namespace Term

/-! ## Relations between neighbours -/

/-- A relation on terms has the meaning of a relation on values. -/
def Relates (arith : Arithmetic) (interp : Interpretation)
    (relate : SortedTerm → SortedTerm → Except BackendFault Term)
    (holds? : Value → Value → Option Bool) : Prop :=
  ∀ {a b : SortedTerm} {v w : Value} {term : Term}, relate a b = .ok term →
    Denotes arith interp a v → Denotes arith interp b w →
    ∃ holds, holds? v w = some holds ∧ term.value? arith interp = some (.bool holds)

theorem relates_equate : Relates arith interp equate fun v w => some (v == w) := by
  intro a b v w term h hv hw
  unfold equate at h
  split at h
  · cases h
    exact ⟨v == w, rfl, by simp [value?, hv.1, hw.1, Relation.holds?]⟩
  · cases h

/-- A comparison means what its relation means on rationals. -/
theorem relates_compare {operator : String} {relation : Relation} {holds : Rat → Rat → Bool}
    (hr : ∀ p q, relation.holds? (.real p) (.real q) = some (holds p q)) :
    Relates arith interp (compare operator relation) (Expr.compared? holds) := by
  intro a b v w term h hv hw
  simp only [compare, bind_eq_ok_iff, pure_eq_ok_iff] at h
  obtain ⟨left, hl, right, hr', rfl⟩ := h
  obtain ⟨p, rfl, hp⟩ := SortedTerm.asReal_denotes hl hv
  obtain ⟨q, rfl, hq⟩ := SortedTerm.asReal_denotes hr' hw
  exact ⟨holds p q, by simp [Expr.compared?, Value.real?], by simp [value?, hp, hq, hr]⟩

/-- Neighbours are related as terms as they are as values. -/
theorem neighbours_denotes {relate : SortedTerm → SortedTerm → Except BackendFault Term}
    {holds? : Value → Value → Option Bool} (hrel : Relates arith interp relate holds?)
    {ts : List SortedTerm} {terms : List Term} {vs : List Value}
    (h : neighbours relate ts = .ok terms) (hv : DenoteAll arith interp ts vs) :
    ∃ bs : List Bool, Expr.linked? holds? vs = some (bs.all id) ∧
      values? arith interp terms = some (bs.map .bool) := by
  induction hv generalizing terms with
  | nil =>
    cases h
    exact ⟨[], rfl, rfl⟩
  | cons hd hs ih =>
    cases hs with
    | nil =>
      cases h
      exact ⟨[], rfl, rfl⟩
    | cons hd' hs' =>
      simp only [neighbours, bind_eq_ok_iff, pure_eq_ok_iff] at h
      obtain ⟨term, ht, rest, hr, rfl⟩ := h
      obtain ⟨b, hb, hterm⟩ := hrel ht hd hd'
      obtain ⟨bs, hbs, hterms⟩ := ih hr
      exact ⟨b :: bs, by simp [Expr.linked?, hb, hbs], by simp [values?, hterm, hterms]⟩

/-- Terms that hold together hold all: a single one, and a conjunction. -/
theorem together_denotes {terms : List Term} {bs : List Bool}
    (h : values? arith interp terms = some (bs.map .bool)) :
    (together terms).value? arith interp = some (.bool (bs.all id)) := by
  unfold together
  split
  · rename_i part
    simp only [values?, Option.pure_def, Option.bind_eq_bind, Option.bind_some] at h
    obtain ⟨v, hv, hb⟩ := Option.bind_eq_some_iff.1 h
    cases bs with
    | nil => simp at hb
    | cons b bs =>
      simp only [Option.some.injEq, List.map_cons, List.cons.injEq, List.nil_eq,
        List.map_eq_nil_iff] at hb
      obtain ⟨rfl, rfl⟩ := hb
      simp [hv]
  · simp [value?, h]

/-- **A relation between several arguments holds between every two
neighbours.** -/
theorem pairwise_denotes {relate : SortedTerm → SortedTerm → Except BackendFault Term}
    {holds? : Value → Value → Option Bool} (hrel : Relates arith interp relate holds?)
    {ts : List SortedTerm} {t : SortedTerm} {vs : List Value}
    (h : pairwise relate ts = .ok t) (hv : DenoteAll arith interp ts vs) :
    ∃ b, Expr.linked? holds? vs = some b ∧ Denotes arith interp t (.bool b) := by
  simp only [pairwise, bind_eq_ok_iff, pure_eq_ok_iff] at h
  obtain ⟨terms, hn, rfl⟩ := h
  obtain ⟨bs, hl, hterms⟩ := neighbours_denotes hrel hn hv
  exact ⟨bs.all id, hl, together_denotes hterms, rfl⟩

/-! ## Operators -/

/-- Implications to the right have the meaning of implications to the
right. -/
theorem implications_denotes {terms : List Term} {term : Term} {bs : List Bool}
    (h : implications terms = some term)
    (hb : values? arith interp terms = some (bs.map .bool)) :
    ∃ b, Expr.implied? bs = some b ∧ term.value? arith interp = some (.bool b) := by
  fun_induction implications terms generalizing term bs with
  | case1 => cases h
  | case2 last =>
    cases h
    simp only [values?, Option.pure_def, Option.bind_eq_bind, Option.bind_some] at hb
    obtain ⟨v, hv, hb⟩ := Option.bind_eq_some_iff.1 hb
    cases bs with
    | nil => simp at hb
    | cons b bs =>
      simp only [Option.some.injEq, List.map_cons, List.cons.injEq, List.nil_eq,
        List.map_eq_nil_iff] at hb
      obtain ⟨rfl, rfl⟩ := hb
      exact ⟨b, rfl, hv⟩
  | case3 first rest hne ih =>
    obtain ⟨tail, ht, rfl⟩ := Option.map_eq_some_iff.1 h
    simp only [values?, Option.pure_def, Option.bind_eq_bind] at hb
    obtain ⟨v, hv, hb⟩ := Option.bind_eq_some_iff.1 hb
    obtain ⟨vs, hvs, hb⟩ := Option.bind_eq_some_iff.1 hb
    cases bs with
    | nil => simp at hb
    | cons b bs =>
      simp only [Option.some.injEq, List.map_cons, List.cons.injEq] at hb
      obtain ⟨rfl, rfl⟩ := hb
      obtain ⟨c, hc, hterm⟩ := ih ht hvs
      -- one truth value would be one term, which was the case before
      obtain ⟨d, ds, rfl⟩ : ∃ d ds, bs = d :: ds := by
        cases bs with
        | nil => cases hc
        | cons d ds => exact ⟨d, ds, rfl⟩
      exact ⟨!b || c, by simp [Expr.implied?, hc], by simp [value?, hv, hterm, Value.bool?]⟩

/-- Folding an operation over terms folds it over their values. -/
theorem foldl_operate_denotes {operation : Operation} {terms : List Term} {qs : List Rat}
    {first : Term} {q : Rat} (hq : first.value? arith interp = some (.real q))
    (h : values? arith interp terms = some (qs.map .real)) :
    (terms.foldl (.operate operation) first).value? arith interp =
      some (.real (qs.foldl (arith.apply operation) q)) := by
  induction terms generalizing first q qs with
  | nil =>
    cases qs with
    | nil => exact hq
    | cons p ps => simp [values?] at h
  | cons term terms ih =>
    simp only [values?, Option.pure_def, Option.bind_eq_bind] at h
    obtain ⟨v, hv, h⟩ := Option.bind_eq_some_iff.1 h
    obtain ⟨vs, hvs, h⟩ := Option.bind_eq_some_iff.1 h
    cases qs with
    | nil => simp at h
    | cons p ps =>
      simp only [Option.some.injEq, List.map_cons, List.cons.injEq] at h
      obtain ⟨rfl, rfl⟩ := h
      have hop : (operate operation first term).value? arith interp =
          some (.real (arith.apply operation q p)) := by
        simp [value?, hq, hv, Value.real?]
      rw [List.foldl_cons, List.foldl_cons]
      exact ih hop hvs

/-- **Operations on reals associate to the left.** -/
theorem leftwards_denotes {operator : String} {operation : Operation} {ts : List SortedTerm}
    {t : SortedTerm} {vs : List Value} (h : leftwards operator operation ts = .ok t)
    (hv : DenoteAll arith interp ts vs) :
    ∃ q, (Value.reals? vs).bind (Expr.folded? (arith.apply operation)) = some q ∧
      Denotes arith interp t (.real q) := by
  simp only [leftwards, bind_eq_ok_iff] at h
  obtain ⟨terms, ht, h⟩ := h
  obtain ⟨qs, rfl, hqs⟩ := SortedTerm.allReal_denotes ht hv
  cases terms with
  | nil => cases h
  | cons first rest =>
    rw [pure_eq_ok_iff] at h
    subst h
    simp only [values?, Option.pure_def, Option.bind_eq_bind] at hqs
    obtain ⟨v, hv, hqs⟩ := Option.bind_eq_some_iff.1 hqs
    obtain ⟨ws, hws, hqs⟩ := Option.bind_eq_some_iff.1 hqs
    cases qs with
    | nil => simp at hqs
    | cons q qs =>
      simp only [Option.some.injEq, List.map_cons, List.cons.injEq] at hqs
      obtain ⟨rfl, rfl⟩ := hqs
      refine ⟨qs.foldl (arith.apply operation) q, ?_, foldl_operate_denotes hv hws, rfl⟩
      rw [Value.reals?_map_real, Option.bind_some, Expr.folded?]

/-- Terms have their values as a list. -/
theorem values?_map_term {ts : List SortedTerm} {vs : List Value}
    (hv : DenoteAll arith interp ts vs) :
    values? arith interp (ts.map (·.term)) = some vs := by
  induction hv with
  | nil => rfl
  | cons hd _ ih => simp [values?, hd.1, ih]

/-- A choice chooses. -/
theorem choice_denotes {ts : List SortedTerm} {t : SortedTerm} {vs : List Value}
    (h : choice ts = .ok t) (hv : DenoteAll arith interp ts vs) :
    ∃ v, Expr.operator? arith "ite" vs = some v ∧ Denotes arith interp t v := by
  unfold choice at h
  split at h
  · rename_i c yes no
    obtain ⟨condition, hc, h⟩ := bind_eq_ok_iff.1 h
    split at h
    · rename_i hs
      rw [pure_eq_ok_iff] at h
      subst h
      -- three terms have three values
      cases hv with
      | cons hvc hv =>
        cases hv with
        | cons hvy hv =>
          cases hv with
          | cons hvn hv =>
            cases hv
            rename_i w x y
            obtain ⟨b, rfl, hb⟩ := SortedTerm.asBool_denotes hc hvc
            refine ⟨if b then x else y, rfl, ?_, ?_⟩
            · simp [value?, hb, hvy.1, hvn.1, Value.bool?]
            · cases b
              · exact hvn.2.trans hs.symm
              · exact hvy.2
    · cases h
  · cases h

/-- **Every operator means on terms what it means on values.** -/
theorem apply_denotes {operator : String} {ts : List SortedTerm} {t : SortedTerm}
    {vs : List Value} (h : apply operator ts = .ok t) (hv : DenoteAll arith interp ts vs) :
    ∃ v, Expr.operator? arith operator vs = some v ∧ Denotes arith interp t v := by
  unfold apply at h
  split at h
  case h_1 =>
    simp only [bind_eq_ok_iff, pure_eq_ok_iff] at h
    obtain ⟨terms, ht, rfl⟩ := h
    obtain ⟨bs, rfl, hbs⟩ := SortedTerm.allBool_denotes ht hv
    exact ⟨.bool (bs.all id), by simp [Expr.operator?], by simp [value?, hbs], rfl⟩
  case h_2 =>
    simp only [bind_eq_ok_iff, pure_eq_ok_iff] at h
    obtain ⟨terms, ht, rfl⟩ := h
    obtain ⟨bs, rfl, hbs⟩ := SortedTerm.allBool_denotes ht hv
    exact ⟨.bool (bs.any id), by simp [Expr.operator?], by simp [value?, hbs], rfl⟩
  case h_3 =>
    split at h
    · simp only [bind_eq_ok_iff, pure_eq_ok_iff] at h
      obtain ⟨term, ht, rfl⟩ := h
      cases hv with
      | cons hd hv =>
        cases hv
        obtain ⟨b, rfl, hb⟩ := SortedTerm.asBool_denotes ht hd
        exact ⟨.bool !b, rfl, by simp [value?, hb, Value.bool?], rfl⟩
    · cases h
  case h_4 =>
    obtain ⟨terms, ht, h⟩ := bind_eq_ok_iff.1 h
    obtain ⟨bs, rfl, hbs⟩ := SortedTerm.allBool_denotes ht hv
    split at h
    · cases h
    · rename_i term hterm
      rw [pure_eq_ok_iff] at h
      subst h
      obtain ⟨b, hb, hvalue⟩ := implications_denotes hterm hbs
      exact ⟨.bool b, by simp [Expr.operator?, hb], hvalue, rfl⟩
  case h_5 =>
    obtain ⟨b, hb, ht⟩ := pairwise_denotes relates_equate h hv
    exact ⟨.bool b, by simp [Expr.operator?, hb], ht⟩
  case h_6 =>
    cases h
    refine ⟨.bool (Expr.allDifferent vs), rfl, ?_, rfl⟩
    simp [value?, values?_map_term hv, Expr.allDifferent]
  case h_7 =>
    obtain ⟨b, hb, ht⟩ := pairwise_denotes (relates_compare fun _ _ => rfl) h hv
    exact ⟨.bool b, by simp [Expr.operator?, hb], ht⟩
  case h_8 =>
    obtain ⟨b, hb, ht⟩ := pairwise_denotes (relates_compare fun _ _ => rfl) h hv
    exact ⟨.bool b, by simp [Expr.operator?, hb], ht⟩
  case h_9 =>
    obtain ⟨b, hb, ht⟩ := pairwise_denotes (relates_compare fun _ _ => rfl) h hv
    exact ⟨.bool b, by simp [Expr.operator?, hb], ht⟩
  case h_10 =>
    obtain ⟨b, hb, ht⟩ := pairwise_denotes (relates_compare fun _ _ => rfl) h hv
    exact ⟨.bool b, by simp [Expr.operator?, hb], ht⟩
  case h_11 =>
    obtain ⟨q, hq, ht⟩ := leftwards_denotes h hv
    exact ⟨.real q, congrArg (Option.map Value.real) hq, ht⟩
  case h_12 =>
    obtain ⟨q, hq, ht⟩ := leftwards_denotes h hv
    exact ⟨.real q, congrArg (Option.map Value.real) hq, ht⟩
  case h_13 =>
    obtain ⟨q, hq, ht⟩ := leftwards_denotes h hv
    exact ⟨.real q, congrArg (Option.map Value.real) hq, ht⟩
  case h_14 =>
    split at h
    · simp only [bind_eq_ok_iff, pure_eq_ok_iff] at h
      obtain ⟨term, ht, rfl⟩ := h
      cases hv with
      | cons hd hv =>
        cases hv
        obtain ⟨q, rfl, hq⟩ := SortedTerm.asReal_denotes ht hd
        exact ⟨.real (-q), rfl, by simp [value?, hq, Value.real?], rfl⟩
    · rename_i hone
      obtain ⟨q, hq, ht⟩ := leftwards_denotes h hv
      refine ⟨.real q, ?_, ht⟩
      have hmany : ∀ v, vs ≠ [v] := by
        rintro v rfl
        cases hv with
        | cons hd hv =>
          cases hv
          exact hone _ rfl
      have hop : Expr.operator? arith "-" vs =
          ((Value.reals? vs).bind (Expr.folded? (· - ·))).map .real := by
        rcases vs with _ | ⟨v, _ | ⟨w, rest⟩⟩
        · rfl
        · exact absurd rfl (hmany v)
        · rfl
      rw [hop]
      exact congrArg (Option.map Value.real) hq
  case h_15 => exact choice_denotes h hv
  case h_16 => cases h

/-! ## Expressions -/

/-- Every name at hand has a term whose value is the name's. -/
def Models (arith : Arithmetic) (interp : Interpretation) (scope : Table SortedTerm)
    (env : String → Option Value) : Prop :=
  ∀ name t, scope.get? name = some t → ∃ v, env name = some v ∧ Denotes arith interp t v

/-- A name that is bound to a term with a value is bound to the value. -/
theorem Models.bind_set {scope : Table SortedTerm} {env : String → Option Value}
    {bound : List (String × Value)} {name : String} {t : SortedTerm} {v : Value}
    (hm : Models arith interp scope (Expr.bind env bound)) (hv : Denotes arith interp t v) :
    Models arith interp (scope.set name t) (Expr.bind env ((name, v) :: bound)) := by
  intro other u hu
  rw [Table.get?_set] at hu
  by_cases h : other = name
  · subst h
    rw [if_pos rfl, Option.some.injEq] at hu
    exact ⟨v, by simp [Expr.bind], hu ▸ hv⟩
  · rw [if_neg h] at hu
    obtain ⟨w, hw, hd⟩ := hm other u hu
    refine ⟨w, ?_, hd⟩
    rw [← hw, Expr.bind, Expr.bind, List.lookup_cons, beq_false_of_ne h]

/-- A name has the value of its term. -/
theorem ofName_denotes {scope : Table SortedTerm} {env : String → Option Value}
    (hm : Models arith interp scope env) {name : String} {t : SortedTerm}
    (h : ofName scope name = .ok t) :
    ∃ v, Expr.named? arith env name = some v ∧ Denotes arith interp t v := by
  unfold ofName at h
  unfold Expr.named?
  split at h
  · cases h
    exact ⟨.bool true, by simp_all, rfl, rfl⟩
  · split at h
    · cases h
      exact ⟨.bool false, by simp_all, rfl, rfl⟩
    · split at h
      · cases h
        exact ⟨.real (arith.numeral name), by simp_all, rfl, rfl⟩
      · split at h
        · cases h
        · rename_i found
          cases h
          obtain ⟨v, hv, hd⟩ := hm name t found
          exact ⟨v, by simp_all, hd⟩

mutual

/-- **A lowered expression keeps its value**, in every scope that models the
variables. -/
theorem ofExpr_denotes {scope : Table SortedTerm} {env : String → Option Value}
    (hm : Models arith interp scope env) :
    ∀ (e : Expr) {t : SortedTerm}, e.LetShaped → ofExpr scope e = .ok t →
      ∃ v, e.value? arith env = some v ∧ Denotes arith interp t v
  | .node name _ [], t, _, h => by
    rw [ofExpr] at h
    rw [Expr.value?]
    exact ofName_denotes hm h
  | .node name _ (arg :: args), t, hshape, h => by
    rw [ofExpr] at h
    rw [Expr.value?]
    rw [Expr.LetShaped] at hshape
    by_cases hlet : name = "let"
    · rw [if_pos hlet] at h ⊢
      exact ofLet_denotes hm [] (fun other u hu => hm other u hu) (arg :: args)
        (hshape.1 hlet) hshape.2 h
    · rw [if_neg hlet] at h ⊢
      obtain ⟨ts, hts, ht⟩ := bind_eq_ok_iff.1 h
      obtain ⟨vs, hvs, hd⟩ := ofExprs_denotes hm (arg :: args) hshape.2 hts
      obtain ⟨v, hv, hdv⟩ := apply_denotes ht hd
      exact ⟨v, by rw [hvs]; exact hv, hdv⟩

/-- Lowered expressions keep their values. -/
theorem ofExprs_denotes {scope : Table SortedTerm} {env : String → Option Value}
    (hm : Models arith interp scope env) :
    ∀ (es : List Expr) {ts : List SortedTerm}, Expr.LetShapedAll es → ofExprs scope es = .ok ts →
      ∃ vs, Expr.values? arith env es = some vs ∧ DenoteAll arith interp ts vs
  | [], ts, _, h => by
    cases h
    exact ⟨[], rfl, .nil⟩
  | e :: es, ts, hshape, h => by
    simp only [ofExprs, bind_eq_ok_iff, pure_eq_ok_iff] at h
    obtain ⟨t, ht, rest, hrest, rfl⟩ := h
    obtain ⟨v, hv, hd⟩ := ofExpr_denotes hm e hshape.1 ht
    obtain ⟨vs, hvs, hds⟩ := ofExprs_denotes hm es hshape.2 hrest
    exact ⟨v :: vs, by simp [Expr.values?, hv, hvs], .cons hd hds⟩

/-- A lowered `let` keeps its value: the scope that the bindings so far have
extended models the variables with the values bound so far. -/
theorem ofLet_denotes {scope : Table SortedTerm} {env : String → Option Value}
    (hm : Models arith interp scope env) (bound : List (String × Value))
    {inner : Table SortedTerm} (hinner : Models arith interp inner (Expr.bind env bound)) :
    ∀ (args : List Expr) {t : SortedTerm},
      (∀ binding ∈ args.dropLast, binding.args.length = 1) → Expr.LetShapedAll args →
      ofLet scope inner args = .ok t →
      ∃ v, Expr.letValue? arith env bound args = some v ∧ Denotes arith interp t v
  | [], t, _, _, h => by cases h
  | [body], t, _, hshape, h => by
    rw [ofLet] at h
    rw [Expr.letValue?]
    exact ofExpr_denotes hinner body hshape.1 h
  | .node name sort [] :: next :: rest, t, hone, _, _ => by
    have h := hone (.node name sort []) (by simp)
    cases h
  | .node name sort (value :: value' :: more) :: next :: rest, t, hone, _, _ => by
    have h := hone (.node name sort (value :: value' :: more)) (by simp)
    simp at h
  | .node name sort [value] :: next :: rest, t, hone, hshape, h => by
    rw [ofLet] at h
    obtain ⟨u, hu, h⟩ := bind_eq_ok_iff.1 h
    have hvalue : value.LetShaped := by
      have hb := hshape.1
      rw [Expr.LetShaped] at hb
      exact hb.2.1
    obtain ⟨v, hv, hd⟩ := ofExpr_denotes hm value hvalue hu
    obtain ⟨w, hw, hdw⟩ := ofLet_denotes hm ((name, v) :: bound) (hinner.bind_set hd)
      (next :: rest) (fun b hb => hone b (List.mem_cons_of_mem _ hb)) hshape.2 h
    exact ⟨w, by simp [Expr.letValue?, hv, hw], hdw⟩

end

end Term

/-! ## Declared variables -/

namespace Backend

/-- The back end after declarations, one after another. -/
def declareAll (backend : Backend) (declarations : List (String × BaseSort)) : Backend :=
  declarations.foldl (fun b d => b.declare d.1 d.2) backend

end Backend

/-- The value of a variable of this sort: that of the constant of its
symbol. -/
def Interpretation.valueOf (interp : Interpretation) (name : String) (sort : BaseSort) : Value :=
  interp.value sort (Term.symbolOf name)

/-- The values that an interpretation gives declared variables; the latest
declaration of a name counts. -/
def Interpretation.variables (interp : Interpretation)
    (declarations : List (String × BaseSort)) (name : String) : Option Value :=
  (declarations.reverse.lookup name).map (interp.valueOf name)

namespace Term

/-- What is declared after declarations: the constant of the name, at the
sort of its latest declaration. -/
theorem get?_declareAll (backend : Backend) (declarations : List (String × BaseSort))
    (name : String) :
    (backend.declareAll declarations).declared.get? name =
      ((declarations.reverse.lookup name).map (ofDeclaration name)).or
        (backend.declared.get? name) := by
  induction declarations generalizing backend with
  | nil => rfl
  | cons d ds ih =>
    obtain ⟨other, sort⟩ := d
    have hcons : backend.declareAll ((other, sort) :: ds) =
        (backend.declare other sort).declareAll ds := rfl
    rw [hcons, ih, List.reverse_cons, List.lookup_append]
    cases ds.reverse.lookup name with
    | some sort => rfl
    | none =>
      by_cases h : name = other
      · simp [Backend.declare, h]
      · simp [Backend.declare, h, List.lookup_cons, beq_false_of_ne h]

/-- A table of declared constants models the variables that they stand for. -/
theorem models_of_get? {declared : Table SortedTerm} {sorts : String → Option BaseSort}
    (interp : Interpretation)
    (h : ∀ name, declared.get? name = (sorts name).map (ofDeclaration name)) :
    Models arith interp declared fun name => (sorts name).map (interp.valueOf name) := by
  intro name t ht
  rw [h] at ht
  obtain ⟨sort, hsort, rfl⟩ := Option.map_eq_some_iff.1 ht
  refine ⟨interp.valueOf name sort, ?_, rfl, interp.sort_value sort _⟩
  show (sorts name).map _ = _
  rw [hsort, Option.map_some]

/-- So do the constants of declarations. -/
theorem models_declareAll (interp : Interpretation) (library : Library)
    (declarations : List (String × BaseSort)) :
    Models arith interp (Backend.declareAll { library } declarations).declared
      (interp.variables declarations) := by
  refine models_of_get? interp fun name => ?_
  rw [get?_declareAll]
  exact Option.or_none

/-- **Lowering keeps the meaning.** For every choice of arithmetic, every
interpretation of the constants and every variables that were declared, an
expression that has a term has a value by its reference meaning; the term
has the same value, and it is of the term's sort. -/
theorem value?_ofExpr (arith : Arithmetic) (interp : Interpretation) (library : Library)
    (declarations : List (String × BaseSort)) {e : Expr} {t : SortedTerm} (hshape : e.LetShaped)
    (h : ofExpr (Backend.declareAll { library } declarations).declared e = .ok t) :
    ∃ v, e.value? arith (interp.variables declarations) = some v ∧
      t.term.value? arith interp = some v ∧ v.sort = t.sort :=
  ofExpr_denotes (models_declareAll interp library declarations) e hshape h

/-- The names of a `let` are bound at once: in
`(let ((x (- x)) (y x)) (=> (< y x) (= x 1/2)))` the second value is the
declared `x`, and the term says so. -/
theorem value?_ofExpr_parallel_let :
    let x : Expr := .leaf "x" .real
    let e : Expr := .node "let" .bool
      [.node "x" .real [.node "-" .real [x]], .node "y" .real [x],
       .node "=>" .bool
        [.node "<" .bool [.leaf "y" .real, x],
         .node "=" .bool [x, .leaf "1/2" .real]]]
    let c : Term := .constant .real "x"
    let t : Term := .implies (.relate .lt c (.neg c)) (.relate .eq (.neg c) (.numeral "1/2"))
    let backend := Backend.declareAll { library := { answers := ⟨[]⟩ } } [("x", .real)]
    let interp : Interpretation := ⟨fun _ => false, fun _ => -1 / 2⟩
    e.LetShaped ∧ ofExpr backend.declared e = .ok ⟨.bool, t⟩ ∧
      ∃ v, e.value? .standard (interp.variables [("x", .real)]) = some v ∧
        t.value? .standard interp = some v ∧ v.sort = .bool := by
  intro x e c t backend interp
  have hshape : e.LetShaped := by
    simp [e, x, Expr.leaf, Expr.LetShaped, Expr.LetShapedAll]
  have h : ofExpr backend.declared e = .ok ⟨.bool, t⟩ := by rfl
  exact ⟨hshape, h, value?_ofExpr .standard interp _ _ hshape h⟩

end Term

end SatScript
