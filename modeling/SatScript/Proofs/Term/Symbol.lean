import SatScript.Proofs.Term.Elaboration
import SatScript.Proofs.Term.Lowering
/-!
# SatScript — the symbols of names

Bars around a name are quotes and no part of its symbol, so a name and the same
name in bars have one symbol (`Term.Twins`), and no other two names have
(`symbolOf_eq_iff`). At one sort they are one constant. Apart from that a
constant takes any value whatever the others are: interpretations give the
variables of a scope all values of their sorts that are the same for twins of
one sort (`Interpretation.exists_env_iff`).
-/

namespace SatScript

namespace Term

/-! ## Names in bars -/

/-- The symbol in bars. -/
def inBars (symbol : String) : String := "|" ++ symbol ++ "|"

/-- One of two names has no bars around it, and the other is this name in bars. -/
def Twins (m n : String) : Prop :=
  (symbolOf m = m ∧ n = inBars m) ∨ (symbolOf n = n ∧ m = inBars n)

instance (m n : String) : Decidable (Twins m n) :=
  inferInstanceAs (Decidable ((symbolOf m = m ∧ n = inBars m) ∨ (symbolOf n = n ∧ m = inBars n)))

variable {m n : String}

theorem toList_inBars (symbol : String) :
    (inBars symbol).toList = '|' :: (symbol.toList ++ ['|']) := by
  simp [inBars]

/-- **The bars come off**, one on each side. -/
@[simp] theorem symbolOf_inBars (symbol : String) : symbolOf (inBars symbol) = symbol := by
  unfold symbolOf
  rw [toList_inBars]
  simp

/-- A name is its symbol, or its symbol in bars. -/
theorem eq_symbolOf_or_inBars (name : String) :
    name = symbolOf name ∨ name = inBars (symbolOf name) := by
  unfold symbolOf
  split
  · rename_i rest hname
    split
    · rename_i hlast
      have hrest : rest.dropLast ++ ['|'] = rest := List.dropLast_append_getLast? '|' hlast
      right
      apply String.toList_injective
      rw [toList_inBars, String.toList_ofList, hrest, hname]
    · exact .inl rfl
  · exact .inl rfl

theorem Twins.symm (h : Twins m n) : Twins n m := Or.symm h

theorem Twins.symbolOf_eq (h : Twins m n) : symbolOf m = symbolOf n := by
  rcases h with ⟨hm, rfl⟩ | ⟨hn, rfl⟩
  · rw [symbolOf_inBars, hm]
  · rw [symbolOf_inBars, hn]

/-- **Names have one symbol just if they are the same or twins.** -/
theorem symbolOf_eq_iff : symbolOf m = symbolOf n ↔ m = n ∨ Twins m n := by
  constructor
  · intro h
    rcases eq_symbolOf_or_inBars m with hm | hm <;> rcases eq_symbolOf_or_inBars n with hn | hn
    · left
      rw [hm, h, ← hn]
    · right
      left
      rw [← h, ← hm] at hn
      exact ⟨hm.symm, hn⟩
    · right
      right
      rw [h, ← hn] at hm
      exact ⟨hn.symm, hm⟩
    · left
      rw [hm, h, ← hn]
  · rintro (rfl | h)
    · rfl
    · exact h.symbolOf_eq

end Term

/-! ## The values of variables -/

namespace Interpretation

/-- The values that an interpretation gives the variables of a scope. -/
def env (interp : Interpretation) (scope : Scope BaseSort) (name : String) : Option Value :=
  (scope.lookup name).map (interp.valueOf name)

/-- The interpretation of values for the constants; what is no value of the sort
counts as `false` or zero. -/
def ofValues (values : BaseSort → String → Option Value) : Interpretation where
  bool symbol := ((values .bool symbol).bind Value.bool?).getD false
  real symbol := ((values .real symbol).bind Value.real?).getD 0

/-- A value of the sort is what the constant stands for. -/
theorem value_ofValues {values : BaseSort → String → Option Value} {sort : BaseSort}
    {symbol : String} {v : Value} (hvalue : values sort symbol = some v) (hsort : v.sort = sort) :
    (ofValues values).value sort symbol = v := by
  cases v with
  | bool b =>
    subst hsort
    rw [Value.sort] at hvalue
    simp [ofValues, value, Value.sort, hvalue, Value.bool?]
  | real q =>
    subst hsort
    rw [Value.sort] at hvalue
    simp [ofValues, value, Value.sort, hvalue, Value.real?]

/-- The variable that a constant stands for: the one of its symbol, or else the
one of its symbol in bars. -/
def variableOf (scope : Scope BaseSort) (sort : BaseSort) (symbol : String) : String :=
  if Term.symbolOf symbol = symbol ∧ scope.lookup symbol = some sort then symbol
  else Term.inBars symbol

/-- The constant of a variable stands for the variable or its twin. -/
theorem variableOf_symbolOf {scope : Scope BaseSort} {name : String} {sort : BaseSort}
    (hsort : scope.lookup name = some sort) :
    let other := variableOf scope sort (Term.symbolOf name)
    other = name ∨ scope.lookup other = some sort ∧ Term.Twins other name := by
  intro other
  by_cases hplain : Term.symbolOf (Term.symbolOf name) = Term.symbolOf name ∧
      scope.lookup (Term.symbolOf name) = some sort
  · have hother : other = Term.symbolOf name := if_pos hplain
    rw [hother]
    rcases Term.eq_symbolOf_or_inBars name with hname | hname
    · exact .inl hname.symm
    · exact .inr ⟨hplain.2, .inl ⟨hplain.1, hname⟩⟩
  · have hother : other = Term.inBars (Term.symbolOf name) := if_neg hplain
    rw [hother]
    rcases Term.eq_symbolOf_or_inBars name with hname | hname
    · rw [← hname] at hplain
      exact absurd ⟨hname.symm, hsort⟩ hplain
    · exact .inl hname.symm

/-- **Which values variables can have together**: all values of their sorts that
are the same for twins of one sort. -/
theorem exists_env_iff (scope : Scope BaseSort) (values : String → Option Value) :
    (∃ interp : Interpretation, interp.env scope = values) ↔
      (∀ name, (values name).map Value.sort = scope.lookup name) ∧
      ∀ m n, Term.Twins m n → scope.lookup m = scope.lookup n → values m = values n := by
  constructor
  · rintro ⟨interp, rfl⟩
    constructor
    · intro name
      unfold env
      cases scope.lookup name with
      | none => rfl
      | some sort => exact congrArg some (interp.sort_value sort _)
    · intro m n htwins hsame
      unfold env
      rw [hsame]
      cases scope.lookup n with
      | none => rfl
      | some sort =>
        exact congrArg (fun symbol => some (interp.value sort symbol)) htwins.symbolOf_eq
  · rintro ⟨hsorts, htwins⟩
    refine ⟨ofValues fun sort symbol => values (variableOf scope sort symbol), ?_⟩
    funext name
    have hname := hsorts name
    unfold env
    cases hsort : scope.lookup name with
    | none =>
      rw [hsort, Option.map_eq_none_iff] at hname
      exact hname.symm
    | some sort =>
      rw [hsort] at hname
      obtain ⟨v, hv, hvsort⟩ := Option.map_eq_some_iff.1 hname
      have hsame : values (variableOf scope sort (Term.symbolOf name)) = values name := by
        rcases variableOf_symbolOf hsort with h | ⟨hother, h⟩
        · rw [h]
        · exact htwins _ _ h (hother.trans hsort.symm)
      rw [Option.map_some, hv]
      exact congrArg some (value_ofValues (hsame.trans hv) hvsort)

end Interpretation

/-! ## What elaborated expressions say -/

namespace Expr

variable {fractional : Bool}

/-- An atom comes to an expression without arguments. -/
theorem exists_leaf_of_ofAtom {scope : Scope BaseSort} {text : String} {span : Span} {expr : Expr}
    (h : ofAtom fractional scope text span = .ok expr) : ∃ name sort, expr = leaf name sort := by
  unfold ofAtom at h
  repeat' split at h
  all_goals cases h
  all_goals exact ⟨_, _, rfl⟩

theorem letShaped_leaf (name : String) (sort : BaseSort) : (leaf name sort).LetShaped := by
  rw [leaf, LetShaped]
  exact ⟨fun _ _ hmem => absurd hmem List.not_mem_nil, trivial⟩

theorem letShapedAll_append {first second : List Expr} (hfirst : LetShapedAll first)
    (hsecond : LetShapedAll second) : LetShapedAll (first ++ second) := by
  induction first with
  | nil => exact hsecond
  | cons expr first ih => exact ⟨hfirst.1, ih hfirst.2⟩

mutual

/-- What a form comes to has a value for every name that a `let` binds. -/
theorem letShaped_of_elaborates : ∀ {scope : Scope BaseSort} {form : Form} {expr : Expr},
    Elaborates fractional scope form expr → expr.LetShaped
  | _, _, _, .atom h => by
    obtain ⟨name, sort, rfl⟩ := exists_leaf_of_ofAtom h
    exact letShaped_leaf name sort
  | _, _, _, .operator hlet hargs hfound => by
    obtain ⟨sort, rfl⟩ := exists_node_of_ofOperator? hfound
    rw [LetShaped]
    exact ⟨fun h => absurd h hlet, letShaped_of_elaboratesAll hargs⟩
  | _, _, _, .letIn hbound hinner => by
    obtain ⟨hone, hall⟩ := letShaped_of_elaboratesBindings hbound
    rw [letIn, LetShaped, List.dropLast_concat]
    exact ⟨fun _ => hone, letShapedAll_append hall ⟨letShaped_of_elaborates hinner, trivial⟩⟩

theorem letShaped_of_elaboratesAll : ∀ {scope : Scope BaseSort} {forms : List Form}
    {exprs : List Expr}, ElaboratesAll fractional scope forms exprs → LetShapedAll exprs
  | _, _, _, .nil => trivial
  | _, _, _, .cons hform hforms =>
    ⟨letShaped_of_elaborates hform, letShaped_of_elaboratesAll hforms⟩

theorem letShaped_of_elaboratesBindings : ∀ {scope : Scope BaseSort} {bindings : List Form}
    {bound : List Expr}, ElaboratesBindings fractional scope bindings bound →
    (∀ binding ∈ bound, binding.args.length = 1) ∧ LetShapedAll bound
  | _, _, _, .nil => ⟨fun _ hmem => absurd hmem List.not_mem_nil, trivial⟩
  | _, _, _, .cons hvalue hmore => by
    obtain ⟨hone, hall⟩ := letShaped_of_elaboratesBindings hmore
    refine ⟨?_, ?_, hall⟩
    · intro binding hmem
      rcases List.mem_cons.1 hmem with rfl | hmem
      · rfl
      · exact hone binding hmem
    · rw [Expr.bound, LetShaped]
      exact ⟨fun _ _ hmem => absurd hmem List.not_mem_nil, letShaped_of_elaborates hvalue, trivial⟩

end

end Expr

end SatScript
