import SatScript.Form.Reader
import SatScript.Proofs.Session.Names
import SatScript.Proofs.Term.Symbol
/-!
# SatScript — declared names are unknowns of their own

The scope of a session tells names apart by their texts, the back end by sort
and symbol, which leaves bars off. Every name of the scope stands for the
constant of its symbol at its sort (`ConstantsDeclared`), whatever was declared
before and declared again. So two names are one unknown just if they are twins
of one sort, and an assertion that is added says of the unknowns what it says of
the names (`declared_unknowns`).
-/

namespace SatScript

namespace Session

variable {options : Options} {session : Session Backend}

/-- The names of the scope, and no others, stand for the constants of their symbols
at their sorts. -/
def ConstantsDeclared (session : Session Backend) : Prop :=
  ∀ name, session.solver.declared.get? name =
    (session.scope.lookup name).map (Term.ofDeclaration name)

namespace ConstantsDeclared

theorem new (library : Library) (timeout : Option Number) :
    ConstantsDeclared { solver := Backend.start library timeout } := by
  intro name
  rw [Backend.declared_start]
  rfl

/-- **Every step keeps the constants**: a name that is declared again has the
constant of its new sort on both sides. -/
theorem step (h : ConstantsDeclared session) (form : Form) :
    ConstantsDeclared (session.step options form).1 := by
  intro other
  rcases scope_eq_step options session form with
    ⟨hscope, hdeclared⟩ | ⟨name, sort, hscope, hdeclared⟩
  · rw [hscope, hdeclared]
    exact h other
  · rw [hscope, hdeclared, Table.get?_set, Scope.lookup_define]
    by_cases hother : other = name
    · rw [if_pos hother, if_pos hother, hother, Option.map_some]
    · rw [if_neg hother, if_neg hother]
      exact h other

/-- The constants model the variables, whatever they are taken to be. -/
theorem models (h : ConstantsDeclared session) (arith : Arithmetic) (interp : Interpretation) :
    Term.Models arith interp session.solver.declared (interp.env session.scope) :=
  Term.models_of_get? interp h

/-- **What is added says what was asserted**: the term has the value that the
assertion has when every name has the value of its constant. -/
theorem added (h : ConstantsDeclared session) {fractional : Bool} {body : Form} {expr : Expr}
    {solver : Backend}
    (helaborated : (Expr.ofForm fractional session.scope body).result = .ok expr)
    (hasserted : Solver.assert session.solver expr = .ok solver) :
    ∃ term, solver.library.log = session.solver.library.log ++ [.add term] ∧
      ∀ arith interp, ∃ b, expr.value? arith (interp.env session.scope) = some (.bool b) ∧
        term.value? arith interp = some (.bool b) := by
  have hshape := Expr.letShaped_of_elaborates (Expr.elaborates_of_ofForm body helaborated)
  obtain ⟨term, hterm, hsolver⟩ := Backend.exists_of_assert hasserted
  unfold Term.ofAssertion at hterm
  obtain ⟨t, ht, hbool⟩ := bind_eq_ok_iff.1 hterm
  refine ⟨term, ?_, ?_⟩
  · rw [hsolver]
    rfl
  · intro arith interp
    obtain ⟨v, hv, hdenotes⟩ := Term.ofExpr_denotes (h.models arith interp) expr hshape ht
    obtain ⟨b, rfl, hb⟩ := SortedTerm.asBool_denotes hbool hdenotes
    exact ⟨b, hv, hb⟩

end ConstantsDeclared

/-- **Declared names are unknowns of their own, but for names in bars.** Behind any
forms, failing ones included, let two names be bound in the scope. Both stand for
constants of their sorts, and these differ in symbol or sort unless the names are
of one sort and one is the other in bars. Nor are there ties between more names:
the constants can stand for any values of the sorts of all bound names, as long as
such twins have one value. And an assertion that is taken adds a term that is true
just where the assertion is, when each name has the value of its constant. -/
theorem declared_unknowns (library : Library) (timeout : Option Number) (options : Options)
    (forms : List Form) {m n : String} {s t : BaseSort} (hne : m ≠ n)
    (hm : (steps options { solver := Backend.start library timeout } forms).scope.lookup m =
      some s)
    (hn : (steps options { solver := Backend.start library timeout } forms).scope.lookup n =
      some t) :
    let session := steps options { solver := Backend.start library timeout } forms
    (∃ x y, session.solver.declared.get? m = some ⟨s, .constant s x⟩ ∧
      session.solver.declared.get? n = some ⟨t, .constant t y⟩ ∧
      (s ≠ t ∨ x ≠ y ↔ ¬ (s = t ∧ Term.Twins m n))) ∧
    (∀ values, (∃ interp : Interpretation, interp.env session.scope = values) ↔
      (∀ name, (values name).map Value.sort = session.scope.lookup name) ∧
      ∀ name other, Term.Twins name other →
        session.scope.lookup name = session.scope.lookup other → values name = values other) ∧
    ∀ fractional body expr solver,
      (Expr.ofForm fractional session.scope body).result = .ok expr →
      Solver.assert session.solver expr = .ok solver →
      ∃ term, solver.library.log = session.solver.library.log ++ [.add term] ∧
        ∀ arith interp, ∃ b, expr.value? arith (interp.env session.scope) = some (.bool b) ∧
          term.value? arith interp = some (.bool b) := by
  intro session
  have hdeclared : ConstantsDeclared session :=
    steps_induction (.new library timeout) (fun _ form h => h.step form) forms
  refine ⟨⟨Term.symbolOf m, Term.symbolOf n, ?_, ?_, ?_⟩, Interpretation.exists_env_iff _, ?_⟩
  · rw [hdeclared, hm]
    rfl
  · rw [hdeclared, hn]
    rfl
  · rw [← not_and_or, not_iff_not, Term.symbolOf_eq_iff, or_iff_right hne]
  · intro fractional body expr solver helaborated hasserted
    exact hdeclared.added helaborated hasserted

/-- One symbol at two sorts: `a` of sort `Real` and `|a|` of sort `Bool` are two
unknowns. -/
theorem declared_unknowns_sorts :
    let forms := SatScript.forms "(declare-fun a () Real)(declare-fun |a| () Bool)".toList
    let session := steps {} { solver := Backend.start { answers := ⟨[]⟩ } none } forms
    "a" ≠ "|a|" ∧ session.scope.lookup "a" = some .real ∧
      session.scope.lookup "|a|" = some .bool ∧
      ∃ x y, session.solver.declared.get? "a" = some ⟨.real, .constant .real x⟩ ∧
        session.solver.declared.get? "|a|" = some ⟨.bool, .constant .bool y⟩ ∧
        (BaseSort.real ≠ .bool ∨ x ≠ y) := by
  intro forms session
  have hforms : SatScript.forms "(declare-fun a () Real)(declare-fun |a| () Bool)".toList =
      [.list [.atom "declare-fun" 1 12, .atom "a" 13 14, .list [] 15 17, .atom "Real" 18 22] 0 23,
       .list [.atom "declare-fun" 24 35, .atom "|a|" 36 39, .list [] 40 42, .atom "Bool" 43 47]
        23 48] := by cbv
  have hne : "a" ≠ "|a|" := by decide
  have hsession : session = steps {} { solver := Backend.start { answers := ⟨[]⟩ } none } _ :=
    congrArg (steps {} _) hforms
  have hm : session.scope.lookup "a" = some .real := by
    rw [hsession]
    rfl
  have hn : session.scope.lookup "|a|" = some .bool := by
    rw [hsession]
    rfl
  obtain ⟨⟨x, y, hx, hy, hdiffer⟩, -⟩ := declared_unknowns _ none {} forms hne hm hn
  exact ⟨hne, hm, hn, x, y, hx, hy, hdiffer.2 fun h => absurd h.1 (by decide)⟩

/-- **A name and the same name in bars are one unknown** if they are of one sort,
though they were declared apart: an assertion that they are distinct adds that one
constant is distinct from itself. -/
theorem declared_unknowns_bars :
    let forms := SatScript.forms
      "(declare-fun a () Real)(declare-fun |a| () Real)(assert (distinct a |a|))".toList
    let session := steps {} { solver := Backend.start { answers := ⟨[]⟩ } none } forms
    "a" ≠ "|a|" ∧ session.scope.lookup "a" = some .real ∧
      session.scope.lookup "|a|" = some .real ∧
      session.solver.declared.get? "a" = some ⟨.real, .constant .real "a"⟩ ∧
      session.solver.declared.get? "|a|" = some ⟨.real, .constant .real "a"⟩ ∧
      session.solver.library.log = [.load, .context,
        .add (.distinct [.constant .real "a", .constant .real "a"])] := by
  intro forms session
  have hforms : SatScript.forms
      "(declare-fun a () Real)(declare-fun |a| () Real)(assert (distinct a |a|))".toList =
      [.list [.atom "declare-fun" 1 12, .atom "a" 13 14, .list [] 15 17, .atom "Real" 18 22] 0 23,
       .list [.atom "declare-fun" 24 35, .atom "|a|" 36 39, .list [] 40 42, .atom "Real" 43 47]
        23 48,
       .list [.atom "assert" 49 55,
        .list [.atom "distinct" 57 65, .atom "a" 66 67, .atom "|a|" 68 71] 56 72] 48 73] := by cbv
  have hsession : session = steps {} { solver := Backend.start { answers := ⟨[]⟩ } none } _ :=
    congrArg (steps {} _) hforms
  rw [hsession]
  exact ⟨by decide, rfl, rfl, rfl, rfl, rfl⟩

end Session

end SatScript
