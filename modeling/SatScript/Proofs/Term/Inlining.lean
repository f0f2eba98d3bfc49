import SatScript.Proofs.Computation
import SatScript.Term.Backend
/-!
# SatScript — a `let` is a substitution

`Expr.inlined` writes the values of a `let` in the place of the names that it
binds, so that no `let` is left. The values are inlined around the `let`, an
inner binding hides an outer one, and of several bindings of a name the last
counts. Nothing can be captured, since what binds names is gone. The lowering
does the same with terms: an expression that has a term has this very term when
it is inlined (`ofExpr_inlined`). It is not the other way round, for a value
that has no term is gone with its name if nothing refers to it.
-/

namespace SatScript

namespace Expr

/-- Whether a name stands for a value by itself: a truth value or a numeral. No
binding changes that. -/
def isLiteral (name : String) : Bool :=
  name == "true" || name == "false" || Numeral.startsNumeral name

mutual

/-- The expression with values in the place of names; of several values for one
name the first in the list counts. -/
def inline (values : List (String × Expr)) : Expr → Expr
  | .node name sort [] =>
    if isLiteral name then leaf name sort else (values.lookup name).getD (leaf name sort)
  | .node name sort (arg :: args) =>
    if name = "let" then inlineLet values values (arg :: args)
    else .node name sort (inlineAll values (arg :: args))

/-- Several expressions with values in the place of names. -/
def inlineAll (values : List (String × Expr)) : List Expr → List Expr
  | [] => []
  | expr :: exprs => inline values expr :: inlineAll values exprs

/-- The body of a `let` with values in the place of names. The values that are
bound are inlined around the `let`, the body with those that are bound before
it; the later of two bindings of one name comes to stand first. -/
def inlineLet (values inner : List (String × Expr)) : List Expr → Expr
  | [] => default
  | [body] => inline inner body
  | .node _ _ [] :: next :: rest => inlineLet values inner (next :: rest)
  | .node name _ (value :: _) :: next :: rest =>
    inlineLet values ((name, inline values value) :: inner) (next :: rest)

end

/-- The expression without `let`: values stand in the place of the names that it
binds. -/
def inlined (expr : Expr) : Expr := expr.inline []

mutual

/-- There is no `let` in the expression. -/
def LetFree : Expr → Prop
  | .node _ _ [] => True
  | .node name _ (arg :: args) => name ≠ "let" ∧ LetFreeAll (arg :: args)

/-- There is none in the expressions. -/
def LetFreeAll : List Expr → Prop
  | [] => True
  | expr :: exprs => LetFree expr ∧ LetFreeAll exprs

end

/-! ## Nothing is left of a `let` -/

/-- No value that stands for a name holds a `let`. -/
def LetFreeValues (values : List (String × Expr)) : Prop :=
  ∀ name value, values.lookup name = some value → LetFree value

/-- A value more that holds none. -/
theorem LetFreeValues.cons {values : List (String × Expr)} (h : LetFreeValues values)
    (name : String) {value : Expr} (hvalue : LetFree value) :
    LetFreeValues ((name, value) :: values) := by
  intro other found hfound
  rw [List.lookup_cons] at hfound
  split at hfound
  · rwa [← Option.some.inj hfound]
  · exact h other found hfound

mutual

/-- **No `let` is left** where values stand for names. -/
theorem letFree_inline : ∀ (expr : Expr) {values : List (String × Expr)},
    LetFreeValues values → LetFree (expr.inline values)
  | .node name sort [], values, h => by
    rw [inline]
    split
    · trivial
    · cases hvalue : values.lookup name with
      | none => trivial
      | some value => exact h name value hvalue
  | .node name sort (arg :: args), values, h => by
    rw [inline]
    by_cases hlet : name = "let"
    · rw [if_pos hlet]
      exact letFree_inlineLet (arg :: args) h h
    · rw [if_neg hlet]
      exact ⟨hlet, letFreeAll_inlineAll (arg :: args) h⟩

theorem letFreeAll_inlineAll : ∀ (exprs : List Expr) {values : List (String × Expr)},
    LetFreeValues values → LetFreeAll (inlineAll values exprs)
  | [], _, _ => trivial
  | expr :: exprs, _, h => ⟨letFree_inline expr h, letFreeAll_inlineAll exprs h⟩

theorem letFree_inlineLet : ∀ (args : List Expr) {values inner : List (String × Expr)},
    LetFreeValues values → LetFreeValues inner → LetFree (inlineLet values inner args)
  | [], _, _, _, _ => trivial
  | [body], _, _, _, hinner => by
    rw [inlineLet]
    exact letFree_inline body hinner
  | .node _ _ [] :: next :: rest, _, _, h, hinner => by
    rw [inlineLet]
    exact letFree_inlineLet (next :: rest) h hinner
  | .node name _ (value :: _) :: next :: rest, _, _, h, hinner => by
    rw [inlineLet]
    exact letFree_inlineLet (next :: rest) h (hinner.cons name (letFree_inline value h))

end

end Expr

namespace Term

/-! ## Values and their terms -/

/-- The inner table gives a name that a value stands for the term of the value,
and any other name the term that it has in the table. -/
structure Unfolds (table inner : Table SortedTerm) (values : List (String × Expr)) : Prop where
  bound : ∀ name value, values.lookup name = some value →
    ∃ t, inner.get? name = some t ∧ ofExpr table value = .ok t
  free : ∀ name, values.lookup name = none → inner.get? name = table.get? name

namespace Unfolds

variable {table inner : Table SortedTerm} {values : List (String × Expr)}

/-- Where no value stands for a name the tables are the same. -/
theorem refl (table : Table SortedTerm) : Unfolds table table [] where
  bound _ _ h := nomatch h
  free _ _ := rfl

/-- **A name that is bound to a term is one that its value stands for.** -/
theorem set (h : Unfolds table inner values) (name : String) {value : Expr} {t : SortedTerm}
    (hvalue : ofExpr table value = .ok t) :
    Unfolds table (inner.set name t) ((name, value) :: values) := by
  constructor
  · intro other found hfound
    rw [Table.get?_set]
    by_cases hother : other = name
    · rw [hother, List.lookup_cons_self] at hfound
      rw [if_pos hother]
      exact ⟨t, rfl, Option.some.inj hfound ▸ hvalue⟩
    · rw [List.lookup_cons, beq_false_of_ne hother] at hfound
      rw [if_neg hother]
      exact h.bound other found hfound
  · intro other hfound
    rw [List.lookup_cons] at hfound
    by_cases hother : other = name
    · rw [hother, beq_self_eq_true] at hfound
      cases hfound
    · rw [beq_false_of_ne hother] at hfound
      rw [Table.get?_set, if_neg hother]
      exact h.free other hfound

/-- A name has the term of what stands for it. -/
theorem ofName (h : Unfolds table inner values) {name : String} {sort : BaseSort} {t : SortedTerm}
    (ht : Term.ofName inner name = .ok t) :
    ofExpr table ((Expr.leaf name sort).inline values) = .ok t := by
  rw [Expr.leaf, Expr.inline]
  by_cases hliteral : Expr.isLiteral name = true
  · -- a literal is looked up in no table
    rw [if_pos hliteral, Expr.leaf, ofExpr, ← ht]
    simp only [Expr.isLiteral, Bool.or_eq_true, beq_iff_eq] at hliteral
    unfold Term.ofName
    rcases hliteral with (rfl | rfl) | hnumeral
    · rfl
    · rfl
    · rw [if_pos hnumeral, if_pos hnumeral]
  · rw [if_neg hliteral]
    simp only [Expr.isLiteral, Bool.or_eq_true, beq_iff_eq, not_or] at hliteral
    obtain ⟨⟨htrue, hfalse⟩, hnumeral⟩ := hliteral
    have hname (known : Table SortedTerm) : Term.ofName known name =
        (known.get? name).elim (.error (.noTerm name)) .ok := by
      rw [Term.ofName, if_neg htrue, if_neg hfalse, if_neg hnumeral]
      generalize known.get? name = found
      cases found with
      | none => rfl
      | some t => rfl
    rw [hname] at ht
    cases hvalue : values.lookup name with
    | none =>
      rw [h.free name hvalue] at ht
      rw [Option.getD_none, Expr.leaf, ofExpr, hname]
      exact ht
    | some value =>
      obtain ⟨found, hfound, hterm⟩ := h.bound name value hvalue
      rw [hfound] at ht
      cases ht
      exact hterm

end Unfolds

/-! ## Expressions -/

mutual

/-- **What has a term has it when it is inlined**, with values in the place of the
names that the tables tell apart. -/
theorem ofExpr_inline : ∀ (expr : Expr) {table inner : Table SortedTerm}
    {values : List (String × Expr)} {t : SortedTerm}, Unfolds table inner values →
    ofExpr inner expr = .ok t → ofExpr table (expr.inline values) = .ok t
  | .node name sort [], _, _, _, _, h, ht => by
    rw [ofExpr] at ht
    exact h.ofName ht
  | .node name sort (arg :: args), table, inner, values, t, h, ht => by
    rw [ofExpr] at ht
    rw [Expr.inline]
    by_cases hlet : name = "let"
    · rw [if_pos hlet] at ht ⊢
      exact ofLet_inline (arg :: args) h h ht
    · rw [if_neg hlet] at ht ⊢
      obtain ⟨ts, hts, ht⟩ := bind_eq_ok_iff.1 ht
      have hargs := ofExprs_inline (arg :: args) h hts
      rw [Expr.inlineAll] at hargs ⊢
      rw [ofExpr, if_neg hlet, hargs]
      exact ht

/-- So it is of several expressions. -/
theorem ofExprs_inline : ∀ (exprs : List Expr) {table inner : Table SortedTerm}
    {values : List (String × Expr)} {ts : List SortedTerm}, Unfolds table inner values →
    ofExprs inner exprs = .ok ts → ofExprs table (Expr.inlineAll values exprs) = .ok ts
  | [], _, _, _, _, _, hts => hts
  | expr :: exprs, _, _, _, _, h, hts => by
    rw [ofExprs] at hts
    obtain ⟨t, ht, hts⟩ := bind_eq_ok_iff.1 hts
    obtain ⟨more, hmore, hts⟩ := bind_eq_ok_iff.1 hts
    rw [Expr.inlineAll, ofExprs, ofExpr_inline expr h ht, ofExprs_inline exprs h hmore]
    exact hts

/-- And of the body of a `let`, with a value for each name that it binds. -/
theorem ofLet_inline : ∀ (args : List Expr) {table outer inner : Table SortedTerm}
    {values bound : List (String × Expr)} {t : SortedTerm}, Unfolds table outer values →
    Unfolds table inner bound → ofLet outer inner args = .ok t →
    ofExpr table (Expr.inlineLet values bound args) = .ok t
  | [], _, _, _, _, _, _, _, _, ht => nomatch ht
  | [body], _, _, _, _, _, _, _, hinner, ht => by
    rw [ofLet] at ht
    rw [Expr.inlineLet]
    exact ofExpr_inline body hinner ht
  | .node _ _ [] :: _ :: _, _, _, _, _, _, _, _, _, ht => by
    rw [ofLet] at ht
    cases ht
  | .node name _ (value :: _) :: next :: rest, _, _, _, _, _, _, h, hinner, ht => by
    rw [ofLet] at ht
    obtain ⟨found, hfound, ht⟩ := bind_eq_ok_iff.1 ht
    rw [Expr.inlineLet]
    exact ofLet_inline (next :: rest) h (hinner.set name (ofExpr_inline value h hfound)) ht

end

/-- **A `let` is a substitution**: an expression that has a term, whatever is
declared, has this very term, of this sort, when values stand in the place of
the names that it binds; and then no `let` is left in it. -/
theorem ofExpr_inlined (table : Table SortedTerm) (expr : Expr) (t : SortedTerm)
    (h : ofExpr table expr = .ok t) :
    ofExpr table expr.inlined = .ok t ∧ expr.inlined.LetFree :=
  ⟨ofExpr_inline expr (.refl table) h, Expr.letFree_inline expr fun _ _ hvalue => nomatch hvalue⟩

/-- Two reals are swapped, and then the new value of one is bound to the other: in
`(let ((x (+ y 1)) (y x)) (let ((y x) (y y)) (< x y)))` each name is bound to what
it would hide. -/
theorem ofExpr_inlined_swap :
    let table := ((Table.empty : Table SortedTerm).set "x" (ofDeclaration "x" .real)).set "y"
      (ofDeclaration "y" .real)
    let x : Expr := .leaf "x" .real
    let y : Expr := .leaf "y" .real
    let sum : Expr := .node "+" .real [y, .leaf "1" .real]
    let inner : Expr := .node "let" .bool
      [.node "y" .real [x], .node "y" .real [y], .node "<" .bool [x, y]]
    let outer : Expr := .node "let" .bool [.node "x" .real [sum], .node "y" .real [x], inner]
    let t : SortedTerm := ⟨.bool, .relate .lt
      (.operate .add (.constant .real "y") (.numeral "1")) (.constant .real "x")⟩
    ofExpr table outer = .ok t ∧ outer.inlined = .node "<" .bool [sum, x] ∧
      ofExpr table outer.inlined = .ok t ∧ outer.inlined.LetFree := by
  intro table x y sum inner outer t
  have h : ofExpr table outer = .ok t := by rfl
  exact ⟨h, by rfl, ofExpr_inlined table outer t h⟩

end Term

end SatScript
