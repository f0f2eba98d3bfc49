import SatScript.Proofs.Layout.Shift
import SatScript.Proofs.Term.Names
/-!
# SatScript — one name more

With one name more, a form is elaborated and an expression is lowered as
before, unless that failed for want of the name (`mends_ofForm`,
`mends_ofExpr`). Where the name is no argument in the form, the elaboration
does not look it up (`avoids_ofForm`), and the lowering only for a list of
the name alone: the one takes it for an operator without arguments, the
other for a variable (`avoids_ofExpr`).
-/

namespace SatScript

/-! ## One name more -/

/-- One look-up finds what another finds, and a name that the other may not
find. -/
structure Supplies {α : Type} (name : String) (fewer more : String → Option α) : Prop where
  supplied : ∃ value, more name = some value
  others : ∀ other, more other = fewer other ∨ other = name ∧ fewer other = none

namespace Supplies

variable {α : Type} {name : String} {fewer more fewer' more' : String → Option α}

/-- Both find the same, or only the one finds the name, or neither finds another
name. -/
theorem cases (h : Supplies name fewer more) (other : String) :
    (∃ value, fewer other = some value ∧ more other = some value) ∨
    (other = name ∧ fewer other = none ∧ ∃ value, more other = some value) ∨
    (other ≠ name ∧ fewer other = none ∧ more other = none) := by
  cases hfewer : fewer other with
  | some value =>
    refine .inl ⟨value, rfl, ?_⟩
    rcases h.others other with hsame | ⟨-, hnone⟩
    · rw [hsame, hfewer]
    · rw [hfewer] at hnone
      cases hnone
  | none =>
    by_cases hother : other = name
    · rw [hother]
      exact .inr (.inl ⟨rfl, rfl, h.supplied⟩)
    · refine .inr (.inr ⟨hother, rfl, ?_⟩)
      rcases h.others other with hsame | ⟨hname, -⟩
      · rw [hsame, hfewer]
      · exact absurd hname hother

/-- What is put before both look-ups leaves them so. -/
theorem or {first : String → Option α} (h : Supplies name fewer more)
    (hfewer : ∀ other, fewer' other = (first other).or (fewer other))
    (hmore : ∀ other, more' other = (first other).or (more other)) :
    Supplies name fewer' more' where
  supplied := by
    rw [hmore]
    cases first name with
    | none => exact h.supplied
    | some value => exact ⟨value, rfl⟩
  others other := by
    rw [hfewer, hmore]
    cases first other with
    | none => exact h.others other
    | some value => exact .inl rfl

/-- So does a name that is given a value in both. -/
theorem update {key : String} {value : α} (h : Supplies name fewer more)
    (hfewer : ∀ other, fewer' other = if other = key then some value else fewer other)
    (hmore : ∀ other, more' other = if other = key then some value else more other) :
    Supplies name fewer' more' := by
  refine @or _ _ _ _ _ _ (fun other => if other = key then some value else none) h ?_ ?_
  · intro other
    rw [hfewer]
    split <;> rfl
  · intro other
    rw [hmore]
    split <;> rfl

end Supplies

/-! ## Lowering -/

namespace Term

variable {name : String}

/-- A lowering that misses no name does not miss this one. -/
theorem avoids_of_bound {α : Type} {lowering : Except BackendFault α} (h : Bound lowering) :
    Avoids (· = .noTerm name) lowering := by
  rintro fault hfault rfl
  exact h _ hfault rfl

/-- A term is found for what had one, and for the name that is supplied. -/
theorem mends_ofName {table table' : Table SortedTerm} (h : Supplies name table.get? table'.get?)
    (other : String) :
    Mends (· = .noTerm name) id (ofName table other) (ofName table' other) := by
  unfold ofName
  split
  · exact .ok _
  split
  · exact .ok _
  split
  · exact .ok _
  rcases h.cases other with ⟨term, hterm, hterm'⟩ | ⟨rfl, hnone, term, hterm'⟩ | ⟨hne, hnone, hnone'⟩
  · rw [hterm, hterm']
    exact .ok _
  · rw [hnone, hterm']
    exact .of_fails rfl (.ok _)
  · rw [hnone, hnone']
    exact .error rfl fun hfault => hne (BackendFault.noTerm.inj hfault)

theorem supplies_set {table table' : Table SortedTerm} (key : String) (term : SortedTerm)
    (h : Supplies name table.get? table'.get?) :
    Supplies name (table.set key term).get? (table'.set key term).get? :=
  h.update (fun other => Table.get?_set table key other term)
    fun other => Table.get?_set table' key other term

mutual

/-- **An expression is lowered with one name more as without it**, unless that
failed for want of the name. -/
theorem mends_ofExpr : ∀ (expr : Expr) {table table' : Table SortedTerm},
    Supplies name table.get? table'.get? →
    Mends (· = .noTerm name) id (ofExpr table expr) (ofExpr table' expr)
  | .node other _ [], _, _, h => mends_ofName h other
  | .node operator _ (arg :: args), table, table', h => by
    rw [ofExpr, ofExpr]
    split
    · exact mends_ofLet (arg :: args) h h
    · exact (mends_ofExprs (arg :: args) h).bind fun terms =>
        .refl (avoids_of_bound (bound_apply operator terms))

theorem mends_ofExprs : ∀ (exprs : List Expr) {table table' : Table SortedTerm},
    Supplies name table.get? table'.get? →
    Mends (· = .noTerm name) id (ofExprs table exprs) (ofExprs table' exprs)
  | [], _, _, _ => .ok _
  | expr :: exprs, _, _, h => by
    rw [ofExprs, ofExprs]
    exact (mends_ofExpr expr h).bind fun _ => (mends_ofExprs exprs h).bind fun _ => .ok _

theorem mends_ofLet : ∀ (exprs : List Expr) {table table' inner inner' : Table SortedTerm},
    Supplies name table.get? table'.get? → Supplies name inner.get? inner'.get? →
    Mends (· = .noTerm name) id (ofLet table inner exprs) (ofLet table' inner' exprs)
  | [], _, _, _, _, _, _ => .error rfl nofun
  | [body], _, _, inner, inner', _, hinner => by
    rw [ofLet, ofLet]
    exact mends_ofExpr body hinner
  | .node _ _ [] :: _ :: _, _, _, _, _, _, _ => .error rfl nofun
  | .node other _ (value :: _) :: next :: rest, _, _, _, _, h, hinner => by
    rw [ofLet, ofLet]
    exact (mends_ofExpr value h).bind fun term =>
      mends_ofLet (next :: rest) h (supplies_set other term hinner)

end

end Term

/-! ## Faults that lie further on -/

/-- The span, `n` further on. -/
def Span.shift (n : Nat) (span : Span) : Span := ⟨span.start + n, span.stop + n⟩

/-- The cause, `n` further on: only an open list is told by its offset. -/
def Cause.shift (n : Nat) : Cause → Cause
  | .unterminated offset => .unterminated (offset + n)
  | cause => cause

/-- The fault, `n` further on. -/
def Fault.shift (n : Nat) (fault : Fault) : Fault :=
  ⟨fault.cause.shift n, fault.span.map (Span.shift n)⟩

/-- The code of a fault is the same further on. -/
@[simp] theorem Fault.code_shift (n : Nat) (fault : Fault) :
    (fault.shift n).cause.code = fault.cause.code := by
  obtain ⟨cause, span⟩ := fault
  cases cause <;> rfl

/-- Whether the cause is that the name is missing: it has no sort in the scope, or
no term in the back end. -/
def Cause.misses (name : String) : Cause → Bool
  | .undefinedName other => other == name
  | .backend (.noTerm other) => other == name
  | _ => false

/-- A fault is that the name is missing. -/
def Fault.Misses (name : String) (fault : Fault) : Prop := fault.cause.misses name = true

@[simp] theorem Form.length_shiftAll (n : Nat) (forms : List Form) :
    (shiftAll n forms).length = forms.length := by
  rw [shiftAll_eq_map, List.length_map]

theorem Form.span_shift (n : Nat) (form : Form) : (form.shift n).span = form.span.shift n := by
  cases form <;> rfl

/-- A fault that is about no name is the same with one name more. -/
theorem mends_found {α : Type} {name : String} {n : Nat} {cause : Cause} {span span' : Span}
    (hspan : span' = span.shift n) (hcause : cause.shift n = cause)
    (h : ¬ Fault.Misses name ⟨cause, none⟩) :
    Mends (Fault.Misses name) (Fault.shift n) (.error (.found cause span) : Except Fault α)
      (.error (.found cause span')) := by
  refine .error ?_ h
  rw [hspan]
  exact congrArg (Fault.mk · _) hcause.symm

/-! ## Elaboration -/

namespace Expr

variable {name : String} {n : Nat} {fractional : Bool}

/-- A sort is found for what had one, and for the name that is supplied. -/
theorem mends_ofAtom {scope scope' : Scope BaseSort} (h : Supplies name scope.lookup scope'.lookup)
    (text : String) (start stop : Nat) :
    Mends (Fault.Misses name) (Fault.shift n) (ofAtom fractional scope text ⟨start, stop⟩)
      (ofAtom fractional scope' text ⟨(start + n : Nat), (stop + n : Nat)⟩) := by
  unfold ofAtom
  split
  · split
    · exact .error rfl Bool.false_ne_true
    · exact .ok _
  split
  · exact .ok _
  rcases h.cases text with ⟨sort, hsort, hsort'⟩ | ⟨rfl, hnone, sort, hsort'⟩ | ⟨hne, hnone, hnone'⟩
  · rw [hsort, hsort']
    exact .ok _
  · rw [hnone, hsort']
    exact .of_fails (beq_self_eq_true text) (.ok _)
  · rw [hnone, hnone']
    exact .error rfl fun hfault => hne (beq_iff_eq.1 hfault)

theorem supplies_extend {scope scope' : Scope BaseSort} (bindings : List (String × BaseSort))
    (h : Supplies name scope.lookup scope'.lookup) :
    Supplies name (scope.extend bindings).lookup (scope'.extend bindings).lookup :=
  h.or (fun other => Scope.lookup_extend scope bindings other)
    fun other => Scope.lookup_extend scope' bindings other

/-- Elaborations one after the other are mended one after the other. -/
theorem mends_bind {α β : Type} {before after : Traced α} {next next' : α → Traced β}
    (h : Mends (Fault.Misses name) (Fault.shift n) before.result after.result)
    (hnext : ∀ value,
      Mends (Fault.Misses name) (Fault.shift n) (next value).result (next' value).result) :
    Mends (Fault.Misses name) (Fault.shift n) (before >>= next).result
      (after >>= next').result := by
  rw [Traced.result_bind, Traced.result_bind]
  exact h.bind hnext

/-- What is no binding is none further on. -/
theorem mends_notABinding {before after : Traced (List Expr)} (binding : Form)
    (hbefore : before = .fail (.found (.shape (.notABinding binding.render)) binding.span))
    (hafter : after = .fail
      (.found (.shape (.notABinding (binding.shift n).render)) (binding.shift n).span)) :
    Mends (Fault.Misses name) (Fault.shift n) before.result after.result := by
  rw [hbefore, hafter, Form.render_shift, Form.span_shift]
  exact mends_found rfl rfl Bool.false_ne_true

mutual

/-- **A form is elaborated with one name more as without it**, wherever it
stands, unless that failed for want of the name. -/
theorem mends_ofForm : ∀ (form : Form) {scope scope' : Scope BaseSort},
    Supplies name scope.lookup scope'.lookup →
    Mends (Fault.Misses name) (Fault.shift n) (ofForm fractional scope form).result
      (ofForm fractional scope' (form.shift n)).result
  | .atom text start stop, _, _, h => mends_ofAtom h text start stop
  | .list [] _ _, _, _, _ => mends_found rfl rfl Bool.false_ne_true
  | .list (.list items start' stop' :: rest) start stop, scope, scope', _ => by
    have hwritten := Form.render_shift n (.list (.list items start' stop' :: rest) start stop)
    simp only [Form.shift, Form.shiftAll, ofForm] at hwritten ⊢
    rw [hwritten]
    exact mends_found rfl rfl Bool.false_ne_true
  | .list (.atom head start' stop' :: rest) start stop, scope, scope', h => by
    simp only [Form.shift, Form.shiftAll, ofForm]
    rw [Form.length_shiftAll]
    split
    · exact mends_ofLetForms rest rfl h
    · refine mends_bind (mends_ofForms rest h) fun args => ?_
      split
      · exact .ok _
      · exact mends_found rfl rfl Bool.false_ne_true

theorem mends_ofForms : ∀ (forms : List Form) {scope scope' : Scope BaseSort},
    Supplies name scope.lookup scope'.lookup →
    Mends (Fault.Misses name) (Fault.shift n) (ofForms fractional scope forms).result
      (ofForms fractional scope' (Form.shiftAll n forms)).result
  | [], _, _, _ => .ok _
  | form :: forms, scope, scope', h => by
    rw [Form.shiftAll, ofForms, ofForms]
    exact mends_bind (mends_ofForm form h) fun _ =>
      mends_bind (mends_ofForms forms h) fun _ => .ok _

theorem mends_ofBindings : ∀ (bindings : List Form) {scope scope' : Scope BaseSort},
    Supplies name scope.lookup scope'.lookup →
    Mends (Fault.Misses name) (Fault.shift n) (ofBindings fractional scope bindings).result
      (ofBindings fractional scope' (Form.shiftAll n bindings)).result
  | [], _, _, _ => .ok _
  | .list [.atom other _ _, value] _ _ :: bindings, scope, scope', h => by
    simp only [Form.shift, Form.shiftAll, ofBindings]
    exact mends_bind (mends_ofForm value h) fun _ => mends_bind (.ok _) fun _ =>
      mends_bind (mends_ofBindings bindings h) fun _ => .ok _
  | .atom text start stop :: _, _, _, _ => mends_notABinding (.atom text start stop) rfl rfl
  | .list [] start stop :: _, _, _, _ => mends_notABinding (.list [] start stop) rfl rfl
  | .list [.atom text start' stop'] start stop :: _, _, _, _ =>
    mends_notABinding (.list [.atom text start' stop'] start stop) rfl rfl
  | .list [.list items start' stop'] start stop :: _, _, _, _ =>
    mends_notABinding (.list [.list items start' stop'] start stop) rfl rfl
  | .list (.list items start' stop' :: form :: forms) start stop :: _, _, _, _ =>
    mends_notABinding (.list (.list items start' stop' :: form :: forms) start stop) rfl rfl
  | .list (.atom text start' stop' :: form :: form' :: forms) start stop :: _, _, _, _ =>
    mends_notABinding (.list (.atom text start' stop' :: form :: form' :: forms) start stop) rfl rfl

theorem mends_ofLetForms : ∀ (rest : List Form) {scope scope' : Scope BaseSort} {count : Nat}
    {span span' : Span}, span' = span.shift n → Supplies name scope.lookup scope'.lookup →
    Mends (Fault.Misses name) (Fault.shift n) (ofLet fractional scope count span rest).result
      (ofLet fractional scope' count span' (Form.shiftAll n rest)).result
  | [.list bindings _ _, body], scope, scope', _, _, _, _, h => by
    simp only [Form.shift, Form.shiftAll, ofLet]
    exact mends_bind (mends_ofBindings bindings h) fun bound =>
      mends_bind (mends_ofForm body (supplies_extend (boundSorts bound) h)) fun _ => .ok _
  | [.atom _ _ _, _], _, _, _, _, _, _, _ => mends_found rfl rfl Bool.false_ne_true
  | [], _, _, _, _, _, hspan, _ => mends_found hspan rfl Bool.false_ne_true
  | [.atom _ _ _], _, _, _, _, _, hspan, _ => mends_found hspan rfl Bool.false_ne_true
  | [.list _ _ _], _, _, _, _, _, hspan, _ => mends_found hspan rfl Bool.false_ne_true
  | .atom _ _ _ :: _ :: _ :: _, _, _, _, _, _, hspan, _ => mends_found hspan rfl Bool.false_ne_true
  | .list _ _ _ :: _ :: _ :: _, _, _, _, _, _, hspan, _ => mends_found hspan rfl Bool.false_ne_true

end

end Expr

/-! ## Where a name stands -/

namespace Form

mutual

/-- Whether the name stands in the form elsewhere than at the head of a list. -/
def refersTo (name : String) : Form → Bool
  | .atom text _ _ => text == name
  | .list items _ _ => refersBehind name items

/-- Whether it stands so in the items of a list, an atom at the head left out. -/
def refersBehind (name : String) : List Form → Bool
  | [] => false
  | .atom _ _ _ :: rest => refersAny name rest
  | .list items _ _ :: rest => refersBehind name items || refersAny name rest

/-- Whether it stands so in one of the forms. -/
def refersAny (name : String) : List Form → Bool
  | [] => false
  | form :: forms => form.refersTo name || refersAny name forms

end

/-- Where a name stands in no form at all, it stands in none behind the head. -/
theorem refersBehind_of_refersAny {name : String} {forms : List Form}
    (h : refersAny name forms = false) : refersBehind name forms = false := by
  match forms with
  | [] => rfl
  | .atom _ _ _ :: rest =>
    rw [refersAny, Bool.or_eq_false_iff] at h
    exact h.2
  | .list _ _ _ :: rest => exact h

/-- Whether the items of a list are the name alone. -/
def isAlone (name : String) : List Form → Bool
  | [.atom text _ _] => text == name
  | _ => false

mutual

/-- Whether the form has a list in it of the name alone. -/
def holdsAlone (name : String) : Form → Bool
  | .atom _ _ _ => false
  | .list items _ _ => isAlone name items || holdsAloneAny name items

/-- Whether one of the forms has. -/
def holdsAloneAny (name : String) : List Form → Bool
  | [] => false
  | form :: forms => form.holdsAlone name || holdsAloneAny name forms

end

end Form

namespace Expr

variable {name : String} {fractional : Bool}

/-- What is no fault about a name misses none. -/
theorem avoids_fail {α : Type} {cause : Cause} {span : Span}
    (h : ¬ Fault.Misses name ⟨cause, none⟩) :
    Avoids (Fault.Misses name) (Traced.fail (α := α) (.found cause span)).result := .error h

theorem avoids_bind {α β : Type} {first : Traced α} {next : α → Traced β}
    (hfirst : Avoids (Fault.Misses name) first.result)
    (hnext : ∀ value, Avoids (Fault.Misses name) (next value).result) :
    Avoids (Fault.Misses name) (first >>= next).result := by
  rw [Traced.result_bind]
  exact hfirst.bind fun value _ => hnext value

mutual

/-- **A name is not looked up in a form in which it is no argument.** -/
theorem avoids_ofForm : ∀ (form : Form) (scope : Scope BaseSort), form.refersTo name = false →
    Avoids (Fault.Misses name) (ofForm fractional scope form).result
  | .atom text start stop, scope, h => by
    have hne : text ≠ name := by
      rintro rfl
      simp [Form.refersTo] at h
    simp only [ofForm, ofAtom]
    split
    · split
      · exact .error Bool.false_ne_true
      · exact .ok _
    split
    · exact .ok _
    split
    · exact .error fun hfault => hne (beq_iff_eq.1 hfault)
    · exact .ok _
  | .list [] _ _, _, _ => avoids_fail Bool.false_ne_true
  | .list (.list _ _ _ :: _) _ _, _, _ => avoids_fail Bool.false_ne_true
  | .list (.atom head _ _ :: rest) _ _, scope, h => by
    rw [Form.refersTo, Form.refersBehind] at h
    rw [ofForm]
    split
    · exact avoids_ofLetForms rest scope h
    · refine avoids_bind (avoids_ofForms rest scope h) fun args => ?_
      split
      · exact .ok _
      · exact avoids_fail Bool.false_ne_true

theorem avoids_ofForms : ∀ (forms : List Form) (scope : Scope BaseSort),
    Form.refersAny name forms = false →
    Avoids (Fault.Misses name) (ofForms fractional scope forms).result
  | [], _, _ => .ok _
  | form :: forms, scope, h => by
    rw [Form.refersAny, Bool.or_eq_false_iff] at h
    rw [ofForms]
    exact avoids_bind (avoids_ofForm form scope h.1) fun _ =>
      avoids_bind (avoids_ofForms forms scope h.2) fun _ => .ok _

theorem avoids_ofBindings : ∀ (bindings : List Form) (scope : Scope BaseSort),
    Form.refersBehind name bindings = false →
    Avoids (Fault.Misses name) (ofBindings fractional scope bindings).result
  | [], _, _ => .ok _
  | .list [.atom other _ _, value] _ _ :: bindings, scope, h => by
    rw [Form.refersBehind, Bool.or_eq_false_iff] at h
    rw [Form.refersBehind, Form.refersAny, Bool.or_eq_false_iff] at h
    rw [ofBindings]
    exact avoids_bind (avoids_ofForm value scope h.1.1) fun _ => avoids_bind (.ok _) fun _ =>
      avoids_bind (avoids_ofBindings bindings scope (Form.refersBehind_of_refersAny h.2)) fun _ =>
        .ok _
  | .atom _ _ _ :: _, _, _ => avoids_fail Bool.false_ne_true
  | .list [] _ _ :: _, _, _ => avoids_fail Bool.false_ne_true
  | .list [.atom _ _ _] _ _ :: _, _, _ => avoids_fail Bool.false_ne_true
  | .list [.list _ _ _] _ _ :: _, _, _ => avoids_fail Bool.false_ne_true
  | .list (.list _ _ _ :: _ :: _) _ _ :: _, _, _ => avoids_fail Bool.false_ne_true
  | .list (.atom _ _ _ :: _ :: _ :: _) _ _ :: _, _, _ => avoids_fail Bool.false_ne_true

theorem avoids_ofLetForms : ∀ (rest : List Form) (scope : Scope BaseSort) {count : Nat}
    {span : Span}, Form.refersAny name rest = false →
    Avoids (Fault.Misses name) (ofLet fractional scope count span rest).result
  | [.list bindings _ _, body], scope, _, _, h => by
    rw [Form.refersAny, Form.refersTo, Form.refersAny, Form.refersAny, Bool.or_false,
      Bool.or_eq_false_iff] at h
    rw [ofLet]
    exact avoids_bind (avoids_ofBindings bindings scope h.1) fun _ =>
      avoids_bind (avoids_ofForm body _ h.2) fun _ => .ok _
  | [.atom _ _ _, _], _, _, _, _ => avoids_fail Bool.false_ne_true
  | [], _, _, _, _ => avoids_fail Bool.false_ne_true
  | [.atom _ _ _], _, _, _, _ => avoids_fail Bool.false_ne_true
  | [.list _ _ _], _, _, _, _ => avoids_fail Bool.false_ne_true
  | .atom _ _ _ :: _ :: _ :: _, _, _, _, _ => avoids_fail Bool.false_ne_true
  | .list _ _ _ :: _ :: _ :: _, _, _, _, _ => avoids_fail Bool.false_ne_true

end

end Expr

namespace Term

variable {name : String} {fractional : Bool}

/-- The name is not looked up when the expression is lowered. -/
def Ignores (name : String) (expr : Expr) : Prop :=
  ∀ table, Avoids (· = .noTerm name) (ofExpr table expr)

/-- The bindings of a `let` do not look up the name in their values. -/
def IgnoresAll (name : String) (bindings : List Expr) : Prop :=
  ∀ binding ∈ bindings, ∃ other value, binding = Expr.bound other value ∧ Ignores name value

theorem avoids_ofName {other : String} (h : other ≠ name) (table : Table SortedTerm) :
    Avoids (· = .noTerm name) (ofName table other) := by
  unfold ofName
  split
  · exact .ok _
  split
  · exact .ok _
  split
  · exact .ok _
  split
  · exact .error fun hfault => h (BackendFault.noTerm.inj hfault)
  · exact .ok _

/-- A `let` does not look up the name if its values and its body do not. -/
theorem avoids_ofLet {bindings : List Expr} {body : Expr} (hbindings : IgnoresAll name bindings)
    (hbody : Ignores name body) (table inner : Table SortedTerm) :
    Avoids (· = .noTerm name) (ofLet table inner (bindings ++ [body])) := by
  induction bindings generalizing inner with
  | nil =>
    rw [List.nil_append, ofLet]
    exact hbody inner
  | cons binding bindings ih =>
    obtain ⟨other, value, rfl, hvalue⟩ := hbindings binding List.mem_cons_self
    rw [ofLet_bound]
    refine (hvalue table).bind fun term _ => ?_
    exact ih (fun binding hmem => hbindings binding (List.mem_cons_of_mem _ hmem)) _

/-- What an atom is elaborated to does not look up another name. -/
theorem ignores_ofAtom {scope : Scope BaseSort} {text : String} {span : Span} {expr : Expr}
    (hne : text ≠ name) (h : Expr.ofAtom fractional scope text span = .ok expr) :
    Ignores name expr := by
  intro table
  unfold Expr.ofAtom at h
  split at h
  · split at h
    · cases h
    · rename_i numeral hnumeral
      cases h
      rw [Expr.leaf, ofExpr, ofName, Numeral.startsNumeral_of_canonical? hnumeral]
      split
      · exact .ok _
      split
      · exact .ok _
      · exact .ok _
  · split at h
    · cases h
      exact avoids_ofName hne table
    · split at h
      · cases h
      · cases h
        exact avoids_ofName hne table

/-- An operator looks up the name if it is applied to nothing and bears it, or if
its arguments do. -/
theorem ignores_ofOperator {operator : String} {args : List Expr} {expr : Expr}
    (hargs : ∀ arg ∈ args, Ignores name arg) (hlet : operator ≠ "let")
    (hbare : args = [] → Expr.yieldsBool operator = true → operator ≠ name)
    (h : Expr.ofOperator? operator args = some expr) : Ignores name expr := by
  intro table
  have hexprs (exprs : List Expr) (hexprs : ∀ expr ∈ exprs, Ignores name expr) :
      Avoids (· = .noTerm name) (ofExprs table exprs) := by
    induction exprs with
    | nil => exact .ok _
    | cons first exprs ih =>
      rw [ofExprs]
      exact (hexprs first List.mem_cons_self table).bind fun _ _ =>
        (ih fun other hmem => hexprs other (List.mem_cons_of_mem _ hmem)).bind fun _ _ => .ok _
  cases args with
  | nil =>
    unfold Expr.ofOperator? at h
    split at h
    · rename_i hbool
      cases h
      exact avoids_ofName (hbare rfl hbool) table
    · cases h
  | cons arg args =>
    obtain ⟨sort, rfl⟩ := Expr.exists_node_of_ofOperator? h
    rw [ofExpr, if_neg hlet]
    exact (hexprs _ hargs).bind fun terms _ => avoids_of_bound (bound_apply operator terms)

mutual

/-- What a form comes to does not look up the name, if the name is no argument in
the form, and no operator that yields truth values and stands alone in a list. -/
theorem ignores_of_elaborates : ∀ {scope : Scope BaseSort} {form : Form} {expr : Expr},
    Expr.Elaborates fractional scope form expr → form.refersTo name = false →
    (Expr.yieldsBool name = true → form.holdsAlone name = false) → Ignores name expr
  | _, .atom text _ _, _, .atom h, hrefers, _ => by
    refine ignores_ofAtom ?_ h
    rintro rfl
    simp [Form.refersTo] at hrefers
  | _, .list (.atom head _ _ :: rest) _ _, _, .operator hlet hargs hfound, hrefers, halone => by
    rw [Form.refersTo, Form.refersBehind] at hrefers
    simp only [Form.holdsAlone, Form.holdsAloneAny, Bool.or_eq_false_iff] at halone
    refine ignores_ofOperator
      (ignores_of_elaboratesAll hargs hrefers fun hbool => (halone hbool).2.2) hlet ?_ hfound
    rintro rfl hbool rfl
    cases hargs
    have hself := (halone hbool).1
    simp [Form.isAlone] at hself
  | _, _, _, .letIn hbound hinner, hrefers, halone => by
    rw [Form.refersTo, Form.refersBehind] at hrefers
    simp only [Form.refersAny, Form.refersTo, Bool.or_eq_false_iff] at hrefers
    simp only [Form.holdsAlone, Form.holdsAloneAny, Bool.or_eq_false_iff] at halone
    have hbindings := ignoresAll_of_elaborates hbound hrefers.1
      fun hbool => (halone hbool).2.2.1.2
    have hbody := ignores_of_elaborates hinner hrefers.2.1 fun hbool => (halone hbool).2.2.2.1
    intro table
    rw [ofExpr_letIn]
    exact avoids_ofLet hbindings hbody table table

theorem ignores_of_elaboratesAll : ∀ {scope : Scope BaseSort} {forms : List Form}
    {exprs : List Expr}, Expr.ElaboratesAll fractional scope forms exprs →
    Form.refersAny name forms = false →
    (Expr.yieldsBool name = true → Form.holdsAloneAny name forms = false) →
    ∀ expr ∈ exprs, Ignores name expr
  | _, _, _, .nil, _, _ => fun _ hmem => nomatch hmem
  | _, _, _, .cons hform hforms, hrefers, halone => by
    rw [Form.refersAny, Bool.or_eq_false_iff] at hrefers
    simp only [Form.holdsAloneAny, Bool.or_eq_false_iff] at halone
    intro expr hmem
    rcases List.mem_cons.1 hmem with rfl | hmem
    · exact ignores_of_elaborates hform hrefers.1 fun hbool => (halone hbool).1
    · exact ignores_of_elaboratesAll hforms hrefers.2 (fun hbool => (halone hbool).2) expr hmem

theorem ignoresAll_of_elaborates : ∀ {scope : Scope BaseSort} {bindings : List Form}
    {bound : List Expr}, Expr.ElaboratesBindings fractional scope bindings bound →
    Form.refersBehind name bindings = false →
    (Expr.yieldsBool name = true → Form.holdsAloneAny name bindings = false) →
    IgnoresAll name bound
  | _, _, _, .nil, _, _ => fun _ hmem => nomatch hmem
  | _, _, _, .cons hvalue hmore, hrefers, halone => by
    simp only [Form.refersBehind, Form.refersAny, Bool.or_eq_false_iff] at hrefers
    simp only [Form.holdsAlone, Form.holdsAloneAny, Bool.or_eq_false_iff] at halone
    intro binding hmem
    rcases List.mem_cons.1 hmem with rfl | hmem
    · exact ⟨_, _, rfl,
        ignores_of_elaborates hvalue hrefers.1.1 fun hbool => (halone hbool).1.2.2.1⟩
    · exact ignoresAll_of_elaborates hmore (Form.refersBehind_of_refersAny hrefers.2)
        (fun hbool => (halone hbool).2) binding hmem

end

/-- **What a form is elaborated to does not look up the name**, if the name is no
argument in the form, and no operator that yields truth values and stands alone
in a list. -/
theorem ignores_ofForm (form : Form) {scope : Scope BaseSort} {expr : Expr}
    (hrefers : form.refersTo name = false)
    (halone : Expr.yieldsBool name = true → form.holdsAlone name = false)
    (h : (Expr.ofForm fractional scope form).result = .ok expr) : Ignores name expr :=
  ignores_of_elaborates (Expr.elaborates_of_ofForm form h) hrefers halone

end Term

end SatScript
