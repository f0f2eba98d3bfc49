import SatScript.Proofs.Term.FreeNames
/-!
# SatScript — which forms come to an expression

Whether a form is well shaped shows without a scope: every list is an operator
with its arguments or a `let` with bindings and a body, and what is taken for a
numeral is one. A form that is well shaped comes to an expression in just the
scopes that have its free names (`ofForm_ok_iff`). Both are said of a
computation by `Settles`, and two computations, one after the other, settle what
either settles; the induction on forms follows from this.
-/

namespace SatScript

namespace Form

mutual

/-- The form has the shape of an expression: atoms that are taken for numerals
are numerals, and an operator has an argument, unless it yields a truth value
without one. -/
def isShaped (fractional : Bool) : Form → Bool
  | .atom text _ _ => !Numeral.startsNumeral text || (Numeral.canonical? fractional text).isSome
  | .list (.atom head _ _ :: rest) _ _ =>
    if head = "let" then isShapedLet fractional rest
    else areShaped fractional rest && (Expr.yieldsBool head || !rest.isEmpty)
  | .list _ _ _ => false

/-- Behind `let` stand a list of bindings and a body. -/
def isShapedLet (fractional : Bool) : List Form → Bool
  | [.list bindings _ _, body] => areShapedBindings fractional bindings && isShaped fractional body
  | _ => false

/-- The forms have the shape of expressions. -/
def areShaped (fractional : Bool) : List Form → Bool
  | [] => true
  | form :: forms => isShaped fractional form && areShaped fractional forms

/-- The bindings are pairs of an atom and a value. -/
def areShapedBindings (fractional : Bool) : List Form → Bool
  | [] => true
  | .list [.atom _ _ _, value] _ _ :: bindings =>
    isShaped fractional value && areShapedBindings fractional bindings
  | _ => false

end

end Form

/-- Whether an expression is reported as malformed under the code. -/
def Code.isOfExpression : Code → Bool
  | .malformed => true
  | .undefinedName => true
  | .wrongCount => true
  | .badNumeral => true
  | _ => false

/-- A computation gives a value just if what it is made from is well shaped and
the scope has the names in it; its fault is else one of an expression, and if
only a name is missing it is about such a name. -/
structure Settles {α : Type} (shaped : Bool) (names : List String) (scope : Scope BaseSort)
    (result : Except Fault α) : Prop where
  of_ok : ∀ value, result = .ok value →
    shaped = true ∧ ∀ name ∈ names, ∃ sort, scope.lookup name = some sort
  of_error : ∀ fault, result = .error fault →
    fault.cause.code.isOfExpression = true ∧ (shaped = true →
      ∃ name ∈ names, scope.lookup name = none ∧ fault.cause = .undefinedName name)

namespace Settles

variable {α β : Type} {shaped shaped' : Bool} {names names' : List String}
  {scope : Scope BaseSort}

theorem ok (value : α) : Settles true [] scope (.ok value) :=
  ⟨fun _ _ => ⟨rfl, List.forall_mem_nil _⟩, nofun⟩

/-- What is not well shaped is a fault, whatever the names in it are. -/
theorem error {fault : Fault} (h : fault.cause.code.isOfExpression = true) :
    Settles false names scope (.error fault : Except Fault α) := by
  refine ⟨nofun, fun other hother => ?_⟩
  cases hother
  exact ⟨h, nofun⟩

/-- **One computation after another settles what both do.** -/
theorem bind {first : Traced α} {next : α → Traced β}
    (hfirst : Settles shaped names scope first.result)
    (hnext : ∀ value, first.result = .ok value →
      Settles shaped' names' scope (next value).result) :
    Settles (shaped && shaped') (names ++ names') scope (first >>= next).result := by
  rw [Traced.result_bind]
  constructor
  · intro value h
    obtain ⟨found, hfound, h⟩ := bind_eq_ok_iff.1 h
    obtain ⟨hshaped, hnames⟩ := hfirst.of_ok found hfound
    obtain ⟨hshaped', hnames'⟩ := (hnext found hfound).of_ok value h
    exact ⟨by rw [hshaped, hshaped', Bool.true_and], List.forall_mem_append.2 ⟨hnames, hnames'⟩⟩
  · intro fault h
    cases hresult : first.result with
    | error other =>
      rw [hresult] at h
      cases h
      obtain ⟨hcode, hname⟩ := hfirst.of_error fault hresult
      refine ⟨hcode, fun hshaped => ?_⟩
      obtain ⟨name, hmem, hmissing⟩ := hname (Bool.and_eq_true_iff.1 hshaped).1
      exact ⟨name, List.mem_append_left _ hmem, hmissing⟩
    | ok found =>
      rw [hresult] at h
      obtain ⟨hcode, hname⟩ := (hnext found hresult).of_error fault h
      refine ⟨hcode, fun hshaped => ?_⟩
      obtain ⟨name, hmem, hmissing⟩ := hname (Bool.and_eq_true_iff.1 hshaped).2
      exact ⟨name, List.mem_append_right _ hmem, hmissing⟩

/-- An event settles nothing. -/
theorem emit {event : Event} {next : Unit → Traced β}
    (h : Settles shaped names scope (next ()).result) :
    Settles shaped names scope (Traced.emit event >>= next).result := by
  rw [Traced.result_bind]
  exact h

/-- What a computation settles inside bindings it settles outside of them for the
names that they do not bind. -/
theorem close {bindings : List (String × BaseSort)} {result : Except Fault α}
    (h : Settles shaped names (scope.extend bindings) result) :
    Settles shaped (names.filter fun name => name ∉ bindings.map Prod.fst) scope result := by
  constructor
  · intro value hvalue
    obtain ⟨hshaped, hnames⟩ := h.of_ok value hvalue
    refine ⟨hshaped, fun name hname => ?_⟩
    obtain ⟨hname, hfree⟩ := List.mem_filter.1 hname
    rw [decide_eq_true_eq] at hfree
    rw [← Scope.lookup_extend_of_not_mem hfree]
    exact hnames name hname
  · intro fault hfault
    obtain ⟨hcode, hname⟩ := h.of_error fault hfault
    refine ⟨hcode, fun hshaped => ?_⟩
    obtain ⟨name, hmem, hmissing, hcause⟩ := hname hshaped
    -- a name that is bound would not be missing
    have hfree : name ∉ bindings.map Prod.fst := by
      intro hbound
      obtain ⟨sort, hsort⟩ := Scope.exists_lookup_extend hbound
      rw [hsort] at hmissing
      cases hmissing
    rw [Scope.lookup_extend_of_not_mem hfree] at hmissing
    exact ⟨name, List.mem_filter.2 ⟨hmem, decide_eq_true hfree⟩, hmissing, hcause⟩

end Settles

namespace Expr

open Form (freeNames freeInLet freeNamesAll freeInBindings isShaped isShapedLet areShaped
  areShapedBindings)

variable {fractional : Bool}

theorem settles_fail {α : Type} {cause : Cause} {span : Span} {names : List String}
    {scope : Scope BaseSort} (h : cause.code.isOfExpression = true) :
    Settles false names scope (Traced.fail (α := α) (.found cause span)).result := .error h

/-- An atom is a numeral, a truth value or a name. -/
theorem settles_ofAtom (text : String) (start stop : Nat) (scope : Scope BaseSort) (span : Span) :
    Settles (isShaped fractional (.atom text start stop)) (freeNames (.atom text start stop)) scope
      (ofAtom fractional scope text span) := by
  rw [isShaped, freeNames, ofAtom]
  by_cases hnumeral : Numeral.startsNumeral text = true
  · rw [if_pos hnumeral, if_pos (.inl hnumeral), hnumeral, Bool.not_true, Bool.false_or]
    cases Numeral.canonical? fractional text with
    | none => exact .error rfl
    | some numeral => exact .ok _
  rw [if_neg hnumeral, Bool.eq_false_iff.2 hnumeral, Bool.not_false, Bool.true_or]
  by_cases htruth : text = "true" ∨ text = "false"
  · rw [if_pos htruth, if_pos (.inr htruth)]
    exact .ok _
  rw [if_neg htruth, if_neg (not_or.2 ⟨Bool.false_ne_true, htruth⟩)]
  cases hsort : scope.lookup text with
  | some sort => exact ⟨fun _ _ => ⟨rfl, List.forall_mem_singleton.2 ⟨sort, hsort⟩⟩, nofun⟩
  | none =>
    refine ⟨nofun, fun fault hfault => ?_⟩
    cases hfault
    exact ⟨rfl, fun _ => ⟨text, List.mem_singleton_self _, hsort, rfl⟩⟩

/-- Forms come to as many expressions. -/
theorem ElaboratesAll.isEmpty_eq {scope : Scope BaseSort} {forms : List Form} {exprs : List Expr}
    (h : ElaboratesAll fractional scope forms exprs) : forms.isEmpty = exprs.isEmpty := by
  cases h <;> rfl

/-- An operator that yields no truth value has the sort of its last argument. -/
theorem isSome_ofOperator? (operator : String) (args : List Expr) :
    (ofOperator? operator args).isSome = (yieldsBool operator || !args.isEmpty) := by
  rw [ofOperator?]
  cases yieldsBool operator with
  | true => rfl
  | false => cases args <;> simp

mutual

/-- **A form settles whether it is well shaped and which names it lacks.** -/
theorem settles_ofForm : ∀ (form : Form) (scope : Scope BaseSort),
    Settles (isShaped fractional form) form.freeNames scope (ofForm fractional scope form).result
  | .atom text start stop, scope => settles_ofAtom text start stop scope _
  | .list [] _ _, _ => settles_fail rfl
  | .list (.list _ _ _ :: _) _ _, _ => settles_fail rfl
  | .list (.atom head _ _ :: rest) _ _, scope => by
    rw [isShaped, freeNames, ofForm]
    split
    · exact settles_ofLet rest scope
    · rw [← List.append_nil (freeNamesAll rest)]
      refine (settles_ofForms rest scope).bind fun args hargs => ?_
      rw [(elaborates_of_ofForms rest hargs).isEmpty_eq, ← isSome_ofOperator?]
      cases ofOperator? head args with
      | none => exact settles_fail rfl
      | some expr => exact .ok _

theorem settles_ofForms : ∀ (forms : List Form) (scope : Scope BaseSort),
    Settles (areShaped fractional forms) (freeNamesAll forms) scope
      (ofForms fractional scope forms).result
  | [], _ => .ok _
  | form :: forms, scope => by
    rw [areShaped, freeNamesAll, ofForms, ← Bool.and_true (areShaped _ forms),
      ← List.append_nil (freeNamesAll forms)]
    exact (settles_ofForm form scope).bind fun _ _ => (settles_ofForms forms scope).bind
      fun _ _ => .ok _

theorem settles_ofBindings : ∀ (bindings : List Form) (scope : Scope BaseSort),
    Settles (areShapedBindings fractional bindings) (freeInBindings bindings) scope
      (ofBindings fractional scope bindings).result
  | [], _ => .ok _
  | .list [.atom _ _ _, value] _ _ :: bindings, scope => by
    rw [areShapedBindings, freeInBindings, ofBindings,
      ← Bool.and_true (areShapedBindings _ bindings), ← List.append_nil (freeInBindings bindings)]
    exact (settles_ofForm value scope).bind fun _ _ => .emit
      ((settles_ofBindings bindings scope).bind fun _ _ => .ok _)
  | .atom _ _ _ :: _, _ => settles_fail rfl
  | .list [] _ _ :: _, _ => settles_fail rfl
  | .list [.atom _ _ _] _ _ :: _, _ => settles_fail rfl
  | .list [.list _ _ _] _ _ :: _, _ => settles_fail rfl
  | .list (.list _ _ _ :: _ :: _) _ _ :: _, _ => settles_fail rfl
  | .list (.atom _ _ _ :: _ :: _ :: _) _ _ :: _, _ => settles_fail rfl

theorem settles_ofLet : ∀ (rest : List Form) (scope : Scope BaseSort) {count : Nat} {span : Span},
    Settles (isShapedLet fractional rest) (freeInLet rest) scope
      (ofLet fractional scope count span rest).result
  | [.list bindings _ _, body], scope, _, _ => by
    rw [isShapedLet, freeInLet, ofLet]
    refine (settles_ofBindings bindings scope).bind fun bound hbound => ?_
    rw [← map_fst_boundSorts (elaborates_of_ofBindings bindings hbound),
      ← Bool.and_true (isShaped _ body), ← List.append_nil (List.filter _ _)]
    exact (settles_ofForm body _).close.bind fun _ _ => .ok _
  | [.atom _ _ _, _], _, _, _ => settles_fail rfl
  | [], _, _, _ => settles_fail rfl
  | [.atom _ _ _], _, _, _ => settles_fail rfl
  | [.list _ _ _], _, _, _ => settles_fail rfl
  | .atom _ _ _ :: _ :: _ :: _, _, _, _ => settles_fail rfl
  | .list _ _ _ :: _ :: _ :: _, _, _, _ => settles_fail rfl

end

/-- **A form comes to an expression just if it is well shaped and the scope has
its free names.** Else the fault is one of a malformed expression, and if the
form is well shaped it is about a free name that the scope does not have. -/
theorem ofForm_ok_iff (fractional : Bool) (scope : Scope BaseSort) (form : Form) :
    ((∃ expr, (ofForm fractional scope form).result = .ok expr) ↔
      form.isShaped fractional = true ∧
        ∀ name ∈ form.freeNames, ∃ sort, scope.lookup name = some sort) ∧
    ∀ fault, (ofForm fractional scope form).result = .error fault →
      fault.cause.code.isOfExpression = true ∧
        (form.isShaped fractional = true →
          ∃ name ∈ form.freeNames, scope.lookup name = none ∧
            fault.cause = .undefinedName name) := by
  have hsettles := @settles_ofForm fractional form scope
  refine ⟨⟨fun ⟨expr, hexpr⟩ => hsettles.of_ok expr hexpr, fun ⟨hshaped, hnames⟩ => ?_⟩,
    hsettles.of_error⟩
  cases hresult : (ofForm fractional scope form).result with
  | ok expr => exact ⟨expr, rfl⟩
  | error fault =>
    obtain ⟨name, hname, hmissing, -⟩ := (hsettles.of_error fault hresult).2 hshaped
    obtain ⟨sort, hsort⟩ := hnames name hname
    rw [hsort] at hmissing
    cases hmissing

/-- The body of a `let` sees the bound name, and lacks another until the scope has
it too. -/
theorem ofForm_ok_iff_let :
    let form := Form.ofItems [.ofText "let", .ofItems [.ofItems [.ofText "x", .ofText "y"]],
      .ofItems [.ofText "+", .ofText "x", .ofText "z"]]
    let scope := Scope.empty.define "y" .real
    (form.isShaped true = true ∧ form.freeNames = ["y", "z"]) ∧
      (ofForm true scope form).result = .error (.found (.undefinedName "z") ⟨0, 1⟩) ∧
      (∃ name ∈ form.freeNames, scope.lookup name = none) ∧
      ∃ expr, (ofForm true (scope.define "z" .real) form).result = .ok expr := by
  intro form scope
  have hshaped : form.isShaped true = true := by decide
  have hfree : form.freeNames = ["y", "z"] := by decide
  have hfault : (ofForm true scope form).result =
      .error (.found (.undefinedName "z") ⟨0, 1⟩) := by rfl
  have hnames : ∀ name ∈ form.freeNames,
      ∃ sort, (scope.define "z" .real).lookup name = some sort := by
    rw [hfree]
    exact List.forall_mem_cons.2 ⟨⟨.real, by rfl⟩, List.forall_mem_singleton.2 ⟨.real, by rfl⟩⟩
  obtain ⟨name, hname, hmissing, -⟩ := ((ofForm_ok_iff true scope form).2 _ hfault).2 hshaped
  exact ⟨⟨hshaped, hfree⟩, hfault, ⟨name, hname, hmissing⟩,
    (ofForm_ok_iff true (scope.define "z" .real) form).1.2 ⟨hshaped, hnames⟩⟩

end Expr

end SatScript
