import SatScript.Proofs.Rename.Resolved
/-!
# SatScript — elaboration after a renaming

A form and the form after a renaming are elaborated alike
(`ofForm_relabel`): either both are at fault, for causes of one code, or
both have expressions, and the second is the first under new names. The
proof follows elaboration and the walk over names side by side. What both
need to know of a part of a script is kept in `Walked`: its atoms are in
order, its names are kept by those after the renaming, and the scopes are
related.
-/

namespace SatScript

/-! ## Results that agree -/

/-- Both computations fail with faults of one code, or both give values that are
related. -/
inductive Agree {α β : Type} (R : α → β → Prop) : Except Fault α → Except Fault β → Prop
  | ok {a : α} {b : β} : R a b → Agree R (.ok a) (.ok b)
  | error {fault fault' : Fault} : fault.cause.code = fault'.cause.code →
      Agree R (.error fault) (.error fault')

variable {α β γ δ : Type}

/-- Steps that agree and go on in ways that agree make computations that agree. -/
theorem Agree.bind {R : α → β → Prop} {S : γ → δ → Prop} {x : Traced α} {y : Traced β}
    {f : α → Traced γ} {g : β → Traced δ} (h : Agree R x.result y.result)
    (hnext : ∀ a b, R a b → Agree S (f a).result (g b).result) :
    Agree S (x >>= f).result (y >>= g).result := by
  show Agree S (x.andThen f).result (y.andThen g).result
  rw [Traced.andThen, Traced.andThen]
  generalize x.result = first at h
  generalize y.result = second at h
  cases h with
  | ok hR => exact hnext _ _ hR
  | error hcode => exact .error hcode

/-- Lists that are related item by item are so part by part. -/
theorem forall₂_append_split {R : α → β → Prop} {first more : List α} {first' more' : List β}
    (h : List.Forall₂ R (first ++ more) (first' ++ more'))
    (hlength : first.length = first'.length) :
    List.Forall₂ R first first' ∧ List.Forall₂ R more more' := by
  have htake := List.forall₂_take_append _ _ _ h
  have hdrop := List.forall₂_drop_append _ _ _ h
  rw [← hlength, List.take_left] at htake
  rw [← hlength, List.drop_left] at hdrop
  exact ⟨htake, hdrop⟩

namespace Renaming

/-! ## The names of binders -/

/-- Whether the occurrence binds a local. -/
def bindsLocal (source : String) (occurrence : Occurrence) : Bool :=
  occurrence.target == some (.local occurrence.text source occurrence.start)

/-- The names that the binders among occurrences have after the renaming. -/
def binderNames (target : Target) (newName source : String) (occurrences : List Occurrence) :
    List String :=
  (occurrences.filter (bindsLocal source)).map fun occurrence =>
    if Sources.refersTo target occurrence then newName else occurrence.text

variable {source : String} {globals globals' : List String} {target : Target} {newName : String}
variable {edits : List Edit}

theorem binderNames_append (first more : List Occurrence) :
    binderNames target newName source (first ++ more) =
      binderNames target newName source first ++ binderNames target newName source more := by
  rw [binderNames, List.filter_append, List.map_append]
  rfl

/-- A variable is no binder, if no binder stands where it does. -/
theorem binderNames_variable {text : String} {start stop : Nat} {scope : Scope Target}
    (h : ∀ name found, scope.lookup name = some found → found.Apart [⟨text, start, stop⟩]) :
    binderNames target newName source
      [⟨text, start, stop, Occurrence.resolve globals scope text⟩] = [] := by
  have hnot : bindsLocal source ⟨text, start, stop, Occurrence.resolve globals scope text⟩ =
      false := by
    rw [bindsLocal, beq_eq_false_iff_ne]
    intro hbinds
    exact h _ _ (lookup_of_resolve hbinds) _ List.mem_cons_self rfl
  rw [binderNames, List.filter_cons, hnot]
  rfl

/-- A binder gives its new name. -/
theorem binderNames_binder {text : String} {start stop : Nat} :
    binderNames target newName source [⟨text, start, stop, some (.local text source start)⟩] =
      [if Sources.refersTo target ⟨text, start, stop, some (.local text source start)⟩ then newName
        else text] := by
  have hbinds : bindsLocal source ⟨text, start, stop, some (.local text source start)⟩ = true := by
    rw [bindsLocal, beq_self_eq_true]
  rw [binderNames, List.filter_cons, hbinds]
  rfl

/-- What is known of a part of a script with these atoms and names before and
after a renaming. -/
structure Walked (globals globals' : List String) (target : Target) (newName : String)
    (edits : List Edit) (leaves leaves' : List Leaf) (occurrences occurrences' : List Occurrence)
    (scope scope' : Scope Target) (sorts sorts' : Scope BaseSort) (env : String → String) :
    Prop where
  ordered : Leaf.Ordered leaves
  ordered' : Leaf.Ordered leaves'
  kept : List.Forall₂ (Kept target newName edits) occurrences occurrences'
  related :
    Related globals globals' target newName edits leaves leaves' scope scope' sorts sorts' env

namespace Walked

variable {leaves leaves' more more' : List Leaf} {occurrences occurrences' : List Occurrence}
variable {rest rest' : List Occurrence} {scope scope' : Scope Target}
variable {sorts sorts' : Scope BaseSort} {env : String → String}

/-- What is known of two parts is known of each. -/
theorem split
    (h : Walked globals globals' target newName edits (leaves ++ more) (leaves' ++ more')
      (occurrences ++ rest) (occurrences' ++ rest') scope scope' sorts sorts' env)
    (hlength : occurrences.length = occurrences'.length) :
    Walked globals globals' target newName edits leaves leaves' occurrences occurrences' scope
        scope' sorts sorts' env ∧
      Walked globals globals' target newName edits more more' rest rest' scope scope' sorts sorts'
        env := by
  obtain ⟨hfirst, hmore, -⟩ := List.pairwise_append.1 h.ordered
  obtain ⟨hfirst', hmore', -⟩ := List.pairwise_append.1 h.ordered'
  obtain ⟨hkept, hkeptMore⟩ := forall₂_append_split h.kept hlength
  exact ⟨⟨hfirst, hfirst', hkept, h.related.mono (fun _ hleaf => List.mem_append_left _ hleaf)
      fun _ hleaf => List.mem_append_left _ hleaf⟩,
    ⟨hmore, hmore', hkeptMore, h.related.mono (fun _ hleaf => List.mem_append_right _ hleaf)
      fun _ hleaf => List.mem_append_right _ hleaf⟩⟩

/-- The first atom may be left out, if it is no name. -/
theorem tail {leaf leaf' : Leaf}
    (h : Walked globals globals' target newName edits (leaf :: leaves) (leaf' :: leaves')
      occurrences occurrences' scope scope' sorts sorts' env) :
    Walked globals globals' target newName edits leaves leaves' occurrences occurrences' scope
      scope' sorts sorts' env :=
  (@split _ _ _ _ _ [leaf] [leaf'] leaves leaves' [] [] _ _ _ _ _ _ _ h rfl).2

/-- A name and what is behind it. -/
theorem uncons {leaf leaf' : Leaf} {occurrence occurrence' : Occurrence}
    (h : Walked globals globals' target newName edits (leaf :: leaves) (leaf' :: leaves')
      (occurrence :: occurrences) (occurrence' :: occurrences') scope scope' sorts sorts' env) :
    Kept target newName edits occurrence occurrence' ∧
      (∀ other ∈ leaves', leaf'.start < other.start) ∧
      Walked globals globals' target newName edits leaves leaves' occurrences occurrences' scope
        scope' sorts sorts' env := by
  obtain ⟨hkept, hmore⟩ := List.forall₂_cons.1 h.kept
  exact ⟨hkept, (List.pairwise_cons.1 h.ordered').1, (tail { h with kept := hmore })⟩

end Walked

/-! ## Atoms -/

/-- The second expression is the first under new names, and uses up the names of
its binders. -/
def RenamesTo (env : String → String) (names : List String) (expr expr' : Expr) : Prop :=
  ∀ rest, expr.rename env (names ++ rest) = (expr', rest)

/-- An expression without arguments is renamed by its name. -/
theorem renamesTo_leaf {env : String → String} {name name' : String} (sort : BaseSort)
    (h : env name = name') : RenamesTo env [] (.leaf name sort) (.leaf name' sort) := by
  intro rest
  rw [List.nil_append, Expr.leaf, Expr.rename, h]
  rfl

section

variable {leaves leaves' : List Leaf} {scope scope' : Scope Target}
variable {sorts sorts' : Scope BaseSort} {env : String → String}

/-- An atom that is not renamed is elaborated as before, whatever it is, if its
name has the sort it had. -/
theorem ofAtom_kept {fractional : Bool} {text : String} {span span' : Span}
    (henv : env text = text)
    (hnumeral : ∀ name, Numeral.startsNumeral name = true → env name = name)
    (hlookup : Numeral.startsNumeral text = false → sorts'.lookup text = sorts.lookup text) :
    Agree (RenamesTo env []) (Expr.ofAtom fractional sorts text span)
      (Expr.ofAtom fractional sorts' text span') := by
  rw [Expr.ofAtom, Expr.ofAtom]
  by_cases hstarts : Numeral.startsNumeral text = true
  · rw [if_pos hstarts, if_pos hstarts]
    cases hcanonical : Numeral.canonical? fractional text with
    | none => exact .error rfl
    | some numeral =>
      exact .ok (renamesTo_leaf _
        (hnumeral numeral (Numeral.startsNumeral_of_canonical? hcanonical)))
  · rw [if_neg hstarts, if_neg hstarts]
    split
    · exact .ok (renamesTo_leaf _ henv)
    · rw [hlookup (by simpa using hstarts)]
      cases sorts.lookup text with
      | none => exact .error rfl
      | some sort => exact .ok (renamesTo_leaf _ henv)

/-- **A variable is elaborated as before the renaming**, under the name that it
has after it. -/
theorem ofAtom_variable (hordinary : Ordinary target.name newName)
    (hnew : Numeral.startsNumeral newName = false) {fractional : Bool} {text text' : String}
    {span span' : Span} (hnumeral : Numeral.startsNumeral text = false)
    (htext : text' = text ∨ text = target.name ∧ text' = newName)
    (h : Related globals globals' target newName edits leaves leaves' scope scope' sorts sorts' env)
    (hkept : Occurrence.resolve globals' scope' text' =
      (Occurrence.resolve globals scope text).map (image target newName edits)) :
    Agree (RenamesTo env []) (Expr.ofAtom fractional sorts text span)
      (Expr.ofAtom fractional sorts' text' span') := by
  have hnumeral' : Numeral.startsNumeral text' = false := by
    rcases htext with rfl | ⟨-, rfl⟩
    · exact hnumeral
    · exact hnew
  rw [Expr.ofAtom, Expr.ofAtom, hnumeral, hnumeral', if_neg Bool.false_ne_true,
    if_neg Bool.false_ne_true]
  by_cases htruth : text = "true" ∨ text = "false"
  · -- a truth value is no name that is renamed
    have hself : text ≠ target.name := by
      intro heq
      rcases htruth with rfl | rfl
      · exact hordinary.old_ne.1 heq.symm
      · exact hordinary.old_ne.2 heq.symm
    have hsame : text' = text := htext.resolve_right fun hrenamed => hself hrenamed.1
    rw [hsame, if_pos htruth, if_pos htruth]
    exact .ok (renamesTo_leaf _ (h.fixed text hself))
  · have htruth' : ¬ (text' = "true" ∨ text' = "false") := by
      rcases htext with rfl | ⟨-, rfl⟩
      · exact htruth
      · exact not_or.2 hordinary.new_ne
    rw [if_neg htruth, if_neg htruth']
    -- a name that resolves to nothing has no sort, on both sides
    cases hfound : Occurrence.resolve globals scope text with
    | none =>
      rw [hfound] at hkept
      rw [h.unknown text hfound, h.unknown' text' hkept]
      exact .error rfl
    | some found =>
      rw [hfound] at hkept
      have henv : env text = text' :=
        (h.env_eq text found hfound).trans (h.name_eq text' _ hkept)
      rw [h.sorts_eq text text' found hfound hkept]
      cases sorts.lookup text with
      | none => exact .error rfl
      | some sort => exact .ok (renamesTo_leaf _ henv)

end

/-! ## Operators -/

/-- The same for expressions one after another. -/
def RenamesAllTo (env : String → String) (names : List String) (exprs exprs' : List Expr) : Prop :=
  ∀ rest, Expr.renameAll env (names ++ rest) exprs = (exprs', rest)

/-- Renaming expressions keeps their sorts. -/
theorem map_sort_renameAll (env : String → String) (names : List String) (exprs : List Expr) :
    (Expr.renameAll env names exprs).1.map Expr.sort = exprs.map Expr.sort := by
  induction exprs generalizing names with
  | nil => rfl
  | cons expr exprs ih =>
    rw [Expr.renameAll, List.map_cons, List.map_cons, ih, Expr.sort_rename]

theorem RenamesAllTo.map_sort {env : String → String} {names : List String}
    {exprs exprs' : List Expr} (h : RenamesAllTo env names exprs exprs') :
    exprs'.map Expr.sort = exprs.map Expr.sort := by
  rw [← map_sort_renameAll env (names ++ []) exprs, h []]

/-- An operator applied to renamed arguments. -/
theorem renamesTo_node {env : String → String} {names : List String} {name : String}
    {args args' : List Expr} (sort : BaseSort) (hname : name ≠ "let") (hne : args ≠ [])
    (h : RenamesAllTo env names args args') :
    RenamesTo env names (.node name sort args) (.node name sort args') := by
  intro rest
  have hempty : args.isEmpty = false := by simpa using hne
  rw [Expr.rename, hempty, if_neg Bool.false_ne_true]
  simp only [if_neg hname]
  rw [h rest]

/-- **An operator with renamed arguments is the operator renamed**, and it lacks a
sort where it did. -/
theorem ofOperator?_renamed {env : String → String} {names : List String} {head : String}
    {args args' : List Expr} (hhead : head ≠ "let")
    (henv : Expr.yieldsBool head = true → env head = head)
    (h : RenamesAllTo env names args args') :
    (Expr.ofOperator? head args = none ∧ Expr.ofOperator? head args' = none) ∨
      ∃ expr expr', Expr.ofOperator? head args = some expr ∧
        Expr.ofOperator? head args' = some expr' ∧ RenamesTo env names expr expr' := by
  have hsorts := h.map_sort
  rw [Expr.ofOperator?, Expr.ofOperator?]
  cases args with
  | nil =>
    obtain rfl : args' = [] := List.map_eq_nil_iff.1 hsorts
    have hnames : names = [] := by
      have hrest := h []
      rw [Expr.renameAll, List.append_nil] at hrest
      exact (Prod.mk.inj hrest).2
    subst hnames
    split
    · rename_i hyields
      exact .inr ⟨_, _, rfl, rfl, renamesTo_leaf .bool (henv hyields)⟩
    · exact .inl ⟨rfl, rfl⟩
  | cons arg args =>
    right
    split
    · exact ⟨_, _, rfl, rfl, renamesTo_node .bool hhead (List.cons_ne_nil _ _) h⟩
    -- the last arguments have the same sort
    · have hlast := congrArg List.getLast? hsorts
      rw [List.getLast?_map, List.getLast?_map,
        List.getLast?_eq_some_getLast (List.cons_ne_nil _ _),
        Option.map_some] at hlast
      obtain ⟨last', hlast', hsort⟩ := Option.map_eq_some_iff.1 hlast
      rw [hlast', List.getLast?_eq_some_getLast (List.cons_ne_nil _ _), Option.map_some,
        Option.map_some, hsort]
      exact ⟨_, _, rfl, rfl, renamesTo_node _ hhead (List.cons_ne_nil _ _) h⟩

/-! ## Bindings -/

/-- What the bindings of a `let` are elaborated to before and after a renaming,
with the rows that they bind. -/
structure BoundAlike (target : Target) (newName : String) (edits : List Edit) (source : String)
    (bindings bindings' : List Form) (outer : String → String) (names : List String)
    (bound bound' : List Expr) (rows : List Row) : Prop where
  rows_ok :
    Rows target newName edits source (Form.leavesAll bindings) (Form.leavesAll bindings') rows
  binders_eq : Occurrence.binders source bindings =
    rows.map fun row => (row.name, .local row.name source row.start)
  binders_eq' : Occurrence.binders source bindings' =
    rows.map fun row => (row.name', .local row.name' source row.start')
  sorts_eq : Expr.boundSorts bound = rows.map fun row => (row.name, row.sort)
  sorts_eq' : Expr.boundSorts bound' = rows.map fun row => (row.name', row.sort)
  rename_eq : ∀ inner rest body, Expr.renameLet outer inner (names ++ rest) (bound ++ [body]) =
    (bound' ++ [(body.rename (Row.env inner rows) rest).1],
      (body.rename (Row.env inner rows) rest).2)

/-- No bindings. -/
theorem boundAlike_nil (outer : String → String) :
    BoundAlike target newName edits source [] [] outer [] [] [] [] where
  rows_ok := by constructor <;> simp
  binders_eq := rfl
  binders_eq' := rfl
  sorts_eq := rfl
  sorts_eq' := rfl
  rename_eq inner rest body := Expr.renameLet_singleton outer inner rest body

/-- One binding more. -/
theorem BoundAlike.cons {bindings bindings' : List Form} {outer : String → String}
    {names names' : List String} {bound bound' : List Expr} {rows : List Row}
    (h : BoundAlike target newName edits source bindings bindings' outer names' bound bound' rows)
    {name name' : String} {start stop start' stop' p q p' q' : Nat} {value value' : Form}
    (himage : image target newName edits (.local name source start) = .local name' source start')
    (hname : name' = name ∨ name = target.name ∧ name' = newName)
    (hordered : ∀ leaf ∈ Form.leavesAll bindings', start' < leaf.start)
    {expr expr' : Expr} (hexpr : RenamesTo outer names expr expr') :
    BoundAlike target newName edits source (.list [.atom name start stop, value] p q :: bindings)
      (.list [.atom name' start' stop', value'] p' q' :: bindings') outer
      (name' :: (names ++ names')) (.bound name expr :: bound) (.bound name' expr' :: bound')
      (⟨name, start, name', start', expr.sort⟩ :: rows) := by
  have hsort : expr'.sort = expr.sort := by
    rw [← Expr.sort_rename outer (names ++ []) expr, hexpr []]
  refine { rows_ok := ?rows_ok, binders_eq := ?binders_eq, binders_eq' := ?binders_eq',
           sorts_eq := ?sorts_eq, sorts_eq' := ?sorts_eq', rename_eq := ?rename_eq }
  case rows_ok =>
    refine { image_eq := ?_, name_eq := ?_, mem := ?_, mem' := ?_, distinct := ?_ }
    · exact List.forall_mem_cons.2 ⟨himage, h.rows_ok.image_eq⟩
    · exact List.forall_mem_cons.2 ⟨hname, h.rows_ok.name_eq⟩
    · refine List.forall_mem_cons.2 ⟨⟨⟨name, start, stop⟩, List.mem_cons_self, rfl⟩, ?_⟩
      intro row hrow
      obtain ⟨leaf, hleaf, hstart⟩ := h.rows_ok.mem row hrow
      exact ⟨leaf, List.mem_append_right _ hleaf, hstart⟩
    · refine List.forall_mem_cons.2 ⟨⟨⟨name', start', stop'⟩, List.mem_cons_self, rfl⟩, ?_⟩
      intro row hrow
      obtain ⟨leaf, hleaf, hstart⟩ := h.rows_ok.mem' row hrow
      exact ⟨leaf, List.mem_append_right _ hleaf, hstart⟩
    · refine List.pairwise_cons.2 ⟨fun row hrow => ?_, h.rows_ok.distinct⟩
      obtain ⟨leaf, hleaf, hstart⟩ := h.rows_ok.mem' row hrow
      have hlt := hordered leaf hleaf
      simp only
      omega
  case binders_eq => rw [Occurrence.binders, h.binders_eq]; rfl
  case binders_eq' => rw [Occurrence.binders, h.binders_eq']; rfl
  case sorts_eq =>
    have hsorts := h.sorts_eq
    rw [Expr.boundSorts] at hsorts ⊢
    rw [List.map_cons, hsorts]
    rfl
  case sorts_eq' =>
    have hsorts := h.sorts_eq'
    rw [Expr.boundSorts] at hsorts ⊢
    rw [List.map_cons, hsorts, Expr.bound, hsort]
    rfl
  case rename_eq =>
    intro inner rest body
    have hbound : Expr.renameBound outer (name' :: (names ++ names') ++ rest) (.bound name expr) =
        (.bound name' expr', names' ++ rest) := by
      rw [Expr.bound, Expr.renameBound, Expr.bound, hsort]
      simp only [List.cons_append, List.tail_cons, List.headD_cons, List.append_assoc]
      rw [Expr.renameAll, hexpr (names' ++ rest), Expr.renameAll]
    have hcons := Expr.renameLet_cons outer inner (name' :: (names ++ names') ++ rest)
      (.bound name expr) (show bound ++ [body] ≠ [] by simp)
    rw [hbound] at hcons
    refine hcons.trans ?_
    rw [show Expr.named inner (Expr.bound name expr).name (Expr.bound name' expr').name =
      Expr.named inner name name' from rfl, h.rename_eq]
    rfl

/-! ## Forms -/

/-- A `let` with renamed bindings and a renamed body. -/
theorem renamesTo_letIn {bindings bindings' : List Form} {outer : String → String}
    {names names' : List String} {bound bound' : List Expr} {rows : List Row} {body body' : Expr}
    (h : BoundAlike target newName edits source bindings bindings' outer names bound bound' rows)
    (hbody : RenamesTo (Row.env outer rows) names' body body') :
    RenamesTo outer (names ++ names') (.letIn bound body) (.letIn bound' body') := by
  intro rest
  have hsort : body'.sort = body.sort := by
    rw [← Expr.sort_rename (Row.env outer rows) (names' ++ []) body, hbody []]
  have hempty : (bound ++ [body]).isEmpty = false := by simp
  rw [Expr.letIn, Expr.rename, hempty, if_neg Bool.false_ne_true]
  simp only [if_pos]
  rw [List.append_assoc, h.rename_eq, hbody rest, Expr.letIn, hsort]

/-! ## Forms -/

/-- **An atom after a renaming is elaborated as before**: as a variable if the walk
passes it, and otherwise as it is. -/
theorem ofForm_atom_relabel {mark : Nat → Bool} {move : Nat → Nat} {fractional : Bool}
    {scope scope' : Scope Target} {sorts sorts' : Scope BaseSort} {env : String → String}
    {text : String} {start stop : Nat} (hordinary : Ordinary target.name newName)
    (hnames : target.name ≠ "" ∧ newName ≠ "") (hnumeral : Numeral.startsNumeral newName = false)
    (hfaithful : Occurrence.FaithfulForm mark target source globals scope (.atom text start stop))
    (h : Walked globals globals' target newName edits (Form.atom text start stop).leaves
      ((Form.atom text start stop).relabel mark newName move).leaves
      (Occurrence.inForm source globals scope (.atom text start stop))
      (Occurrence.inForm source globals' scope'
        ((Form.atom text start stop).relabel mark newName move))
      scope scope' sorts sorts' env) :
    Agree (RenamesTo env (binderNames target newName source
        (Occurrence.inForm source globals scope (.atom text start stop))))
      (Expr.ofForm fractional sorts (.atom text start stop)).result
      (Expr.ofForm fractional sorts'
        ((Form.atom text start stop).relabel mark newName move)).result := by
  have hfixedNumeral : ∀ name, Numeral.startsNumeral name = true → env name = name := by
    intro name hname
    refine h.related.fixed name ?_
    rintro rfl
    rw [hordinary.not_numeral] at hname
    cases hname
  rw [Expr.ofForm, Form.relabel, Expr.ofForm]
  by_cases hskip : text = "" ∨ Numeral.startsNumeral text = true
  · -- the walk does not pass this atom, and so it is not renamed
    rw [Occurrence.FaithfulForm, if_pos hskip] at hfaithful
    rw [hfaithful, if_neg Bool.false_ne_true, Occurrence.inForm, if_pos hskip]
    refine ofAtom_kept ?_ hfixedNumeral fun hnot => ?_
    · rcases hskip with rfl | hstarts
      · exact h.related.fixed "" (Ne.symm hnames.1)
      · exact hfixedNumeral text hstarts
    · rcases hskip with rfl | hstarts
      · exact h.related.empty
      · rw [hnot] at hstarts
        cases hstarts
  · rw [Occurrence.FaithfulForm, if_neg hskip] at hfaithful
    have htext := hfaithful.kept_or_new newName
    have hname : ¬ ((if mark start = true then newName else text) = "" ∨
        Numeral.startsNumeral (if mark start = true then newName else text) = true) := by
      rcases htext with hkept | ⟨-, hrenamed⟩
      · rw [hkept]
        exact hskip
      · rw [hrenamed, hnumeral]
        simp [hnames.2]
    have hkept := h.kept
    have hrelated := h.related
    rw [Form.relabel, Occurrence.inForm, if_neg hskip, Occurrence.inForm, if_neg hname] at hkept
    rw [Occurrence.inForm, if_neg hskip, binderNames_variable hrelated.apart]
    exact ofAtom_variable hordinary hnumeral (by simpa using (not_or.1 hskip).2) htext hrelated
      (List.forall₂_cons.1 hkept).1

/-- **A form after a renaming is elaborated as before**, under the new names. -/
theorem ofForm_relabel {mark : Nat → Bool} {move : Nat → Nat} {fractional : Bool}
    (hordinary : Ordinary target.name newName) (hnames : target.name ≠ "" ∧ newName ≠ "")
    (hnumeral : Numeral.startsNumeral newName = false) :
    (∀ (sorts : Scope BaseSort) (form : Form) (scope scope' : Scope Target)
        (sorts' : Scope BaseSort) (env : String → String),
      Occurrence.FaithfulForm mark target source globals scope form →
      Walked globals globals' target newName edits form.leaves
        (form.relabel mark newName move).leaves
        (Occurrence.inForm source globals scope form)
        (Occurrence.inForm source globals' scope' (form.relabel mark newName move))
        scope scope' sorts sorts' env →
      Agree (RenamesTo env (binderNames target newName source
          (Occurrence.inForm source globals scope form)))
        (Expr.ofForm fractional sorts form).result
        (Expr.ofForm fractional sorts' (form.relabel mark newName move)).result) ∧
    (∀ (sorts : Scope BaseSort) (forms : List Form) (scope scope' : Scope Target)
        (sorts' : Scope BaseSort) (env : String → String),
      Occurrence.FaithfulForms mark target source globals scope forms →
      Walked globals globals' target newName edits (Form.leavesAll forms)
        (Form.leavesAll (Form.relabelAll mark newName move forms))
        (Occurrence.inForms source globals scope forms)
        (Occurrence.inForms source globals' scope' (Form.relabelAll mark newName move forms))
        scope scope' sorts sorts' env →
      Agree (RenamesAllTo env (binderNames target newName source
          (Occurrence.inForms source globals scope forms)))
        (Expr.ofForms fractional sorts forms).result
        (Expr.ofForms fractional sorts' (Form.relabelAll mark newName move forms)).result) ∧
    (∀ (sorts : Scope BaseSort) (count : Nat) (span : Span) (forms : List Form)
        (scope scope' : Scope Target) (sorts' : Scope BaseSort) (env : String → String)
        (count' : Nat) (span' : Span),
      Occurrence.FaithfulLet mark target source globals scope forms →
      Walked globals globals' target newName edits (Form.leavesAll forms)
        (Form.leavesAll (Form.relabelAll mark newName move forms))
        (Occurrence.inLet source globals scope forms)
        (Occurrence.inLet source globals' scope' (Form.relabelAll mark newName move forms))
        scope scope' sorts sorts' env →
      Agree (RenamesTo env (binderNames target newName source
          (Occurrence.inLet source globals scope forms)))
        (Expr.ofLet fractional sorts count span forms).result
        (Expr.ofLet fractional sorts' count' span'
          (Form.relabelAll mark newName move forms)).result) ∧
    (∀ (sorts : Scope BaseSort) (forms : List Form) (scope scope' : Scope Target)
        (sorts' : Scope BaseSort) (env : String → String),
      Occurrence.FaithfulBindings mark target source globals scope forms →
      Walked globals globals' target newName edits (Form.leavesAll forms)
        (Form.leavesAll (Form.relabelAll mark newName move forms))
        (Occurrence.inBindings source globals scope forms)
        (Occurrence.inBindings source globals' scope' (Form.relabelAll mark newName move forms))
        scope scope' sorts sorts' env →
      Agree (fun bound bound' => ∃ rows, BoundAlike target newName edits source forms
          (Form.relabelAll mark newName move forms) env
          (binderNames target newName source (Occurrence.inBindings source globals scope forms))
          bound bound' rows)
        (Expr.ofBindings fractional sorts forms).result
        (Expr.ofBindings fractional sorts' (Form.relabelAll mark newName move forms)).result) := by
  have hlengths := @Occurrence.forall₂_relabel mark target source globals newName move
    ⟨hnames.2, hnumeral⟩
  -- the induction is on elaboration; the walk follows it, form by form
  refine Expr.ofForm.mutual_induct _ _ _ _ ?atom ?nothing ?listHead ?letForm ?applied ?noForms
    ?moreForms ?bound ?atomForBindings ?otherLet ?noBindings ?binding ?otherBinding
  case atom =>
    intro sorts text start stop scope scope' sorts' env hfaithful h
    exact ofForm_atom_relabel hordinary hnames hnumeral hfaithful h
  case nothing =>
    intro sorts start stop scope scope' sorts' env hfaithful h
    exact .error rfl
  case listHead =>
    intro sorts items start' stop' rest start stop scope scope' sorts' env hfaithful h
    exact .error rfl
  case letForm =>
    intro sorts start stop rest start' stop' ih scope scope' sorts' env hfaithful h
    rw [Occurrence.FaithfulForm, if_pos rfl] at hfaithful
    have hwalked := h.tail
    rw [Form.relabel, Form.relabelAll, Form.relabel, hfaithful.1, if_neg Bool.false_ne_true,
      Occurrence.inForm, if_pos rfl, Occurrence.inForm, if_pos rfl] at hwalked
    rw [Form.relabel, Form.relabelAll, Form.relabel, hfaithful.1, if_neg Bool.false_ne_true,
      Occurrence.inForm, if_pos rfl, Expr.ofForm, if_pos rfl, Expr.ofForm, if_pos rfl]
    exact ih scope scope' sorts' env _ _ hfaithful.2 hwalked
  case applied =>
    intro sorts head start stop rest start' stop' hne ih scope scope' sorts' env hfaithful h
    rw [Occurrence.FaithfulForm, if_neg hne] at hfaithful
    have hwalked := h.tail
    rw [Form.relabel, Form.relabelAll, Form.relabel, hfaithful.1, if_neg Bool.false_ne_true,
      Occurrence.inForm, if_neg hne, Occurrence.inForm, if_neg hne] at hwalked
    rw [Form.relabel, Form.relabelAll, Form.relabel, hfaithful.1, if_neg Bool.false_ne_true,
      Occurrence.inForm, if_neg hne, Expr.ofForm, if_neg hne, Expr.ofForm, if_neg hne]
    have henv : Expr.yieldsBool head = true → env head = head := by
      intro hyields
      refine h.related.fixed head ?_
      rintro rfl
      rw [hordinary.not_operator] at hyields
      cases hyields
    refine (ih scope scope' sorts' env hfaithful.2 hwalked).bind fun args args' hargs => ?_
    rcases ofOperator?_renamed hne henv hargs with ⟨hnone, hnone'⟩ |
      ⟨expr, expr', hsome, hsome', hexpr⟩
    · rw [hnone, hnone']
      exact .error rfl
    · rw [hsome, hsome']
      exact .ok hexpr
  case noForms =>
    intro sorts scope scope' sorts' env hfaithful h
    exact .ok fun rest => rfl
  case moreForms =>
    intro sorts form forms ihform ihforms scope scope' sorts' env hfaithful h
    rw [Occurrence.FaithfulForms] at hfaithful
    rw [Form.relabelAll, Form.leavesAll, Form.leavesAll, Occurrence.inForms,
      Occurrence.inForms] at h
    obtain ⟨hform, hforms⟩ := h.split (hlengths.1 scope form hfaithful.1 globals' scope').length_eq
    rw [Form.relabelAll, Occurrence.inForms, binderNames_append, Expr.ofForms, Expr.ofForms]
    refine (ihform scope scope' sorts' env hfaithful.1 hform).bind fun expr expr' hexpr => ?_
    refine (ihforms scope scope' sorts' env hfaithful.2 hforms).bind fun exprs exprs' hexprs => ?_
    refine .ok fun rest => ?_
    rw [List.append_assoc, Expr.renameAll, hexpr, hexprs]
  case bound =>
    intro sorts count span bindings start stop body ihbindings ihbody scope scope' sorts' env count'
      span' hfaithful h
    rw [Occurrence.FaithfulLet] at hfaithful
    rw [Form.relabelAll, Form.relabelAll, Form.relabelAll, Form.relabel, Occurrence.leavesAll_bound,
      Occurrence.leavesAll_bound, Occurrence.inLet, Occurrence.inLet] at h
    obtain ⟨hbindings, hbody⟩ :=
      h.split (hlengths.2.2.2 scope bindings hfaithful.1 globals' scope').length_eq
    rw [Form.relabelAll, Form.relabelAll, Form.relabelAll, Form.relabel, Occurrence.inLet,
      binderNames_append, Expr.ofLet, Expr.ofLet]
    refine (ihbindings scope scope' sorts' env hfaithful.1 hbindings).bind ?_
    rintro bound bound' ⟨rows, hbound⟩
    -- the body sees the names that the bindings bind on either side
    have hrelated := h.related.extend hnames hbound.rows_ok
      (fun _ hleaf => List.mem_append_left _ hleaf) (fun _ hleaf => List.mem_append_right _ hleaf)
      (fun _ hleaf => List.mem_append_right _ hleaf) (List.pairwise_append.1 h.ordered).2.2
      (List.pairwise_append.1 h.ordered').2.2
    rw [← hbound.binders_eq, ← hbound.binders_eq', ← hbound.sorts_eq, ← hbound.sorts_eq']
      at hrelated
    refine (ihbody bound _ _ _ _ hfaithful.2
      ⟨hbody.ordered, hbody.ordered', hbody.kept, hrelated⟩).bind fun expr expr' hexpr => ?_
    exact .ok (renamesTo_letIn hbound hexpr)
  case atomForBindings =>
    intro sorts count span text start stop head scope scope' sorts' env count' span' hfaithful h
    exact .error rfl
  case otherLet =>
    intro forms sorts count span hlet hatom scope scope' sorts' env count' span' hfaithful h
    rw [Expr.ofLet, Expr.ofLet]
    · exact .error rfl
    · intro bindings start stop body heq
      obtain ⟨first, second, rfl, hfirst, -⟩ := Form.eq_pair_of_relabelAll heq
      obtain ⟨items, start', stop', rfl, -⟩ := Form.eq_list_of_relabel hfirst
      exact hlet _ _ _ _ rfl
    · intro text start stop body heq
      obtain ⟨first, second, rfl, hfirst, -⟩ := Form.eq_pair_of_relabelAll heq
      obtain ⟨text', start', stop', rfl⟩ := Form.eq_atom_of_relabel hfirst
      exact hatom _ _ _ _ rfl
    · exact hlet
    · exact hatom
  case noBindings =>
    intro sorts scope scope' sorts' env hfaithful h
    exact .ok ⟨[], boundAlike_nil env⟩
  case binding =>
    intro sorts name start stop value start' stop' bindings ihvalue ihbindings scope scope' sorts'
      env hfaithful h
    rw [Occurrence.FaithfulBindings] at hfaithful
    obtain ⟨hmarked, hvalue, hrest⟩ := hfaithful
    have hoccurrence : binderNames target newName source
        [⟨name, start, stop, some (.local name source start)⟩] =
          [if mark start = true then newName else name] := by
      rw [binderNames_binder, ← hmarked.iff_refersTo]
    rw [Form.relabelAll, Form.relabel, Form.relabelAll, Form.relabelAll, Form.relabelAll,
      Form.relabel, Occurrence.leavesAll_binding, Occurrence.leavesAll_binding,
      Occurrence.inBindings, Occurrence.inBindings] at h
    obtain ⟨hkept, hbefore, h⟩ := h.uncons
    obtain ⟨hvalueWalked, hrestWalked⟩ :=
      h.split (hlengths.1 scope value hvalue globals' scope').length_eq
    have hnames : binderNames target newName source (Occurrence.inBindings source globals scope
        (.list [.atom name start stop, value] start' stop' :: bindings)) =
          (if mark start = true then newName else name) ::
            (binderNames target newName source (Occurrence.inForm source globals scope value) ++
              binderNames target newName source
                (Occurrence.inBindings source globals scope bindings)) := by
      rw [Occurrence.inBindings, ← binderNames_append, ← List.singleton_append, binderNames_append,
        hoccurrence]
      rfl
    rw [hnames, Form.relabelAll, Form.relabel, Form.relabelAll, Form.relabelAll, Form.relabelAll,
      Form.relabel, Expr.ofBindings, Expr.ofBindings]
    refine (ihvalue scope scope' sorts' env hvalue hvalueWalked).bind fun expr expr' hexpr => ?_
    refine Agree.bind (R := fun _ _ => True) (.ok trivial) fun _ _ _ => ?_
    refine (ihbindings scope scope' sorts' env hrest hrestWalked).bind ?_
    rintro bound bound' ⟨rows, hbound⟩
    exact .ok ⟨_, hbound.cons (Option.some.inj hkept).symm (hmarked.kept_or_new newName)
      (fun leaf hleaf => hbefore leaf (List.mem_append_right _ hleaf)) hexpr⟩
  case otherBinding =>
    intro sorts binding bindings hbinding scope scope' sorts' env hfaithful h
    rw [Form.relabelAll, Expr.ofBindings, Expr.ofBindings]
    · exact .error rfl
    · intro name start stop value start' stop' heq
      obtain ⟨items, p, q, rfl, hitems⟩ := Form.eq_list_of_relabel heq
      obtain ⟨first, second, rfl, hfirst, -⟩ := Form.eq_pair_of_relabelAll hitems
      obtain ⟨text, p', q', rfl⟩ := Form.eq_atom_of_relabel hfirst
      exact hbinding _ _ _ _ _ _ rfl
    · exact hbinding

end Renaming

end SatScript
