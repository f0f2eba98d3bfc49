import Mathlib.Data.List.Find
import SatScript.Expr.Elaboration
import SatScript.Proofs.Rename.Made
import SatScript.Proofs.Rename.Naming
/-!
# SatScript — names that mean the same

Elaboration looks names up in a scope of sorts, and the walk over names in
a scope of targets. `Related` says how the scopes before a renaming go with
those after it: a name that resolves to a target has the sort of the name
that resolves to the image of the target. Bindings extend all scopes at
once, and what was said of the scopes around stays true of those inside
(`Related.extend`); this is where a binder that shadows another one, or is
written twice, comes in.
-/

namespace SatScript

/-- The target is no local bound at one of the atoms. -/
def Target.Apart (leaves : List Leaf) : Target → Prop
  | .global _ => True
  | .local _ _ start => ∀ leaf ∈ leaves, start ≠ leaf.start

theorem Target.Apart.mono {leaves leaves' : List Leaf} {target : Target}
    (h : target.Apart leaves) (hsubset : ∀ leaf ∈ leaves', leaf ∈ leaves) :
    target.Apart leaves' := by
  cases target with
  | global name => trivial
  | «local» name source start => exact fun leaf hleaf => h leaf (hsubset leaf hleaf)

namespace Renaming

/-- The old and the new name are those of variables: neither is a truth value,
and the old one is no operator and no numeral. -/
structure Ordinary (old new : String) : Prop where
  old_ne : old ≠ "true" ∧ old ≠ "false"
  new_ne : new ≠ "true" ∧ new ≠ "false"
  not_operator : Expr.yieldsBool old = false
  not_numeral : Numeral.startsNumeral old = false

variable {source : String} {globals globals' : List String} {target : Target} {newName : String}
variable {edits : List Edit}

/-- What the scopes before a renaming have to do with those after it, where an
expression with these atoms stands: the names in `scope` with their `sorts`
before, the primed ones after, and `env` for the names that variables have
after. -/
structure Related (globals globals' : List String) (target : Target) (newName : String)
    (edits : List Edit) (leaves leaves' : List Leaf) (scope scope' : Scope Target)
    (sorts sorts' : Scope BaseSort) (env : String → String) : Prop where
  sorts_eq : ∀ name name' found, Occurrence.resolve globals scope name = some found →
    Occurrence.resolve globals' scope' name' = some (image target newName edits found) →
    sorts'.lookup name' = sorts.lookup name
  unknown : ∀ name, Occurrence.resolve globals scope name = none → sorts.lookup name = none
  unknown' : ∀ name, Occurrence.resolve globals' scope' name = none → sorts'.lookup name = none
  empty : sorts'.lookup "" = sorts.lookup ""
  env_eq : ∀ name found, Occurrence.resolve globals scope name = some found →
    env name = (image target newName edits found).name
  name_eq : ∀ name found, Occurrence.resolve globals' scope' name = some found → found.name = name
  fixed : ∀ name, name ≠ target.name → env name = name
  apart : ∀ name found, scope.lookup name = some found → found.Apart leaves
  apart_image : ∀ name found, scope.lookup name = some found →
    (image target newName edits found).Apart leaves'
  apart' : ∀ name found, scope'.lookup name = some found → found.Apart leaves'

/-- Scopes stay related where fewer atoms stand. -/
theorem Related.mono {leaves leaves' less less' : List Leaf} {scope scope' : Scope Target}
    {sorts sorts' : Scope BaseSort} {env : String → String}
    (h : Related globals globals' target newName edits leaves leaves' scope scope' sorts sorts' env)
    (hless : ∀ leaf ∈ less, leaf ∈ leaves) (hless' : ∀ leaf ∈ less', leaf ∈ leaves') :
    Related globals globals' target newName edits less less' scope scope' sorts sorts' env :=
  { h with
    apart := fun name found hfound => (h.apart name found hfound).mono hless
    apart_image := fun name found hfound => (h.apart_image name found hfound).mono hless'
    apart' := fun name found hfound => (h.apart' name found hfound).mono hless' }

/-! ## Bindings -/

/-- A bound name before and after a renaming, and where it is bound. -/
structure Row where
  name : String
  start : Nat
  name' : String
  start' : Nat
  sort : BaseSort

namespace Row

variable {rows : List Row} {name : String}

/-- The last row that binds a name. -/
def binding? (key : Row → String) (rows : List Row) (name : String) : Option Row :=
  rows.reverse.find? fun row => name == key row

theorem mem_of_binding? {key : Row → String} {row : Row} (h : binding? key rows name = some row) :
    row ∈ rows ∧ key row = name := by
  refine ⟨List.mem_reverse.1 (List.mem_of_find?_eq_some h), ?_⟩
  have hkey := List.find?_some h
  exact (beq_iff_eq.1 hkey).symm

/-- In a scope with the names of rows the last row of a name decides. -/
theorem lookup_extend {α : Type} (scope : Scope α) (key : Row → String) (value : Row → α) :
    (scope.extend (rows.map fun row => (key row, value row))).lookup name =
      ((binding? key rows name).map value).or (scope.lookup name) := by
  have hlookup : ∀ list : List Row, (list.map fun row => (key row, value row)).lookup name =
      (list.find? fun row => name == key row).map value := by
    intro list
    induction list with
    | nil => rfl
    | cons row list ih =>
      rw [List.map_cons, List.lookup_cons, List.find?_cons]
      cases name == key row with
      | true => rfl
      | false => exact ih
  rw [Scope.lookup_extend, Table.get?_ofList, ← List.map_reverse, hlookup, binding?]

/-- What names resolve to where rows bind some of them. -/
theorem resolve_extend (globals : List String) (scope : Scope Target) (key : Row → String)
    (value : Row → Target) :
    Occurrence.resolve globals (scope.extend (rows.map fun row => (key row, value row))) name =
      ((binding? key rows name).map value).or (Occurrence.resolve globals scope name) := by
  rw [Occurrence.resolve, lookup_extend, Occurrence.resolve]
  cases binding? key rows name <;> rfl

/-- What a name has where rows bind some is from a row or from around. -/
theorem of_lookup_extend {α : Type} {scope : Scope α} {key : Row → String} {value : Row → α}
    {found : α}
    (h : (scope.extend (rows.map fun row => (key row, value row))).lookup name = some found) :
    (∃ row ∈ rows, key row = name ∧ value row = found) ∨ scope.lookup name = some found := by
  rw [lookup_extend] at h
  cases hrow : binding? key rows name with
  | some row =>
    rw [hrow] at h
    exact .inl ⟨row, (mem_of_binding? hrow).1, (mem_of_binding? hrow).2, Option.some.inj h⟩
  | none =>
    rw [hrow] at h
    exact .inr h

/-- The names that rows give inside of them. -/
def env (outer : String → String) (rows : List Row) : String → String :=
  rows.foldl (fun inner row => Expr.named inner row.name row.name') outer

theorem env_eq (outer : String → String) :
    env outer rows name = ((binding? Row.name rows name).map Row.name').getD (outer name) := by
  induction rows generalizing outer with
  | nil => rfl
  | cons row rows ih =>
    have hcons : env outer (row :: rows) = env (Expr.named outer row.name row.name') rows := rfl
    rw [hcons, ih, binding?, binding?, List.reverse_cons, List.find?_append]
    cases rows.reverse.find? fun row => name == row.name with
    | some found => rfl
    | none =>
      rw [Option.none_or, List.find?_singleton, Expr.named]
      by_cases h : name = row.name
      · simp [h]
      · simp [h]

end Row

/-- Rows that go with a renaming: binders are bound at atoms, each at one of its
own, and have the images of their locals. -/
structure Rows (target : Target) (newName : String) (edits : List Edit) (source : String)
    (leaves leaves' : List Leaf) (rows : List Row) : Prop where
  image_eq : ∀ row ∈ rows, image target newName edits (.local row.name source row.start) =
    .local row.name' source row.start'
  name_eq : ∀ row ∈ rows,
    row.name' = row.name ∨ row.name = target.name ∧ row.name' = newName
  mem : ∀ row ∈ rows, ∃ leaf ∈ leaves, leaf.start = row.start
  mem' : ∀ row ∈ rows, ∃ leaf ∈ leaves', leaf.start = row.start'
  distinct : rows.Pairwise fun row other => row.start' ≠ other.start'

/-- Only a local comes to lie where a row binds. -/
theorem eq_local_of_image {found : Target} {name : String} {start : Int}
    (h : image target newName edits found = .local name source start) :
    ∃ name' start', found = .local name' source start' := by
  cases found with
  | global other => cases h
  | «local» other home start' =>
    cases h
    exact ⟨_, _, rfl⟩

/-- A local that a name resolves to is in the scope. -/
theorem lookup_of_resolve {scope : Scope Target} {name other home : String} {start : Int}
    (h : Occurrence.resolve globals scope name = some (.local other home start)) :
    scope.lookup name = some (.local other home start) := by
  rw [Occurrence.resolve] at h
  cases hlookup : scope.lookup name with
  | some found => rw [hlookup] at h; exact h
  | none =>
    rw [hlookup] at h
    simp only at h
    split at h <;> cases h

theorem Rows.eq_of_start' {leaves leaves' : List Leaf} {rows : List Row}
    (h : Rows target newName edits source leaves leaves' rows) {row other : Row} (hrow : row ∈ rows)
    (hother : other ∈ rows) (heq : row.start' = other.start') : row = other := by
  have hdistinct := h.distinct
  clear h
  induction rows with
  | nil => cases hrow
  | cons first rows ih =>
    obtain ⟨hfirst, hmore⟩ := List.pairwise_cons.1 hdistinct
    rcases List.mem_cons.1 hrow with rfl | hin
    · rcases List.mem_cons.1 hother with rfl | hin'
      · rfl
      · exact absurd heq (hfirst other hin')
    · rcases List.mem_cons.1 hother with rfl | hin'
      · exact absurd heq.symm (hfirst row hin)
      · exact ih hin hin' hmore

/-- The empty name is bound where it was before. -/
theorem Rows.binding?_empty {leaves leaves' : List Leaf} {rows : List Row}
    (h : Rows target newName edits source leaves leaves' rows)
    (hnames : target.name ≠ "" ∧ newName ≠ "") :
    Row.binding? Row.name' rows "" = Row.binding? Row.name rows "" := by
  have hsame : ∀ row ∈ rows.reverse, ("" == row.name') = ("" == row.name) := by
    intro row hrow
    rcases h.name_eq row (List.mem_reverse.1 hrow) with hkept | ⟨hrenamed, hnew⟩
    · rw [hkept]
    · rw [hrenamed, hnew, beq_false_of_ne (Ne.symm hnames.1), beq_false_of_ne (Ne.symm hnames.2)]
  exact List.find?_congr hsame

/-- **Both sides resolve a name and its image alike**: to one row, or both to what
is around. A binder of the rows is none of the scopes around. -/
theorem Related.same_row {leaves leaves' bound bound' : List Leaf} {scope scope' : Scope Target}
    {sorts sorts' : Scope BaseSort} {outer : String → String}
    (h : Related globals globals' target newName edits leaves leaves' scope scope' sorts sorts'
      outer)
    {rows : List Row} (hrows : Rows target newName edits source bound bound' rows)
    (hbound' : ∀ leaf ∈ bound', leaf ∈ leaves') {name name' : String} {found : Target}
    (hfound : Occurrence.resolve globals
      (scope.extend (rows.map fun row => (row.name, .local row.name source row.start))) name =
        some found)
    (hfound' : Occurrence.resolve globals'
      (scope'.extend (rows.map fun row => (row.name', .local row.name' source row.start'))) name' =
        some (image target newName edits found)) :
    Row.binding? Row.name' rows name' = Row.binding? Row.name rows name ∧
      (Row.binding? Row.name rows name = none →
        Occurrence.resolve globals scope name = some found ∧
          Occurrence.resolve globals' scope' name' = some (image target newName edits found)) := by
  rw [Row.resolve_extend] at hfound hfound'
  cases hrow : Row.binding? Row.name rows name with
  | some row =>
    have hmem := (Row.mem_of_binding? hrow).1
    rw [hrow] at hfound
    cases hfound
    rw [hrows.image_eq row hmem] at hfound'
    refine ⟨?_, fun hnone => nomatch hnone⟩
    cases hrow' : Row.binding? Row.name' rows name' with
    | some row' =>
      rw [hrow'] at hfound'
      have hstart : row'.start' = row.start' := by
        have heq := Option.some.inj hfound'
        injection heq with _ _ hstart
        exact Int.ofNat.inj hstart
      rw [hrows.eq_of_start' (Row.mem_of_binding? hrow').1 hmem hstart]
    | none =>
      -- then the binder of the row would be one of the scope around
      rw [hrow'] at hfound'
      obtain ⟨leaf, hleaf, hstart⟩ := hrows.mem' row hmem
      have happart := h.apart' _ _ (lookup_of_resolve hfound') leaf (hbound' leaf hleaf)
      omega
  | none =>
    rw [hrow] at hfound
    cases hrow' : Row.binding? Row.name' rows name' with
    | some row' =>
      -- then the image of what is found around would be a binder of the rows
      rw [hrow'] at hfound'
      have himage := (Option.some.inj hfound').symm
      obtain ⟨other, start, rfl⟩ := eq_local_of_image himage
      obtain ⟨leaf, hleaf, hstart⟩ := hrows.mem' row' (Row.mem_of_binding? hrow').1
      have happart := h.apart_image _ _ (lookup_of_resolve hfound)
      rw [himage] at happart
      have hne := happart leaf (hbound' leaf hleaf)
      omega
    | none =>
      rw [hrow'] at hfound'
      exact ⟨rfl, fun _ => ⟨hfound, hfound'⟩⟩

/-- **Scopes stay related inside of bindings.** The values of the bindings are
not at issue here, only the sorts that both sides give to the rows. -/
theorem Related.extend {leaves leaves' bound bound' less less' : List Leaf}
    {scope scope' : Scope Target} {sorts sorts' : Scope BaseSort} {outer : String → String}
    (h : Related globals globals' target newName edits leaves leaves' scope scope' sorts sorts'
      outer)
    (hnames : target.name ≠ "" ∧ newName ≠ "") {rows : List Row}
    (hrows : Rows target newName edits source bound bound' rows)
    (hbound' : ∀ leaf ∈ bound', leaf ∈ leaves')
    (hless : ∀ leaf ∈ less, leaf ∈ leaves) (hless' : ∀ leaf ∈ less', leaf ∈ leaves')
    (hbefore : ∀ leaf ∈ bound, ∀ other ∈ less, leaf.start < other.start)
    (hbefore' : ∀ leaf ∈ bound', ∀ other ∈ less', leaf.start < other.start) :
    Related globals globals' target newName edits less less'
      (scope.extend (rows.map fun row => (row.name, .local row.name source row.start)))
      (scope'.extend (rows.map fun row => (row.name', .local row.name' source row.start')))
      (sorts.extend (rows.map fun row => (row.name, row.sort)))
      (sorts'.extend (rows.map fun row => (row.name', row.sort))) (Row.env outer rows) := by
  -- the binders stand before the atoms inside
  have hapart : ∀ row ∈ rows, ∀ name, (Target.local name source row.start).Apart less := by
    intro row hrow name other hother
    obtain ⟨leaf, hleaf, hstart⟩ := hrows.mem row hrow
    have hlt := hbefore leaf hleaf other hother
    omega
  have hapart' : ∀ row ∈ rows, ∀ name, (Target.local name source row.start').Apart less' := by
    intro row hrow name other hother
    obtain ⟨leaf, hleaf, hstart⟩ := hrows.mem' row hrow
    have hlt := hbefore' leaf hleaf other hother
    omega
  refine { sorts_eq := ?sorts_eq, unknown := ?unknown, unknown' := ?unknown', empty := ?empty,
           env_eq := ?env_eq, name_eq := ?name_eq, fixed := ?fixed, apart := ?apart,
           apart_image := ?apart_image, apart' := ?apart' }
  case sorts_eq =>
    intro name name' found hfound hfound'
    obtain ⟨hsame, haround⟩ := h.same_row hrows hbound' hfound hfound'
    rw [Row.lookup_extend, Row.lookup_extend, hsame]
    cases hrow : Row.binding? Row.name rows name with
    | some row => rfl
    | none =>
      obtain ⟨hfound, hfound'⟩ := haround hrow
      exact h.sorts_eq name name' found hfound hfound'
  case unknown =>
    intro name hnone
    rw [Row.resolve_extend, Option.or_eq_none_iff, Option.map_eq_none_iff] at hnone
    rw [Row.lookup_extend, hnone.1, h.unknown name hnone.2]
    rfl
  case unknown' =>
    intro name hnone
    rw [Row.resolve_extend, Option.or_eq_none_iff, Option.map_eq_none_iff] at hnone
    rw [Row.lookup_extend, hnone.1, h.unknown' name hnone.2]
    rfl
  case empty =>
    rw [Row.lookup_extend, Row.lookup_extend, hrows.binding?_empty hnames, h.empty]
  case env_eq =>
    intro name found hfound
    rw [Row.resolve_extend] at hfound
    rw [Row.env_eq]
    cases hrow : Row.binding? Row.name rows name with
    | some row =>
      rw [hrow] at hfound
      cases hfound
      rw [hrows.image_eq row (Row.mem_of_binding? hrow).1]
      rfl
    | none =>
      rw [hrow] at hfound
      exact h.env_eq name found hfound
  case name_eq =>
    intro name found hfound
    rw [Row.resolve_extend] at hfound
    cases hrow : Row.binding? Row.name' rows name with
    | some row =>
      rw [hrow] at hfound
      cases hfound
      exact (Row.mem_of_binding? hrow).2
    | none =>
      rw [hrow] at hfound
      exact h.name_eq name found hfound
  case fixed =>
    intro name hne
    rw [Row.env_eq]
    cases hrow : Row.binding? Row.name rows name with
    | some row =>
      obtain ⟨hmem, hname⟩ := Row.mem_of_binding? hrow
      rcases hrows.name_eq row hmem with hkept | ⟨hrenamed, -⟩
      · exact hkept.trans hname
      · exact absurd (hname.symm.trans hrenamed) hne
    | none => exact h.fixed name hne
  case apart =>
    intro name found hfound
    rcases Row.of_lookup_extend hfound with ⟨row, hmem, -, rfl⟩ | hfound
    · exact hapart row hmem _
    · exact (h.apart name found hfound).mono hless
  case apart_image =>
    intro name found hfound
    rcases Row.of_lookup_extend hfound with ⟨row, hmem, -, rfl⟩ | hfound
    · rw [hrows.image_eq row hmem]
      exact hapart' row hmem _
    · exact (h.apart_image name found hfound).mono hless'
  case apart' =>
    intro name found hfound
    rcases Row.of_lookup_extend hfound with ⟨row, hmem, -, rfl⟩ | hfound
    · exact hapart' row hmem _
    · exact (h.apart' name found hfound).mono hless'

end Renaming

end SatScript
