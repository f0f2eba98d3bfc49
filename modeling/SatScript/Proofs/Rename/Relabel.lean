import Mathlib.Data.List.Forall2
import SatScript.Proofs.Rename.Edited
import SatScript.Proofs.Rename.Walk
/-!
# SatScript — names under a new label

Renaming gives some atoms of a form a new text and moves all of them.
`Form.relabel` does that for atoms that are marked by where they begin.
The marks are *faithful* when, of the atoms that the walk over the form
passes, those are marked that refer to the target. Then the walk passes
the same names after the renaming as before (`forall₂_relabel`): nothing
that decides which way the walk takes has changed. What is to be known of the
names is carried along (`Carries`, `forall₂_of_carries`).
-/

namespace SatScript

namespace Form

mutual

/-- The form with a new text for the marked atoms, and moved. -/
def relabel (mark : Nat → Bool) (new : String) (move : Nat → Nat) : Form → Form
  | .atom text start stop => .atom (if mark start then new else text) (move start) (move stop)
  | .list items start stop => .list (relabelAll mark new move items) (move start) (move stop)

/-- The forms with a new text for the marked atoms, and moved. -/
def relabelAll (mark : Nat → Bool) (new : String) (move : Nat → Nat) : List Form → List Form
  | [] => []
  | form :: forms => relabel mark new move form :: relabelAll mark new move forms

end

variable {mark : Nat → Bool} {new : String} {move : Nat → Nat}

mutual

/-- Edits relabel a form, if they give the new text to the marked atoms. -/
theorem edit_eq_relabel {edits : List Edit} : ∀ {form : Form},
    (∀ leaf ∈ form.leaves, editedText edits leaf.text leaf.start leaf.stop =
      if mark leaf.start then new else leaf.text) →
    form.edit edits = form.relabel mark new (shifted edits)
  | .atom text start stop, h => by
    rw [edit, relabel, ← h ⟨text, start, stop⟩ List.mem_cons_self]
  | .list items start stop, h => by
    rw [edit, relabel, editAll_eq_relabelAll h]

theorem editAll_eq_relabelAll {edits : List Edit} : ∀ {forms : List Form},
    (∀ leaf ∈ leavesAll forms, editedText edits leaf.text leaf.start leaf.stop =
      if mark leaf.start then new else leaf.text) →
    editAll edits forms = relabelAll mark new (shifted edits) forms
  | [], _ => rfl
  | form :: forms, h => by
    rw [editAll, relabelAll,
      edit_eq_relabel fun leaf hleaf => h leaf (List.mem_append_left _ hleaf),
      editAll_eq_relabelAll fun leaf hleaf => h leaf (List.mem_append_right _ hleaf)]

end

/-- Forms are relabelled one by one. -/
theorem relabelAll_eq_map (forms : List Form) :
    relabelAll mark new move forms = forms.map (relabel mark new move) := by
  induction forms with
  | nil => rfl
  | cons form forms ih => rw [relabelAll, List.map_cons, ih]

/-- Only a list becomes a list. -/
theorem eq_list_of_relabel {form : Form} {items : List Form} {start stop : Nat}
    (h : form.relabel mark new move = .list items start stop) :
    ∃ items' start' stop', form = .list items' start' stop' ∧
      relabelAll mark new move items' = items := by
  cases form with
  | atom text start' stop' => cases h
  | list items' start' stop' =>
    injection h with hitems
    exact ⟨items', start', stop', rfl, hitems⟩

/-- Only an atom becomes an atom. -/
theorem eq_atom_of_relabel {form : Form} {text : String} {start stop : Nat}
    (h : form.relabel mark new move = .atom text start stop) :
    ∃ text' start' stop', form = .atom text' start' stop' := by
  cases form with
  | atom text' start' stop' => exact ⟨text', start', stop', rfl⟩
  | list items start' stop' => cases h

theorem eq_nil_of_relabelAll {forms : List Form} (h : relabelAll mark new move forms = []) :
    forms = [] := by
  cases forms with
  | nil => rfl
  | cons form forms => cases h

theorem eq_cons_of_relabelAll {forms : List Form} {form : Form} {more : List Form}
    (h : relabelAll mark new move forms = form :: more) :
    ∃ form' more', forms = form' :: more' ∧ form'.relabel mark new move = form ∧
      relabelAll mark new move more' = more := by
  cases forms with
  | nil => cases h
  | cons form' more' =>
    injection h with hform hmore
    exact ⟨form', more', rfl, hform, hmore⟩

/-- Only two forms become two forms. -/
theorem eq_pair_of_relabelAll {forms : List Form} {first second : Form}
    (h : relabelAll mark new move forms = [first, second]) :
    ∃ first' second', forms = [first', second'] ∧ first'.relabel mark new move = first ∧
      second'.relabel mark new move = second := by
  obtain ⟨first', more, rfl, hfirst, hmore⟩ := eq_cons_of_relabelAll h
  obtain ⟨second', more, rfl, hsecond, hmore⟩ := eq_cons_of_relabelAll hmore
  rw [eq_nil_of_relabelAll hmore]
  exact ⟨first', second', rfl, hfirst, hsecond⟩

end Form

namespace Occurrence

/-- The occurrence is marked just if it refers to the target, and then it bears
its name. -/
structure Marked (mark : Nat → Bool) (renamed : Target) (occurrence : Occurrence) : Prop where
  iff_refersTo : mark occurrence.start = Sources.refersTo renamed occurrence
  text_eq : mark occurrence.start = true → occurrence.text = renamed.name

/-- A name after the renaming is the one it was, or that of the target and then the
new one. -/
theorem Marked.kept_or_new {mark : Nat → Bool} {renamed : Target} {occurrence : Occurrence}
    (h : Marked mark renamed occurrence) (new : String) :
    (if mark occurrence.start then new else occurrence.text) = occurrence.text ∨
      occurrence.text = renamed.name ∧
        (if mark occurrence.start then new else occurrence.text) = new := by
  by_cases hmark : mark occurrence.start = true
  · exact .inr ⟨h.text_eq hmark, if_pos hmark⟩
  · exact .inl (if_neg hmark)

mutual

/-- In an expression those names are marked that refer to the target, and no
other atom that the walk passes. -/
def FaithfulForm (mark : Nat → Bool) (renamed : Target) (source : String) (globals : List String)
    (scope : Scope Target) : Form → Prop
  | .atom text start stop =>
    if text = "" ∨ Numeral.startsNumeral text then mark start = false
    else Marked mark renamed ⟨text, start, stop, resolve globals scope text⟩
  | .list [] _ _ => True
  | .list (.atom head start _ :: rest) _ _ =>
    mark start = false ∧
      if head = "let" then FaithfulLet mark renamed source globals scope rest
      else FaithfulForms mark renamed source globals scope rest
  | .list (.list items start stop :: rest) _ _ =>
    FaithfulForm mark renamed source globals scope (.list items start stop) ∧
      FaithfulForms mark renamed source globals scope rest

/-- The same for what stands behind `let`. -/
def FaithfulLet (mark : Nat → Bool) (renamed : Target) (source : String) (globals : List String)
    (scope : Scope Target) : List Form → Prop
  | [.list bindings _ _, body] =>
    FaithfulBindings mark renamed source globals scope bindings ∧
      FaithfulForm mark renamed source globals (scope.extend (binders source bindings)) body
  | [] => True
  | form :: forms =>
    FaithfulForm mark renamed source globals scope form ∧
      FaithfulForms mark renamed source globals scope forms

/-- The same for several expressions. -/
def FaithfulForms (mark : Nat → Bool) (renamed : Target) (source : String) (globals : List String)
    (scope : Scope Target) : List Form → Prop
  | [] => True
  | form :: forms =>
    FaithfulForm mark renamed source globals scope form ∧
      FaithfulForms mark renamed source globals scope forms

/-- The same for bindings. -/
def FaithfulBindings (mark : Nat → Bool) (renamed : Target) (source : String)
    (globals : List String) (scope : Scope Target) : List Form → Prop
  | [] => True
  | .list (.atom name start stop :: value :: _) _ _ :: rest =>
    Marked mark renamed ⟨name, start, stop, some (.local name source start)⟩ ∧
      FaithfulForm mark renamed source globals scope value ∧
      FaithfulBindings mark renamed source globals scope rest
  | .list [.atom name start stop] _ _ :: rest =>
    Marked mark renamed ⟨name, start, stop, some (.local name source start)⟩ ∧
      FaithfulBindings mark renamed source globals scope rest
  | _ :: rest => FaithfulBindings mark renamed source globals scope rest

end

variable {mark : Nat → Bool} {renamed : Target} {source : String} {globals : List String}

theorem faithfulLet_of_not_let {scope : Scope Target} {form : Form} {forms : List Form}
    (h : ∀ bindings start stop body, form = .list bindings start stop → forms = [body] → False) :
    FaithfulLet mark renamed source globals scope (form :: forms) =
      FaithfulForms mark renamed source globals scope (form :: forms) := by
  rw [FaithfulLet, FaithfulForms]
  exact h

theorem faithfulBindings_of_not_binding {scope : Scope Target} {form : Form} {forms : List Form}
    (hvalue : ∀ name start stop value tail start' stop',
      form = .list (.atom name start stop :: value :: tail) start' stop' → False)
    (hname : ∀ name start stop start' stop',
      form = .list [.atom name start stop] start' stop' → False) :
    FaithfulBindings mark renamed source globals scope (form :: forms) =
      FaithfulBindings mark renamed source globals scope forms := by
  rw [FaithfulBindings]
  · exact hvalue
  · exact hname

/-! ## Marks that follow the references -/

/-- Of these atoms those are marked at which one of the occurrences refers to
the target. -/
def MarksOf (mark : Nat → Bool) (renamed : Target) (leaves : List Leaf)
    (occurrences : List Occurrence) : Prop :=
  ∀ leaf ∈ leaves, mark leaf.start =
    occurrences.any fun occurrence =>
      occurrence.start == leaf.start && Sources.refersTo renamed occurrence

/-- Some atoms of a script, marked where the names among them refer to the
target. -/
structure MarkedIn (mark : Nat → Bool) (renamed : Target) (leaves atoms : List Leaf)
    (occurrences : List Occurrence) : Prop where
  subset : ∀ leaf ∈ atoms, leaf ∈ leaves
  ordered : Leaf.Ordered atoms
  marks : MarksOf mark renamed atoms occurrences

namespace MarkedIn

variable {leaves first second : List Leaf} {firsts seconds : List Occurrence}

/-- **Atoms that are marked together are marked part by part**: no name of one part
stands in the other. -/
theorem split (h : MarkedIn mark renamed leaves (first ++ second) (firsts ++ seconds))
    (hfirsts : (firsts.map leaf).Sublist first) (hseconds : (seconds.map leaf).Sublist second) :
    MarkedIn mark renamed leaves first firsts ∧ MarkedIn mark renamed leaves second seconds := by
  obtain ⟨hfirst, hsecond, hapart⟩ := List.pairwise_append.1 h.ordered
  obtain ⟨hinFirst, hinSecond⟩ := List.forall_mem_append.1 h.subset
  refine ⟨⟨hinFirst, hfirst, fun atom hatom => ?_⟩, ⟨hinSecond, hsecond, fun atom hatom => ?_⟩⟩
  · have hnone : (seconds.any fun occurrence =>
        occurrence.start == atom.start && Sources.refersTo renamed occurrence) = false := by
      rw [List.any_eq_false]
      intro occurrence hmem
      have hlt := hapart atom hatom occurrence.leaf
        (hseconds.subset (List.mem_map_of_mem hmem))
      have hne : occurrence.start ≠ atom.start := Nat.ne_of_gt hlt
      simp [hne]
    rw [h.marks atom (List.mem_append_left _ hatom), List.any_append, hnone, Bool.or_false]
  · have hnone : (firsts.any fun occurrence =>
        occurrence.start == atom.start && Sources.refersTo renamed occurrence) = false := by
      rw [List.any_eq_false]
      intro occurrence hmem
      have hlt := hapart occurrence.leaf (hfirsts.subset (List.mem_map_of_mem hmem)) atom hatom
      have hne : occurrence.start ≠ atom.start := Nat.ne_of_lt hlt
      simp [hne]
    rw [h.marks atom (List.mem_append_right _ hatom), List.any_append, hnone, Bool.false_or]

/-- Atoms behind the last name may be left out. -/
theorem left (h : MarkedIn mark renamed leaves (first ++ second) firsts)
    (hfirsts : (firsts.map leaf).Sublist first) : MarkedIn mark renamed leaves first firsts := by
  rw [← List.append_nil firsts] at h
  exact (h.split hfirsts (List.nil_sublist _)).1

/-- Atoms before the first name may be left out. -/
theorem right (h : MarkedIn mark renamed leaves (first ++ second) seconds)
    (hseconds : (seconds.map leaf).Sublist second) :
    MarkedIn mark renamed leaves second seconds := by
  rw [← List.nil_append seconds] at h
  exact (h.split (List.nil_sublist _) hseconds).2

/-- An atom before the first name is not marked. -/
theorem tail {atom : Leaf} (h : MarkedIn mark renamed leaves (atom :: second) seconds)
    (hseconds : (seconds.map leaf).Sublist second) :
    mark atom.start = false ∧ MarkedIn mark renamed leaves second seconds := by
  rw [← List.singleton_append, ← List.nil_append seconds] at h
  obtain ⟨hatom, hmore⟩ := h.split (List.nil_sublist _) hseconds
  exact ⟨hatom.marks atom List.mem_cons_self, hmore⟩

/-- A name is marked just if it refers to the target. -/
theorem marked {occurrence : Occurrence}
    (h : MarkedIn mark renamed leaves (occurrence.leaf :: first) [occurrence])
    (htext : Sources.refersTo renamed occurrence = true → occurrence.text = renamed.name) :
    Marked mark renamed occurrence := by
  have hmark : mark occurrence.start = Sources.refersTo renamed occurrence := by
    have hleaf := h.marks occurrence.leaf List.mem_cons_self
    rw [List.any_cons, List.any_nil, Bool.or_false] at hleaf
    simpa [leaf] using hleaf
  exact ⟨hmark, fun hmarked => htext (hmark ▸ hmarked)⟩

end MarkedIn

/-- What refers to the target bears its name. -/
def NamedAlike (renamed : Target) (source : String) (globals : List String)
    (leaves : List Leaf) : Prop :=
  ∀ (text : String) (target : Target), target.BoundIn source globals leaves text →
    target.same renamed = true → text = renamed.name

theorem NamedAlike.text_eq {leaves : List Leaf} (h : NamedAlike renamed source globals leaves)
    {occurrence : Occurrence}
    (hbound : ∀ target, occurrence.target = some target →
      target.BoundIn source globals leaves occurrence.text)
    (hrefers : Sources.refersTo renamed occurrence = true) : occurrence.text = renamed.name := by
  rw [Sources.refersTo] at hrefers
  cases htarget : occurrence.target with
  | none => simp [htarget] at hrefers
  | some target =>
    rw [htarget] at hrefers
    exact h _ target (hbound target htarget) hrefers

/-- **Marks at the references are faithful**, since every atom begins at an
offset of its own. -/
theorem faithful_of_markedIn {leaves : List Leaf}
    (hnamed : NamedAlike renamed source globals leaves) :
    (∀ (scope : Scope Target) (form : Form), scope.BoundIn source leaves →
      MarkedIn mark renamed leaves form.leaves (inForm source globals scope form) →
      FaithfulForm mark renamed source globals scope form) ∧
    (∀ (scope : Scope Target) (forms : List Form), scope.BoundIn source leaves →
      MarkedIn mark renamed leaves (Form.leavesAll forms) (inForms source globals scope forms) →
      FaithfulForms mark renamed source globals scope forms) ∧
    (∀ (scope : Scope Target) (forms : List Form), scope.BoundIn source leaves →
      MarkedIn mark renamed leaves (Form.leavesAll forms) (inLet source globals scope forms) →
      FaithfulLet mark renamed source globals scope forms) ∧
    (∀ (scope : Scope Target) (forms : List Form), scope.BoundIn source leaves →
      MarkedIn mark renamed leaves (Form.leavesAll forms) (inBindings source globals scope forms) →
      FaithfulBindings mark renamed source globals scope forms) := by
  have hsub := @sublist_leaves source globals
  -- the induction is on the walk; the atoms and the names are split alongside
  refine inForm.mutual_induct source _ _ _ _ ?numeral ?name ?nothing ?letForm ?applied ?nested
    ?noForms ?moreForms ?bound ?noLet ?otherLet ?noBindings ?value ?noValue ?otherBinding
  case numeral =>
    intro scope text start stop h hscope hmarked
    rw [inForm, if_pos h] at hmarked
    rw [FaithfulForm, if_pos h]
    exact hmarked.marks ⟨text, start, stop⟩ List.mem_cons_self
  case name =>
    intro scope text start stop h hscope hmarked
    rw [inForm, if_neg h] at hmarked
    rw [FaithfulForm, if_neg h]
    exact MarkedIn.marked hmarked (hnamed.text_eq fun target => boundIn_resolve hscope)
  case nothing =>
    intro scope start stop hscope hmarked
    rw [FaithfulForm]
    trivial
  case letForm =>
    intro scope start stop rest start' stop' ih hscope hmarked
    rw [inForm, if_pos rfl, leaves_headed] at hmarked
    rw [FaithfulForm, if_pos rfl]
    obtain ⟨hhead, hrest⟩ := hmarked.tail (hsub.2.2.1 scope rest)
    exact ⟨hhead, ih hscope hrest⟩
  case applied =>
    intro scope head start stop rest start' stop' hne ih hscope hmarked
    rw [inForm, if_neg hne, leaves_headed] at hmarked
    rw [FaithfulForm, if_neg hne]
    obtain ⟨hhead, hrest⟩ := hmarked.tail (hsub.2.1 scope rest)
    exact ⟨hhead, ih hscope hrest⟩
  case nested =>
    intro scope items start stop rest start' stop' ihitems ihrest hscope hmarked
    rw [inForm] at hmarked
    rw [FaithfulForm]
    obtain ⟨hitems, hrest⟩ := MarkedIn.split hmarked (hsub.1 scope _) (hsub.2.1 scope rest)
    exact ⟨ihitems hscope hitems, ihrest hscope hrest⟩
  case noForms =>
    intro scope hscope hmarked
    rw [FaithfulForms]
    trivial
  case moreForms =>
    intro scope form forms ihform ihforms hscope hmarked
    rw [inForms] at hmarked
    rw [FaithfulForms]
    obtain ⟨hform, hforms⟩ := MarkedIn.split hmarked (hsub.1 scope _) (hsub.2.1 scope forms)
    exact ⟨ihform hscope hform, ihforms hscope hforms⟩
  case bound =>
    intro scope bindings start stop body ihbindings ihbody hscope hmarked
    rw [leavesAll_bound, inLet] at hmarked
    rw [FaithfulLet]
    obtain ⟨hbindings, hbody⟩ := hmarked.split (hsub.2.2.2 scope bindings) (hsub.1 _ body)
    exact ⟨ihbindings hscope hbindings, ihbody (boundIn_extend hscope hbindings.subset) hbody⟩
  case noLet =>
    intro scope hscope hmarked
    rw [FaithfulLet]
    trivial
  case otherLet =>
    intro scope form forms h ihform ihforms hscope hmarked
    rw [inLet_of_not_let h, inForms] at hmarked
    rw [faithfulLet_of_not_let h, FaithfulForms]
    obtain ⟨hform, hforms⟩ := MarkedIn.split hmarked (hsub.1 scope _) (hsub.2.1 scope forms)
    exact ⟨ihform hscope hform, ihforms hscope hforms⟩
  case noBindings =>
    intro scope hscope hmarked
    rw [FaithfulBindings]
    trivial
  case value =>
    intro scope name start stop value tail start' stop' rest ihvalue ihrest hscope hmarked
    -- the atoms are the name, those of the value, and those behind the value
    have hleaves : Form.leavesAll
        (.list (.atom name start stop :: value :: tail) start' stop' :: rest) =
          [⟨name, start, stop⟩] ++
          (value.leaves ++ (Form.leavesAll tail ++ Form.leavesAll rest)) := by
      rw [Form.leavesAll, leaves_headed, Form.leavesAll, List.cons_append, List.append_assoc]
      rfl
    have hoccurrences : inBindings source globals scope
        (.list (.atom name start stop :: value :: tail) start' stop' :: rest) =
          [⟨name, start, stop, some (.local name source start)⟩] ++
            (inForm source globals scope value ++ inBindings source globals scope rest) := by
      rw [inBindings]
      rfl
    rw [hleaves, hoccurrences] at hmarked
    rw [FaithfulBindings]
    have hrestSub := (hsub.2.2.2 scope rest).trans
      (List.sublist_append_right (Form.leavesAll tail) (Form.leavesAll rest))
    obtain ⟨hname, hmore⟩ := hmarked.split (List.Sublist.refl _)
      (by rw [List.map_append]; exact (hsub.1 scope value).append hrestSub)
    obtain ⟨hvalue, hbehind⟩ := hmore.split (hsub.1 scope value) hrestSub
    have hrest := hbehind.right (hsub.2.2.2 scope rest)
    refine ⟨hname.marked (hnamed.text_eq fun target htarget => ?_), ihvalue hscope hvalue,
      ihrest hscope hrest⟩
    cases htarget
    exact ⟨rfl, rfl, ⟨name, start, stop⟩, hname.subset _ List.mem_cons_self, rfl, rfl⟩
  case noValue =>
    intro scope name start stop start' stop' rest ih hscope hmarked
    have hoccurrences : inBindings source globals scope
        (.list [.atom name start stop] start' stop' :: rest) =
          [⟨name, start, stop, some (.local name source start)⟩] ++
            inBindings source globals scope rest := by
      rw [inBindings]
      rfl
    rw [Form.leavesAll, leaves_headed, Form.leavesAll, hoccurrences] at hmarked
    rw [FaithfulBindings]
    obtain ⟨hname, hrest⟩ := hmarked.split (List.Sublist.refl _) (hsub.2.2.2 scope rest)
    refine ⟨hname.marked (hnamed.text_eq fun target htarget => ?_), ih hscope hrest⟩
    cases htarget
    exact ⟨rfl, rfl, ⟨name, start, stop⟩, hname.subset _ List.mem_cons_self, rfl, rfl⟩
  case otherBinding =>
    intro scope form forms hvalue hname ih hscope hmarked
    rw [inBindings_of_not_binding hvalue hname] at hmarked
    rw [faithfulBindings_of_not_binding hvalue hname]
    exact ih hscope (MarkedIn.right hmarked (hsub.2.2.2 scope forms))

/-! ## The walk after the renaming -/

/-- An occurrence after the renaming. -/
structure Relabelled (mark : Nat → Bool) (new : String) (move : Nat → Nat)
    (old now : Occurrence) : Prop where
  text_eq : now.text = if mark old.start then new else old.text
  start_eq : now.start = move old.start
  stop_eq : now.stop = move old.stop

section Relabel

variable {new : String} {move : Nat → Nat}

/-- What is no bindings with a body is none after the renaming. -/
theorem relabel_not_let {form : Form} {forms : List Form}
    (h : ∀ bindings start stop body, form = .list bindings start stop → forms = [body] → False) :
    ∀ bindings start stop body, form.relabel mark new move = .list bindings start stop →
      Form.relabelAll mark new move forms = [body] → False := by
  intro bindings start stop body hform hforms
  obtain ⟨bindings', start', stop', rfl, -⟩ := Form.eq_list_of_relabel hform
  obtain ⟨body', more, rfl, -, hmore⟩ := Form.eq_cons_of_relabelAll hforms
  rw [Form.eq_nil_of_relabelAll hmore] at h
  exact h bindings' start' stop' body' rfl rfl

/-- What is no binding is none after the renaming. -/
theorem relabel_not_binding {form : Form}
    (hvalue : ∀ name start stop value tail start' stop',
      form = .list (.atom name start stop :: value :: tail) start' stop' → False)
    (hname : ∀ name start stop start' stop',
      form = .list [.atom name start stop] start' stop' → False) :
    (∀ name start stop value tail start' stop',
      form.relabel mark new move = .list (.atom name start stop :: value :: tail) start' stop' →
        False) ∧
    (∀ name start stop start' stop',
      form.relabel mark new move = .list [.atom name start stop] start' stop' → False) := by
  constructor
  · intro name start stop value tail start' stop' h
    obtain ⟨items, start₁, stop₁, rfl, hitems⟩ := Form.eq_list_of_relabel h
    obtain ⟨head, more, rfl, hhead, hmore⟩ := Form.eq_cons_of_relabelAll hitems
    obtain ⟨text, start₂, stop₂, rfl⟩ := Form.eq_atom_of_relabel hhead
    obtain ⟨value', tail', rfl, -, -⟩ := Form.eq_cons_of_relabelAll hmore
    exact hvalue _ _ _ _ _ _ _ rfl
  · intro name start stop start' stop' h
    obtain ⟨items, start₁, stop₁, rfl, hitems⟩ := Form.eq_list_of_relabel h
    obtain ⟨head, more, rfl, hhead, hmore⟩ := Form.eq_cons_of_relabelAll hitems
    obtain ⟨text, start₂, stop₂, rfl⟩ := Form.eq_atom_of_relabel hhead
    rw [Form.eq_nil_of_relabelAll hmore] at hname
    exact hname _ _ _ _ _ rfl

/-- What the walk may carry along through a script with these atoms: scopes before and
after the renaming that fit together go on to do so inside of bindings, and where they
fit the names before and after go together. -/
structure Carries (mark : Nat → Bool) (renamed : Target) (new : String) (move : Nat → Nat)
    (source : String) (globals globals' : List String) (leaves : List Leaf)
    (Fits : Scope Target → Scope Target → Prop) (Pair : Occurrence → Occurrence → Prop) :
    Prop where
  name : ∀ {scope scope' : Scope Target} {text : String} {start stop : Nat}, Fits scope scope' →
    ⟨text, start, stop⟩ ∈ leaves →
    mark start = Sources.refersTo renamed ⟨text, start, stop, resolve globals scope text⟩ →
    Pair ⟨text, start, stop, resolve globals scope text⟩
      ⟨if mark start then new else text, move start, move stop,
        resolve globals' scope' (if mark start then new else text)⟩
  binder : ∀ {name : String} {start stop : Nat},
    mark start = Sources.refersTo renamed ⟨name, start, stop, some (.local name source start)⟩ →
    Pair ⟨name, start, stop, some (.local name source start)⟩
      ⟨if mark start then new else name, move start, move stop,
        some (.local (if mark start then new else name) source (move start))⟩
  declared : ∀ {name : String} {start stop : Nat},
    mark start = Sources.refersTo renamed ⟨name, start, stop, some (.global name)⟩ →
    Pair ⟨name, start, stop, some (.global name)⟩
      ⟨if mark start then new else name, move start, move stop,
        some (.global (if mark start then new else name))⟩
  empty : Fits Scope.empty Scope.empty
  extend : ∀ {scope scope' : Scope Target} {bindings : List Form}, Fits scope scope' →
    (∀ leaf ∈ Form.leavesAll bindings, leaf ∈ leaves) →
    FaithfulBindings mark renamed source globals scope bindings →
    Fits (scope.extend (binders source bindings))
      (scope'.extend (binders source (Form.relabelAll mark new move bindings)))

variable {globals' : List String} {leaves : List Leaf}
variable {Fits : Scope Target → Scope Target → Prop} {Pair : Occurrence → Occurrence → Prop}

/-- **The walk passes the same names after the renaming**, and what it carries along holds of
each name and the one in its place. -/
theorem forall₂_of_carries (hnew : new ≠ "" ∧ Numeral.startsNumeral new = false)
    (hcarries : Carries mark renamed new move source globals globals' leaves Fits Pair) :
    (∀ (scope : Scope Target) (form : Form), (∀ leaf ∈ form.leaves, leaf ∈ leaves) →
      FaithfulForm mark renamed source globals scope form → ∀ scope', Fits scope scope' →
        List.Forall₂ Pair (inForm source globals scope form)
          (inForm source globals' scope' (form.relabel mark new move))) ∧
    (∀ (scope : Scope Target) (forms : List Form),
      (∀ leaf ∈ Form.leavesAll forms, leaf ∈ leaves) →
      FaithfulForms mark renamed source globals scope forms → ∀ scope', Fits scope scope' →
        List.Forall₂ Pair (inForms source globals scope forms)
          (inForms source globals' scope' (Form.relabelAll mark new move forms))) ∧
    (∀ (scope : Scope Target) (forms : List Form),
      (∀ leaf ∈ Form.leavesAll forms, leaf ∈ leaves) →
      FaithfulLet mark renamed source globals scope forms → ∀ scope', Fits scope scope' →
        List.Forall₂ Pair (inLet source globals scope forms)
          (inLet source globals' scope' (Form.relabelAll mark new move forms))) ∧
    (∀ (scope : Scope Target) (forms : List Form),
      (∀ leaf ∈ Form.leavesAll forms, leaf ∈ leaves) →
      FaithfulBindings mark renamed source globals scope forms → ∀ scope', Fits scope scope' →
        List.Forall₂ Pair (inBindings source globals scope forms)
          (inBindings source globals' scope' (Form.relabelAll mark new move forms))) := by
  -- the induction is on the walk; marked atoms do not decide which way it takes
  refine inForm.mutual_induct source _ _ _ _ ?numeral ?name ?nothing ?letForm ?applied ?nested
    ?noForms ?moreForms ?bound ?noLet ?otherLet ?noBindings ?value ?noValue ?otherBinding
  case numeral =>
    intro scope text start stop h hin hfaithful scope' hfits
    rw [FaithfulForm, if_pos h] at hfaithful
    rw [inForm, if_pos h, Form.relabel, hfaithful, if_neg Bool.false_ne_true, inForm, if_pos h]
    exact .nil
  case name =>
    intro scope text start stop h hin hfaithful scope' hfits
    rw [FaithfulForm, if_neg h] at hfaithful
    have hname : ¬ ((if mark start = true then new else text) = "" ∨
        Numeral.startsNumeral (if mark start = true then new else text) = true) := by
      split
      · simp [hnew.1, hnew.2]
      · exact h
    rw [inForm, if_neg h, Form.relabel, inForm, if_neg hname]
    exact .cons (hcarries.name hfits (hin _ List.mem_cons_self) hfaithful.iff_refersTo) .nil
  case nothing =>
    intro scope start stop hin hfaithful scope' hfits
    exact .nil
  case letForm =>
    intro scope start stop rest start' stop' ih hin hfaithful scope' hfits
    rw [FaithfulForm, if_pos rfl] at hfaithful
    rw [inForm, if_pos rfl, Form.relabel, Form.relabelAll, Form.relabel, hfaithful.1,
      if_neg Bool.false_ne_true, inForm, if_pos rfl]
    exact ih (fun leaf hleaf => hin leaf (List.mem_cons_of_mem _ hleaf)) hfaithful.2 scope' hfits
  case applied =>
    intro scope head start stop rest start' stop' hne ih hin hfaithful scope' hfits
    rw [FaithfulForm, if_neg hne] at hfaithful
    rw [inForm, if_neg hne, Form.relabel, Form.relabelAll, Form.relabel, hfaithful.1,
      if_neg Bool.false_ne_true, inForm, if_neg hne]
    exact ih (fun leaf hleaf => hin leaf (List.mem_cons_of_mem _ hleaf)) hfaithful.2 scope' hfits
  case nested =>
    intro scope items start stop rest start' stop' ihitems ihrest hin hfaithful scope' hfits
    obtain ⟨hitems, hrest⟩ := List.forall_mem_append.1 hin
    rw [FaithfulForm] at hfaithful
    have hlist := ihitems hitems hfaithful.1 scope' hfits
    rw [Form.relabel] at hlist
    rw [inForm, Form.relabel, Form.relabelAll, Form.relabel, inForm]
    exact List.rel_append hlist (ihrest hrest hfaithful.2 scope' hfits)
  case noForms =>
    intro scope hin hfaithful scope' hfits
    exact .nil
  case moreForms =>
    intro scope form forms ihform ihforms hin hfaithful scope' hfits
    obtain ⟨hform, hforms⟩ := List.forall_mem_append.1 hin
    rw [FaithfulForms] at hfaithful
    rw [inForms, Form.relabelAll, inForms]
    exact List.rel_append (ihform hform hfaithful.1 scope' hfits)
      (ihforms hforms hfaithful.2 scope' hfits)
  case bound =>
    intro scope bindings start stop body ihbindings ihbody hin hfaithful scope' hfits
    rw [leavesAll_bound] at hin
    obtain ⟨hbindings, hbody⟩ := List.forall_mem_append.1 hin
    rw [FaithfulLet] at hfaithful
    rw [inLet, Form.relabelAll, Form.relabelAll, Form.relabelAll, Form.relabel, inLet]
    exact List.rel_append (ihbindings hbindings hfaithful.1 scope' hfits)
      (ihbody hbody hfaithful.2 _ (hcarries.extend hfits hbindings hfaithful.1))
  case noLet =>
    intro scope hin hfaithful scope' hfits
    exact .nil
  case otherLet =>
    intro scope form forms h ihform ihforms hin hfaithful scope' hfits
    obtain ⟨hform, hforms⟩ := List.forall_mem_append.1 hin
    rw [faithfulLet_of_not_let h, FaithfulForms] at hfaithful
    rw [inLet_of_not_let h, inForms, Form.relabelAll, inLet_of_not_let (relabel_not_let h), inForms]
    exact List.rel_append (ihform hform hfaithful.1 scope' hfits)
      (ihforms hforms hfaithful.2 scope' hfits)
  case noBindings =>
    intro scope hin hfaithful scope' hfits
    exact .nil
  case value =>
    intro scope name start stop value tail start' stop' rest ihvalue ihrest hin hfaithful scope'
      hfits
    obtain ⟨hbinding, hrest⟩ := List.forall_mem_append.1 hin
    rw [leaves_headed, Form.leavesAll] at hbinding
    obtain ⟨-, hvalues⟩ := List.forall_mem_cons.1 hbinding
    obtain ⟨hvalue, -⟩ := List.forall_mem_append.1 hvalues
    rw [FaithfulBindings] at hfaithful
    rw [inBindings, Form.relabelAll, Form.relabel, Form.relabelAll, Form.relabelAll, Form.relabel,
      inBindings]
    exact .cons (hcarries.binder hfaithful.1.iff_refersTo)
      (List.rel_append (ihvalue hvalue hfaithful.2.1 scope' hfits)
        (ihrest hrest hfaithful.2.2 scope' hfits))
  case noValue =>
    intro scope name start stop start' stop' rest ih hin hfaithful scope' hfits
    obtain ⟨-, hrest⟩ := List.forall_mem_append.1 hin
    rw [FaithfulBindings] at hfaithful
    rw [inBindings, Form.relabelAll, Form.relabel, Form.relabelAll, Form.relabelAll, Form.relabel,
      inBindings]
    exact .cons (hcarries.binder hfaithful.1.iff_refersTo) (ih hrest hfaithful.2 scope' hfits)
  case otherBinding =>
    intro scope form forms hvalue hname ih hin hfaithful scope' hfits
    obtain ⟨-, hforms⟩ := List.forall_mem_append.1 hin
    rw [faithfulBindings_of_not_binding hvalue hname] at hfaithful
    obtain ⟨hvalue', hname'⟩ := @relabel_not_binding mark new move form hvalue hname
    rw [inBindings_of_not_binding hvalue hname, Form.relabelAll,
      inBindings_of_not_binding hvalue' hname']
    exact ih hforms hfaithful scope' hfits

/-- The names are relabelled whatever the scopes are. -/
theorem carries_relabelled :
    Carries mark renamed new move source globals globals' leaves (fun _ _ => True)
      (Relabelled mark new move) where
  name _ _ _ := ⟨rfl, rfl, rfl⟩
  binder _ := ⟨rfl, rfl, rfl⟩
  declared _ := ⟨rfl, rfl, rfl⟩
  empty := trivial
  extend _ _ _ := trivial

/-- The walk passes the same names after the renaming, whatever they then resolve to. -/
theorem forall₂_relabel (hnew : new ≠ "" ∧ Numeral.startsNumeral new = false) :
    (∀ (scope : Scope Target) (form : Form),
      FaithfulForm mark renamed source globals scope form → ∀ globals' scope',
        List.Forall₂ (Relabelled mark new move) (inForm source globals scope form)
          (inForm source globals' scope' (form.relabel mark new move))) ∧
    (∀ (scope : Scope Target) (forms : List Form),
      FaithfulForms mark renamed source globals scope forms → ∀ globals' scope',
        List.Forall₂ (Relabelled mark new move) (inForms source globals scope forms)
          (inForms source globals' scope' (Form.relabelAll mark new move forms))) ∧
    (∀ (scope : Scope Target) (forms : List Form),
      FaithfulLet mark renamed source globals scope forms → ∀ globals' scope',
        List.Forall₂ (Relabelled mark new move) (inLet source globals scope forms)
          (inLet source globals' scope' (Form.relabelAll mark new move forms))) ∧
    (∀ (scope : Scope Target) (forms : List Form),
      FaithfulBindings mark renamed source globals scope forms → ∀ globals' scope',
        List.Forall₂ (Relabelled mark new move) (inBindings source globals scope forms)
          (inBindings source globals' scope' (Form.relabelAll mark new move forms))) :=
  ⟨fun scope form h _ scope' =>
      (forall₂_of_carries hnew carries_relabelled).1 scope form (fun _ hleaf => hleaf) h scope'
        trivial,
    fun scope forms h _ scope' =>
      (forall₂_of_carries hnew carries_relabelled).2.1 scope forms (fun _ hleaf => hleaf) h scope'
        trivial,
    fun scope forms h _ scope' =>
      (forall₂_of_carries hnew carries_relabelled).2.2.1 scope forms (fun _ hleaf => hleaf) h
        scope' trivial,
    fun scope forms h _ scope' =>
      (forall₂_of_carries hnew carries_relabelled).2.2.2 scope forms (fun _ hleaf => hleaf) h
        scope' trivial⟩

end Relabel

end Occurrence

end SatScript
