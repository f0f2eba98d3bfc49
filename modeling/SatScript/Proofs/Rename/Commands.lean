import SatScript.Proofs.Rename.Relabel
/-!
# SatScript — the names of commands

What was proved of the walk over expressions, for commands and for whole
scripts: the names of a script are some of its atoms in order
(`sublist_leavesAll`), they resolve to what is bound (`boundIn_inCommands`),
and after a renaming whose marks follow the references the same names are
passed (`forall₂_inCommands_of_carries`).
-/

namespace SatScript

namespace Occurrence

variable {source : String} {globals : List String} {mark : Nat → Bool} {renamed : Target}
variable {new : String} {move : Nat → Nat}

/-! ## One command -/

/-- The names of a declaration. -/
theorem inCommand_of_declared {form : Form} {occurrence : Occurrence}
    (h : declared? form = some occurrence) : inCommand source globals form = [occurrence] := by
  rw [inCommand, h]

/-- The names of an assertion. -/
theorem inCommand_of_asserted {form body : Form} (hnone : declared? form = none)
    (h : asserted? form = some body) :
    inCommand source globals form = inForm source globals Scope.empty body := by
  rw [inCommand, hnone, h]

/-- Other commands have no names. -/
theorem inCommand_of_none {form : Form} (hnone : declared? form = none)
    (h : asserted? form = none) : inCommand source globals form = [] := by
  rw [inCommand, hnone, h]

/-- A declaration has its name behind its head. -/
theorem exists_of_declared {form : Form} {occurrence : Occurrence}
    (h : declared? form = some occurrence) :
    ∃ start stop name start' stop' more start'' stop'',
      form = .list (.atom "declare-fun" start stop :: .atom name start' stop' :: more)
        start'' stop'' ∧
      occurrence = ⟨name, start', stop', some (.global name)⟩ := by
  unfold declared? at h
  split at h
  · split at h
    · rename_i hhead
      cases h
      subst hhead
      exact ⟨_, _, _, _, _, _, _, _, rfl, rfl⟩
    · cases h
  · cases h

/-- An assertion has its expression behind its head. -/
theorem exists_of_asserted {form body : Form} (h : asserted? form = some body) :
    ∃ start stop more start' stop',
      form = .list (.atom "assert" start stop :: body :: more) start' stop' := by
  unfold asserted? at h
  split at h
  · split at h
    · rename_i hhead
      cases h
      subst hhead
      exact ⟨_, _, _, _, _, rfl⟩
    · cases h
  · cases h

/-- The atoms of an asserted expression are some of those of the command. -/
theorem sublist_asserted {form body : Form} (h : asserted? form = some body) :
    body.leaves.Sublist form.leaves := by
  obtain ⟨start, stop, more, start', stop', rfl⟩ := exists_of_asserted h
  rw [leaves_headed, Form.leavesAll]
  exact (List.sublist_append_left _ _).cons _

/-- The names of a command that has a head stand behind it. -/
theorem sublist_behind_head {head : String} {start stop start' stop' : Nat} {rest : List Form} :
    ((inCommand source globals
      (.list (.atom head start stop :: rest) start' stop')).map leaf).Sublist
      (Form.leavesAll rest) := by
  cases hdeclared : declared? (.list (.atom head start stop :: rest) start' stop') with
  | some occurrence =>
    obtain ⟨_, _, name, start₁, stop₁, more, _, _, heq, rfl⟩ := exists_of_declared hdeclared
    rw [inCommand_of_declared hdeclared]
    cases heq
    rw [Form.leavesAll, Form.leaves]
    exact (List.nil_sublist _).cons_cons _
  | none =>
    cases hasserted : asserted? (.list (.atom head start stop :: rest) start' stop') with
    | some body =>
      obtain ⟨_, _, more, _, _, heq⟩ := exists_of_asserted hasserted
      rw [inCommand_of_asserted hdeclared hasserted]
      cases heq
      exact (sublist_leaves.1 _ body).trans (List.sublist_append_left _ _)
    | none =>
      rw [inCommand_of_none hdeclared hasserted]
      exact List.nil_sublist _

/-- A command without a head has no names. -/
theorem inCommand_of_headless {form : Form}
    (h : ∀ head start stop rest start' stop',
      form ≠ .list (.atom head start stop :: rest) start' stop') :
    declared? form = none ∧ asserted? form = none := by
  constructor
  · cases hdeclared : declared? form with
    | none => rfl
    | some occurrence =>
      obtain ⟨_, _, _, _, _, _, _, _, heq, -⟩ := exists_of_declared hdeclared
      exact absurd heq (h _ _ _ _ _ _)
  · cases hasserted : asserted? form with
    | none => rfl
    | some body =>
      obtain ⟨_, _, _, _, _, heq⟩ := exists_of_asserted hasserted
      exact absurd heq (h _ _ _ _ _ _)

/-- The names of a command are some of its atoms, in order. -/
theorem sublist_inCommand (form : Form) :
    ((inCommand source globals form).map leaf).Sublist form.leaves := by
  by_cases h : ∃ head start stop rest start' stop',
      form = .list (.atom head start stop :: rest) start' stop'
  · obtain ⟨head, start, stop, rest, start', stop', rfl⟩ := h
    rw [leaves_headed]
    exact sublist_behind_head.cons _
  · obtain ⟨hdeclared, hasserted⟩ := @inCommand_of_headless form (by simpa using h)
    rw [inCommand_of_none hdeclared hasserted]
    exact List.nil_sublist _

/-- What the names of a command resolve to is bound. -/
theorem boundIn_inCommand {leaves : List Leaf} {form : Form}
    (hsubset : ∀ leaf ∈ form.leaves, leaf ∈ leaves)
    (hdeclared : ∀ occurrence, declared? form = some occurrence → occurrence.text ∈ globals) :
    ∀ occurrence ∈ inCommand source globals form, ∀ target, occurrence.target = some target →
      target.BoundIn source globals leaves occurrence.text := by
  intro occurrence hmem
  cases hfound : declared? form with
  | some found =>
    rw [inCommand_of_declared hfound, List.mem_singleton] at hmem
    subst hmem
    intro target htarget
    obtain ⟨_, _, name, _, _, _, _, _, -, rfl⟩ := exists_of_declared hfound
    cases htarget
    exact ⟨rfl, hdeclared _ hfound⟩
  | none =>
    cases hasserted : asserted? form with
    | none =>
      rw [inCommand_of_none hfound hasserted] at hmem
      cases hmem
    | some body =>
      rw [inCommand_of_asserted hfound hasserted] at hmem
      obtain ⟨_, _, more, _, _, rfl⟩ := exists_of_asserted hasserted
      refine boundIn_of_mem.1 Scope.empty body (fun _ _ hlookup => ?_) (fun leaf hleaf => ?_)
        occurrence hmem
      · rw [Scope.lookup_empty] at hlookup
        cases hlookup
      · refine hsubset leaf ?_
        rw [leaves_headed, Form.leavesAll]
        exact List.mem_cons_of_mem _ (List.mem_append_left _ hleaf)

/-- A declaration after the renaming. -/
theorem declared?_relabel {form : Form}
    (h : ∀ head start stop rest start' stop',
      form = .list (.atom head start stop :: rest) start' stop' → mark start = false) :
    declared? (form.relabel mark new move) =
      (declared? form).map fun occurrence =>
        ⟨if mark occurrence.start then new else occurrence.text, move occurrence.start,
          move occurrence.stop,
          some (.global (if mark occurrence.start then new else occurrence.text))⟩ := by
  match form, h with
  | .atom _ _ _, _ => rfl
  | .list [] _ _, _ => rfl
  | .list (.list _ _ _ :: _) _ _, _ => rfl
  | .list [.atom _ _ _] _ _, _ => rfl
  | .list (.atom _ _ _ :: .list _ _ _ :: _) _ _, _ => rfl
  | .list (.atom head start stop :: .atom name start₁ stop₁ :: more) start' stop', h =>
    have hhead := h head start stop _ start' stop' rfl
    rw [Form.relabel, Form.relabelAll, Form.relabelAll, Form.relabel, Form.relabel, hhead,
      if_neg Bool.false_ne_true, declared?, declared?]
    split <;> rfl

/-- An assertion after the renaming. -/
theorem asserted?_relabel {form : Form}
    (h : ∀ head start stop rest start' stop',
      form = .list (.atom head start stop :: rest) start' stop' → mark start = false) :
    asserted? (form.relabel mark new move) =
      (asserted? form).map fun body => body.relabel mark new move := by
  match form, h with
  | .atom _ _ _, _ => rfl
  | .list [] _ _, _ => rfl
  | .list (.list _ _ _ :: _) _ _, _ => rfl
  | .list [.atom _ _ _] _ _, _ => rfl
  | .list (.atom head start stop :: body :: more) start' stop', h =>
    have hhead := h head start stop _ start' stop' rfl
    rw [Form.relabel, Form.relabelAll, Form.relabelAll, Form.relabel, hhead,
      if_neg Bool.false_ne_true, asserted?, asserted?]
    split <;> rfl

/-- The marks in a command follow its references. -/
abbrev FaithfulCommand (mark : Nat → Bool) (renamed : Target) (source : String)
    (globals : List String) (leaves : List Leaf) (form : Form) : Prop :=
  MarkedIn mark renamed leaves form.leaves (inCommand source globals form)

namespace FaithfulCommand

variable {leaves : List Leaf} {form : Form}

theorem head_unmarked (h : FaithfulCommand mark renamed source globals leaves form) :
    ∀ head start stop rest start' stop',
      form = .list (.atom head start stop :: rest) start' stop' → mark start = false := by
  rintro head start stop rest start' stop' rfl
  rw [FaithfulCommand, leaves_headed] at h
  exact (h.tail sublist_behind_head).1

/-- The marks in an asserted expression are faithful. -/
theorem body (h : FaithfulCommand mark renamed source globals leaves form)
    (hnamed : NamedAlike renamed source globals leaves) {body : Form}
    (hdeclared : declared? form = none) (hasserted : asserted? form = some body) :
    FaithfulForm mark renamed source globals Scope.empty body ∧ Leaf.Ordered body.leaves := by
  rw [FaithfulCommand, inCommand_of_asserted hdeclared hasserted] at h
  obtain ⟨start, stop, more, start', stop', rfl⟩ := exists_of_asserted hasserted
  have hsub := (@sublist_leaves source globals).1 Scope.empty body
  rw [leaves_headed, Form.leavesAll] at h
  have hbody := MarkedIn.left (h.tail (hsub.trans (List.sublist_append_left _ _))).2 hsub
  refine ⟨(faithful_of_markedIn hnamed).1 Scope.empty body (fun _ _ hlookup => ?_) hbody,
    hbody.ordered⟩
  rw [Scope.lookup_empty] at hlookup
  cases hlookup

/-- What is declared is marked if it is the target. -/
theorem mark_of_declared (h : FaithfulCommand mark renamed source globals leaves form)
    {occurrence : Occurrence} (hdeclared : declared? form = some occurrence) :
    mark occurrence.start = Sources.refersTo renamed occurrence := by
  have hnames := @inCommand_of_declared source globals _ _ hdeclared
  have hleaf : occurrence.leaf ∈ form.leaves :=
    (sublist_inCommand form).subset (by rw [hnames]; exact List.mem_cons_self)
  have hmark := h.marks _ hleaf
  rw [hnames, List.any_cons, List.any_nil, Bool.or_false] at hmark
  simpa [leaf] using hmark

/-- **A command has the same names after the renaming**, and what the walk carries along
holds of each name and the one in its place. -/
theorem forall₂_of_carries {globals' : List String} {Fits : Scope Target → Scope Target → Prop}
    {Pair : Occurrence → Occurrence → Prop}
    (h : FaithfulCommand mark renamed source globals leaves form)
    (hnamed : NamedAlike renamed source globals leaves)
    (hnew : new ≠ "" ∧ Numeral.startsNumeral new = false)
    (hcarries : Carries mark renamed new move source globals globals' leaves Fits Pair) :
    List.Forall₂ Pair (inCommand source globals form)
      (inCommand source globals' (form.relabel mark new move)) := by
  have hdeclared' := @declared?_relabel mark new move form h.head_unmarked
  have hasserted' := @asserted?_relabel mark new move form h.head_unmarked
  cases hdeclared : declared? form with
  | some occurrence =>
    have hmark := h.mark_of_declared hdeclared
    obtain ⟨-, -, _, _, _, _, _, _, -, rfl⟩ := exists_of_declared hdeclared
    rw [hdeclared] at hdeclared'
    rw [inCommand_of_declared hdeclared, inCommand_of_declared hdeclared']
    exact .cons (hcarries.declared hmark) .nil
  | none =>
    rw [hdeclared] at hdeclared'
    cases hasserted : asserted? form with
    | none =>
      rw [hasserted] at hasserted'
      rw [inCommand_of_none hdeclared hasserted, inCommand_of_none hdeclared' hasserted']
      exact .nil
    | some body =>
      rw [hasserted] at hasserted'
      rw [inCommand_of_asserted hdeclared hasserted, inCommand_of_asserted hdeclared' hasserted']
      exact (Occurrence.forall₂_of_carries hnew hcarries).1 Scope.empty body
        (fun leaf hleaf => h.subset leaf ((sublist_asserted hasserted).subset hleaf))
        (h.body hnamed hdeclared hasserted).1 Scope.empty hcarries.empty

/-- A command has the same names after the renaming, whatever they then resolve to. -/
theorem forall₂_relabel (h : FaithfulCommand mark renamed source globals leaves form)
    (hnamed : NamedAlike renamed source globals leaves)
    (hnew : new ≠ "" ∧ Numeral.startsNumeral new = false) (globals' : List String) :
    List.Forall₂ (Relabelled mark new move) (inCommand source globals form)
      (inCommand source globals' (form.relabel mark new move)) :=
  h.forall₂_of_carries hnamed hnew carries_relabelled

end FaithfulCommand

/-! ## A script -/

theorem inCommands_cons (form : Form) (forms : List Form) :
    inCommands source globals (form :: forms) =
      inCommand source globals form ++ inCommands source globals forms := List.flatMap_cons ..

/-- **The names of a script are some of its atoms, in order.** -/
theorem sublist_leavesAll (forms : List Form) :
    ((inCommands source globals forms).map leaf).Sublist (Form.leavesAll forms) := by
  induction forms with
  | nil => exact List.nil_sublist _
  | cons form forms ih =>
    rw [inCommands_cons, List.map_append, Form.leavesAll]
    exact (sublist_inCommand form).append ih

/-- **What the names of a script resolve to is bound.** -/
theorem boundIn_inCommands {forms : List Form}
    (hdeclared : ∀ form ∈ forms, ∀ occurrence, declared? form = some occurrence →
      occurrence.text ∈ globals) :
    ∀ occurrence ∈ inCommands source globals forms, ∀ target, occurrence.target = some target →
      target.BoundIn source globals (Form.leavesAll forms) occurrence.text := by
  intro occurrence hmem
  obtain ⟨form, hform, hmem⟩ := List.mem_flatMap.1 hmem
  refine boundIn_inCommand (fun leaf hleaf => ?_) (hdeclared form hform) occurrence hmem
  obtain ⟨before, after, rfl⟩ := List.append_of_mem hform
  rw [Form.leavesAll_append, Form.leavesAll]
  exact List.mem_append_right _ (List.mem_append_left _ hleaf)

/-- Marks that follow the references of a script follow those of each of its
commands. -/
theorem faithfulCommand_of_markedIn {leaves : List Leaf} {forms : List Form}
    (h : MarkedIn mark renamed leaves (Form.leavesAll forms) (inCommands source globals forms)) :
    ∀ form ∈ forms, FaithfulCommand mark renamed source globals leaves form := by
  induction forms with
  | nil =>
    intro form hform
    cases hform
  | cons form forms ih =>
    rw [Form.leavesAll, inCommands_cons] at h
    obtain ⟨hfirst, hmore⟩ := h.split (sublist_inCommand form) (sublist_leavesAll forms)
    exact List.forall_mem_cons.2 ⟨hfirst, ih hmore⟩

/-- **A script has the same names after a renaming**, if its marks follow the references,
and what the walk carries along holds of each name and the one in its place. -/
theorem forall₂_inCommands_of_carries {leaves : List Leaf} {forms : List Form}
    {globals' : List String} {Fits : Scope Target → Scope Target → Prop}
    {Pair : Occurrence → Occurrence → Prop}
    (h : ∀ form ∈ forms, FaithfulCommand mark renamed source globals leaves form)
    (hnamed : NamedAlike renamed source globals leaves)
    (hnew : new ≠ "" ∧ Numeral.startsNumeral new = false)
    (hcarries : Carries mark renamed new move source globals globals' leaves Fits Pair) :
    List.Forall₂ Pair (inCommands source globals forms)
      (inCommands source globals' (Form.relabelAll mark new move forms)) := by
  induction forms with
  | nil => exact .nil
  | cons form forms ih =>
    rw [Form.relabelAll, inCommands_cons, inCommands_cons]
    exact List.rel_append ((h form List.mem_cons_self).forall₂_of_carries hnamed hnew hcarries)
      (ih fun form hform => h form (List.mem_cons_of_mem _ hform))

/-- A script has the same names after a renaming, whatever they then resolve to. -/
theorem forall₂_inCommands_relabel {leaves : List Leaf} {forms : List Form}
    (h : ∀ form ∈ forms, FaithfulCommand mark renamed source globals leaves form)
    (hnamed : NamedAlike renamed source globals leaves)
    (hnew : new ≠ "" ∧ Numeral.startsNumeral new = false) (globals' : List String) :
    List.Forall₂ (Relabelled mark new move) (inCommands source globals forms)
      (inCommands source globals' (Form.relabelAll mark new move forms)) :=
  forall₂_inCommands_of_carries h hnamed hnew carries_relabelled

end Occurrence

end SatScript
