import SatScript.Proofs.Edit.Accepted
import SatScript.Proofs.Rename.References
/-!
# SatScript — a renaming replaces atoms

What a renaming that succeeds does to the forms of a source, and to what
its names resolve to. It gives the new name to the atoms at the references
of its target, and every name resolves to the image of what it resolved
to, if and only if the new name stays separate from what follows the
references (`replaces_iff`). That condition is not checked: the check
compares the names before the renaming with those in their places after
it, and where two atoms have run together there are fewer names to compare
(`rename_runs_together`). A renaming that fails changes nothing.
-/

namespace SatScript

namespace Renaming

variable {sources : Sources} {home source newName text : String} {offset : Int}
variable {outcome : Renaming}

/-- The image of the target has the new name. -/
theorem name_image_self (target : Target) (newName : String) (edits : List Edit) :
    (image target newName edits target).name = newName := by
  cases target <;> simp [image, Target.same, Target.name]

/-- **A renaming that succeeds gives a name without a semicolon.** A quoted name
may hold one, but then it is not read again as it was, and the check finds
that the references of the target are lost. -/
theorem semicolon_not_mem_newName (h : Made sources home offset newName outcome) :
    ';' ∉ newName.toList := by
  obtain ⟨text, occurrence, hfound⟩ := exists_found h.found
  obtain ⟨-, -, text', hget', -, olds, nows, holds, hnows, hnone⟩ := h.done hfound.get
  rw [Sources.occurrences_eq hfound.get] at holds
  cases holds
  obtain ⟨i, hi⟩ := List.mem_iff_getElem?.1 hfound.mem
  -- the name that was found is kept, so the new name is read again in its place
  have hkept := kept_of_firstCaptured hnone i occurrence hi
  rw [hfound.target_eq, Option.map_some] at hkept
  obtain ⟨now, hnow, htarget⟩ := Option.bind_eq_some_iff.1 hkept
  have hmem := List.mem_of_getElem? hnow
  have hname := (Sources.boundIn_occurrences hget' hnows now hmem _ htarget).name_eq
  rw [name_image_self] at hname
  rw [Sources.occurrences_eq hget'] at hnows
  cases hnows
  obtain ⟨before, rest, hchars, -⟩ := standsIn_of_mem_leavesAll_forms
    ((Occurrence.sublist_leavesAll _).subset (List.mem_map_of_mem hmem))
  -- but what is read holds no semicolon
  intro hsemi
  refine Text.semicolon_not_mem_blankedFrom false text'.toList ?_
  rw [Text.blankedComments] at hchars
  have htext : now.leaf.text = newName := hname.symm
  rw [hchars, htext]
  exact List.mem_append_right _ (List.mem_append_left _ hsemi)

/-- What a renaming is to do to a source: the atoms at the references of the
target get the new name, and every name resolves to the image of what it
resolved to. -/
structure Replaces (sources : Sources) (newName : String) (outcome : Renaming)
    (source : String) : Prop where
  forms : ∃ old, sources.forms source = .ok old ∧
    outcome.sources.forms source =
      .ok (Form.editAll (editsIn sources outcome.target newName source) old)
  names : ∃ olds nows, sources.occurrences source = .ok olds ∧
    outcome.sources.occurrences source = .ok nows ∧
    List.Forall₂ (Kept outcome.target newName (editsIn sources outcome.target newName source))
      olds nows

/-- The forms of a source are those after the edits just if the new name is
separate from what follows them. -/
theorem forms_eq_iff (h : Made sources home offset newName outcome)
    (hget : sources.get? source = some text) :
    outcome.sources.forms source = .ok (Form.editAll (editsIn sources outcome.target newName source)
        (forms (Text.blankedComments text.toList))) ↔
      Separated newName (Text.blankedComments text.toList)
        (editsIn sources outcome.target newName source) := by
  obtain ⟨-, -, text', hget', happlied, -⟩ := h.done hget
  obtain ⟨home', occurrence, hfound⟩ := exists_found h.found
  obtain ⟨text'', happlied', hread⟩ :=
    exists_reread hfound h.valid (semicolon_not_mem_newName h) hget
  cases happlied.symm.trans happlied'
  rw [Sources.forms_eq hget', ← hread]
  exact ⟨Except.ok.inj, congrArg Except.ok⟩

/-- Where the forms are those after the edits, the names are those before the renaming,
moved and with the new one at the references. -/
theorem forall₂_relabelled_of_forms_eq (h : Made sources home offset newName outcome)
    (hget : sources.get? source = some text)
    (hforms : outcome.sources.forms source =
      .ok (Form.editAll (editsIn sources outcome.target newName source)
        (forms (Text.blankedComments text.toList)))) :
    ∃ olds nows, sources.occurrences source = .ok olds ∧
      outcome.sources.occurrences source = .ok nows ∧
      List.Forall₂ (Occurrence.Relabelled (markOf outcome.target olds) newName
        (Form.shifted (editsIn sources outcome.target newName source))) olds nows := by
  obtain ⟨-, -, text', hget', -, olds, nows, holds, hnows, -⟩ := h.done hget
  refine ⟨olds, nows, holds, hnows, ?_⟩
  obtain ⟨home', occurrence, hfound⟩ := exists_found h.found
  have hlabels := @editedText_editsIn _ outcome.target _ newName _ hget _ holds
  have hfaithful := faithful_markOf outcome.target hget holds
  rw [Sources.forms_eq hget', Form.editAll_eq_relabelAll hlabels] at hforms
  rw [Sources.occurrences_eq hget', Except.ok.inj hforms] at hnows
  rw [Sources.occurrences_eq hget] at holds
  cases holds
  cases hnows
  exact Occurrence.forall₂_inCommands_relabel hfaithful (hfound.namedAlike hget)
    (isAtomText_of_isValidName h.valid).2 _

/-- Where the forms are those after the edits, no name comes or goes, so each is
kept. -/
theorem forall₂_kept_of_forms_eq (h : Made sources home offset newName outcome)
    (hget : sources.get? source = some text)
    (hforms : outcome.sources.forms source =
      .ok (Form.editAll (editsIn sources outcome.target newName source)
        (forms (Text.blankedComments text.toList)))) :
    ∃ olds nows, sources.occurrences source = .ok olds ∧
      outcome.sources.occurrences source = .ok nows ∧
      List.Forall₂ (Kept outcome.target newName (editsIn sources outcome.target newName source))
        olds nows := by
  obtain ⟨-, -, text', -, -, olds, nows, holds, hnows, hnone⟩ := h.done hget
  obtain ⟨olds', nows', holds', hnows', hnames⟩ := forall₂_relabelled_of_forms_eq h hget hforms
  cases holds.symm.trans holds'
  cases hnows.symm.trans hnows'
  exact ⟨olds, nows, holds, hnows, forall₂_kept hnone hnames.length_eq⟩

/-- **A renaming does what it is to do to a source just if the new name is
separate from what follows the references there.** -/
theorem replaces_iff (h : Made sources home offset newName outcome)
    (hget : sources.get? source = some text) :
    Replaces sources newName outcome source ↔
      Separated newName (Text.blankedComments text.toList)
        (editsIn sources outcome.target newName source) := by
  rw [← forms_eq_iff h hget]
  constructor
  · rintro ⟨⟨old, hold, hnew⟩, -⟩
    rw [Sources.forms_eq hget] at hold
    cases hold
    exact hnew
  · intro hforms
    exact ⟨⟨_, Sources.forms_eq hget, hforms⟩, forall₂_kept_of_forms_eq h hget hforms⟩

end Renaming

/-- The sources after an attempt to rename. -/
def Sources.renamed (sources : Sources) (home : String) (offset : Int) (newName : String) :
    Sources :=
  match sources.rename home offset newName with
  | .ok outcome => outcome.sources
  | .error _ => sources

open Renaming in
/-- **A renaming replaces the atoms at the references of its target and nothing
else, just if the new name is separate from what follows them; a renaming
that fails leaves every source as it was.** -/
theorem Sources.renamed_replaces_iff (sources : Sources) (home : String) (offset : Int)
    (newName : String) :
    (∀ outcome, sources.rename home offset newName = .ok outcome →
      sources.renamed home offset newName = outcome.sources ∧
      outcome.sources.keys = sources.keys ∧
      ∀ source text, sources.get? source = some text →
        (outcome.changes.get? source).getD [] =
          editsIn sources outcome.target newName source ∧
        (Replaces sources newName outcome source ↔
          Separated newName (Text.blankedComments text.toList)
            (editsIn sources outcome.target newName source))) ∧
    (∀ fault, sources.rename home offset newName = .error fault →
      sources.renamed home offset newName = sources) := by
  constructor
  · intro outcome h
    have hmade := made_of_rename h
    refine ⟨by rw [renamed, h], hmade.keys_eq, fun source text hget => ?_⟩
    exact ⟨(hmade.done hget).edits, replaces_iff hmade hget⟩
  · intro fault h
    rw [renamed, h]

namespace Renaming

/-- A script that declares `x`, and one that uses it. -/
def usedElsewhere : Sources :=
  Table.ofList [("a", "(declare-fun x () Real)(assert (> x 1))"), ("b", "(assert (= x 2))")]

/-- The second script is `(assert (= y 2))` once `x` is `y`: an atom is replaced. -/
theorem renamed_replaces_elsewhere :
    ∃ outcome, usedElsewhere.rename "a" 13 "y" = .ok outcome ∧
      Replaces usedElsewhere "y" outcome "b" := by
  have htarget : (usedElsewhere.rename "a" 13 "y").map (·.target) = .ok (.global "x") := by
    simp only [Sources.rename, edited, Edit.applyAll, Edit.sorted_eq_insertionSort]
    decide +kernel
  have hedits : editsIn usedElsewhere (.global "x") "y" "b" = [⟨11, 12, "y"⟩] := by
    decide +kernel
  cases h : usedElsewhere.rename "a" 13 "y" with
  | error fault => rw [h] at htarget; cases htarget
  | ok outcome =>
    rw [h] at htarget
    have hname : outcome.target = .global "x" := Except.ok.inj htarget
    refine ⟨outcome, rfl, ?_⟩
    have hsuccess := (Sources.renamed_replaces_iff usedElsewhere "a" 13 "y").1 outcome h
    refine (hsuccess.2.2 "b" "(assert (= x 2))" (by decide)).2.2 ?_
    rw [hname, hedits]
    refine .inr fun edit hedit => ?_
    rw [List.mem_singleton.1 hedit]
    have hbehind : Text.behind (Text.blankedComments "(assert (= x 2))".toList) 12 =
        " 2))".toList := by decide +kernel
    rw [hbehind]
    intro c hc
    cases hc
    rfl

/-- A script in which a quoted name is followed directly by an atom. -/
def runTogether : Sources :=
  Table.ofList [("a", "(declare-fun |x| () Real)(assert (let (f u) |x|1))(assert z)")]

/-- **A new name may run together with the atom behind it.** Then `|x|` and `1`
become the one atom `z1`, and the `z` of the last command is captured; the
check compares it with no name, since there are fewer names than before. -/
theorem rename_runs_together :
    ∃ outcome, runTogether.rename "a" 13 "z" = .ok outcome ∧
      ¬ Replaces runTogether "z" outcome "a" := by
  have hbefore : (runTogether.occurrences "a").map List.length = .ok 4 := by
    decide +kernel
  have hafter : (runTogether.rename "a" 13 "z").map (fun outcome =>
      (outcome.sources.occurrences "a").map List.length) = .ok (.ok 3) := by
    simp only [Sources.rename, edited, Edit.applyAll, Edit.sorted_eq_insertionSort]
    decide +kernel
  cases h : runTogether.rename "a" 13 "z" with
  | error fault => rw [h] at hafter; cases hafter
  | ok outcome =>
    rw [h] at hafter
    refine ⟨outcome, rfl, ?_⟩
    rintro ⟨-, olds, nows, holds, hnows, hkept⟩
    have hlengths := hkept.length_eq
    rw [holds] at hbefore
    have hnowsLength : (outcome.sources.occurrences "a").map List.length = .ok 3 :=
      Except.ok.inj hafter
    rw [hnows] at hnowsLength
    have hfour : olds.length = 4 := Except.ok.inj hbefore
    have hthree : nows.length = 3 := Except.ok.inj hnowsLength
    omega

end Renaming

end SatScript
