import SatScript.Proofs.Rename.Followed
import SatScript.Proofs.Rename.References
/-!
# SatScript — a fresh name can be given

No renaming to a fresh name is refused (`rename_of_fresh`). The edits can be
applied, since they are those of atoms of the text; the new name does not run
together with what follows it, so every source is read as its forms with the
new name at the references (`Relabels`); and then every name is kept, under
every nesting of bindings and in every source, so the check finds none that
is captured (`Relabels.forall₂_kept`).
-/

namespace SatScript

namespace Sources

/-- No atom of any source bears the name. -/
def Fresh (sources : Sources) (name : String) : Prop :=
  ∀ source forms, sources.forms source = .ok forms →
    ∀ leaf ∈ Form.leavesAll forms, leaf.text ≠ name

/-- Each reference of the target ends with its text, or is followed by a blank or a
parenthesis. -/
def EndsApart (sources : Sources) (target : Target) : Prop :=
  ∀ references, sources.references target = .ok references →
    ∀ source occurrences, (source, occurrences) ∈ references →
      ∀ text, sources.get? source = some text →
        ∀ occurrence ∈ occurrences, Delimited (Text.behind text.toList occurrence.stop)

/-- What is declared is an atom, so a fresh name is declared nowhere. -/
theorem Fresh.not_mem_globals {sources : Sources} {name : String} (h : sources.Fresh name) :
    name ∉ sources.globals := by
  intro hmem
  obtain ⟨source, text, hget, form, hform, occurrence, hdeclared, htext⟩ :=
    exists_of_mem_globals hmem
  have hname : occurrence ∈ Occurrence.inCommands source sources.globals
      (SatScript.forms (Text.blankedComments text.toList)) := List.mem_flatMap.2
    ⟨form, hform, by rw [Occurrence.inCommand_of_declared hdeclared]; exact List.mem_cons_self⟩
  exact h source _ (forms_eq hget) occurrence.leaf
    ((Occurrence.sublist_leavesAll _).subset (List.mem_map_of_mem hname)) htext

end Sources

namespace Renaming

variable {sources after : Sources} {target : Target} {home source newName text : String}
variable {occurrence : Occurrence} {references : List (String × List Occurrence)}

/-! ## The edits -/

/-- Where every reference ends apart from what follows it, so does the new name. -/
theorem separated_of_endsApart (h : sources.EndsApart target)
    (hreferences : sources.references target = .ok references)
    (hget : sources.get? source = some text) :
    Separated newName (Text.blankedComments text.toList)
      (editsIn sources target newName source) := by
  have hoccurrences := Sources.occurrences_eq hget
  refine .inr fun edit hedit => ?_
  by_cases hvisible : source ∈ sources.visibleIn target
  · obtain ⟨⟨_, found⟩, hmem, hfound⟩ :=
      exists_of_mem_left (forall₂_of_mapM_eq_ok hreferences) hvisible
    obtain ⟨occurrences, hlisted, hfound⟩ := bind_eq_ok_iff.1 hfound
    cases hoccurrences.symm.trans hlisted
    cases pure_eq_ok_iff.1 hfound
    rw [editsIn_eq hoccurrences] at hedit
    obtain ⟨reference, hreference, rfl⟩ := List.mem_map.1 hedit
    exact Text.delimited_after_blankedFrom (h references hreferences source _ hmem text hget
      reference hreference)
  · rw [editsIn_eq_nil hget hvisible] at hedit
    cases hedit

/-- **The edits of a renaming can be applied.** -/
theorem exists_edited (h : Found sources target home text occurrence)
    (hvalid : isValidName newName = true) (hsemi : ';' ∉ newName.toList)
    (hreferences : sources.references target = .ok references) :
    ∃ after, edited sources (changesOf newName references) = .ok after := by
  rw [edited]
  refine Exists.elim (exists_mapM_eq_ok fun entry hentry => ?_) fun entries hentries =>
    ⟨Table.ofList entries, bind_eq_ok_iff.2 ⟨entries, hentries, rfl⟩⟩
  obtain ⟨source, text'⟩ := entry
  have hget := Table.get?_of_mem hentry
  have hedits := @getD_changes _ source newName _ _ hreferences
    (Table.mem_keys_iff.2 ⟨text', hget⟩)
  obtain ⟨after, happlied, -⟩ := exists_reread h hvalid hsemi hget
  rw [← hedits] at happlied
  cases hchange : (changesOf newName references).get? source with
  | none => exact ⟨(source, text'), by simp only [hchange]⟩
  | some edits =>
    rw [hchange, Option.getD_some] at happlied
    exact ⟨(source, after), by simp only [hchange, happlied]⟩

/-! ## The sources after the edits -/

/-- The sources after a renaming read as those before it, with the new name at the
references of the target. -/
structure Relabels (sources after : Sources) (target : Target) (newName : String) : Prop where
  keys_eq : after.keys = sources.keys
  forms_eq : ∀ source text occurrences, sources.get? source = some text →
    sources.occurrences source = .ok occurrences →
      ∃ text', after.get? source = some text' ∧
        forms (Text.blankedComments text'.toList) =
          Form.relabelAll (markOf target occurrences) newName
            (Form.shifted (editsIn sources target newName source))
            (forms (Text.blankedComments text.toList))

/-- Where the new name is separate from what follows the references, the edits relabel. -/
theorem relabels_of_edited (h : Found sources target home text occurrence)
    (hvalid : isValidName newName = true) (hsemi : ';' ∉ newName.toList)
    (hreferences : sources.references target = .ok references)
    (hseparated : ∀ source text, sources.get? source = some text →
      Separated newName (Text.blankedComments text.toList)
        (editsIn sources target newName source))
    (hedited : edited sources (changesOf newName references) = .ok after) :
    Relabels sources after target newName := by
  obtain ⟨hkeys, htexts⟩ := get?_edited hedited
  refine ⟨hkeys, fun source text occurrences hget hoccurrences => ?_⟩
  obtain ⟨text', hget', happlied⟩ := htexts source text hget
  obtain ⟨text'', happlied', hread⟩ := exists_reread h hvalid hsemi hget
  rw [getD_changes hreferences (Table.mem_keys_iff.2 ⟨text, hget⟩)] at happlied
  cases happlied.symm.trans happlied'
  refine ⟨text', hget', ?_⟩
  rw [hread.2 (hseparated source text hget)]
  exact Form.editAll_eq_relabelAll (editedText_editsIn hget hoccurrences)

/-- What a command declares after the renaming is the image of what it declared. -/
theorem declared_relabel {mark : Nat → Bool} {globals : List String} {leaves : List Leaf}
    {form : Form} (newName : String) (move : Nat → Nat) (edits : List Edit)
    (h : Occurrence.FaithfulCommand mark target source globals leaves form) :
    (Occurrence.declared? (form.relabel mark newName move)).map (·.text) =
      (Occurrence.declared? form).map fun occurrence =>
        (image target newName edits (.global occurrence.text)).name := by
  rw [Occurrence.declared?_relabel h.head_unmarked, Option.map_map]
  cases hdeclared : Occurrence.declared? form with
  | none => rfl
  | some occurrence =>
    have hmark := h.mark_of_declared hdeclared
    obtain ⟨-, -, _, _, _, _, _, _, -, rfl⟩ := Occurrence.exists_of_declared hdeclared
    rw [Option.map_some, Option.map_some, Function.comp_apply, hmark, name_image]
    rfl

namespace Relabels

/-- A declared name is declared under the name of its image. -/
theorem image_mem_globals (h : Relabels sources after target newName) (edits : List Edit)
    {name : String} (hmem : name ∈ sources.globals) :
    (image target newName edits (.global name)).name ∈ after.globals := by
  obtain ⟨source, text, hget, form, hform, occurrence, hdeclared, rfl⟩ :=
    Sources.exists_of_mem_globals hmem
  have hoccurrences := Sources.occurrences_eq hget
  obtain ⟨text', hget', hforms⟩ := h.forms_eq source text _ hget hoccurrences
  have himage := declared_relabel newName (Form.shifted (editsIn sources target newName source))
    edits (faithful_markOf target hget hoccurrences form hform)
  rw [hdeclared, Option.map_some] at himage
  obtain ⟨now, hnow, htext⟩ := Option.map_eq_some_iff.1 himage
  rw [← htext]
  refine Sources.mem_globals hget' _ ?_ now hnow
  rw [hforms, Form.relabelAll_eq_map]
  exact List.mem_map_of_mem hform

/-- And nothing else is declared after the renaming. -/
theorem exists_of_mem_globals (h : Relabels sources after target newName) (edits : List Edit)
    {name : String} (hmem : name ∈ after.globals) :
    ∃ old ∈ sources.globals, (image target newName edits (.global old)).name = name := by
  obtain ⟨source, text', hget', form', hform', now, hnow, rfl⟩ :=
    Sources.exists_of_mem_globals hmem
  obtain ⟨text, hget⟩ := Table.mem_keys_iff.1 (h.keys_eq ▸ Table.mem_keys_iff.2 ⟨text', hget'⟩)
  have hoccurrences := Sources.occurrences_eq hget
  obtain ⟨text'', hget'', hforms⟩ := h.forms_eq source text _ hget hoccurrences
  cases hget'.symm.trans hget''
  rw [hforms, Form.relabelAll_eq_map] at hform'
  obtain ⟨form, hform, rfl⟩ := List.mem_map.1 hform'
  have himage := declared_relabel newName (Form.shifted (editsIn sources target newName source))
    edits (faithful_markOf target hget hoccurrences form hform)
  rw [hnow, Option.map_some] at himage
  obtain ⟨old, hold, htext⟩ := Option.map_eq_some_iff.1 himage.symm
  exact ⟨old.text, Sources.mem_globals hget form hform old hold, htext⟩

/-- **Every name of every source is kept**, if the new name is fresh. -/
theorem forall₂_kept (h : Relabels sources after target newName)
    (hfound : Found sources target home text occurrence) (hvalid : isValidName newName = true)
    (hfresh : sources.Fresh newName) {before : String} (hget : sources.get? source = some before) :
    ∃ olds nows, sources.occurrences source = .ok olds ∧ after.occurrences source = .ok nows ∧
      List.Forall₂ (Kept target newName (editsIn sources target newName source)) olds nows := by
  have hoccurrences := Sources.occurrences_eq hget
  obtain ⟨text', hget', hforms⟩ := h.forms_eq source before _ hget hoccurrences
  have hnames := hfound.namedAlike hget
  refine ⟨_, _, hoccurrences, Sources.occurrences_eq hget', ?_⟩
  rw [hforms]
  refine Occurrence.forall₂_inCommands_of_carries (faithful_markOf target hget hoccurrences) hnames
    (isAtomText_of_isValidName hvalid).2 (carries_kept (shifted_editsIn hfound hget)
      (hfresh source _ (Sources.forms_eq hget)) hnames ?_)
  refine follows_empty hfresh.not_mem_globals (fun _ hmem => h.image_mem_globals _ hmem)
    fun name hmem hne => ?_
  obtain ⟨old, hold, himage⟩ :=
    h.exists_of_mem_globals (editsIn sources target newName source) hmem
  rw [name_image] at himage
  split at himage
  · exact absurd himage.symm hne
  · rwa [← himage]

end Relabels

/-! ## The renaming -/

/-- **A fresh name can always be given**: where a name is found at an offset and each of
its references ends with its text or before a blank or a parenthesis, a valid name
that holds no semicolon and is no atom of any source is given to it, and the changes
are one edit for each reference, source by source. -/
theorem rename_of_fresh {offset : Int}
    (hfound : sources.targetAt home offset = .ok (some target))
    (hvalid : isValidName newName = true) (hsemi : ';' ∉ newName.toList)
    (hfresh : sources.Fresh newName) (hends : sources.EndsApart target) :
    ∃ outcome references, sources.rename home offset newName = .ok outcome ∧
      outcome.target = target ∧ sources.references target = .ok references ∧
      outcome.changes.entries =
        (references.filter fun entry => !entry.2.isEmpty).map fun entry =>
          (entry.1, entry.2.map (editOf newName)) := by
  obtain ⟨text, occurrence, hname⟩ := exists_found hfound
  obtain ⟨references, hreferences⟩ := exists_references hname.mem_keys_of_visibleIn
  obtain ⟨after, hafter⟩ := exists_edited hname hvalid hsemi hreferences
  have hrelabels := relabels_of_edited hname hvalid hsemi hreferences
    (fun _ _ hget => separated_of_endsApart hends hreferences hget) hafter
  refine ⟨⟨target, changesOf newName references, after⟩, references, rename_of_made
    ⟨hvalid, hfound, fun _ _ _ => hfresh.not_mem_globals, ⟨references, hreferences, rfl⟩, hafter,
      check_eq_ok fun source hkey => ?_⟩, rfl, hreferences,
    entries_changesOf (nodup_references hreferences)⟩
  obtain ⟨before, hget⟩ := Table.mem_keys_iff.1 hkey
  obtain ⟨olds, nows, holds, hnows, hkept⟩ := hrelabels.forall₂_kept hname hvalid hfresh hget
  refine ⟨olds, nows, holds, hnows, ?_⟩
  rw [getD_changes hreferences hkey]
  exact firstCaptured_eq_none hkept

/-- A script that declares `x` and binds the name twice, and one that uses it. -/
def boundTwice : Sources :=
  Table.ofList [("a", "(declare-fun x () Real)(assert (let ((x x) (x 1)) (> x 0)))"),
    ("b", "(assert (= x 2)) ; x")]

/-- The declared `x` can be called `y`; the bound ones and the comment are not touched. -/
theorem rename_of_fresh_shadowed :
    ∃ outcome, boundTwice.rename "a" 13 "y" = .ok outcome ∧ outcome.target = .global "x" ∧
      outcome.changes.entries =
        [("a", [⟨13, 14, "y"⟩, ⟨40, 41, "y"⟩]), ("b", [⟨11, 12, "y"⟩])] := by
  have hfound : boundTwice.targetAt "a" 13 = .ok (some (.global "x")) := by decide +kernel
  have hreferences : boundTwice.references (.global "x") =
      .ok [("a", [⟨"x", 13, 14, some (.global "x")⟩, ⟨"x", 40, 41, some (.global "x")⟩]),
        ("b", [⟨"x", 11, 12, some (.global "x")⟩])] := by decide +kernel
  have hdeclaring : (Form.leavesAll (forms (Text.blankedComments
      "(declare-fun x () Real)(assert (let ((x x) (x 1)) (> x 0)))".toList))).map Leaf.text =
        ["declare-fun", "x", "Real", "assert", "let", "x", "x", "x", "1", ">", "x", "0"] := by
    decide +kernel
  have husing : (Form.leavesAll (forms (Text.blankedComments
      "(assert (= x 2)) ; x".toList))).map Leaf.text = ["assert", "=", "x", "2"] := by
    decide +kernel
  have hdeclared : Text.behind
      "(declare-fun x () Real)(assert (let ((x x) (x 1)) (> x 0)))".toList (14 : Nat) =
        ' ' :: "() Real)(assert (let ((x x) (x 1)) (> x 0)))".toList := by decide +kernel
  have hvalue : Text.behind
      "(declare-fun x () Real)(assert (let ((x x) (x 1)) (> x 0)))".toList (41 : Nat) =
        ')' :: " (x 1)) (> x 0)))".toList := by decide +kernel
  have hused : Text.behind "(assert (= x 2)) ; x".toList (12 : Nat) =
      ' ' :: "2)) ; x".toList := by decide +kernel
  have hsources : ∀ source text, boundTwice.get? source = some text →
      source = "a" ∧ text = "(declare-fun x () Real)(assert (let ((x x) (x 1)) (> x 0)))" ∨
        source = "b" ∧ text = "(assert (= x 2)) ; x" := by
    intro source text hget
    have hentry : (source, text) ∈ [("a",
        "(declare-fun x () Real)(assert (let ((x x) (x 1)) (> x 0)))"),
          ("b", "(assert (= x 2)) ; x")] := Table.mem_of_get? hget
    simpa using hentry
  have hfresh : boundTwice.Fresh "y" := by
    intro source listed hlisted leaf hleaf
    cases hget : boundTwice.get? source with
    | none => rw [Sources.forms, hget] at hlisted; cases hlisted
    | some text =>
      rw [Sources.forms_eq hget] at hlisted
      cases hlisted
      have htext : leaf.text ∈ (Form.leavesAll (forms (Text.blankedComments text.toList))).map
          Leaf.text := List.mem_map_of_mem hleaf
      rcases hsources source text hget with ⟨rfl, rfl⟩ | ⟨rfl, rfl⟩
      · rw [hdeclaring] at htext
        exact ne_of_mem_of_not_mem htext (by decide)
      · rw [husing] at htext
        exact ne_of_mem_of_not_mem htext (by decide)
  have hends : boundTwice.EndsApart (.global "x") := by
    intro references hlisted source occurrences hmem text hget occurrence hoccurrence
    cases hreferences.symm.trans hlisted
    rcases hsources source text hget with ⟨rfl, rfl⟩ | ⟨rfl, rfl⟩
    · have hlist : occurrences = [⟨"x", 13, 14, some (.global "x")⟩,
          ⟨"x", 40, 41, some (.global "x")⟩] := by simpa using hmem
      rw [hlist] at hoccurrence
      rcases List.mem_pair.1 hoccurrence with rfl | rfl
      · rw [hdeclared]
        exact delimited_cons.2 rfl
      · rw [hvalue]
        exact delimited_cons.2 rfl
    · have hlist : occurrences = [⟨"x", 11, 12, some (.global "x")⟩] := by simpa using hmem
      rw [hlist] at hoccurrence
      rw [List.mem_singleton.1 hoccurrence, hused]
      exact delimited_cons.2 rfl
  obtain ⟨outcome, references, hrename, htarget, hlisted, hentries⟩ :=
    rename_of_fresh hfound (by decide) (by decide) hfresh hends
  cases hreferences.symm.trans hlisted
  exact ⟨outcome, hrename, htarget, hentries⟩

end Renaming

end SatScript
