import SatScript.Proofs.Computation
import SatScript.Proofs.Rename.Commands
/-!
# SatScript — what a renaming that succeeds has done

A renaming resolves a name, collects references, applies edits and checks
the names again, and each of these may fail. `Renaming.Made` says once what
has been done when none of them fails (`made_of_rename`). What follows for
each source is derived from it (`Made.done`): its edits are those of its
references (`getD_changes`), its text is the one with these edits applied
(`get?_edited`), and its names are kept by those in their places
(`kept_of_firstCaptured`).
-/

namespace SatScript

namespace Sources

variable {sources : Sources} {source text : String}

/-- The forms of a source are read from its text. -/
theorem forms_eq (h : sources.get? source = some text) :
    sources.forms source = .ok (SatScript.forms (Text.blankedComments text.toList)) := by
  rw [forms, h]

/-- The names of a source are those of the commands in its text. -/
theorem occurrences_eq (h : sources.get? source = some text) :
    sources.occurrences source = .ok (Occurrence.inCommands source sources.globals
      (SatScript.forms (Text.blankedComments text.toList))) := by
  rw [occurrences, forms_eq h]
  rfl

/-- A source has names if there is such a source. -/
theorem exists_of_occurrences {names : List Occurrence}
    (h : sources.occurrences source = .ok names) :
    ∃ text, sources.get? source = some text ∧
      names = Occurrence.inCommands source sources.globals
        (SatScript.forms (Text.blankedComments text.toList)) := by
  cases hget : sources.get? source with
  | none =>
    rw [occurrences, forms, hget] at h
    cases h
  | some text =>
    rw [occurrences_eq hget] at h
    exact ⟨text, rfl, (Except.ok.inj h).symm⟩

/-- What a source declares is a global. -/
theorem mem_globals (h : sources.get? source = some text) :
    ∀ form ∈ SatScript.forms (Text.blankedComments text.toList), ∀ occurrence,
      Occurrence.declared? form = some occurrence → occurrence.text ∈ sources.globals := by
  intro form hform occurrence hdeclared
  rw [globals, List.mem_eraseDups, List.mem_flatMap]
  exact ⟨_, Table.mem_of_get? h, List.mem_filterMap.2 ⟨form, hform, by rw [hdeclared]; rfl⟩⟩

/-- And a global is declared in some source. -/
theorem exists_of_mem_globals {name : String} (h : name ∈ sources.globals) :
    ∃ source text, sources.get? source = some text ∧
      ∃ form ∈ SatScript.forms (Text.blankedComments text.toList), ∃ occurrence,
        Occurrence.declared? form = some occurrence ∧ occurrence.text = name := by
  rw [globals, List.mem_eraseDups, List.mem_flatMap] at h
  obtain ⟨⟨source, text⟩, hentry, hname⟩ := h
  obtain ⟨form, hform, hdeclared⟩ := List.mem_filterMap.1 hname
  obtain ⟨occurrence, hoccurrence, htext⟩ := Option.map_eq_some_iff.1 hdeclared
  exact ⟨source, text, Table.get?_of_mem hentry, form, hform, occurrence, hoccurrence, htext⟩

/-- **What a name of a source resolves to is bound**: a global is declared in
some source, a local at an atom of this source. -/
theorem boundIn_occurrences (h : sources.get? source = some text)
    {occurrences : List Occurrence} (hoccurrences : sources.occurrences source = .ok occurrences) :
    ∀ occurrence ∈ occurrences, ∀ target, occurrence.target = some target →
      target.BoundIn source sources.globals
        (Form.leavesAll (SatScript.forms (Text.blankedComments text.toList))) occurrence.text := by
  rw [occurrences_eq h] at hoccurrences
  cases hoccurrences
  exact Occurrence.boundIn_inCommands (mem_globals h)

end Sources

namespace Renaming

/-- The steps of a renaming that succeeds. -/
structure Made (sources : Sources) (source : String) (offset : Int) (newName : String)
    (outcome : Renaming) : Prop where
  valid : isValidName newName = true
  found : sources.targetAt source offset = .ok (some outcome.target)
  fresh : ∀ name, outcome.target = .global name → newName ≠ name → newName ∉ sources.globals
  changed : ∃ references, sources.references outcome.target = .ok references ∧
    outcome.changes = changesOf newName references
  applied : edited sources outcome.changes = .ok outcome.sources
  checked : check sources outcome.sources outcome.target newName outcome.changes sources.keys =
    .ok ()

end Renaming

open Renaming in
/-- **A renaming that succeeds has made every step.** -/
theorem made_of_rename {sources : Sources} {source newName : String} {offset : Int}
    {outcome : Renaming} (h : sources.rename source offset newName = .ok outcome) :
    Made sources source offset newName outcome := by
  unfold Sources.rename at h
  cases hvalid : isValidName newName with
  | false =>
    rw [hvalid] at h
    cases h
  | true =>
    rw [hvalid] at h
    simp only [Bool.not_true, Bool.false_eq_true, if_false] at h
    obtain ⟨found, hfound, h⟩ := bind_eq_ok_iff.1 h
    cases found with
    | none => cases h
    | some target =>
      -- what remains once the name is known to be fresh
      have hrest : (do
            let changes := changesOf newName (← sources.references target)
            let after ← edited sources changes
            check sources after target newName changes sources.keys
            return { target, changes, sources := after }) = Except.ok outcome →
          outcome.target = target ∧
          (∃ references, sources.references outcome.target = .ok references ∧
            outcome.changes = changesOf newName references) ∧
          edited sources outcome.changes = .ok outcome.sources ∧
          check sources outcome.sources outcome.target newName outcome.changes sources.keys =
            .ok () := by
        intro h
        obtain ⟨references, hreferences, h⟩ := bind_eq_ok_iff.1 h
        obtain ⟨after, hafter, h⟩ := bind_eq_ok_iff.1 h
        obtain ⟨⟨⟩, hcheck, h⟩ := bind_eq_ok_iff.1 h
        cases h
        exact ⟨rfl, ⟨references, hreferences, rfl⟩, hafter, hcheck⟩
      cases target with
      | global name =>
        by_cases hclash : newName ≠ name ∧ newName ∈ sources.globals
        · simp only [if_pos hclash] at h
          cases h
        · simp only [if_neg hclash] at h
          obtain ⟨htarget, hchanged, happlied, hchecked⟩ := hrest h
          refine ⟨hvalid, by rw [htarget]; exact hfound, ?_, hchanged, happlied, hchecked⟩
          intro other hother hne hmem
          rw [htarget] at hother
          cases hother
          exact hclash ⟨hne, hmem⟩
      | «local» name home start =>
        obtain ⟨htarget, hchanged, happlied, hchecked⟩ := hrest h
        refine ⟨hvalid, by rw [htarget]; exact hfound, ?_, hchanged, happlied, hchecked⟩
        intro other hother
        rw [htarget] at hother
        cases hother

open Renaming in
/-- **And where every step is made, the renaming succeeds.** -/
theorem rename_of_made {sources : Sources} {source newName : String} {offset : Int}
    {outcome : Renaming} (h : Made sources source offset newName outcome) :
    sources.rename source offset newName = .ok outcome := by
  obtain ⟨target, changes, after⟩ := outcome
  obtain ⟨hvalid, hfound, hfresh, ⟨references, hreferences, rfl⟩, happlied, hchecked⟩ := h
  have hrest : (do
        let changes := changesOf newName (← sources.references target)
        let after ← edited sources changes
        check sources after target newName changes sources.keys
        return { target, changes, sources := after }) =
      (.ok { target, changes := changesOf newName references, sources := after } :
        Except RenameFault Renaming) :=
    bind_eq_ok_iff.2 ⟨references, hreferences, bind_eq_ok_iff.2 ⟨after, happlied,
      bind_eq_ok_iff.2 ⟨(), hchecked, rfl⟩⟩⟩
  rw [Sources.rename, hvalid]
  refine bind_eq_ok_iff.2 ⟨some target, hfound, ?_⟩
  cases target with
  | global name =>
    have hclash : ¬ (newName ≠ name ∧ newName ∈ sources.globals) := fun hclash =>
      hfresh name rfl hclash.1 hclash.2
    simp only [if_neg hclash]
    exact hrest
  | «local» name home start => exact hrest

namespace Renaming

variable {sources after : Sources} {source newName : String} {target : Target}
variable {changes : Table (List Edit)} {edits : List Edit}

/-! ## Edits -/

/-- The edits that rename the target in a source: one for each name that refers
to it. -/
def editsIn (sources : Sources) (target : Target) (newName source : String) : List Edit :=
  match sources.occurrences source with
  | .ok occurrences => (occurrences.filter (Sources.refersTo target)).map (editOf newName)
  | .error _ => []

theorem editsIn_eq {occurrences : List Occurrence}
    (h : sources.occurrences source = .ok occurrences) :
    editsIn sources target newName source =
      (occurrences.filter (Sources.refersTo target)).map (editOf newName) := by
  rw [editsIn, h]

/-- **The changes that references make are one edit for each reference, source by
source**; a source without references has no entry. -/
theorem entries_changesOf {references : List (String × List Occurrence)}
    (hnodup : (references.map Prod.fst).Nodup) :
    (changesOf newName references).entries =
      (references.filter fun entry => !entry.2.isEmpty).map fun entry =>
        (entry.1, entry.2.map (editOf newName)) := by
  have hlist : changesOf newName references = Table.ofList
      ((references.filter fun entry => !entry.2.isEmpty).map fun entry =>
        (entry.1, entry.2.map (editOf newName))) := by
    refine congrArg Table.ofList ?_
    clear hnodup
    induction references with
    | nil => rfl
    | cons entry references ih =>
      obtain ⟨key, occurrences⟩ := entry
      cases occurrences with
      | nil => exact ih
      | cons occurrence occurrences =>
        rw [List.filterMap_cons, List.filter_cons, ih]
        rfl
  -- a source is not listed twice, so its entry is the one in the list
  have hkeys : (((references.filter fun entry => !entry.2.isEmpty).map fun entry =>
      (entry.1, entry.2.map (editOf newName))).map Prod.fst).Nodup := by
    rw [List.map_map]
    exact hnodup.sublist (List.filter_sublist.map Prod.fst)
  rw [hlist, Table.entries_ofList hkeys]

/-- The changes that references make have an entry for each source that has
references. -/
theorem mem_changesOf {references : List (String × List Occurrence)}
    (hnodup : (references.map Prod.fst).Nodup) :
    (source, edits) ∈ (changesOf newName references).entries ↔
      ∃ occurrences, (source, occurrences) ∈ references ∧ occurrences ≠ [] ∧
        edits = occurrences.map (editOf newName) := by
  rw [entries_changesOf hnodup, List.mem_map]
  constructor
  · rintro ⟨⟨source', occurrences⟩, hmem, heq⟩
    obtain ⟨hmem, hne⟩ := List.mem_filter.1 hmem
    cases heq
    exact ⟨occurrences, hmem, by simpa using hne, rfl⟩
  · rintro ⟨occurrences, hmem, hne, rfl⟩
    exact ⟨_, List.mem_filter.2 ⟨hmem, by simpa using hne⟩, rfl⟩

/-- References are looked for in sources of different names. -/
theorem nodup_visibleIn (sources : Sources) (target : Target) :
    (sources.visibleIn target).Nodup := by
  cases target with
  | global name => exact sources.nodup
  | «local» name home start => exact by simp [Sources.visibleIn]

/-- **A target is referred to only in sources in which it is looked for**: a local is
bound in its own source. -/
theorem mem_visibleIn {text : String} (hget : sources.get? source = some text)
    {occurrence : Occurrence} (hmem : occurrence ∈ Occurrence.inCommands source sources.globals
      (forms (Text.blankedComments text.toList)))
    (hrefers : Sources.refersTo target occurrence = true) :
    source ∈ sources.visibleIn target := by
  cases target with
  | global name => exact Table.mem_keys_iff.2 ⟨text, hget⟩
  | «local» name home start =>
    rw [Sources.refersTo] at hrefers
    cases hfound : occurrence.target with
    | none => simp [hfound] at hrefers
    | some found =>
      have hbound := Sources.boundIn_occurrences hget (Sources.occurrences_eq hget) occurrence hmem
        found hfound
      rw [hfound] at hrefers
      cases found with
      | global other => cases hrefers
      | «local» other home' start' =>
        simp only [Target.same, Bool.and_eq_true, beq_iff_eq] at hrefers
        rw [Sources.visibleIn, ← hrefers.1, hbound.2.1]
        exact List.mem_cons_self

/-- So in other sources nothing is edited. -/
theorem editsIn_eq_nil {text : String} (hget : sources.get? source = some text)
    (h : source ∉ sources.visibleIn target) : editsIn sources target newName source = [] := by
  rw [editsIn_eq (Sources.occurrences_eq hget), List.map_eq_nil_iff, List.filter_eq_nil_iff]
  exact fun occurrence hmem hrefers => h (mem_visibleIn hget hmem hrefers)

/-- A target that is looked for in sources that there are has references. -/
theorem exists_references (h : ∀ source ∈ sources.visibleIn target, source ∈ sources.keys) :
    ∃ references, sources.references target = .ok references := by
  refine exists_mapM_eq_ok fun source hvisible => ?_
  obtain ⟨text, hget⟩ := Table.mem_keys_iff.1 (h source hvisible)
  exact ⟨_, by rw [Sources.occurrences_eq hget]; rfl⟩

/-- References are named after the sources they were looked for in. -/
theorem keys_references {references : List (String × List Occurrence)}
    (h : sources.references target = .ok references) :
    references.map Prod.fst = sources.visibleIn target := by
  rw [← List.map_id (sources.visibleIn target)]
  refine map_eq_of_forall₂ (fun name entry h => ?_) (forall₂_of_mapM_eq_ok h)
  obtain ⟨occurrences, -, h⟩ := bind_eq_ok_iff.1 h
  rw [← pure_eq_ok_iff.1 h, id_eq]

theorem nodup_references {references : List (String × List Occurrence)}
    (h : sources.references target = .ok references) : (references.map Prod.fst).Nodup :=
  keys_references h ▸ nodup_visibleIn sources target

/-- **The changes of a renaming are, for each source, the edits that rename the
target in it.** -/
theorem getD_changes {references : List (String × List Occurrence)}
    (hreferences : sources.references target = .ok references) (hkey : source ∈ sources.keys) :
    ((changesOf newName references).get? source).getD [] =
      editsIn sources target newName source := by
  obtain ⟨text, hget⟩ := Table.mem_keys_iff.1 hkey
  have hoccurrences := Sources.occurrences_eq hget
  have hlists := forall₂_of_mapM_eq_ok hreferences
  have hkeys := keys_references hreferences
  have hnodup := nodup_references hreferences
  have hfound : ∀ found, (source, found) ∈ references →
      found.map (editOf newName) = editsIn sources target newName source := by
    intro found hmem
    obtain ⟨name, -, h⟩ := exists_of_mem_right hlists hmem
    obtain ⟨occurrences, hname, h⟩ := bind_eq_ok_iff.1 h
    cases pure_eq_ok_iff.1 h
    rw [editsIn_eq hname]
  -- a source has an entry, or it was looked at in vain, or it was not looked at
  cases hchange : (changesOf newName references).get? source with
  | some edits =>
    obtain ⟨found, hmem, -, rfl⟩ := (mem_changesOf hnodup).1 (Table.mem_of_get? hchange)
    exact hfound found hmem
  | none =>
    by_cases hvisible : source ∈ sources.visibleIn target
    · rw [← hkeys] at hvisible
      obtain ⟨⟨_, found⟩, hmem, rfl⟩ := List.mem_map.1 hvisible
      rw [← hfound found hmem]
      cases found with
      | nil => rfl
      | cons occurrence found =>
        rw [Table.get?_of_mem ((mem_changesOf hnodup).2 ⟨_, hmem, List.cons_ne_nil _ _, rfl⟩)]
          at hchange
        cases hchange
    · rw [editsIn_eq_nil hget hvisible]
      rfl

/-! ## Texts -/

/-- Applying no edits changes nothing. -/
theorem applyAll_nil (text : String) : Edit.applyAll text [] = .ok text := by
  rw [Edit.applyAll, Edit.sorted, List.mergeSort_nil, Edit.checkFrom]
  simp [Edit.spliceAll, Text.decode_encode, String.ofList_toList]

/-- **Each text has its edits applied**, and no source comes or goes. -/
theorem get?_edited (h : edited sources changes = .ok after) :
    after.keys = sources.keys ∧ ∀ source text, sources.get? source = some text →
      ∃ text', after.get? source = some text' ∧
        Edit.applyAll text ((changes.get? source).getD []) = .ok text' := by
  rw [edited] at h
  obtain ⟨entries, hentries, hafter⟩ := bind_eq_ok_iff.1 h
  cases pure_eq_ok_iff.1 hafter
  -- entry by entry, a source without edits is as one with no edits
  have hlists := (forall₂_of_mapM_eq_ok hentries).imp fun entry entry' hedit =>
    show entry'.1 = entry.1 ∧
        Edit.applyAll entry.2 ((changes.get? entry.1).getD []) = .ok entry'.2 by
      obtain ⟨name, text⟩ := entry
      simp only at hedit
      split at hedit
      · rename_i hnone
        cases hedit
        exact ⟨rfl, by rw [hnone]; exact applyAll_nil text⟩
      · rename_i edits hsome
        split at hedit
        · rename_i text' happlied
          cases hedit
          exact ⟨rfl, by rw [hsome]; exact happlied⟩
        · cases hedit
  have hkeys : entries.map Prod.fst = sources.keys :=
    map_eq_of_forall₂ (fun _ _ hrelated => hrelated.1) hlists
  have hof : (Table.ofList entries).entries = entries :=
    Table.entries_ofList (by rw [hkeys]; exact sources.nodup)
  refine ⟨by rw [Table.keys, hof, hkeys], fun source text hget => ?_⟩
  obtain ⟨⟨name, text'⟩, hmem, hname, happlied⟩ :=
    exists_of_mem_left hlists (Table.mem_of_get? hget)
  cases hname
  exact ⟨text', Table.get?_of_mem (by rw [hof]; exact hmem), happlied⟩

/-- Sources of the same names whose texts have their edits applied are the edited
ones. -/
theorem edited_eq_ok (hkeys : after.keys = sources.keys)
    (htexts : ∀ source text, sources.get? source = some text →
      ∃ text', after.get? source = some text' ∧
        Edit.applyAll text ((changes.get? source).getD []) = .ok text') :
    edited sources changes = .ok after := by
  rw [edited]
  refine bind_eq_ok_iff.2 ⟨after.entries, mapM_eq_ok_of_forall₂ ?_,
    congrArg Except.ok after.ofList_entries⟩
  have hkeys' : after.entries.map Prod.fst = sources.entries.map Prod.fst := hkeys
  have hlength : sources.entries.length = after.entries.length := by
    simpa using congrArg List.length hkeys'.symm
  refine List.forall₂_iff_get.2 ⟨hlength, fun i hi hi' => ?_⟩
  -- the entries stand in the same places, under the same names
  have hname : (after.entries.get ⟨i, hi'⟩).1 = (sources.entries.get ⟨i, hi⟩).1 := by
    have hkey := congrArg (·[i]?) hkeys'
    simpa [List.getElem?_eq_getElem hi, List.getElem?_eq_getElem hi'] using hkey
  have hmem := List.get_mem sources.entries ⟨i, hi⟩
  have hmem' := List.get_mem after.entries ⟨i, hi'⟩
  generalize sources.entries.get ⟨i, hi⟩ = entry at hname hmem
  generalize after.entries.get ⟨i, hi'⟩ = entry' at hname hmem'
  obtain ⟨source, text⟩ := entry
  obtain ⟨_, found⟩ := entry'
  cases hname
  obtain ⟨text', hget', happlied⟩ := htexts source text (Table.get?_of_mem hmem)
  rw [Table.get?_of_mem hmem'] at hget'
  cases hget'
  cases hchange : changes.get? source with
  | none =>
    rw [hchange] at happlied
    cases (applyAll_nil text).symm.trans happlied
    simp only [hchange]
  | some edits =>
    rw [hchange, Option.getD_some] at happlied
    simp only [hchange, happlied]

/-! ## Names -/

/-- A name agrees with what it has to resolve to just if it resolves to it. -/
theorem agrees_iff {expected actual : Option Target} :
    agrees expected actual = true ↔ actual = expected := by
  cases expected with
  | none => cases actual <;> simp [agrees]
  | some e =>
    cases actual with
    | none => simp [agrees]
    | some a => cases e <;> cases a <;> simp [agrees, Target.same, Target.name] <;> grind

/-- A name resolves after the renaming to the image of what it resolved to
before. -/
def Kept (target : Target) (newName : String) (edits : List Edit) (old now : Occurrence) : Prop :=
  now.target = old.target.map (image target newName edits)

/-- Nothing is captured just if each name is kept by the name in its place; a
name that resolved to nothing may have none in its place. -/
theorem kept_of_firstCaptured {olds nows : List Occurrence}
    (h : firstCaptured target newName edits olds nows = none) :
    ∀ (i : Nat) (old : Occurrence), olds[i]? = some old →
      nows[i]?.bind (·.target) = old.target.map (image target newName edits) := by
  induction olds generalizing nows with
  | nil => intro i old hold; cases hold
  | cons first olds ih =>
    rw [firstCaptured] at h
    split at h
    · rename_i hagrees
      rw [agrees_iff] at hagrees
      intro i old hold
      cases i with
      | zero =>
        cases hold
        rw [← hagrees, List.head?_eq_getElem?]
      | succ i =>
        have hmore := ih h i old hold
        rwa [List.getElem?_tail] at hmore
    · cases h

/-- Where no name comes or goes, every name is kept. -/
theorem forall₂_kept {olds nows : List Occurrence}
    (h : firstCaptured target newName edits olds nows = none)
    (hlength : olds.length = nows.length) :
    List.Forall₂ (Kept target newName edits) olds nows := by
  refine List.forall₂_iff_get.2 ⟨hlength, fun i hold hnow => ?_⟩
  have hkept := kept_of_firstCaptured h i _ (List.getElem?_eq_getElem hold)
  rw [List.getElem?_eq_getElem hnow] at hkept
  exact hkept

/-- Where every name is kept, none is captured. -/
theorem firstCaptured_eq_none {olds nows : List Occurrence}
    (h : List.Forall₂ (Kept target newName edits) olds nows) :
    firstCaptured target newName edits olds nows = none := by
  induction h with
  | nil => rfl
  | cons hkept _ ih =>
    rw [firstCaptured, List.head?_cons, Option.bind_some, if_pos (agrees_iff.2 hkept),
      List.tail_cons, ih]

/-- The check passes each source. -/
theorem exists_of_check {before : Sources} {names : List String}
    (h : check before after target newName changes names = .ok ()) :
    ∀ source ∈ names, ∃ olds nows, before.occurrences source = .ok olds ∧
      after.occurrences source = .ok nows ∧
      firstCaptured target newName ((changes.get? source).getD []) olds nows = none := by
  induction names with
  | nil => intro source hmem; cases hmem
  | cons name names ih =>
    rw [check] at h
    obtain ⟨olds, holds, h⟩ := bind_eq_ok_iff.1 h
    obtain ⟨nows, hnows, h⟩ := bind_eq_ok_iff.1 h
    split at h
    · cases h
    · rename_i hnone
      intro source hmem
      rcases List.mem_cons.1 hmem with rfl | hmem
      · exact ⟨olds, nows, holds, hnows, hnone⟩
      · exact ih h source hmem

/-- Each source passed, the check does. -/
theorem check_eq_ok {before : Sources} {names : List String}
    (h : ∀ source ∈ names, ∃ olds nows, before.occurrences source = .ok olds ∧
      after.occurrences source = .ok nows ∧
      firstCaptured target newName ((changes.get? source).getD []) olds nows = none) :
    check before after target newName changes names = .ok () := by
  induction names with
  | nil => rfl
  | cons name names ih =>
    obtain ⟨olds, nows, holds, hnows, hnone⟩ := h name List.mem_cons_self
    rw [check]
    refine bind_eq_ok_iff.2 ⟨olds, holds, bind_eq_ok_iff.2 ⟨nows, hnows, ?_⟩⟩
    rw [hnone]
    exact ih fun source hmem => h source (List.mem_cons_of_mem _ hmem)

/-! ## What has been done -/

/-- What a renaming that succeeds does to a source with this text: the text has
the edits applied, and no name is captured. -/
structure Done (sources : Sources) (newName : String) (outcome : Renaming)
    (source text : String) : Prop where
  before : sources.get? source = some text
  edits : (outcome.changes.get? source).getD [] =
    editsIn sources outcome.target newName source
  after : ∃ text', outcome.sources.get? source = some text' ∧
    Edit.applyAll text (editsIn sources outcome.target newName source) = .ok text' ∧
    ∃ olds nows, sources.occurrences source = .ok olds ∧
      outcome.sources.occurrences source = .ok nows ∧
      firstCaptured outcome.target newName (editsIn sources outcome.target newName source) olds
        nows = none

variable {home : String} {offset : Int} {outcome : Renaming}

/-- **A renaming that succeeds has done its work in every source.** -/
theorem Made.done (h : Made sources home offset newName outcome) {text : String}
    (hget : sources.get? source = some text) : Done sources newName outcome source text := by
  have hkey : source ∈ sources.keys := Table.mem_keys_iff.2 ⟨text, hget⟩
  obtain ⟨references, hreferences, hchanges⟩ := h.changed
  have hedits := @getD_changes _ source newName _ _ hreferences hkey
  rw [← hchanges] at hedits
  obtain ⟨text', hget', happlied⟩ := (get?_edited h.applied).2 source text hget
  obtain ⟨olds, nows, holds, hnows, hnone⟩ := exists_of_check h.checked source hkey
  rw [hedits] at happlied hnone
  exact ⟨hget, hedits, text', hget', happlied, olds, nows, holds, hnows, hnone⟩

/-- No source comes or goes. -/
theorem Made.keys_eq (h : Made sources home offset newName outcome) :
    outcome.sources.keys = sources.keys := (get?_edited h.applied).1

end Renaming

end SatScript
