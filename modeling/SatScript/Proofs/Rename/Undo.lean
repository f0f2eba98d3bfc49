import SatScript.Proofs.Rename.Places
import SatScript.Proofs.Rename.Replacement
/-!
# SatScript — a renaming taken back

What a renaming has renamed can be given the old name again, from any place
that was edited. That the second renaming succeeds, edits the places where
the new name stands now and restores every source (`Undoes`) holds if and
only if the new name is separate from what follows the references
(`rename_undoes_iff`), as long as the old name may be given and stood in
the text as it is. `Mirror` says how each name of a source goes over into
the one in its place, and how its offsets come back; that a renaming and
its reverse cancel out is derived from it name by name.
-/

namespace SatScript

/-- A text that is not empty measures something. -/
theorem Text.units_pos {text : String} (h : text ≠ "") : 0 < units text.toList := by
  cases htext : text.toList with
  | nil => exact absurd (String.toList_eq_nil_iff.1 htext) h
  | cons c cs =>
    have hpos := width_pos c
    rw [units_cons]
    omega

/-! ## Where names stand -/

namespace Occurrence

variable {source : String} {globals : List String} {occurrence : Occurrence}

variable {pieces : List Piece} {gap : List Char}

/-- A local is bound between parts of the text. -/
theorem isCut_of_local (mark : Nat → Bool)
    (hdeclared : ∀ form ∈ Piece.forms false 0 gap pieces, ∀ occurrence,
      declared? form = some occurrence → occurrence.text ∈ globals)
    (h : occurrence ∈ inCommands source globals (Piece.forms false 0 gap pieces))
    {name home : String} {offset : Int}
    (htarget : occurrence.target = some (.local name home offset)) :
    home = source ∧ ∃ cut : Nat, offset = cut ∧ Part.IsCut cut (Piece.parts mark 0 pieces) := by
  obtain ⟨items, start, stop, hform, hmem⟩ := exists_list_of_mem h
  obtain ⟨-, hhome, leaf, hleaf, -, hoffset⟩ := boundIn_inCommand (fun _ hleaf => hleaf)
    (hdeclared _ hform) occurrence hmem _ htarget
  exact ⟨hhome, leaf.start, hoffset,
    (Piece.isPart_of_mem_leaves items start stop hform leaf hleaf).isCut.1⟩

end Occurrence

namespace Renaming

/-! ## Names there and back -/

/-- The edits of a renaming in a source. -/
def editsOf (outcome : Renaming) (source : String) : List Edit :=
  (outcome.changes.get? source).getD []

/-- The edits that take back what a renaming has done in a source. -/
def backEdits (outcome : Renaming) (source : String) : List Edit :=
  (outcome.editsOf source).map (back (outcome.editsOf source) outcome.target.name)

/-- What the target of a renaming has become. -/
def renamed (outcome : Renaming) (newName : String) : Target :=
  match outcome.target with
  | .global _ => .global newName
  | .local _ source offset => .local newName source (shift (outcome.editsOf source) offset)

/-- What a name of a source resolves to comes back: it is a global, or a local of this
source whose binder comes back. -/
def ComesBack (sources : Sources) (outcome : Renaming) (source : String) : Target → Prop
  | .global name => name ∈ sources.globals
  | .local _ home offset =>
    home = source ∧ Returns (outcome.editsOf source) outcome.target.name offset

/-- A name of a source and the name in its place after a renaming. -/
structure Mirror (sources : Sources) (newName : String) (outcome : Renaming) (source : String)
    (old now : Occurrence) : Prop where
  kept : Kept outcome.target newName (outcome.editsOf source) old now
  start_eq : (now.start : Int) = shift (outcome.editsOf source) old.start
  stop_eq : (now.stop : Int) = shift (outcome.editsOf source) old.stop
  comesBack : ∀ target, old.target = some target → ComesBack sources outcome source target
  name_eq : ∀ target, old.target = some target → target.same outcome.target = true →
    target.name = outcome.target.name

/-- A source and what a renaming has made of it: its names have become the names after
it, and the reverse edits restore its text. -/
structure Mirrored (sources : Sources) (newName : String) (outcome : Renaming)
    (source text text' : String) (olds nows : List Occurrence) : Prop where
  before : sources.get? source = some text
  after : outcome.sources.get? source = some text'
  olds_eq : sources.occurrences source = .ok olds
  nows_eq : outcome.sources.occurrences source = .ok nows
  edits_eq : outcome.editsOf source = editsIn sources outcome.target newName source
  restored : Edit.applyAll text' (outcome.backEdits source) = .ok text
  names : List.Forall₂ (Mirror sources newName outcome source) olds nows

variable {sources : Sources} {home source newName text : String} {offset : Int}
variable {outcome : Renaming}

/-- The old name stands in the text of a source as it is, wherever that is edited. -/
def Verbatim (outcome : Renaming) (source text : String) : Prop :=
  ∀ edit ∈ outcome.editsOf source,
    String.ofList (Text.slice edit.start.toNat edit.stop.toNat text.toList) = outcome.target.name

/-- A source comes apart at the atoms that are edited: what is changed measures what the
old name does, and the reverse edits restore the text. -/
theorem exists_marks (h : Made sources home offset newName outcome)
    (hget : sources.get? source = some text) (hverbatim : outcome.Verbatim source text)
    {pieces : List Piece} {gap : List Char}
    (htext : Text.blankedComments text.toList = Piece.charsAll pieces ++ gap)
    (hlaid : Piece.Laid pieces gap) :
    ∃ mark text', outcome.sources.get? source = some text' ∧
      Edit.applyAll text' (outcome.backEdits source) = .ok text ∧
      outcome.editsOf source = Part.edits newName 0 (Piece.parts mark 0 pieces) ∧
      Text.blankedComments text'.toList =
        Piece.charsAll (Piece.replace mark newName.toList 0 pieces) ++ gap ∧
      Part.Measures outcome.target.name.toList (Piece.parts mark 0 pieces) := by
  obtain ⟨-, hedits, text', hget', happlied, -⟩ := h.done hget
  obtain ⟨home', occurrence, hfound⟩ := exists_found h.found
  have hparts := @edits_parts_eq _ _ _ _ _ _ newName hfound _ hget _
    (Sources.occurrences_eq hget) _ _ htext hlaid
  generalize markOf outcome.target (Occurrence.inCommands source sources.globals
    (forms (Text.blankedComments text.toList))) = mark at hparts
  obtain ⟨raw, hraw, hrawEdits, hblanked⟩ :=
    exists_parts (semicolon_not_mem_newName h) htext hlaid mark
  have heditsOf : outcome.editsOf source = Part.edits newName 0 raw :=
    hedits.trans (hparts.symm.trans hrawEdits.symm)
  -- what was changed in the text is the old name
  have hchanged : ∀ old, .changed old ∈ raw → old = outcome.target.name.toList := by
    refine @Part.changed_eq_of_slices _ newName _ fun edit hedit => ?_
    rw [← hverbatim edit (heditsOf ▸ hedit), String.toList_ofList, hraw]
  have hold := Text.units_pos hfound.name_ne
  have happly := Part.applyAll_edits newName raw
  rw [← hraw, String.ofList_toList, hrawEdits, hparts, happlied] at happly
  cases happly
  refine ⟨mark, _, hget', ?_, heditsOf.trans hrawEdits, by rwa [String.toList_ofList], ?_⟩
  · have hback := @Part.applyAll_back newName _ _ hchanged hold
    rw [backEdits, heditsOf, hback, ← hraw, String.ofList_toList]
  · exact Part.measures_of_edits_eq hrawEdits fun old hmem => by rw [hchanged old hmem]

/-- **A name that is kept, and moved as the edits move it, is mirrored**: it stands
between parts of the text, and so does the binder that it resolves to. -/
theorem mirror_of_relabelled (h : Made sources home offset newName outcome)
    (hget : sources.get? source = some text) {pieces : List Piece} {gap : List Char}
    (htext : Text.blankedComments text.toList = Piece.charsAll pieces ++ gap)
    (hlaid : Piece.Laid pieces gap) {mark marked : Nat → Bool}
    (hreturns : ∀ cut : Nat, Part.IsCut cut (Piece.parts mark 0 pieces) →
      Returns (outcome.editsOf source) outcome.target.name cut) {old now : Occurrence}
    (hmem : old ∈ Occurrence.inCommands source sources.globals
      (forms (Text.blankedComments text.toList)))
    (hkept : Kept outcome.target newName (outcome.editsOf source) old now)
    (hrelabelled : Occurrence.Relabelled marked newName
      (Form.shifted (outcome.editsOf source)) old now) :
    Mirror sources newName outcome source old now := by
  obtain ⟨home', occurrence, hfound⟩ := exists_found h.found
  have hbound := Sources.boundIn_occurrences hget (Sources.occurrences_eq hget) old hmem
  have hnamed := hfound.namedAlike hget
  have hdeclared := Sources.mem_globals hget
  rw [htext, forms_pieces hlaid] at hmem hdeclared
  obtain ⟨hstart, hstop⟩ := (Occurrence.isPart_of_mem mark hmem).isCut
  refine ⟨hkept, ?start, ?stop, fun target htarget => ?comesBack,
    fun target htarget hsame => ?name⟩
  case start =>
    rw [hrelabelled.start_eq]
    exact (hreturns _ hstart).shifted_eq
  case stop =>
    rw [hrelabelled.stop_eq]
    exact (hreturns _ hstop).shifted_eq
  case comesBack =>
    cases target with
    | global name => exact (hbound _ htarget).2
    | «local» name home' start =>
      obtain ⟨hhome, cut, rfl, hcut⟩ := Occurrence.isCut_of_local mark hdeclared hmem htarget
      exact ⟨hhome, hreturns cut hcut⟩
  case name =>
    have hname := hbound _ htarget
    rw [hname.name_eq, hnamed _ target hname hsame]

/-- **Where the new name is separate from what follows the references, a source is
mirrored.** -/
theorem exists_mirrored (h : Made sources home offset newName outcome)
    (hget : sources.get? source = some text) (hverbatim : outcome.Verbatim source text)
    (hseparated : Separated newName (Text.blankedComments text.toList) (outcome.editsOf source)) :
    ∃ text' olds nows, Mirrored sources newName outcome source text text' olds nows := by
  obtain ⟨home', occurrence, hfound⟩ := exists_found h.found
  obtain ⟨pieces, gap, htext, hlaid⟩ := exists_pieces (Text.blankedComments text.toList)
  obtain ⟨mark, text', hget', hrestored, hparts, -, hmeasures⟩ :=
    exists_marks h hget hverbatim htext hlaid
  have hreturns : ∀ cut : Nat, Part.IsCut cut (Piece.parts mark 0 pieces) →
      Returns (outcome.editsOf source) outcome.target.name cut := by
    intro cut hcut
    rw [hparts]
    exact Part.returns_of_isCut hcut hmeasures (Text.units_pos hfound.name_ne)
      (Text.units_pos (isAtomText_of_isValidName h.valid).2.1)
  have hedits : outcome.editsOf source = editsIn sources outcome.target newName source :=
    (h.done hget).edits
  have hforms := (forms_eq_iff h hget).2 (hedits ▸ hseparated)
  obtain ⟨olds, nows, holds, hnows, hkept⟩ := forall₂_kept_of_forms_eq h hget hforms
  obtain ⟨olds', nows', holds', hnows', hnames⟩ := forall₂_relabelled_of_forms_eq h hget hforms
  cases holds.symm.trans holds'
  cases hnows.symm.trans hnows'
  refine ⟨text', olds, nows, hget, hget', holds, hnows, hedits, hrestored, ?_⟩
  rw [Sources.occurrences_eq hget] at holds
  cases holds
  rw [← hedits] at hkept hnames
  exact List.forall₂_iff_get.2 ⟨hkept.length_eq, fun i hi hi' =>
    mirror_of_relabelled h hget htext hlaid hreturns (List.get_mem _ _)
      ((List.forall₂_iff_get.1 hkept).2 i hi hi') ((List.forall₂_iff_get.1 hnames).2 i hi hi')⟩

/-! ## What names resolve to, there and back -/

variable {target : Target}

/-- **What a name resolves to is the renamed target after the renaming just if it was
the target before**: the new name is that of no other global, and binders come to lie
apart. -/
theorem same_renamed (h : Made sources home offset newName outcome)
    (hself : ComesBack sources outcome home outcome.target)
    (hback : ComesBack sources outcome source target) :
    (image outcome.target newName (outcome.editsOf source) target).same (outcome.renamed newName) =
      target.same outcome.target := by
  cases hrenamed : outcome.target with
  | global name =>
    cases target with
    | global other =>
      by_cases heq : other = name
      · simp [renamed, hrenamed, image, Target.same, heq]
      · have hne : other ≠ newName := by
          rintro rfl
          exact h.fresh name hrenamed heq hback
        simp [renamed, hrenamed, image, Target.same, Target.name, heq, hne]
    | «local» other home' start => simp [renamed, hrenamed, image, Target.same]
  | «local» name home' start =>
    cases target with
    | global other => simp [renamed, hrenamed, image, Target.same]
    | «local» other home'' start' =>
      rw [hrenamed] at hself
      obtain ⟨rfl, hreturns⟩ := hself
      obtain ⟨rfl, hreturns'⟩ := hback
      simp only [renamed, hrenamed, image, Target.same]
      by_cases hhome : home'' = home'
      · subst hhome
        have hiff : shift (outcome.editsOf home'') start' = shift (outcome.editsOf home'') start ↔
            start' = start := ⟨hreturns'.eq_of_shift_eq hreturns, congrArg _⟩
        rw [Bool.eq_iff_iff, Bool.and_eq_true, Bool.and_eq_true, beq_iff_eq, beq_iff_eq,
          beq_iff_eq, hiff]
      · rw [beq_false_of_ne hhome, Bool.false_and, Bool.false_and]

/-- **A renaming and its reverse leave what a name resolves to as it was.** -/
theorem image_back (h : Made sources home offset newName outcome)
    (hself : ComesBack sources outcome home outcome.target)
    (hback : ComesBack sources outcome source target)
    (hname : target.same outcome.target = true → target.name = outcome.target.name) :
    image (outcome.renamed newName) outcome.target.name (outcome.backEdits source)
      (image outcome.target newName (outcome.editsOf source) target) = target := by
  have hsame := same_renamed h hself hback
  have hold : (if target.same outcome.target then outcome.target.name
      else (image outcome.target newName (outcome.editsOf source) target).name) = target.name := by
    split
    · rename_i hrefers
      exact (hname hrefers).symm
    · rename_i hother
      cases target <;> simp [image, Target.name, hother]
  rw [← hsame] at hold
  cases target with
  | global name => exact congrArg Target.global hold
  | «local» name home' start =>
    obtain ⟨rfl, hreturns⟩ := hback
    show Target.local _ home' (shift (outcome.backEdits home')
      (shift (outcome.editsOf home') start)) = .local name home' start
    rw [backEdits, hreturns.shift_back]
    exact congrArg (Target.local · home' start) hold

variable {old now : Occurrence}

/-- **A name is kept by the reverse of a renaming**, as it was kept by the renaming. -/
theorem Mirror.kept_back (h : Made sources home offset newName outcome)
    (hself : ComesBack sources outcome home outcome.target)
    (hmirror : Mirror sources newName outcome source old now) :
    Kept (outcome.renamed newName) outcome.target.name (outcome.backEdits source) now old := by
  rw [Kept, hmirror.kept]
  cases htarget : old.target with
  | none => rfl
  | some target =>
    rw [Option.map_some, Option.map_some, image_back h hself (hmirror.comesBack target htarget)
      (hmirror.name_eq target htarget)]

/-- A name refers to the renamed target just if it referred to the target. -/
theorem Mirror.refersTo_eq (h : Made sources home offset newName outcome)
    (hself : ComesBack sources outcome home outcome.target)
    (hmirror : Mirror sources newName outcome source old now) :
    Sources.refersTo (outcome.renamed newName) now = Sources.refersTo outcome.target old := by
  rw [Sources.refersTo, Sources.refersTo, hmirror.kept]
  cases htarget : old.target with
  | none => rfl
  | some target => exact same_renamed h hself (hmirror.comesBack target htarget)

variable {text' : String} {olds nows : List Occurrence}

/-- **The edits that rename the renamed target are the reverse edits.** -/
theorem Mirrored.editsIn_eq (h : Made sources home offset newName outcome)
    (hself : ComesBack sources outcome home outcome.target)
    (hmirrored : Mirrored sources newName outcome source text text' olds nows) :
    editsIn outcome.sources (outcome.renamed newName) outcome.target.name source =
      outcome.backEdits source := by
  rw [backEdits, Renaming.editsIn_eq hmirrored.nows_eq]
  have hlists : ∀ {olds nows : List Occurrence},
      List.Forall₂ (Mirror sources newName outcome source) olds nows →
        (nows.filter (Sources.refersTo (outcome.renamed newName))).map
            (editOf outcome.target.name) =
          ((olds.filter (Sources.refersTo outcome.target)).map (editOf newName)).map
            (back (outcome.editsOf source) outcome.target.name) := by
    intro olds nows hnames
    induction hnames with
    | nil => rfl
    | @cons old now olds nows hmirror _ ih =>
      rw [List.filter_cons, List.filter_cons, hmirror.refersTo_eq h hself]
      split
      · rw [List.map_cons, List.map_cons, List.map_cons, ih, back, editOf, editOf,
          hmirror.start_eq, hmirror.stop_eq]
      · exact ih
  rw [hlists hmirrored.names, ← Renaming.editsIn_eq hmirrored.olds_eq, ← hmirrored.edits_eq]

/-- What was the target is the renamed target. -/
theorem image_eq_renamed (hback : ComesBack sources outcome source target)
    (hsame : target.same outcome.target = true) :
    image outcome.target newName (outcome.editsOf source) target = outcome.renamed newName := by
  cases hrenamed : outcome.target with
  | global name =>
    rw [hrenamed] at hsame
    cases target with
    | global other => simp [image, renamed, hrenamed, hsame]
    | «local» other home' start => cases hsame
  | «local» name home' start =>
    rw [hrenamed] at hsame
    cases target with
    | global other => cases hsame
    | «local» other home'' start' =>
      have hplace := hsame
      simp only [Target.same, Bool.and_eq_true, beq_iff_eq] at hplace
      obtain ⟨rfl, rfl⟩ := hplace
      obtain ⟨rfl, -⟩ := hback
      simp [image, renamed, hrenamed, hsame]

/-- The renamed target has the new name. -/
theorem name_renamed (outcome : Renaming) (newName : String) :
    (outcome.renamed newName).name = newName := by
  rw [renamed]
  split <;> rfl

/-! ## The reverse renaming -/

/-- A renaming that leaves every source mirrored, and of which the target comes
back. -/
structure Reversible (sources : Sources) (home : String) (offset : Int) (newName : String)
    (outcome : Renaming) : Prop where
  made : Made sources home offset newName outcome
  self : ComesBack sources outcome home outcome.target
  mirrored : ∀ source text, sources.get? source = some text →
    ∃ text' olds nows, Mirrored sources newName outcome source text text' olds nows

/-- A renaming after which every source is mirrored is reversible: the target is what a
name of a source resolves to. -/
theorem reversible_of_mirrored (h : Made sources home offset newName outcome)
    (hmirrored : ∀ source text, sources.get? source = some text →
      ∃ text' olds nows, Mirrored sources newName outcome source text text' olds nows) :
    Reversible sources home offset newName outcome := by
  refine ⟨h, ?_, hmirrored⟩
  obtain ⟨text, occurrence, hfound⟩ := exists_found h.found
  obtain ⟨text', olds, nows, hsource⟩ := hmirrored home text hfound.get
  have holds := hsource.olds_eq
  rw [Sources.occurrences_eq hfound.get] at holds
  cases holds
  obtain ⟨now, -, hmirror⟩ := exists_of_mem_left hsource.names hfound.mem
  exact hmirror.comesBack _ hfound.target_eq

namespace Reversible

/-- A source after the renaming was one before it. -/
theorem exists_before (h : Reversible sources home offset newName outcome)
    (hget' : outcome.sources.get? source = some text') :
    ∃ text olds nows, Mirrored sources newName outcome source text text' olds nows := by
  have hkey : source ∈ sources.keys := h.made.keys_eq ▸ Table.mem_keys_iff.2 ⟨text', hget'⟩
  obtain ⟨text, hget⟩ := Table.mem_keys_iff.1 hkey
  obtain ⟨text'', olds, nows, hmirrored⟩ := h.mirrored source text hget
  cases hget'.symm.trans hmirrored.after
  exact ⟨text, olds, nows, hmirrored⟩

/-- **The old name is free again** after a global was renamed: a name that is declared
under it would have been declared under it before. -/
theorem fresh_back (h : Reversible sources home offset newName outcome) :
    ∀ name, outcome.renamed newName = .global name → outcome.target.name ≠ name →
      outcome.target.name ∉ outcome.sources.globals := by
  intro name hrenamed hne hmem
  obtain ⟨source, text', hget', form, hform, now, hdeclared, htext⟩ :=
    Sources.exists_of_mem_globals hmem
  obtain ⟨text, olds, nows, hmirrored⟩ := h.exists_before hget'
  have hnows := hmirrored.nows_eq
  rw [Sources.occurrences_eq hget'] at hnows
  cases hnows
  -- the declaration is a name of the source, so it was a name before
  have hnow : now ∈ Occurrence.inCommands source outcome.sources.globals
      (forms (Text.blankedComments text'.toList)) := List.mem_flatMap.2
    ⟨form, hform, by rw [Occurrence.inCommand_of_declared hdeclared]; exact List.mem_cons_self⟩
  obtain ⟨old, -, hmirror⟩ := exists_of_mem_right hmirrored.names hnow
  obtain ⟨-, -, _, _, _, _, _, _, -, rfl⟩ := Occurrence.exists_of_declared hdeclared
  obtain ⟨target, htarget, himage⟩ := Option.map_eq_some_iff.1 hmirror.kept.symm
  cases hself : outcome.target with
  | «local» other home' start =>
    rw [renamed, hself] at hrenamed
    cases hrenamed
  | global other =>
    rw [renamed, hself] at hrenamed
    cases hrenamed
    rw [hself] at htext hne himage
    cases target with
    | «local» _ _ _ => cases himage
    | global found =>
      by_cases heq : found = other
      · simp [image, Target.same, heq] at himage
        exact hne (htext.symm.trans himage.symm)
      · simp [image, Target.same, Target.name, heq] at himage
        exact heq (himage.trans htext)

end Reversible

/-- A second renaming takes a renaming back: its target is what the first has renamed,
its edits are the images of those of the first, and every source is as it was. -/
structure Undoes (sources : Sources) (newName : String) (outcome undone : Renaming) : Prop where
  target : undone.target = outcome.renamed newName
  edits : ∀ source ∈ sources.keys, undone.editsOf source = outcome.backEdits source
  sources : undone.sources = sources

variable {edit : Edit}

namespace Reversible

/-- **A place that was edited finds the renamed target.** -/
theorem targetAt_edit (h : Reversible sources home offset newName outcome)
    (hget : sources.get? source = some text) (hedit : edit ∈ outcome.editsOf source) :
    outcome.sources.targetAt source (shift (outcome.editsOf source) edit.start) =
      .ok (some (outcome.renamed newName)) := by
  obtain ⟨text', olds, nows, hmirrored⟩ := h.mirrored source text hget
  have hreference := hedit
  rw [hmirrored.edits_eq, editsIn_eq hmirrored.olds_eq] at hreference
  obtain ⟨old, hmem, rfl⟩ := List.mem_map.1 hreference
  obtain ⟨hold, hrefers⟩ := List.mem_filter.1 hmem
  obtain ⟨now, hnow, hmirror⟩ := exists_of_mem_left hmirrored.names hold
  -- the name there resolves to the renamed target
  have htarget : now.target = some (outcome.renamed newName) := by
    rw [hmirror.kept]
    rw [Sources.refersTo] at hrefers
    cases hfound : old.target with
    | none => simp [hfound] at hrefers
    | some target =>
      rw [hfound] at hrefers
      rw [Option.map_some, image_eq_renamed (hmirror.comesBack target hfound) hrefers]
  -- and it is the new name, which is not empty
  have hname := (Sources.boundIn_occurrences hmirrored.after hmirrored.nows_eq now hnow _
    htarget).name_eq
  rw [name_renamed] at hname
  have hnows := hmirrored.nows_eq
  rw [Sources.occurrences_eq hmirrored.after] at hnows
  cases hnows
  obtain ⟨-, -, -, -, hstop, -⟩ := standsIn_of_mem_leavesAll_forms
    ((Occurrence.sublist_leavesAll _).subset (List.mem_map_of_mem hnow))
  have hpos := Text.units_pos (isAtomText_of_isValidName h.made.valid).2.1
  have hunits : now.stop = now.start + Text.units now.text.toList := hstop
  rw [← hname] at hunits
  have hfinds := Sources.targetAt_start hmirrored.after hnow (by omega) htarget
  rw [hmirror.start_eq] at hfinds
  exact hfinds

/-- The renamed target is looked for in sources that there are. -/
theorem mem_keys_of_visibleIn (h : Reversible sources home offset newName outcome) :
    ∀ other ∈ outcome.sources.visibleIn (outcome.renamed newName),
      other ∈ outcome.sources.keys := by
  intro other hvisible
  obtain ⟨text, occurrence, hfound⟩ := exists_found h.made.found
  have hself := h.self
  cases hrenamed : outcome.target with
  | global name =>
    rw [renamed, hrenamed] at hvisible
    exact hvisible
  | «local» name home' start =>
    rw [hrenamed] at hself
    rw [renamed, hrenamed, hself.1] at hvisible
    rw [List.mem_singleton.1 hvisible, h.made.keys_eq]
    exact Table.mem_keys_iff.2 ⟨text, hfound.get⟩

/-- **The renamed target can be given the old name again**, from any place that was
edited, and that undoes the renaming. -/
theorem exists_undone (h : Reversible sources home offset newName outcome)
    (hvalid : isValidName outcome.target.name = true) (hget : sources.get? source = some text)
    (hedit : edit ∈ outcome.editsOf source) :
    ∃ undone, outcome.sources.rename source (shift (outcome.editsOf source) edit.start)
        outcome.target.name = .ok undone ∧ Undoes sources newName outcome undone := by
  obtain ⟨references, hreferences⟩ := exists_references h.mem_keys_of_visibleIn
  have hchanges : ∀ other ∈ sources.keys,
      ((changesOf outcome.target.name references).get? other).getD [] =
        outcome.backEdits other := by
    intro other hkey
    obtain ⟨text, hget⟩ := Table.mem_keys_iff.1 hkey
    obtain ⟨text', olds, nows, hmirrored⟩ := h.mirrored other text hget
    rw [getD_changes hreferences (h.made.keys_eq ▸ hkey), hmirrored.editsIn_eq h.made h.self]
  refine ⟨⟨outcome.renamed newName, changesOf outcome.target.name references, sources⟩,
    rename_of_made ⟨hvalid, h.targetAt_edit hget hedit, h.fresh_back,
      ⟨references, hreferences, rfl⟩, ?applied, ?checked⟩, rfl, hchanges, rfl⟩
  case applied =>
    refine edited_eq_ok h.made.keys_eq.symm fun other text' hget' => ?_
    obtain ⟨text, olds, nows, hmirrored⟩ := h.exists_before hget'
    refine ⟨text, hmirrored.before, ?_⟩
    rw [hchanges other (Table.mem_keys_iff.2 ⟨text, hmirrored.before⟩)]
    exact hmirrored.restored
  case checked =>
    refine check_eq_ok fun other hkey => ?_
    obtain ⟨text', hget'⟩ := Table.mem_keys_iff.1 hkey
    obtain ⟨text, olds, nows, hmirrored⟩ := h.exists_before hget'
    refine ⟨nows, olds, hmirrored.nows_eq, hmirrored.olds_eq, ?_⟩
    rw [hchanges other (Table.mem_keys_iff.2 ⟨text, hmirrored.before⟩)]
    exact firstCaptured_eq_none (hmirrored.names.flip.imp fun now old hmirror =>
      hmirror.kept_back h.made h.self)

end Reversible

/-- **Where a renaming has been undone, the new name was separate** from what follows
the references: it is an atom in each of the places that are edited back. -/
theorem separated_of_undoes (h : Made sources home offset newName outcome)
    (hget : sources.get? source = some text) (hverbatim : outcome.Verbatim source text)
    {home' : String} {offset' : Int} {undone : Renaming}
    (hundone : Made outcome.sources home' offset' outcome.target.name undone)
    (hundoes : Undoes sources newName outcome undone) :
    Separated newName (Text.blankedComments text.toList) (outcome.editsOf source) := by
  obtain ⟨pieces, gap, htext, hlaid⟩ := exists_pieces (Text.blankedComments text.toList)
  obtain ⟨mark, text', hget', -, hedits, hblanked, hmeasures⟩ :=
    exists_marks h hget hverbatim htext hlaid
  obtain ⟨_, found, hfound⟩ := exists_found h.found
  obtain ⟨_, found', hfound'⟩ := exists_found hundone.found
  have hback : outcome.backEdits source =
      editsIn outcome.sources undone.target outcome.target.name source := by
    rw [← hundoes.edits source (Table.mem_keys_iff.2 ⟨text, hget⟩)]
    exact (hundone.done hget').edits
  rw [editsIn_eq (Sources.occurrences_eq hget')] at hback
  rw [htext, hedits, ← Piece.join_parts, ← Part.each_apart_iff
    (isAtomText_of_isValidName h.valid).1]
  refine each_apart_of_mem_leavesAll (isAtomText_of_isValidName h.valid).1 hlaid
    fun before old after hparts => ?_
  -- the edit of the atom has an image, and that renames a name of the text
  have hmem : back (outcome.editsOf source) outcome.target.name
      ⟨(Text.units (Part.join before) : Nat),
        (Text.units (Part.join before) + Text.units old : Nat), newName⟩ ∈
          outcome.backEdits source := by
    refine List.mem_map_of_mem ?_
    rw [hedits, hparts]
    exact Part.mem_edits newName before old after
  rw [hback] at hmem
  obtain ⟨now, hreference, hedit⟩ := List.mem_map.1 hmem
  obtain ⟨hnow, hrefers⟩ := List.mem_filter.1 hreference
  refine ⟨now.leaf, ?_, ?_, ?_⟩
  · rw [← hblanked]
    exact (Occurrence.sublist_leavesAll _).subset (List.mem_map_of_mem hnow)
  -- it is a name of the renamed target
  · have hname := (hfound'.namedAlike hget').text_eq
      (Sources.boundIn_occurrences hget' (Sources.occurrences_eq hget') now hnow) hrefers
    rwa [hundoes.target, name_renamed] at hname
  -- and stands where the atom has come to lie
  · have hshift := @Part.shift_edits _ newName before (.changed old :: after)
      (hmeasures.mono (by rw [hparts]; exact List.subset_append_right _ _))
      (Text.units_pos hfound.name_ne)
    rw [← hparts, ← hedits] at hshift
    have hstart : (now.start : Int) = _ := congrArg Edit.start hedit
    rw [back] at hstart
    simp only [hshift] at hstart
    exact Int.ofNat.inj hstart

/-- **A renaming can be undone from any place that was edited, just if the new name is
separate from what follows the references**: the old name, where it may be given
and stood in the texts as it is, is given back to what was renamed, at the images
of the edits, and every source is restored. -/
theorem rename_undoes_iff (h : sources.rename home offset newName = .ok outcome)
    (hvalid : isValidName outcome.target.name = true)
    (hverbatim : ∀ source text, sources.get? source = some text → outcome.Verbatim source text) :
    (∀ source text, sources.get? source = some text → ∀ edit ∈ outcome.editsOf source,
      ∃ undone, outcome.sources.rename source (shift (outcome.editsOf source) edit.start)
        outcome.target.name = .ok undone ∧ Undoes sources newName outcome undone) ↔
      ∀ source text, sources.get? source = some text →
        Separated newName (Text.blankedComments text.toList) (outcome.editsOf source) := by
  have hmade := made_of_rename h
  constructor
  · intro hundo source text hget
    -- the name that was found has been edited, so there is a place to start from
    obtain ⟨found, occurrence, hfound⟩ := exists_found hmade.found
    have hedit : editOf newName occurrence ∈ outcome.editsOf home := by
      rw [editsOf, (hmade.done hfound.get).edits,
        editsIn_eq (Sources.occurrences_eq hfound.get)]
      refine List.mem_map_of_mem (List.mem_filter.2 ⟨hfound.mem, ?_⟩)
      rw [Sources.refersTo, hfound.target_eq]
      cases outcome.target <;> simp [Target.same]
    obtain ⟨undone, hundone, hundoes⟩ := hundo home found hfound.get _ hedit
    exact separated_of_undoes hmade hget (hverbatim source text hget) (made_of_rename hundone)
      hundoes
  · intro hseparated source text hget edit hedit
    have hreversible := reversible_of_mirrored hmade fun other text hget =>
      exists_mirrored hmade hget (hverbatim other text hget) (hseparated other text hget)
    exact hreversible.exists_undone hvalid hget hedit

/-- What was renamed in two scripts can be renamed back from a place that the first edit
has moved. -/
theorem rename_undoes_elsewhere :
    ∃ outcome, usedElsewhere.rename "a" 13 "other" = .ok outcome ∧
      ∃ undone, outcome.sources.rename "a" 38 "x" = .ok undone ∧
        Undoes usedElsewhere "other" outcome undone := by
  have hrename : (usedElsewhere.rename "a" 13 "other").map
      (fun outcome => (outcome.target, outcome.editsOf "a", outcome.editsOf "b")) =
        .ok (.global "x", [⟨13, 14, "other"⟩, ⟨34, 35, "other"⟩], [⟨11, 12, "other"⟩]) := by
    simp only [Sources.rename, edited, Edit.applyAll, Edit.sorted_eq_insertionSort]
    decide +kernel
  have hdeclared : Text.behind (Text.blankedComments
      "(declare-fun x () Real)(assert (> x 1))".toList) 14 =
        " () Real)(assert (> x 1))".toList := by decide +kernel
  have hused : Text.behind (Text.blankedComments
      "(declare-fun x () Real)(assert (> x 1))".toList) 35 = " 1))".toList := by decide +kernel
  have helsewhere : Text.behind (Text.blankedComments "(assert (= x 2))".toList) 12 =
      " 2))".toList := by decide +kernel
  cases h : usedElsewhere.rename "a" 13 "other" with
  | error fault => rw [h] at hrename; cases hrename
  | ok outcome =>
    rw [h] at hrename
    obtain ⟨htarget, hedits⟩ := Prod.mk.inj (Except.ok.inj hrename)
    obtain ⟨hfirst, hsecond⟩ := Prod.mk.inj hedits
    have hname : outcome.target.name = "x" := by rw [htarget]; rfl
    have hsources : ∀ source text, usedElsewhere.get? source = some text →
        source = "a" ∧ text = "(declare-fun x () Real)(assert (> x 1))" ∨
          source = "b" ∧ text = "(assert (= x 2))" := by
      intro source text hget
      have hentry : (source, text) ∈ [("a", "(declare-fun x () Real)(assert (> x 1))"),
        ("b", "(assert (= x 2))")] := Table.mem_of_get? hget
      simpa using hentry
    have hverbatim : ∀ source text, usedElsewhere.get? source = some text →
        outcome.Verbatim source text := by
      intro source text hget
      rcases hsources source text hget with ⟨rfl, rfl⟩ | ⟨rfl, rfl⟩
      · rw [Verbatim, hfirst, hname]
        decide
      · rw [Verbatim, hsecond, hname]
        decide
    have hseparated : ∀ source text, usedElsewhere.get? source = some text →
        Separated "other" (Text.blankedComments text.toList) (outcome.editsOf source) := by
      intro source text hget
      refine .inr fun edit hedit => ?_
      rcases hsources source text hget with ⟨rfl, rfl⟩ | ⟨rfl, rfl⟩
      · rw [hfirst] at hedit
        rcases List.mem_pair.1 hedit with rfl | rfl
        · rw [hdeclared]
          exact delimited_cons.2 rfl
        · rw [hused]
          exact delimited_cons.2 rfl
      · rw [hsecond] at hedit
        rw [List.mem_singleton.1 hedit, helsewhere]
        exact delimited_cons.2 rfl
    have hundo := (rename_undoes_iff h (by rw [hname]; decide) hverbatim).2 hseparated "a" _ rfl
      ⟨34, 35, "other"⟩ (by rw [hfirst]; decide)
    have hshift : shift [⟨13, 14, "other"⟩, ⟨34, 35, "other"⟩] 34 = 38 := by decide
    rw [hname, hfirst, hshift] at hundo
    exact ⟨outcome, rfl, hundo⟩

/-- **A renaming may fail to be undone where the new name runs together with the atom
behind it**: from the first place that was edited the old name is given to the
declaration and to the captured `z`, and `z1` stays. -/
theorem rename_not_undone :
    ∃ outcome, runTogether.rename "a" 13 "z" = .ok outcome ∧
      isValidName outcome.target.name = true ∧
      (∀ source text, runTogether.get? source = some text → outcome.Verbatim source text) ∧
      ∃ edit ∈ outcome.editsOf "a", ¬ ∃ undone,
        outcome.sources.rename "a" (shift (outcome.editsOf "a") edit.start) outcome.target.name =
          .ok undone ∧ Undoes runTogether "z" outcome undone := by
  have hrename : (runTogether.rename "a" 13 "z").map
      (fun outcome => (outcome.target, outcome.editsOf "a")) =
        .ok (.global "|x|", [⟨13, 16, "z"⟩, ⟨44, 47, "z"⟩]) := by
    simp only [Sources.rename, edited, Edit.applyAll, Edit.sorted_eq_insertionSort]
    decide +kernel
  have hagain : ((runTogether.rename "a" 13 "z").map (fun outcome =>
      (outcome.sources.rename "a" 13 "|x|").map (·.sources.get? "a"))) =
        .ok (.ok (some "(declare-fun |x| () Real)(assert (let (f u) z1))(assert |x|)")) := by
    simp only [Sources.rename, edited, Edit.applyAll, Edit.sorted_eq_insertionSort]
    decide +kernel
  cases h : runTogether.rename "a" 13 "z" with
  | error fault => rw [h] at hrename; cases hrename
  | ok outcome =>
    rw [h] at hrename hagain
    obtain ⟨htarget, hedits⟩ := Prod.mk.inj (Except.ok.inj hrename)
    have hname : outcome.target.name = "|x|" := by rw [htarget]; rfl
    refine ⟨outcome, rfl, by rw [hname]; decide, fun source text hget => ?_, ⟨13, 16, "z"⟩,
      by rw [hedits]; decide, ?_⟩
    · have hentry : (source, text) ∈ [("a",
          "(declare-fun |x| () Real)(assert (let (f u) |x|1))(assert z)")] := Table.mem_of_get? hget
      cases List.mem_singleton.1 hentry
      rw [Verbatim, hedits, hname]
      decide
    · rintro ⟨undone, hundone, hundoes⟩
      have hshift : shift [⟨13, 16, "z"⟩, ⟨44, 47, "z"⟩] 13 = 13 := by decide
      rw [hedits, hname, hshift] at hundone
      have htext : (outcome.sources.rename "a" 13 "|x|").map (·.sources.get? "a") =
          .ok (some "(declare-fun |x| () Real)(assert (let (f u) z1))(assert |x|)") :=
        Except.ok.inj hagain
      rw [hundone] at htext
      have hget : undone.sources.get? "a" = some _ := Except.ok.inj htext
      rw [hundoes.sources] at hget
      exact absurd hget (by decide)

end Renaming

end SatScript
