import SatScript.Proofs.Rename.Made
import SatScript.Proofs.Rename.Reread
/-!
# SatScript — the references of a target

The edits of a renaming were found by walking over forms, and they are
applied to a text. This file brings the two together. The references of a
target in a source bear its name, which is not empty (`namedAlike`,
`Found.name_ne`), so they are atoms of the text, and the edits that rename
them are those of the marked atoms (`edits_parts_eq`). So the edits can be
applied, and it is known how the text is read then (`exists_reread`).
-/

namespace SatScript

/-! ## The atoms of any text -/

/-- The atoms of a text stand one behind the other. -/
theorem ordered_leavesAll_forms (cs : List Char) : Leaf.Ordered (Form.leavesAll (forms cs)) := by
  obtain ⟨pieces, gap, rfl, hlaid⟩ := exists_pieces cs
  rw [forms_pieces hlaid]
  exact (Piece.ordered_leavesAll hlaid).1

/-- The text of each atom stands where the atom does. -/
theorem standsIn_of_mem_leavesAll_forms {cs : List Char} {leaf : Leaf}
    (h : leaf ∈ Form.leavesAll (forms cs)) : leaf.StandsIn 0 cs := by
  obtain ⟨pieces, gap, rfl, hlaid⟩ := exists_pieces cs
  rw [forms_pieces hlaid] at h
  exact Piece.standsIn_of_mem_leavesAll hlaid leaf h

/-! ## Names that may be given -/

namespace Renaming

/-- A character that may stand in a name without quotes ends no atom. -/
theorem endsAtom_eq_false {c : Char} (hspace : Text.isSpace c = false) (hopen : c ≠ '(')
    (hclose : c ≠ ')') : Reader.endsAtom c = false := by
  have hblank : Text.isBlank c = false := by
    cases h : Text.isBlank c with
    | false => rfl
    | true => rw [Text.isSpace_of_isBlank h] at hspace; cases hspace
  simp [Reader.endsAtom, hblank, hopen, hclose]

/-- A valid name is quoted, or it is no numeral and has only characters that need no
quotes. -/
theorem of_isValidName {newName : String} (h : isValidName newName = true) :
    (∃ inner, '|' ∉ inner ∧ newName.toList = quoted inner) ∨
      newName.toList ≠ [] ∧ Numeral.startsNumeral newName = false ∧
        ∀ d ∈ newName.toList,
          Text.isSpace d = false ∧ d ≠ '(' ∧ d ≠ ')' ∧ d ≠ '|' ∧ d ≠ ';' := by
  rw [isValidName] at h
  cases hchars : newName.toList with
  | nil => rw [hchars] at h; cases h
  | cons c cs =>
    rw [hchars] at h
    simp only [Bool.or_eq_true, Bool.and_eq_true, beq_iff_eq] at h
    rcases h with ⟨⟨rfl, hlast⟩, hinner⟩ | ⟨hnumeral, hall⟩
    · -- from bar to bar
      obtain ⟨inner, rfl⟩ := List.getLast?_eq_some_iff.1 hlast
      exact .inl ⟨inner, by simpa using hinner, rfl⟩
    · refine .inr ⟨List.cons_ne_nil _ _, by simpa using hnumeral, fun d hd => ?_⟩
      have hd := List.all_eq_true.1 hall d hd
      simp only [Bool.not_eq_true', Bool.or_eq_false_iff, beq_eq_false_iff_ne] at hd
      obtain ⟨⟨⟨⟨hspace, hopen⟩, hclose⟩, hbar⟩, hsemi⟩ := hd
      exact ⟨hspace, hopen, hclose, hbar, hsemi⟩

/-- **A valid name is the text of an atom**, and the walk takes it for a name. -/
theorem isAtomText_of_isValidName {newName : String} (h : isValidName newName = true) :
    IsAtomText newName.toList ∧ newName ≠ "" ∧ Numeral.startsNumeral newName = false := by
  have hne : newName ≠ "" := by
    rintro rfl
    exact absurd h (by decide)
  rcases of_isValidName h with ⟨inner, hinner, hquoted⟩ | ⟨hfirst, hnumeral, hletters⟩
  · refine ⟨.inr ⟨inner, hinner, hquoted⟩, hne, ?_⟩
    rw [Numeral.startsNumeral, hquoted]
    rfl
  · refine ⟨.inl ⟨hfirst, fun hbar => ?_, fun d hd => ?_⟩, hne, hnumeral⟩
    · exact (hletters '|' (List.mem_of_mem_head? hbar)).2.2.2.1 rfl
    · obtain ⟨hspace, hopen, hclose, -⟩ := hletters d hd
      exact endsAtom_eq_false hspace hopen hclose

/-! ## References bear the name of the target -/

/-- The target is what a name of a source resolves to, and this name is not
empty. -/
structure Found (sources : Sources) (target : Target) (home text : String)
    (occurrence : Occurrence) : Prop where
  get : sources.get? home = some text
  mem : occurrence ∈ Occurrence.inCommands home sources.globals
    (forms (Text.blankedComments text.toList))
  target_eq : occurrence.target = some target
  text_ne : occurrence.text ≠ ""

variable {sources : Sources} {target : Target} {home source text : String}
variable {occurrence : Occurrence} {offset : Int}

/-- **A target that is found at an offset is what a name there resolves to.** An
empty name covers no offset. -/
theorem exists_found (h : sources.targetAt home offset = .ok (some target)) :
    ∃ text occurrence, Found sources target home text occurrence := by
  obtain ⟨occurrences, hoccurrences, h⟩ := bind_eq_ok_iff.1 h
  obtain ⟨text, hget, rfl⟩ := Sources.exists_of_occurrences hoccurrences
  obtain ⟨occurrence, hmem, hfound⟩ := List.exists_of_findSome?_eq_some (pure_eq_ok_iff.1 h)
  split at hfound
  · rename_i hcovers
    refine ⟨text, occurrence, hget, hmem, hfound, fun hempty => ?_⟩
    have hleaf := standsIn_of_mem_leavesAll_forms
      ((Occurrence.sublist_leavesAll _).subset (List.mem_map_of_mem hmem))
    -- an empty name would cover no offset
    obtain ⟨-, -, -, -, hstop, -⟩ := hleaf
    have hunits : Text.units "".toList = 0 := rfl
    simp only [Occurrence.leaf, hempty, hunits, Nat.add_zero] at hstop
    rw [Span.covers_iff] at hcovers
    simp only [Occurrence.span, hstop] at hcovers
    omega
  · cases hfound

namespace Found

/-- The found target is bound. -/
theorem boundIn (h : Found sources target home text occurrence) :
    target.BoundIn home sources.globals
      (Form.leavesAll (forms (Text.blankedComments text.toList))) occurrence.text :=
  Occurrence.boundIn_inCommands (Sources.mem_globals h.get) occurrence h.mem target h.target_eq

/-- The name of the target is not empty. -/
theorem name_ne (h : Found sources target home text occurrence) : target.name ≠ "" := by
  rw [h.boundIn.name_eq]
  exact h.text_ne

/-- **What refers to the target bears its name**, in every source: a global is
known by its name, and the binder of a local is one atom. -/
theorem namedAlike (h : Found sources target home text occurrence) {source text' : String}
    (hget : sources.get? source = some text') :
    Occurrence.NamedAlike target source sources.globals
      (Form.leavesAll (forms (Text.blankedComments text'.toList))) := by
  intro name found hbound hsame
  have hname := hbound.name_eq
  cases found with
  | global other =>
    cases target with
    | global renamed => exact hname ▸ beq_iff_eq.1 hsame
    | «local» renamed home' start => cases hsame
  | «local» other source' start =>
    cases target with
    | global renamed => cases hsame
    | «local» renamed home' start' =>
      -- both are bound at the atom that begins there
      obtain ⟨rfl, rfl, leaf, hleaf, hleafName, hstart⟩ := hbound
      obtain ⟨-, rfl, leaf', hleaf', hleafName', hstart'⟩ := h.boundIn
      simp only [Target.same, Bool.and_eq_true, beq_iff_eq] at hsame
      obtain ⟨rfl, rfl⟩ := hsame
      rw [h.get] at hget
      cases hget
      have hone : leaf = leaf' :=
        (ordered_leavesAll_forms _).eq_of_start_eq hleaf hleaf' (by omega)
      rw [← hleafName, hone, hleafName', ← h.boundIn.name_eq]

/-- The target is looked for in sources that there are. -/
theorem mem_keys_of_visibleIn (h : Found sources target home text occurrence) :
    ∀ source ∈ sources.visibleIn target, source ∈ sources.keys := by
  intro source hvisible
  have hbound := h.boundIn
  cases target with
  | global name => exact hvisible
  | «local» name home' start =>
    obtain ⟨-, rfl, -⟩ := hbound
    rw [List.mem_singleton.1 hvisible]
    exact Table.mem_keys_iff.2 ⟨text, h.get⟩

end Found

/-! ## The atoms to be edited -/

/-- An atom is marked if a name that begins where it does refers to the
target. -/
def markOf (target : Target) (occurrences : List Occurrence) (start : Nat) : Bool :=
  occurrences.any fun occurrence => occurrence.start == start && Sources.refersTo target occurrence

/-- Marks of the references mark the atoms at the references. -/
theorem marksOf_markOf (target : Target) (leaves : List Leaf) (occurrences : List Occurrence) :
    Occurrence.MarksOf (markOf target occurrences) target leaves occurrences := fun _ _ => rfl

/-- **Marks of the references are faithful** in every command of a source. -/
theorem faithful_markOf (target : Target) (hget : sources.get? source = some text)
    {occurrences : List Occurrence} (hoccurrences : sources.occurrences source = .ok occurrences) :
    ∀ form ∈ forms (Text.blankedComments text.toList),
      Occurrence.FaithfulCommand (markOf target occurrences) target source sources.globals
        (Form.leavesAll (forms (Text.blankedComments text.toList))) form := by
  rw [Sources.occurrences_eq hget] at hoccurrences
  cases hoccurrences
  exact Occurrence.faithfulCommand_of_markedIn
    ⟨fun _ hleaf => hleaf, ordered_leavesAll_forms _, marksOf_markOf _ _ _⟩

/-- Of atoms one behind the other those are marked that are references. -/
theorem marked_eq {mark : Nat → Bool} {refs leaves : List Leaf} (hsublist : refs.Sublist leaves)
    (hordered : Leaf.Ordered leaves) (hne : ∀ leaf ∈ refs, leaf.text ≠ "")
    (hmark : ∀ leaf ∈ leaves, mark leaf.start = refs.any fun ref => ref.start == leaf.start) :
    Leaf.marked mark leaves = refs := by
  induction hsublist with
  | slnil => rfl
  | @cons refs leaves leaf hsublist ih =>
    obtain ⟨hfirst, hordered⟩ := List.pairwise_cons.1 hordered
    have hunmarked : mark leaf.start = false := by
      rw [hmark leaf List.mem_cons_self, List.any_eq_false]
      intro ref href
      have hlt := hfirst ref (hsublist.subset href)
      simp only [beq_iff_eq]
      omega
    rw [Leaf.marked, List.filter_cons, hunmarked, Bool.and_false, if_neg Bool.false_ne_true]
    exact ih hordered hne fun other hother => hmark other (List.mem_cons_of_mem _ hother)
  | @cons_cons refs leaves leaf hsublist ih =>
    obtain ⟨hfirst, hordered⟩ := List.pairwise_cons.1 hordered
    have hmarked : mark leaf.start = true := by
      rw [hmark leaf List.mem_cons_self]
      simp
    have htext : (leaf.text != "") = true := by simpa using hne leaf List.mem_cons_self
    rw [Leaf.marked, List.filter_cons, hmarked, htext, Bool.and_self, if_pos rfl]
    refine congrArg (leaf :: ·) (ih hordered (fun ref href => hne ref (List.mem_cons_of_mem _ href))
      fun other hother => ?_)
    rw [hmark other (List.mem_cons_of_mem _ hother), List.any_cons]
    have hlt := hfirst other hother
    rw [beq_false_of_ne (by omega), Bool.false_or]

variable {newName : String}

/-- The atoms at the references of a source. -/
theorem marked_markOf (h : Found sources target home text occurrence) {text' : String}
    (hget : sources.get? source = some text') {occurrences : List Occurrence}
    (hoccurrences : sources.occurrences source = .ok occurrences) :
    Leaf.marked (markOf target occurrences)
      (Form.leavesAll (forms (Text.blankedComments text'.toList))) =
      (occurrences.filter (Sources.refersTo target)).map Occurrence.leaf := by
  have hbound := Sources.boundIn_occurrences hget hoccurrences
  rw [Sources.occurrences_eq hget] at hoccurrences
  cases hoccurrences
  refine marked_eq ((List.filter_sublist.map Occurrence.leaf).trans
    (Occurrence.sublist_leavesAll _)) (ordered_leavesAll_forms _) (fun leaf hleaf => ?_)
    fun leaf _ => ?_
  · obtain ⟨reference, hmem, rfl⟩ := List.mem_map.1 hleaf
    obtain ⟨hmem, hrefers⟩ := List.mem_filter.1 hmem
    have hname := (h.namedAlike hget).text_eq (hbound reference hmem) hrefers
    show reference.text ≠ ""
    rw [hname]
    exact h.name_ne
  · rw [markOf, List.any_map, List.any_filter]
    congr 1
    funext reference
    exact Bool.and_comm _ _

/-- **The edits of a source are those of the marked parts of its text.** -/
theorem edits_parts_eq (h : Found sources target home text occurrence) {text' : String}
    (hget : sources.get? source = some text') {occurrences : List Occurrence}
    (hoccurrences : sources.occurrences source = .ok occurrences) {pieces : List Piece}
    {gap : List Char} (htext : Text.blankedComments text'.toList = Piece.charsAll pieces ++ gap)
    (hlaid : Piece.Laid pieces gap) :
    Part.edits newName 0 (Piece.parts (markOf target occurrences) 0 pieces) =
      editsIn sources target newName source := by
  rw [Piece.edits_parts false pieces gap, ← forms_pieces hlaid, ← htext,
    marked_markOf h hget hoccurrences, editsIn_eq hoccurrences, List.map_map]
  rfl

/-- An offset in a source comes to lie where the edits move it. -/
theorem shifted_editsIn (h : Found sources target home text occurrence) {text' : String}
    (hget : sources.get? source = some text') (offset : Nat) :
    (Form.shifted (editsIn sources target newName source) offset : Int) =
      shift (editsIn sources target newName source) offset := by
  obtain ⟨pieces, gap, htext, hlaid⟩ := exists_pieces (Text.blankedComments text'.toList)
  rw [← edits_parts_eq h hget (Sources.occurrences_eq hget) htext hlaid]
  exact Int.toNat_of_nonneg (shift_edits_nonneg _ _ (Int.natCast_nonneg offset))

/-- **The edits of a source can be applied**, and the text is read as the forms after
them just if the new name is separate from what follows them. -/
theorem exists_reread (h : Found sources target home text occurrence)
    (hvalid : isValidName newName = true) (hsemi : ';' ∉ newName.toList) {before : String}
    (hget : sources.get? source = some before) :
    ∃ after, Edit.applyAll before (editsIn sources target newName source) = .ok after ∧
      (forms (Text.blankedComments after.toList) =
          Form.editAll (editsIn sources target newName source)
            (forms (Text.blankedComments before.toList)) ↔
        Separated newName (Text.blankedComments before.toList)
          (editsIn sources target newName source)) := by
  obtain ⟨pieces, gap, htext, hlaid⟩ := exists_pieces (Text.blankedComments before.toList)
  have hedits := @edits_parts_eq _ _ _ _ _ _ newName h _ hget _ (Sources.occurrences_eq hget) _ _
    htext hlaid
  generalize markOf target (Occurrence.inCommands source sources.globals
    (forms (Text.blankedComments before.toList))) = mark at hedits
  obtain ⟨after, happlied, hafter⟩ := exists_applied hsemi htext hlaid mark
  refine ⟨after, hedits ▸ happlied, ?_⟩
  rw [hafter, htext, ← hedits]
  exact forms_reread_iff (isAtomText_of_isValidName hvalid).1 hlaid

/-- **The edits of a source give the new name to the marked atoms**, and to no
others. -/
theorem editedText_editsIn {text' : String} (hget : sources.get? source = some text')
    {occurrences : List Occurrence} (hoccurrences : sources.occurrences source = .ok occurrences) :
    ∀ leaf ∈ Form.leavesAll (forms (Text.blankedComments text'.toList)),
      Form.editedText (editsIn sources target newName source) leaf.text leaf.start leaf.stop =
        if markOf target occurrences leaf.start then newName else leaf.text := by
  intro leaf hleaf
  rw [editsIn_eq hoccurrences]
  rw [Sources.occurrences_eq hget] at hoccurrences
  cases hoccurrences
  split
  · rename_i hmark
    obtain ⟨reference, hmem, hreference⟩ := List.any_eq_true.1 hmark
    rw [Bool.and_eq_true, beq_iff_eq] at hreference
    -- the reference is the atom, since only one atom begins there
    have hone : reference.leaf = leaf := (ordered_leavesAll_forms _).eq_of_start_eq
      ((Occurrence.sublist_leavesAll _).subset (List.mem_map_of_mem hmem)) hleaf hreference.1
    refine Form.editedText_of_mem (fun edit hedit => ?_) (List.mem_map_of_mem
      (List.mem_filter.2 ⟨hmem, hreference.2⟩)) ?_ ?_
    · obtain ⟨other, -, rfl⟩ := List.mem_map.1 hedit
      rfl
    · rw [← hone]
      rfl
    · rw [← hone]
      rfl
  · rename_i hmark
    refine Form.editedText_of_ne fun edit hedit => ?_
    obtain ⟨other, hother, rfl⟩ := List.mem_map.1 hedit
    obtain ⟨hmem, hrefers⟩ := List.mem_filter.1 hother
    rintro ⟨hstart, -⟩
    refine hmark (List.any_eq_true.2 ⟨other, hmem, ?_⟩)
    rw [hrefers, Bool.and_true, beq_iff_eq]
    exact Int.ofNat.inj hstart

end Renaming

end SatScript
