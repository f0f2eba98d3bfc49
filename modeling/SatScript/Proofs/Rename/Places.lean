import SatScript.Proofs.Rename.References
import SatScript.Proofs.Rename.Turned
/-!
# SatScript — the places of a target

A name is resolved by where it stands, and a target is looked for by walking
over all names. The names of a source stand apart, each of them ending
before the next begins (`pairwise_apart`), so that an offset lies in one
name at most, and resolving finds it (`targetAt_eq_some_iff`). So the two
are inverse: a target that is found at an offset has one place there, and
at each of its places it is found (`targetAt_places`).
-/

namespace SatScript

/-! ## The names of a source -/

namespace Occurrence

variable {source : String} {globals : List String} {occurrence : Occurrence}

/-- A name of a script stands in a list. -/
theorem exists_list_of_mem {forms : List Form}
    (h : occurrence ∈ inCommands source globals forms) :
    ∃ items start stop, Form.list items start stop ∈ forms ∧
      occurrence ∈ inCommand source globals (.list items start stop) := by
  obtain ⟨form, hform, hmem⟩ := List.mem_flatMap.1 h
  cases form with
  | atom text start stop => cases hmem
  | list items start stop => exact ⟨items, start, stop, hform, hmem⟩

variable {pieces : List Piece} {gap : List Char}

/-- A name of a laid out script is a part of the text. -/
theorem isPart_of_mem (mark : Nat → Bool)
    (h : occurrence ∈ inCommands source globals (Piece.forms false 0 gap pieces)) :
    occurrence.leaf.IsPart 0 (Piece.parts mark 0 pieces) := by
  obtain ⟨items, start, stop, hform, hmem⟩ := exists_list_of_mem h
  exact Piece.isPart_of_mem_leaves items start stop hform _
    ((sublist_inCommand _).subset (List.mem_map_of_mem hmem))

/-- The one name stands before the other: it begins before the other begins and ends
there at the latest. -/
def Before (first second : Occurrence) : Prop :=
  first.start < second.start ∧ first.stop ≤ second.start

/-- **The names of a source stand one before the other.** -/
theorem pairwise_before (source : String) (globals : List String) (cs : List Char) :
    (inCommands source globals (forms cs)).Pairwise Before := by
  have hordered := (ordered_leavesAll_forms cs).sublist
    (@sublist_leavesAll source globals _)
  obtain ⟨pieces, gap, rfl, hlaid⟩ := exists_pieces cs
  rw [forms_pieces hlaid] at hordered ⊢
  refine (List.pairwise_map.1 hordered).imp_of_mem fun hfirst hsecond hlt => ?_
  exact ⟨hlt, (isPart_of_mem (fun _ => false) hfirst).stop_le (isPart_of_mem _ hsecond) hlt⟩

/-- Of two names of a source one stands before the other. -/
theorem before_or_before {cs : List Char} {other : Occurrence}
    (hmem : occurrence ∈ inCommands source globals (forms cs))
    (hother : other ∈ inCommands source globals (forms cs)) (hne : occurrence ≠ other) :
    Before occurrence other ∨ Before other occurrence := by
  have hpairwise := pairwise_before source globals cs
  obtain ⟨before, after, hsplit⟩ := List.append_of_mem hmem
  rw [hsplit] at hpairwise hother
  obtain ⟨-, hafter, hbefore⟩ := List.pairwise_append.1 hpairwise
  rcases List.mem_append.1 hother with hother | hother
  · exact .inr (hbefore other hother occurrence List.mem_cons_self)
  · rcases List.mem_cons.1 hother with rfl | hother
    · exact absurd rfl hne
    · exact .inl ((List.pairwise_cons.1 hafter).1 other hother)

/-- Names of which one stands before the other do not overlap. -/
theorem Before.overlaps_eq_false {first second : Occurrence} (h : Before first second) :
    first.span.overlaps second.span = false := by
  rw [Span.overlaps_eq_false_iff]
  exact .inr (Int.ofNat_le.2 h.2)

/-- Different names of a source do not overlap. -/
theorem overlaps_eq_false {cs : List Char} {other : Occurrence}
    (hmem : occurrence ∈ inCommands source globals (forms cs))
    (hother : other ∈ inCommands source globals (forms cs)) (hne : occurrence ≠ other) :
    occurrence.span.overlaps other.span = false := by
  rcases before_or_before hmem hother hne with h | h
  · exact h.overlaps_eq_false
  · rw [Span.overlaps_comm]
    exact h.overlaps_eq_false

/-- **Names of a source that cover one offset are one name.** -/
theorem eq_of_covers {cs : List Char} {other : Occurrence} {offset : Int}
    (hmem : occurrence ∈ inCommands source globals (forms cs))
    (hother : other ∈ inCommands source globals (forms cs))
    (hcovers : occurrence.span.covers offset = true) (hcovers' : other.span.covers offset = true) :
    occurrence = other := by
  by_contra hne
  have hoverlaps := Span.overlaps_of_covers hcovers hcovers'
  rw [overlaps_eq_false hmem hother hne] at hoverlaps
  cases hoverlaps

end Occurrence

/-- Where no two items of a list have a property, one that has it is the only one. -/
theorem filter_eq_singleton {α : Type} {items : List α} {p : α → Bool} {item : α}
    (h : items.Pairwise fun a b => p a = true → p b = false) (hmem : item ∈ items)
    (hp : p item = true) : items.filter p = [item] := by
  obtain ⟨before, after, rfl⟩ := List.append_of_mem hmem
  obtain ⟨-, hafter, hbefore⟩ := List.pairwise_append.1 h
  have hnotBefore : ∀ a ∈ before, p a = false := by
    intro a ha
    cases hpa : p a with
    | false => rfl
    | true => rw [hbefore a ha item List.mem_cons_self hpa] at hp; cases hp
  have hnotAfter : ∀ b ∈ after, p b = false := fun b hb =>
    (List.pairwise_cons.1 hafter).1 b hb hp
  rw [List.filter_append, List.filter_cons, if_pos hp,
    List.filter_eq_nil_iff.2 fun a ha => by rw [hnotBefore a ha]; exact Bool.false_ne_true,
    List.filter_eq_nil_iff.2 fun b hb => by rw [hnotAfter b hb]; exact Bool.false_ne_true,
    List.nil_append]

namespace Target

variable {first second third : Target}

/-! ## One target -/

theorem same_self (target : Target) : target.same target = true := by
  cases target <;> simp [same]

theorem same_comm : first.same second = second.same first := by
  cases first <;> cases second <;> simp [same, Bool.beq_comm]

theorem same_trans (h : first.same second = true) (h' : second.same third = true) :
    first.same third = true := by
  cases first <;> cases second <;> cases third <;> simp_all [same]

end Target

namespace Sources

variable {sources : Sources} {source text : String} {target : Target} {offset : Int}
variable {references : List (String × List Occurrence)}

/-! ## Resolving -/

/-- **What is found at an offset is what the name resolves to that covers it.** -/
theorem targetAt_eq_some_iff (hget : sources.get? source = some text) :
    sources.targetAt source offset = .ok (some target) ↔
      ∃ occurrence ∈ Occurrence.inCommands source sources.globals
          (SatScript.forms (Text.blankedComments text.toList)),
        occurrence.span.covers offset = true ∧ occurrence.target = some target := by
  rw [targetAt, occurrences_eq hget]
  show Except.ok _ = Except.ok _ ↔ _
  rw [Except.ok.injEq]
  have hfinds : ∀ found, List.findSome? (fun occurrence : Occurrence =>
        if occurrence.span.covers offset then occurrence.target else none)
      (Occurrence.inCommands source sources.globals
        (SatScript.forms (Text.blankedComments text.toList))) = some found →
      ∃ occurrence ∈ Occurrence.inCommands source sources.globals
          (SatScript.forms (Text.blankedComments text.toList)),
        occurrence.span.covers offset = true ∧ occurrence.target = some found := by
    intro found hfound
    obtain ⟨occurrence, hmem, hfound⟩ := List.exists_of_findSome?_eq_some hfound
    split at hfound
    next hcovers => exact ⟨occurrence, hmem, hcovers, hfound⟩
    next => cases hfound
  refine ⟨hfinds target, ?_⟩
  rintro ⟨occurrence, hmem, hcovers, htarget⟩
  cases hfound : List.findSome? (fun occurrence : Occurrence =>
      if occurrence.span.covers offset then occurrence.target else none) _ with
  | none =>
    have hnone := List.findSome?_eq_none_iff.1 hfound occurrence hmem
    rw [if_pos hcovers, htarget] at hnone
    cases hnone
  | some found =>
    -- another name that covers the offset is the same name
    obtain ⟨other, hother, hcovers', htarget'⟩ := hfinds found hfound
    rw [Occurrence.eq_of_covers hmem hother hcovers hcovers'] at htarget
    rw [← htarget', htarget]

/-- The offset where a name begins finds what the name resolves to. -/
theorem targetAt_start (hget : sources.get? source = some text) {occurrence : Occurrence}
    (hmem : occurrence ∈ Occurrence.inCommands source sources.globals
      (SatScript.forms (Text.blankedComments text.toList)))
    (hlt : occurrence.start < occurrence.stop) (htarget : occurrence.target = some target) :
    sources.targetAt source occurrence.start = .ok (some target) := by
  refine (targetAt_eq_some_iff hget).2 ⟨occurrence, hmem, ?_, htarget⟩
  exact Span.covers_iff.2 ⟨Int.le_refl _, Int.ofNat_lt.2 hlt⟩

/-! ## The places of a target -/

/-- The places of occurrences that are given by source. -/
def places (references : List (String × List Occurrence)) : List Place :=
  references.flatMap fun (source, occurrences) =>
    occurrences.map fun occurrence => { source := some source, span := occurrence.span }

/-- The one place stands before the other, if they are in one source. -/
def PlacedBefore (first second : Place) : Prop :=
  first.source = second.source →
    first.span.start < second.span.start ∧ first.span.stop ≤ second.span.start

/-- Of places in one source that stand one before the other only one covers an
offset. -/
theorem PlacedBefore.covers_eq_false {first second : Place} (h : PlacedBefore first second)
    (hfirst : (first.source == some source && first.span.covers offset) = true) :
    (second.source == some source && second.span.covers offset) = false := by
  obtain ⟨hsource, hcovers⟩ := Bool.and_eq_true_iff.1 hfirst
  rw [Bool.and_eq_false_imp]
  intro hsource'
  obtain ⟨-, hle⟩ := h ((beq_iff_eq.1 hsource).trans (beq_iff_eq.1 hsource').symm)
  rw [Bool.eq_false_iff]
  intro hcovers'
  rw [Span.covers_iff] at hcovers hcovers'
  omega

/-- The references of a target are, for each source in which it is looked for, the names
that refer to it. -/
theorem of_mem_references (h : sources.references target = .ok references)
    {occurrences : List Occurrence} (hmem : (source, occurrences) ∈ references) :
    ∃ text, sources.get? source = some text ∧
      occurrences = (Occurrence.inCommands source sources.globals
        (SatScript.forms (Text.blankedComments text.toList))).filter (refersTo target) := by
  obtain ⟨name, -, hentry⟩ := exists_of_mem_right (forall₂_of_mapM_eq_ok h) hmem
  obtain ⟨all, hall, hentry⟩ := bind_eq_ok_iff.1 hentry
  cases pure_eq_ok_iff.1 hentry
  obtain ⟨text, hget, rfl⟩ := exists_of_occurrences hall
  exact ⟨text, hget, rfl⟩

/-- **A place of a target is where a name refers to it.** -/
theorem exists_of_mem_places (h : sources.references target = .ok references) {place : Place}
    (hmem : place ∈ places references) :
    ∃ source text, sources.get? source = some text ∧
      ∃ occurrence ∈ Occurrence.inCommands source sources.globals
          (SatScript.forms (Text.blankedComments text.toList)),
        refersTo target occurrence = true ∧
          place = { source := some source, span := occurrence.span } := by
  obtain ⟨⟨source, occurrences⟩, hentry, hplace⟩ := List.mem_flatMap.1 hmem
  obtain ⟨text, hget, rfl⟩ := of_mem_references h hentry
  obtain ⟨occurrence, hoccurrence, rfl⟩ := List.mem_map.1 hplace
  obtain ⟨hoccurrence, hrefers⟩ := List.mem_filter.1 hoccurrence
  exact ⟨source, text, hget, occurrence, hoccurrence, hrefers, rfl⟩

/-- And where a name refers to a target there is a place of it. -/
theorem mem_places (h : sources.references target = .ok references)
    (hget : sources.get? source = some text) {occurrence : Occurrence}
    (hmem : occurrence ∈ Occurrence.inCommands source sources.globals
      (SatScript.forms (Text.blankedComments text.toList)))
    (hrefers : refersTo target occurrence = true) :
    ({ source := some source, span := occurrence.span } : Place) ∈ places references := by
  have hvisible := Renaming.mem_visibleIn hget hmem hrefers
  rw [← Renaming.keys_references h] at hvisible
  obtain ⟨⟨_, occurrences⟩, hentry, rfl⟩ := List.mem_map.1 hvisible
  obtain ⟨text', hget', rfl⟩ := of_mem_references h hentry
  cases hget.symm.trans hget'
  exact List.mem_flatMap.2 ⟨_, hentry, List.mem_map.2
    ⟨occurrence, List.mem_filter.2 ⟨hmem, hrefers⟩, rfl⟩⟩

/-- **The places of a target stand one before the other** in each source. -/
theorem pairwise_places (h : sources.references target = .ok references) :
    (places references).Pairwise PlacedBefore := by
  rw [places, List.pairwise_flatMap]
  constructor
  · rintro ⟨source, occurrences⟩ hentry
    obtain ⟨text, -, rfl⟩ := of_mem_references h hentry
    refine List.pairwise_map.2 (((Occurrence.pairwise_before source sources.globals _).sublist
      List.filter_sublist).imp ?_)
    rintro first second ⟨hlt, hle⟩ -
    exact ⟨Int.ofNat_lt.2 hlt, Int.ofNat_le.2 hle⟩
  · -- places in different sources
    refine (List.pairwise_map.1 (Renaming.nodup_references h)).imp ?_
    rintro ⟨source, occurrences⟩ ⟨source', occurrences'⟩ hne first hfirst second hsecond hsame
    obtain ⟨_, -, rfl⟩ := List.mem_map.1 hfirst
    obtain ⟨_, -, rfl⟩ := List.mem_map.1 hsecond
    exact absurd (Option.some.inj hsame) hne

/-- A name refers to a target if it resolves to the same. -/
theorem refersTo_iff {occurrence : Occurrence} :
    refersTo target occurrence = true ↔
      ∃ found, occurrence.target = some found ∧ found.same target = true := by
  rw [refersTo]
  cases occurrence.target <;> simp

/-- **Resolving names and looking for references are inverse.** A target that is found
at an offset of a source has just one place there that covers it; and wherever
a place of a target covers an offset, that target is found. The places of one
target stand one before the other in each source, and those of two targets do
not overlap. -/
theorem targetAt_places (sources : Sources) :
    (∀ source offset target, sources.targetAt source offset = .ok (some target) →
      ∃ references, sources.references target = .ok references ∧
        ∃ span, (places references).filter (fun place =>
          place.source == some source && place.span.covers offset) =
            [{ source := some source, span }]) ∧
    (∀ target references, sources.references target = .ok references →
      (∀ place ∈ places references, ∃ source, place.source = some source ∧
        ∀ offset, place.span.covers offset = true →
          ∃ found, sources.targetAt source offset = .ok (some found) ∧
            found.same target = true) ∧
      (places references).Pairwise PlacedBefore) ∧
    ∀ target other references references', sources.references target = .ok references →
      sources.references other = .ok references' → target.same other = false →
        ∀ place ∈ places references, ∀ place' ∈ places references',
          place.source = place'.source → place.span.overlaps place'.span = false := by
  refine ⟨fun source offset target hfound => ?_, fun target references h => ⟨?_, pairwise_places h⟩,
    fun target other references references' h h' hother place hmem place' hmem' hsource => ?_⟩
  · obtain ⟨text, _, hin⟩ := Renaming.exists_found hfound
    obtain ⟨references, h⟩ := Renaming.exists_references hin.mem_keys_of_visibleIn
    obtain ⟨occurrence, hmem, hcovers, htarget⟩ := (targetAt_eq_some_iff hin.get).1 hfound
    have hplace := mem_places h hin.get hmem (refersTo_iff.2 ⟨target, htarget, target.same_self⟩)
    refine ⟨references, h, occurrence.span, filter_eq_singleton ?_ hplace ?_⟩
    · exact (pairwise_places h).imp PlacedBefore.covers_eq_false
    · rw [beq_self_eq_true, Bool.true_and]
      exact hcovers
  · intro place hmem
    obtain ⟨source, text, hget, occurrence, hoccurrence, hrefers, rfl⟩ :=
      exists_of_mem_places h hmem
    obtain ⟨found, hfound, hsame⟩ := refersTo_iff.1 hrefers
    refine ⟨source, rfl, fun offset hcovers => ⟨found, ?_, hsame⟩⟩
    exact (targetAt_eq_some_iff hget).2 ⟨occurrence, hoccurrence, hcovers, hfound⟩
  · obtain ⟨source, text, hget, occurrence, hoccurrence, hrefers, rfl⟩ :=
      exists_of_mem_places h hmem
    obtain ⟨source', text', hget', occurrence', hoccurrence', hrefers', rfl⟩ :=
      exists_of_mem_places h' hmem'
    cases hsource
    cases hget.symm.trans hget'
    refine Occurrence.overlaps_eq_false hoccurrence hoccurrence' ?_
    rintro rfl
    -- a name that refers to both makes them one
    obtain ⟨found, hfound, hsame⟩ := refersTo_iff.1 hrefers
    obtain ⟨found', hfound', hsame'⟩ := refersTo_iff.1 hrefers'
    cases hfound.symm.trans hfound'
    rw [Target.same_comm] at hsame
    rw [Target.same_trans hsame hsame'] at hother
    cases hother

/-- A global and a local of one name, and a second source that reads the global. -/
def sharedName : Sources :=
  Table.ofList [("a", "(declare-fun x () Real)(assert (let ((x 1)) (> x y)))"),
    ("b", "(assert (> x 0))")]

/-- The name in the body of the `let` is one of two places of the local, and none of
them overlaps a place of the global, which is found in the second source. -/
theorem targetAt_places_sharedName :
    sharedName.targetAt "a" 47 = .ok (some (.local "x" "a" 38)) ∧
      sharedName.targetAt "b" 11 = .ok (some (.global "x")) ∧
      ∃ locals globals, sharedName.references (.local "x" "a" 38) = .ok locals ∧
        sharedName.references (.global "x") = .ok globals ∧
        (∃ span, (places locals).filter (fun place =>
          place.source == some "a" && place.span.covers 47) = [{ source := some "a", span }]) ∧
        (∃ span, (places globals).filter (fun place =>
          place.source == some "b" && place.span.covers 11) = [{ source := some "b", span }]) ∧
        ∀ place ∈ places locals, ∀ place' ∈ places globals,
          place.source = place'.source → place.span.overlaps place'.span = false := by
  obtain ⟨hfind, -, hoverlap⟩ := targetAt_places sharedName
  have hlocal : sharedName.targetAt "a" 47 = .ok (some (.local "x" "a" 38)) := by decide +kernel
  have hglobal : sharedName.targetAt "b" 11 = .ok (some (.global "x")) := by decide +kernel
  obtain ⟨locals, hlocals, hone⟩ := hfind "a" 47 _ hlocal
  obtain ⟨globals, hglobals, hone'⟩ := hfind "b" 11 _ hglobal
  exact ⟨hlocal, hglobal, locals, globals, hlocals, hglobals, hone, hone',
    hoverlap _ _ _ _ hlocals hglobals rfl⟩

end Sources

end SatScript
