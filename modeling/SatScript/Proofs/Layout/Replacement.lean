import SatScript.Proofs.Edit.Parts
import SatScript.Proofs.Layout.Pieces
/-!
# SatScript — layouts with a new text for some atoms

Some atoms of a layout, marked by where they begin, get a new text.
`parts` takes the layout apart at these atoms, and `replace` is the layout
with the new text in their place. That it stands again
(`stands_replace`) needs one thing: if the new text has no quotes, then
each atom that it replaces is followed by something that ends an atom. A
quoted atom may be followed by anything, so this is no matter of course.
-/

namespace SatScript

/-- Two texts of which both are empty or neither is, and of which both could
follow an atom or neither could. -/
structure Alike (rest rest' : List Char) : Prop where
  nil_iff : rest = [] ↔ rest' = []
  delimited_iff : Delimited rest ↔ Delimited rest'

theorem Alike.refl (rest : List Char) : Alike rest rest := ⟨Iff.rfl, Iff.rfl⟩

theorem Alike.append {rest rest' : List Char} (before : List Char) (h : Alike rest rest') :
    Alike (before ++ rest) (before ++ rest') := by
  cases before with
  | nil => exact h
  | cons c before => exact ⟨by simp, by simp [delimited_cons]⟩

/-- Texts that begin with what begins an atom are alike. -/
theorem alike_of_head {text text' rest rest' : List Char}
    (h : ∃ c cs, text = c :: cs ∧ Reader.endsAtom c = false)
    (h' : ∃ c cs, text' = c :: cs ∧ Reader.endsAtom c = false) :
    Alike (text ++ rest) (text' ++ rest') := by
  obtain ⟨c, cs, rfl, hc⟩ := h
  obtain ⟨c', cs', rfl, hc'⟩ := h'
  exact ⟨by simp, by simp [delimited_cons, hc, hc']⟩

theorem IsAtomText.exists_cons {text : List Char} (h : IsAtomText text) :
    ∃ c cs, text = c :: cs ∧ Reader.endsAtom c = false :=
  (h.stands fun _ => delimited_nil).exists_cons

namespace Part

/-- An atom as a part: it changes if it is marked. The empty atom never
does. -/
def ofAtom (marked : Nat → Bool) (start : Nat) (text : List Char) : Part :=
  if text ≠ [] ∧ marked start = true then .changed text else .kept text

@[simp] theorem text_ofAtom (marked : Nat → Bool) (start : Nat) (text : List Char) :
    (ofAtom marked start text).text = text := by
  unfold ofAtom
  split <;> rfl

@[simp] theorem ofAtom_nil (marked : Nat → Bool) (start : Nat) :
    ofAtom marked start [] = .kept [] := by
  simp [ofAtom]

/-- A new text may replace a part before this rest. -/
def Apart (new : List Char) (_text rest : List Char) : Prop := IsPlain new → Delimited rest

/-- Parts with and without the new text are alike, if what changes are
atoms. -/
theorem alike_join {new : List Char} (hnew : IsAtomText new) {parts : List Part}
    {rest rest' : List Char} (h : Each AtomStands parts rest) (hrest : Alike rest rest') :
    Alike (join parts ++ rest) (joinWith new parts ++ rest') := by
  induction parts with
  | nil => exact hrest
  | cons part parts ih =>
    cases part with
    | kept text =>
      rw [join_cons, joinWith_cons, text_kept, textWith_kept, List.append_assoc, List.append_assoc]
      exact (ih h).append text
    | changed text =>
      rw [join_cons, joinWith_cons, List.append_assoc, List.append_assoc]
      exact alike_of_head h.1.exists_cons hnew.exists_cons

end Part

namespace Layout

mutual

/-- The parts of a layout that begins at an offset. -/
def parts (marked : Nat → Bool) (offset : Nat) : Layout → List Part
  | .atom before text =>
    [.kept before, Part.ofAtom marked (offset + Text.units before) text]
  | .list before items gap closed =>
    .kept (before ++ ['(']) ::
      (partsAll marked (offset + Text.units before + 1) items ++ [.kept (gap ++ closing closed)])

/-- The parts of layouts one after another. -/
def partsAll (marked : Nat → Bool) (offset : Nat) : List Layout → List Part
  | [] => []
  | item :: items =>
    parts marked offset item ++ partsAll marked (offset + Text.units (chars item)) items

end

mutual

/-- The layout with a new text for the marked atoms. -/
def replace (marked : Nat → Bool) (new : List Char) (offset : Nat) : Layout → Layout
  | .atom before text =>
    .atom before ((Part.ofAtom marked (offset + Text.units before) text).textWith new)
  | .list before items gap closed =>
    .list before (replaceAll marked new (offset + Text.units before + 1) items) gap closed

/-- The layouts one after another with a new text for the marked atoms. -/
def replaceAll (marked : Nat → Bool) (new : List Char) (offset : Nat) :
    List Layout → List Layout
  | [] => []
  | item :: items =>
    replace marked new offset item ::
      replaceAll marked new (offset + Text.units (chars item)) items

end

variable {marked : Nat → Bool} {new : List Char}

mutual

/-- The parts of a layout make it up. -/
theorem join_parts : ∀ (layout : Layout) (offset : Nat),
    Part.join (layout.parts marked offset) = layout.chars
  | .atom before text, offset => by simp [parts, chars]
  | .list before items gap closed, offset => by
    simp [parts, chars, join_partsAll items]

theorem join_partsAll : ∀ (items : List Layout) (offset : Nat),
    Part.join (partsAll marked offset items) = charsAll items
  | [], offset => rfl
  | item :: items, offset => by
    rw [partsAll, Part.join_append, join_parts item, join_partsAll items, charsAll]

end

mutual

/-- The parts with the new text make up the layout with it. -/
theorem joinWith_parts : ∀ (layout : Layout) (offset : Nat),
    Part.joinWith new (layout.parts marked offset) = (layout.replace marked new offset).chars
  | .atom before text, offset => by simp [parts, replace, chars]
  | .list before items gap closed, offset => by
    simp [parts, replace, chars, joinWith_partsAll items]

theorem joinWith_partsAll : ∀ (items : List Layout) (offset : Nat),
    Part.joinWith new (partsAll marked offset items) =
      charsAll (replaceAll marked new offset items)
  | [], offset => rfl
  | item :: items, offset => by
    rw [partsAll, Part.joinWith_append, joinWith_parts item, joinWith_partsAll items, replaceAll,
      charsAll]

end

/-- What a layout leaves open it leaves open with the new text. -/
theorem isSome_openAt?_replace (layout : Layout) (offset offset' : Nat) :
    ((layout.replace marked new offset).openAt? offset').isSome =
      (layout.openAt? offset').isSome := by
  cases layout with
  | atom before text => rfl
  | list before items gap closed =>
    rw [replace, openAt?, openAt?]
    cases closed with
    | true => rfl
    | false => simp

/-- The parts of a list change where the parts of its items do. -/
theorem each_parts_list {property : List Char → List Char → Prop} {before gap rest : List Char}
    {items : List Layout} {closed : Bool} {offset : Nat} :
    Part.Each property ((Layout.list before items gap closed).parts marked offset) rest ↔
      Part.Each property (partsAll marked (offset + Text.units before + 1) items)
        (gap ++ (closing closed ++ rest)) := by
  rw [parts, Part.Each, Part.each_append]
  simp [Part.Each]

mutual

/-- The changed parts of a layout are atoms that stand before what follows
them. -/
theorem each_atomStands_parts : ∀ {layout : Layout} {offset : Nat} {rest : List Char},
    layout.Stands rest → Part.Each AtomStands (layout.parts marked offset) rest
  | .atom before text, offset, rest, h => by
    rw [Stands] at h
    rw [parts, Part.ofAtom]
    split
    · exact ⟨h.2, trivial⟩
    · trivial
  | .list before items gap closed, offset, rest, h => by
    rw [Stands] at h
    rw [each_parts_list]
    obtain ⟨-, -, ⟨rfl, -⟩ | ⟨blanks, -, -, rfl, -⟩ | ⟨-, -, hitems⟩⟩ := h
    · trivial
    · simp [partsAll, parts, Part.Each]
    · exact each_atomStands_partsAll hitems

theorem each_atomStands_partsAll :
    ∀ {items : List Layout} {offset : Nat} {rest : List Char}, StandAll items rest →
      Part.Each AtomStands (partsAll marked offset items) rest
  | [], _, _, _ => trivial
  | item :: items, offset, rest, h => by
    rw [StandAll] at h
    rw [partsAll, Part.each_append, join_partsAll]
    exact ⟨each_atomStands_parts h.1, each_atomStands_partsAll h.2⟩

end

/-- Layouts with and without the new text are alike. -/
theorem alike_charsAll (hnew : IsAtomText new) {items : List Layout} {offset : Nat}
    {rest rest' : List Char} (h : StandAll items rest) (hrest : Alike rest rest') :
    Alike (charsAll items ++ rest) (charsAll (replaceAll marked new offset items) ++ rest') := by
  rw [← @join_partsAll marked items offset, ← joinWith_partsAll]
  exact Part.alike_join hnew (each_atomStands_partsAll h) hrest

mutual

/-- **A layout stands with the new text**, if that may replace each marked
atom. -/
theorem stands_replace (hnew : IsAtomText new) :
    ∀ {layout : Layout} {offset : Nat} {rest rest' : List Char}, layout.Stands rest →
      Part.Each (Part.Apart new) (layout.parts marked offset) rest → Alike rest rest' →
      (layout.replace marked new offset).Stands rest'
  | .atom before text, offset, rest, rest', h, hapart, hrest => by
    rw [Stands] at h
    rw [parts, Part.ofAtom] at hapart
    rw [replace, Stands, Part.ofAtom]
    refine ⟨h.1, ?_⟩
    split
    · rename_i hmarked
      rw [if_pos hmarked] at hapart
      exact hnew.stands fun hplain => hrest.delimited_iff.1 (hapart.1 hplain)
    · cases h.2 with
      | plain hplain hdelimited => exact .plain hplain (hrest.delimited_iff.1 hdelimited)
      | quoted hinner => exact .quoted hinner
      | cut hinner =>
        rw [hrest.nil_iff.1 rfl]
        exact .cut hinner
  | .list before items gap closed, offset, rest, rest', h, hapart, hrest => by
    rw [Stands] at h
    rw [each_parts_list] at hapart
    rw [replace, Stands]
    obtain ⟨hbefore, hend, hfilled⟩ := h
    refine ⟨hbefore, fun hopen => hrest.nil_iff.1 (hend hopen), ?_⟩
    -- the list holds nothing, or the empty atom, or items; only items are replaced in
    rcases hfilled with ⟨rfl, hgap⟩ | ⟨blanks, hne, hblanks, rfl, hgap⟩ | ⟨hne, hgap, hitems⟩
    · exact .inl ⟨rfl, hgap⟩
    · refine .inr (.inl ⟨blanks, hne, hblanks, ?_, hgap⟩)
      simp [replaceAll, replace]
    · refine .inr (.inr ⟨?_, hgap, ?_⟩)
      · cases items with
        | nil => exact absurd rfl hne
        | cons item items => exact List.cons_ne_nil _ _
      · exact standAll_replaceAll hnew hitems hapart ((hrest.append _).append _)

theorem standAll_replaceAll (hnew : IsAtomText new) :
    ∀ {items : List Layout} {offset : Nat} {rest rest' : List Char}, StandAll items rest →
      Part.Each (Part.Apart new) (partsAll marked offset items) rest → Alike rest rest' →
      StandAll (replaceAll marked new offset items) rest'
  | [], _, _, _, _, _, _ => by
    rw [replaceAll, StandAll]
    trivial
  | item :: items, offset, rest, rest', h, hapart, hrest => by
    rw [StandAll] at h
    rw [partsAll, Part.each_append, join_partsAll] at hapart
    rw [replaceAll, StandAll]
    exact ⟨stands_replace hnew h.1 hapart.1 (alike_charsAll hnew h.2 hrest),
      standAll_replaceAll hnew h.2 hapart.2 hrest⟩

end

end Layout

namespace Piece

/-- The parts of pieces one after another. -/
def parts (marked : Nat → Bool) (offset : Nat) : List Piece → List Part
  | [] => []
  | .form layout :: pieces =>
    layout.parts marked offset ++ parts marked (offset + Text.units layout.chars) pieces
  | .stray before :: pieces =>
    .kept (before ++ [')']) :: parts marked (offset + Text.units (before ++ [')'])) pieces

/-- The pieces with a new text for the marked atoms. -/
def replace (marked : Nat → Bool) (new : List Char) (offset : Nat) : List Piece → List Piece
  | [] => []
  | .form layout :: pieces =>
    .form (layout.replace marked new offset) ::
      replace marked new (offset + Text.units layout.chars) pieces
  | .stray before :: pieces =>
    .stray before :: replace marked new (offset + Text.units (before ++ [')'])) pieces

variable {marked : Nat → Bool} {new : List Char}

/-- The parts of pieces make them up. -/
theorem join_parts (pieces : List Piece) (offset : Nat) :
    Part.join (parts marked offset pieces) = charsAll pieces := by
  induction pieces generalizing offset with
  | nil => rfl
  | cons piece pieces ih =>
    cases piece with
    | form layout => rw [parts, Part.join_append, Layout.join_parts, ih, charsAll, chars]
    | stray before => rw [parts, Part.join_cons, Part.text_kept, ih, charsAll, chars]

/-- The parts with the new text make up the pieces with it. -/
theorem joinWith_parts (pieces : List Piece) (offset : Nat) :
    Part.joinWith new (parts marked offset pieces) =
      charsAll (replace marked new offset pieces) := by
  induction pieces generalizing offset with
  | nil => rfl
  | cons piece pieces ih =>
    cases piece with
    | form layout =>
      rw [parts, Part.joinWith_append, Layout.joinWith_parts, ih, replace, charsAll, chars]
    | stray before =>
      rw [parts, Part.joinWith_cons, Part.textWith_kept, ih, replace, charsAll, chars]

/-- The changed parts of pieces are atoms that stand before what follows
them. -/
theorem each_atomStands_parts {pieces : List Piece} {gap : List Char} {offset : Nat}
    (h : Laid pieces gap) : Part.Each AtomStands (parts marked offset pieces) gap := by
  induction pieces generalizing offset with
  | nil => trivial
  | cons piece pieces ih =>
    cases piece with
    | form layout =>
      rw [Laid] at h
      rw [parts, Part.each_append, join_parts]
      exact ⟨Layout.each_atomStands_parts h.1, ih h.2⟩
    | stray before =>
      rw [Laid] at h
      exact ih h.2

/-- **Pieces of a text are pieces of one with the new text**, if that may
replace each marked atom. -/
theorem laid_replace (hnew : IsAtomText new) {pieces : List Piece} {gap : List Char} {offset : Nat}
    (h : Laid pieces gap) (hapart : Part.Each (Part.Apart new) (parts marked offset pieces) gap) :
    Laid (replace marked new offset pieces) gap := by
  induction pieces generalizing offset with
  | nil => exact h
  | cons piece pieces ih =>
    cases piece with
    | form layout =>
      rw [Laid] at h
      rw [parts, Part.each_append, join_parts] at hapart
      refine ⟨Layout.stands_replace hnew h.1 hapart.1 ?_, ih h.2 hapart.2⟩
      rw [← @join_parts marked pieces (offset + Text.units layout.chars), ← joinWith_parts]
      exact Part.alike_join hnew (each_atomStands_parts h.2) (Alike.refl gap)
    | stray before =>
      rw [Laid] at h
      exact ⟨h.1, ih h.2 hapart⟩

end Piece

end SatScript
