import SatScript.Proofs.Layout.Reading
/-!
# SatScript — layouts of whole texts

At top level stand layouts and, since a text may hold one, parentheses
that close nothing. `Laid pieces gap` says that these pieces, with blanks
up to the end of the text, are what the reader finds, and `forms` which
forms they are: a parenthesis that closes nothing counts as the empty atom,
and blanks directly behind the last one as another, since a form is due
there. `readAll_pieces` says that the reader makes just these forms of
the text.
-/

namespace SatScript

/-- What stands at top level: a layout, or blanks and a parenthesis that closes
nothing. -/
inductive Piece where
  | form (layout : Layout)
  | stray (before : List Char)

namespace Piece

/-- The characters of a piece. -/
def chars : Piece → List Char
  | .form layout => layout.chars
  | .stray before => before ++ [')']

/-- The characters of pieces one after another. -/
def charsAll : List Piece → List Char
  | [] => []
  | piece :: pieces => chars piece ++ charsAll pieces

/-- The pieces are what the reader finds in a text that they make up with the
blanks at its end. -/
def Laid : List Piece → List Char → Prop
  | [], gap => Blanks gap
  | .form layout :: pieces, gap => layout.Stands (charsAll pieces ++ gap) ∧ Laid pieces gap
  | .stray before :: pieces, gap => Blanks before ∧ Laid pieces gap

/-- The forms of pieces at an offset, with the blanks behind them. -/
def forms (afterStray : Bool) (offset : Nat) (gap : List Char) : List Piece → List Form
  | [] =>
    if afterStray ∧ gap ≠ [] then [Reader.emptyAtom (offset + Text.units gap)] else []
  | .form layout :: pieces =>
    layout.form offset :: forms false (offset + Text.units layout.chars) gap pieces
  | .stray before :: pieces =>
    Reader.emptyAtom (offset + Text.units before) ::
      forms true (offset + Text.units (before ++ [')'])) gap pieces

/-- Where the innermost list begins that is left open. -/
def openAt? (offset : Nat) : List Piece → Option Nat
  | [] => none
  | .form layout :: pieces =>
    (layout.openAt? offset).or (openAt? (offset + Text.units layout.chars) pieces)
  | .stray before :: pieces => openAt? (offset + Text.units (before ++ [')'])) pieces

end Piece

namespace Cursor

variable {strict : Bool} {offset : Nat}

/-- Where the reader of all forms stands: behind a parenthesis that closes
nothing it has not passed over blanks yet. -/
def entering (afterStray : Bool) (cursor : Cursor) : Cursor :=
  if afterStray then cursor else cursor.skipBlanks

@[simp] theorem entering_true (cursor : Cursor) : entering true cursor = cursor := rfl

@[simp] theorem entering_false (cursor : Cursor) : entering false cursor = cursor.skipBlanks := rfl

theorem readOne_entering (afterStray : Bool) (cursor : Cursor) :
    (entering afterStray cursor).readOne strict = cursor.readOne strict := by
  cases afterStray with
  | true => rfl
  | false => exact readOne_skipBlanks strict cursor

/-- Reading goes on where anything but blanks is left. -/
theorem rest_entering_ne_nil {afterStray : Bool} {before cs : List Char} {c : Char}
    (h : Blanks before) (hc : Text.isBlank c = false) :
    (entering afterStray ⟨offset, before ++ c :: cs⟩).rest ≠ [] := by
  cases afterStray with
  | true => simp
  | false => simp [skipBlanks, skipFrom_blanks h, skipFrom, hc]

/-- Where a layout stands, reading goes on. -/
theorem rest_entering_layout_ne_nil {afterStray : Bool} {layout : Layout} {rest : List Char}
    (h : layout.Stands rest) :
    (entering afterStray ⟨offset, layout.chars ++ rest⟩).rest ≠ [] := by
  obtain ⟨before, c, cs, hbefore, hc, -, hchars⟩ := h.exists_begin
  rw [hchars, List.append_assoc]
  exact rest_entering_ne_nil hbefore hc

/-- Reading all forms reads one and goes on behind it. -/
theorem readMore_of_readOne {cursor : Cursor} {reading : Reading} (hrest : cursor.rest ≠ [])
    (hone : cursor.readOne strict = .ok reading) :
    readMore strict cursor = (reading.form :: ·) <$> readMore strict (behind reading) := by
  obtain ⟨offset, cs⟩ := cursor
  cases cs with
  | nil => exact absurd rfl hrest
  | cons c cs =>
    rw [readMore]
    split
    · simp_all
    · rename_i found hfound
      rw [hfound] at hone
      cases hone
      rfl

/-- Behind a layout blanks are passed over. -/
theorem behind_layout {layout : Layout} {rest : List Char} {next : Cursor}
    (h : layout.Stands rest) : behind ⟨layout.form offset, next⟩ = next.skipBlanks := by
  cases layout with
  | list before items gap closed => rfl
  | atom before text =>
    rw [Layout.Stands] at h
    obtain ⟨c, cs, rfl, -⟩ := h.2.exists_cons
    rw [Layout.form, behind]
    · simp

/-- Behind a parenthesis that closes nothing the reader stands directly. -/
theorem readOne_stray {before cs : List Char} (h : Blanks before) :
    readOne strict ⟨offset, before ++ ')' :: cs⟩ =
      .ok ⟨Reader.emptyAtom (offset + Text.units before),
        ⟨offset + Text.units before, ')' :: cs⟩⟩ := by
  rw [readOne, Reader.State.initial, Reader.readFrom_due_blanks h]
  rfl

/-- Where only blanks are left, the empty atom is read. -/
theorem readOne_blanks {gap : List Char} (h : Blanks gap) :
    readOne strict ⟨offset, gap⟩ =
      .ok ⟨Reader.emptyAtom (offset + Text.units gap), ⟨offset + Text.units gap, []⟩⟩ := by
  rw [readOne, Reader.State.initial, ← List.append_nil gap, Reader.readFrom_due_blanks h,
    List.append_nil]
  rfl

/-- **All pieces are read as their forms**, from wherever the reader of all
forms may stand. -/
theorem readMore_pieces {afterStray : Bool} {gap : List Char} :
    ∀ {pieces : List Piece} {offset : Nat}, Piece.Laid pieces gap →
      (strict = true → Piece.openAt? offset pieces = none) →
      readMore strict (entering afterStray ⟨offset, Piece.charsAll pieces ++ gap⟩) =
        .ok (Piece.forms afterStray offset gap pieces) := by
  intro pieces
  induction pieces generalizing afterStray with
  | nil =>
    intro offset h _
    rw [Piece.Laid] at h
    rw [Piece.charsAll, List.nil_append, Piece.forms]
    cases afterStray with
    | false =>
      rw [← List.append_nil gap, entering_false, skipBlanks, skipFrom_blanks h, skipFrom, readMore]
      rfl
    | true =>
      by_cases hne : gap = []
      · rw [hne, entering_true, readMore]
        rfl
      · -- only blanks are left, and a form is due
        rw [entering_true, readMore_of_readOne hne (readOne_blanks h), if_pos ⟨rfl, hne⟩]
        simp only [behind, Reader.emptyAtom, skipBlanks, skipFrom, readMore]
        rfl
  | cons piece pieces ih =>
    intro offset h hopen
    cases piece with
    | form layout =>
      rw [Piece.Laid] at h
      rw [Piece.openAt?] at hopen
      -- one form is read, and then the reader passes over the blanks behind it
      have hone := readOne_layout h.1 fun hs => (Option.or_eq_none_iff.1 (hopen hs)).1
      rw [Piece.charsAll, Piece.chars, List.append_assoc,
        readMore_of_readOne (rest_entering_layout_ne_nil h.1)
          ((readOne_entering afterStray _).trans hone),
        behind_layout h.1, ← entering_false,
        ih h.2 fun hs => (Option.or_eq_none_iff.1 (hopen hs)).2]
      rfl
    | stray before =>
      rw [Piece.Laid] at h
      rw [Piece.openAt?, Text.units_append, ← Nat.add_assoc] at hopen
      rw [Piece.charsAll, Piece.chars, List.append_assoc, List.append_assoc,
        List.singleton_append, readMore_of_readOne (rest_entering_ne_nil h.1 rfl)
          ((readOne_entering afterStray _).trans (readOne_stray h.1))]
      -- the parenthesis is passed over, and the blanks behind it are not
      have hmore : readMore strict ⟨offset + Text.units before + 1, Piece.charsAll pieces ++ gap⟩ =
          .ok (Piece.forms true (offset + Text.units before + 1) gap pieces) :=
        @ih true _ h.2 hopen
      have hbehind : behind ⟨Reader.emptyAtom (offset + Text.units before),
          ⟨offset + Text.units before, ')' :: (Piece.charsAll pieces ++ gap)⟩⟩ =
            ⟨offset + Text.units before + 1, Piece.charsAll pieces ++ gap⟩ := rfl
      rw [hbehind, hmore, Piece.forms, Text.units_append, ← Nat.add_assoc]
      rfl

end Cursor

/-- **All forms of a text are those of its pieces.** -/
theorem readAll_pieces {strict : Bool} {pieces : List Piece} {gap : List Char}
    (h : Piece.Laid pieces gap) (hopen : strict = true → Piece.openAt? 0 pieces = none) :
    readAll strict (Piece.charsAll pieces ++ gap) = .ok (Piece.forms false 0 gap pieces) :=
  @Cursor.readMore_pieces strict false gap pieces 0 h hopen

/-- The forms of a text, lists closed at its end, are those of its pieces. -/
theorem forms_pieces {pieces : List Piece} {gap : List Char} (h : Piece.Laid pieces gap) :
    forms (Piece.charsAll pieces ++ gap) = Piece.forms false 0 gap pieces := by
  rw [forms, readAll_pieces h fun hs => absurd hs Bool.false_ne_true]

end SatScript
