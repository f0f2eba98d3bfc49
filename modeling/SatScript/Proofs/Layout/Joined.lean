import SatScript.Proofs.Layout.Respaced
import SatScript.Proofs.Layout.Shift
/-!
# SatScript — texts one behind the other

Reading is compositional: the forms of two texts, one behind the other, are
those of the first and, as far on as the first is long, those of the second
(`readAll_append`). For this the first text must be well delimited, and it
must not end in an atom that the second could go on with: it ends in a blank,
a parenthesis, or the bar of a quoted atom. What the second text is does not
matter; where it leaves a list open, that is what is reported.

The first text is taken layout by layout. A layout that stands before
something stands before more of it (`Stands.append`), and at the end of a text
so does one that is *sealed*: a closed list, or a quoted atom.
-/

namespace SatScript

namespace Layout

/-- Nothing can go on with the layout: it is a quoted atom or a closed list. -/
def Sealed : Layout → Prop
  | .atom _ text => ∃ inner, '|' ∉ inner ∧ text = quoted inner
  | .list _ _ _ closed => closed = true

end Layout

/-- An atom that stands before something stands before more of it. -/
theorem AtomStands.append {text rest : List Char} (h : AtomStands text rest)
    (hend : rest = [] → ∃ inner, '|' ∉ inner ∧ text = SatScript.quoted inner) (more : List Char) :
    AtomStands text (rest ++ more) := by
  by_cases hrest : rest = []
  · obtain ⟨inner, hinner, rfl⟩ := hend hrest
    exact .quoted hinner
  · cases h with
    | quoted hinner => exact .quoted hinner
    | cut _ => exact absurd rfl hrest
    | plain hplain hdelimited =>
      refine .plain hplain fun c hc => hdelimited c ?_
      rwa [List.head?_append_of_ne_nil _ hrest] at hc

namespace Layout

mutual

/-- **A layout that stands before something stands before more of it**, and one
that is sealed before anything. -/
theorem Stands.append : ∀ {layout : Layout} {rest : List Char}, layout.Stands rest →
    (rest = [] → layout.Sealed) → ∀ more, layout.Stands (rest ++ more)
  | .atom before text, rest, h, hend, more => by
    rw [Stands] at h ⊢
    exact ⟨h.1, h.2.append hend more⟩
  | .list before items gap false, rest, h, hend, _ => by
    rw [Stands] at h
    exact absurd (hend (h.2.1 rfl)) Bool.false_ne_true
  | .list before items gap true, rest, h, _, more => by
    rw [Stands] at h ⊢
    obtain ⟨hbefore, -, hfilled⟩ := h
    refine ⟨hbefore, nofun, hfilled.imp_right (Or.imp_right ?_)⟩
    rintro ⟨hne, hgap, hitems⟩
    -- the parenthesis stands behind the items
    have hrest : gap ++ (closing true ++ rest) ≠ [] := by simp
    have hmore := StandAll.append hitems hrest more
    rw [List.append_assoc, List.append_assoc] at hmore
    exact ⟨hne, hgap, hmore⟩

/-- Layouts that stand before something stand before more of it. -/
theorem StandAll.append : ∀ {items : List Layout} {rest : List Char}, StandAll items rest →
    rest ≠ [] → ∀ more, StandAll items (rest ++ more)
  | [], _, _, _, _ => trivial
  | item :: items, rest, h, hrest, more => by
    rw [StandAll] at h ⊢
    have hne : charsAll items ++ rest ≠ [] := List.append_ne_nil_of_right_ne_nil _ hrest
    rw [← List.append_assoc]
    exact ⟨h.1.append (fun hnil => absurd hnil hne) more, h.2.append hrest more⟩

end

end Layout

namespace Piece

variable {pieces : List Piece} {gap : List Char}

/-- Layouts that leave nothing open leave nothing open one after another. -/
theorem openAt?_of_shut (hshut : ∀ piece ∈ pieces, piece.Shut) (offset : Nat) :
    openAt? offset pieces = none := by
  induction pieces generalizing offset with
  | nil => rfl
  | cons piece pieces ih =>
    obtain ⟨hpiece, hpieces⟩ := List.forall_mem_cons.1 hshut
    cases piece with
    | stray before => exact hpiece.elim
    | form layout => rw [openAt?, hpiece, ih hpieces, Option.none_or]

/-- The text ends with something that is sealed, or with blanks. -/
def Ended (pieces : List Piece) (gap : List Char) : Prop :=
  gap = [] → ∀ layout, pieces.getLast? = some (.form layout) → layout.Sealed

theorem Ended.tail {piece : Piece} (h : Ended (piece :: pieces) gap) : Ended pieces gap := by
  intro hgap layout hlast
  refine h hgap layout ?_
  rw [List.getLast?_cons, hlast]
  rfl

/-- The last layout of a text ends it, and its form is the last one. -/
theorem exists_of_getLast? {layout : Layout} (h : Laid pieces [])
    (hlast : pieces.getLast? = some (.form layout)) (afterStray : Bool) (offset : Nat) :
    layout.Stands [] ∧ (∃ before, charsAll pieces = before ++ layout.chars) ∧
      ∃ offset', (forms afterStray offset [] pieces).getLast? = some (layout.form offset') := by
  induction pieces generalizing afterStray offset with
  | nil => cases hlast
  | cons piece pieces ih =>
    by_cases hnil : pieces = []
    · subst hnil
      obtain rfl : piece = .form layout := by simpa using hlast
      rw [Laid] at h
      exact ⟨h.1, ⟨[], List.append_nil _⟩, offset, by simp [forms]⟩
    · have hlast' : pieces.getLast? = some (.form layout) := by
        obtain ⟨other, pieces, rfl⟩ := List.exists_cons_of_ne_nil hnil
        rwa [List.getLast?_cons_cons] at hlast
      cases piece with
      | form first =>
        rw [Laid] at h
        obtain ⟨hstands, ⟨before, hchars⟩, offset', hform⟩ :=
          ih h.2 hlast' false (offset + Text.units first.chars)
        refine ⟨hstands, ⟨first.chars ++ before, ?_⟩, offset', ?_⟩
        · rw [charsAll, chars, hchars, List.append_assoc]
        · rw [forms, List.getLast?_cons, hform, Option.getD_some]
      | stray blanks =>
        rw [Laid] at h
        obtain ⟨hstands, ⟨before, hchars⟩, offset', hform⟩ :=
          ih h.2 hlast' true (offset + Text.units (blanks ++ [')']))
        refine ⟨hstands, ⟨blanks ++ [')'] ++ before, ?_⟩, offset', ?_⟩
        · rw [charsAll, chars, hchars, List.append_assoc (blanks ++ [')'])]
        · rw [forms, List.getLast?_cons, hform, Option.getD_some]

/-- A text with a piece in it is not empty. -/
theorem eq_nil_of_charsAll {pieces : List Piece} {gap : List Char} (h : Laid pieces gap)
    (hchars : charsAll pieces = []) : pieces = [] := by
  cases pieces with
  | nil => rfl
  | cons piece pieces =>
    rw [charsAll, List.append_eq_nil_iff] at hchars
    cases piece with
    | form layout =>
      rw [Laid] at h
      exact absurd hchars.1 h.1.chars_ne_nil
    | stray before => simp [chars] at hchars

end Piece

/-- The atoms of one of the forms are atoms of the forms. -/
theorem Form.mem_leavesAll {forms : List Form} {form : Form} {leaf : Leaf} (hform : form ∈ forms)
    (hleaf : leaf ∈ leaves form) : leaf ∈ leavesAll forms := by
  induction forms with
  | nil => exact absurd hform List.not_mem_nil
  | cons first forms ih =>
    rw [leavesAll, List.mem_append]
    rcases List.mem_cons.1 hform with rfl | hform
    · exact .inl hleaf
    · exact .inr (ih hform)

/-- The form is an atom that begins with a bar. -/
def Form.isQuoted : Form → Bool
  | .atom text _ _ => text.toList.head? == some '|'
  | .list _ _ _ => false

/-- The text ends in a blank, a closing parenthesis or the bar of a quoted atom,
unless it is empty. -/
def EndsSealed (cs : List Char) : Prop :=
  ∀ c, cs.getLast? = some c →
    Text.isBlank c = true ∨ c = ')' ∨ c = '|' ∧ (forms cs).getLast?.any Form.isQuoted = true

/-- In a text that ends so, and leaves no list and no quoted atom open, what
stands last is sealed. -/
theorem Piece.ended_of_endsSealed {pieces : List Piece} {gap : List Char} (h : Laid pieces gap)
    (hshut : ∀ piece ∈ pieces, piece.Shut)
    (hquoted : ∀ leaf ∈ Form.leavesAll (forms false 0 gap pieces),
      leaf.text.toList.head? = some '|' → leaf.text.toList.tail.getLast? = some '|')
    (hend : EndsSealed (charsAll pieces ++ gap)) : Ended pieces gap := by
  rintro rfl layout hlast
  obtain ⟨hstands, ⟨front, hchars⟩, offset, hform⟩ := exists_of_getLast? h hlast false 0
  cases layout with
  | list before items gap closed =>
    cases closed with
    | true => rfl
    | false =>
      have hopen := hshut _ (List.mem_of_getLast? hlast) 0
      rw [Layout.openAt?, if_neg Bool.false_ne_true, Option.or_eq_none_iff] at hopen
      cases hopen.2
  | atom before text =>
    rw [Layout.Stands] at hstands
    rw [Layout.form] at hform
    have hmem := List.mem_of_getLast? hform
    have hleaf := Form.mem_leavesAll hmem (List.mem_singleton_self _)
    cases hstands.2 with
    | @quoted inner _ hinner => exact ⟨inner, hinner, rfl⟩
    | @cut inner hinner =>
      have hbar : inner.getLast? = some '|' := by simpa using hquoted _ hleaf (by simp)
      exact absurd (List.mem_of_getLast? hbar) hinner
    | plain hplain _ =>
      -- the last character of a plain atom ends none, and its first is no bar
      have hc := List.getLast?_eq_some_getLast hplain.ne_nil
      generalize text.getLast hplain.ne_nil = c at hc
      have hlastChar : (charsAll pieces ++ []).getLast? = some c := by
        simp [hchars, Layout.chars, List.getLast?_append, hc]
      obtain ⟨hblank, -, hclose⟩ :=
        of_endsAtom_eq_false (hplain.not_endsAtom c (List.mem_of_getLast? hc))
      rcases hend c hlastChar with hend | hend | ⟨-, hend⟩
      · exact absurd hend (by simp [hblank])
      · exact absurd hend hclose
      · rw [forms_pieces h, hform] at hend
        exact absurd (by simpa [Form.isQuoted] using hend) hplain.head_ne_bar

namespace Cursor

/-- **A text whose lists are closed is read as its forms, whatever follows it**,
and then what follows is read, from where the text ends. -/
theorem readMore_append {strict : Bool} {pieces : List Piece} {gap : List Char} {offset : Nat}
    (h : Piece.Laid pieces gap) (hshut : ∀ piece ∈ pieces, piece.Shut)
    (hend : Piece.Ended pieces gap) (more : List Char) :
    readMore strict (skipBlanks ⟨offset, Piece.charsAll pieces ++ gap ++ more⟩) =
      (Piece.forms false offset gap pieces ++ ·) <$>
        readMore strict
          (skipBlanks ⟨offset + Text.units (Piece.charsAll pieces ++ gap), more⟩) := by
  induction pieces generalizing offset with
  | nil =>
    rw [Piece.Laid] at h
    rw [Piece.charsAll, List.nil_append, skipBlanks, skipFrom_blanks h, Piece.forms,
      if_neg (by simp)]
    exact (id_map _).symm
  | cons piece pieces ih =>
    obtain ⟨hpiece, hpieces⟩ := List.forall_mem_cons.1 hshut
    cases piece with
    | stray before => exact hpiece.elim
    | form layout =>
      rw [Piece.Laid] at h
      -- the layout stands before more, for where it is the last it is sealed
      have hstands : layout.Stands (Piece.charsAll pieces ++ gap ++ more) := by
        refine h.1.append (fun hnil => ?_) more
        obtain ⟨hchars, hgap⟩ := List.append_eq_nil_iff.1 hnil
        obtain rfl := Piece.eq_nil_of_charsAll h.2 hchars
        exact hend hgap layout rfl
      have hrest : (skipBlanks ⟨offset,
          layout.chars ++ (Piece.charsAll pieces ++ gap ++ more)⟩).rest ≠ [] :=
        @rest_entering_layout_ne_nil offset false _ _ hstands
      have hone := readOne_layout hstands fun _ : strict = true => hpiece offset
      rw [Piece.charsAll, Piece.chars, List.append_assoc, List.append_assoc,
        ← List.append_assoc (Piece.charsAll pieces),
        readMore_of_readOne hrest ((readOne_skipBlanks strict _).trans hone),
        behind_layout hstands, ih h.2 hpieces hend.tail, Piece.forms,
        List.append_assoc layout.chars, Text.units_append layout.chars, ← Nat.add_assoc]
      cases readMore strict _ <;> rfl

end Cursor

/-- **Reading is compositional.** Let the first text leave no list and no quoted
atom open, let no parenthesis of it close nothing, and let it be empty or end
in a blank, a parenthesis or the bar of a quoted atom. Then the forms of both
texts, one behind the other, are its own and, as far on as it is long, those
of the second; and where the strict mode reports a list that the second leaves
open, it reports it as far on. -/
theorem readAll_append (first second : List Char) (strict : Bool) (hfirst : WellDelimited first)
    (hend : EndsSealed first) :
    readAll strict first = .ok (forms first) ∧
      readAll strict (first ++ second) =
        match readAll strict second with
        | .ok found => .ok (forms first ++ Form.shiftAll (Text.units first) found)
        | .error unclosed =>
          .error ⟨unclosed.start + Text.units first, unclosed.stop + Text.units first⟩ := by
  obtain ⟨hstray, hclosed, hquoted⟩ := hfirst
  obtain ⟨pieces, gap, rfl, hlaid⟩ := exists_pieces first
  rw [forms_pieces hlaid] at hstray hclosed hquoted ⊢
  have hshut := Piece.shut_of_closed hlaid hstray hclosed
  have hended := Piece.ended_of_endsSealed hlaid hshut hquoted hend
  have hjoined : readAll strict (Piece.charsAll pieces ++ gap ++ second) =
      (Piece.forms false 0 gap pieces ++ ·) <$>
        ((Cursor.ofText second).shift (Text.units (Piece.charsAll pieces ++ gap))).readAll strict :=
    Cursor.readMore_append hlaid hshut hended second
  refine ⟨readAll_pieces hlaid fun _ => Piece.openAt?_of_shut hshut 0, ?_⟩
  rw [hjoined, Cursor.readAll_shift, readAll]
  cases (Cursor.ofText second).readAll strict <;> rfl

/-- The first text ends in the bar of a quoted atom, which holds a parenthesis;
the second begins with an atom and leaves a list open. -/
theorem readAll_append_quoted :
    let first := "(f) |a(|".toList
    let second := "b (c".toList
    (WellDelimited first ∧ EndsSealed first) ∧
      readAll true (first ++ second) = .error ⟨10, 12⟩ ∧
      readAll false (first ++ second) =
        .ok [.list [.atom "f" 1 2] 0 3, .atom "|a(|" 4 8, .atom "b" 8 9,
          .list [.atom "c" 11 12] 10 12] := by
  have hall : forms "(f) |a(|".toList = [.list [.atom "f" 1 2] 0 3, .atom "|a(|" 4 8] := by cbv
  have hfirst : WellDelimited "(f) |a(|".toList := by
    constructor <;> rw [hall] <;> decide
  have hend : EndsSealed "(f) |a(|".toList := by
    intro c hc
    obtain rfl : '|' = c := Option.some.inj (Eq.trans (by decide) hc)
    exact .inr (.inr ⟨rfl, by rw [hall]; decide⟩)
  have hstrict : readAll true "b (c".toList = .error ⟨2, 4⟩ := by cbv
  have hlenient : readAll false "b (c".toList =
      .ok [.atom "b" 0 1, .list [.atom "c" 3 4] 2 4] := by cbv
  have hunits : Text.units "(f) |a(|".toList = 8 := by decide
  intro first second
  refine ⟨⟨hfirst, hend⟩, ?_, ?_⟩
  · rw [(readAll_append first second true hfirst hend).2, hstrict, hunits]
  · rw [(readAll_append first second false hfirst hend).2, hlenient, hall, hunits]
    rfl

end SatScript
