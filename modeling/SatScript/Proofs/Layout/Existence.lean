import SatScript.Proofs.Layout.Pieces
/-!
# SatScript — every text has a layout

Any text is laid out as pieces up to blanks at its end
(`exists_pieces`), malformed ones included: lists and quotes may be left
open, and parentheses may close nothing. Together with `readAll_pieces`
this replaces what the reader does by what stands in the text. Nothing is
lost on the way, since the pieces make up the text.
-/

namespace SatScript

/-- A text splits at the first character that fails a test. -/
theorem exists_run (p : Char → Bool) (cs : List Char) :
    ∃ run rest, cs = run ++ rest ∧ (∀ c ∈ run, p c = true) ∧
      ∀ c, rest.head? = some c → p c = false := by
  refine ⟨cs.takeWhile p, cs.dropWhile p, List.takeWhile_append_dropWhile.symm, ?_, ?_⟩
  · exact List.all_eq_true.1 List.all_takeWhile
  · intro c hc
    have hnot := List.head?_dropWhile_not p cs
    rw [hc] at hnot
    simpa using hnot

/-- An atom stands wherever a character does that ends none. -/
theorem exists_atom {c : Char} (hc : Reader.endsAtom c = false) (cs : List Char) :
    ∃ text rest, c :: cs = text ++ rest ∧ AtomStands text rest := by
  -- a bar begins a quoted atom, which the end of the text may cut short
  by_cases hbar : c = '|'
  · subst hbar
    obtain ⟨inner, rest, rfl, hinner, hrest⟩ := exists_run (fun d => d != '|') cs
    have hbars : '|' ∉ inner := fun h => absurd (hinner _ h) (by decide)
    cases rest with
    | nil => exact ⟨'|' :: inner, [], by simp, .cut hbars⟩
    | cons d rest =>
      obtain rfl : d = '|' := by simpa using hrest d rfl
      exact ⟨quoted inner, rest, by simp [quoted], .quoted hbars⟩
  · obtain ⟨text, rest, htext, hin, hrest⟩ :=
      exists_run (fun d => !Reader.endsAtom d) (c :: cs)
    refine ⟨text, rest, htext, .plain ⟨?_, ?_, ?_⟩ ?_⟩
    · rintro rfl
      rw [List.nil_append] at htext
      have hhead := hrest c (by rw [← htext]; rfl)
      simp [hc] at hhead
    · cases text with
      | nil => simp
      | cons d text =>
        obtain ⟨rfl, -⟩ := List.cons.inj htext
        simpa using hbar
    · intro d hd
      simpa using hin d hd
    · intro d hd
      simpa using hrest d hd

namespace Layout

/-- What can stand behind an opening parenthesis: items, blanks, and the
parenthesis that closes them, or else the end of the text. -/
def Fills (cs : List Char) : Prop :=
  ∃ items gap closed rest, cs = charsAll items ++ (gap ++ (closing closed ++ rest)) ∧
    Blanks gap ∧ (closed = false → rest = []) ∧
      StandAll items (gap ++ (closing closed ++ rest))

/-- A list stands before what follows what fills it. -/
theorem exists_list {before cs : List Char} (hbefore : Blanks before) (h : Fills cs) :
    ∃ (layout : Layout) (rest : List Char),
      before ++ '(' :: cs = layout.chars ++ rest ∧ layout.Stands rest := by
  obtain ⟨items, gap, closed, rest, rfl, hgap, hend, hitems⟩ := h
  cases items with
  | cons item items =>
    refine ⟨.list before (item :: items) gap closed, rest, by simp [chars], ?_⟩
    rw [Stands]
    exact ⟨hbefore, hend, .inr (.inr ⟨List.cons_ne_nil _ _, hgap, hitems⟩)⟩
  | nil =>
    by_cases hne : gap = []
    · subst hne
      refine ⟨.list before [] [] closed, rest, by simp [chars, charsAll], ?_⟩
      rw [Stands]
      exact ⟨hbefore, hend, .inl ⟨rfl, rfl⟩⟩
    · refine ⟨.list before [.atom gap []] [] closed, rest, by simp [chars, charsAll], ?_⟩
      rw [Stands]
      exact ⟨hbefore, hend, .inr (.inl ⟨gap, hne, hgap, rfl, rfl⟩)⟩

/-- A layout stands wherever a character does that is no blank and closes
nothing, if whatever is shorter can fill a list. -/
theorem exists_layout {before cs : List Char} {c : Char} (hbefore : Blanks before)
    (hblank : Text.isBlank c = false) (hclose : c ≠ ')')
    (hfill : c = '(' → Fills cs) :
    ∃ (layout : Layout) (rest : List Char),
      before ++ c :: cs = layout.chars ++ rest ∧ layout.Stands rest := by
  by_cases hopen : c = '('
  · subst hopen
    exact exists_list hbefore (hfill rfl)
  · have hc : Reader.endsAtom c = false := by simp [Reader.endsAtom, hblank, hopen, hclose]
    obtain ⟨text, rest, htext, hatom⟩ := exists_atom hc cs
    refine ⟨.atom before text, rest, by rw [chars, htext, List.append_assoc], ?_⟩
    rw [Stands]
    exact ⟨hbefore, hatom⟩

/-- **Whatever stands behind an opening parenthesis fills a list.** -/
theorem fills (cs : List Char) : Fills cs := by
  obtain ⟨gap, rest, hcs, hgap, hrest⟩ := exists_run Text.isBlank cs
  cases rest with
  | nil =>
    refine ⟨[], gap, false, [], by simpa [charsAll] using hcs, hgap, fun _ => rfl, ?_⟩
    rw [StandAll]
    trivial
  | cons c rest =>
    by_cases hclose : c = ')'
    · subst hclose
      refine ⟨[], gap, true, rest, by simpa [charsAll] using hcs, hgap, ?_, ?_⟩
      · exact fun h => absurd h (by decide)
      · rw [StandAll]
        trivial
    · -- an item comes first, and what follows it is shorter
      have hlt : rest.length < cs.length := by simp [hcs]; omega
      obtain ⟨item, behind, hitem, hstands⟩ :=
        exists_layout hgap (hrest c rfl) hclose fun _ => fills rest
      have hbehind : behind.length < cs.length := by
        have hpos := List.length_pos_iff.2 hstands.chars_ne_nil
        rw [hcs, hitem, List.length_append]
        omega
      obtain ⟨items, gap', closed, rest', rfl, hgap', hend, hitems⟩ := fills behind
      refine ⟨item :: items, gap', closed, rest', ?_, hgap', hend, ?_⟩
      · rw [hcs, hitem, charsAll, List.append_assoc]
      · rw [StandAll]
        exact ⟨hstands, hitems⟩
termination_by cs.length

end Layout

/-- Where a character stands that ends no atom, an atom is read, in either mode. -/
theorem Cursor.exists_readOne_atom {c : Char} (hc : Reader.endsAtom c = false) (offset : Nat)
    (cs : List Char) : ∃ text start stop next, ∀ strict,
      readOne strict ⟨offset, c :: cs⟩ = .ok ⟨.atom text start stop, next⟩ := by
  obtain ⟨text, rest, htext, hatom⟩ := exists_atom hc cs
  have hstands : Layout.Stands (.atom [] text) rest := by
    rw [Layout.Stands]
    exact ⟨Blanks.nil, hatom⟩
  refine ⟨String.ofList text, offset, offset + Text.units text, ⟨offset + Text.units text, rest⟩,
    fun strict => ?_⟩
  rw [htext]
  exact readOne_layout hstands fun _ => rfl

/-- **Every text is laid out as pieces**, with blanks up to its end. -/
theorem exists_pieces (cs : List Char) :
    ∃ pieces gap, cs = Piece.charsAll pieces ++ gap ∧ Piece.Laid pieces gap := by
  obtain ⟨gap, rest, hcs, hgap, hrest⟩ := exists_run Text.isBlank cs
  cases rest with
  | nil => exact ⟨[], gap, by simpa [Piece.charsAll] using hcs, hgap⟩
  | cons c rest =>
    by_cases hclose : c = ')'
    · subst hclose
      have hlt : rest.length < cs.length := by simp [hcs]; omega
      obtain ⟨pieces, gap', rfl, hlaid⟩ := exists_pieces rest
      exact ⟨.stray gap :: pieces, gap', by simp [hcs, Piece.charsAll, Piece.chars],
        hgap, hlaid⟩
    · obtain ⟨layout, behind, hlayout, hstands⟩ :=
        Layout.exists_layout hgap (hrest c rfl) hclose fun _ => Layout.fills rest
      have hbehind : behind.length < cs.length := by
        have hpos := List.length_pos_iff.2 hstands.chars_ne_nil
        rw [hcs, hlayout, List.length_append]
        omega
      obtain ⟨pieces, gap', rfl, hlaid⟩ := exists_pieces behind
      refine ⟨.form layout :: pieces, gap', ?_, hstands, hlaid⟩
      rw [hcs, hlayout, Piece.charsAll, Piece.chars, List.append_assoc]
termination_by cs.length

/-- How a text begins for the reader of one form: it holds blanks only, or behind blanks
stands a parenthesis that closes nothing, or a layout stands there. -/
inductive Beginning : List Char → Prop
  | blank {gap : List Char} : Blanks gap → Beginning gap
  | stray {gap rest : List Char} : Blanks gap → Beginning (gap ++ ')' :: rest)
  | form {layout : Layout} {rest : List Char} : layout.Stands rest →
      Beginning (layout.chars ++ rest)

/-- Every text begins in one of these ways. -/
theorem beginning (cs : List Char) : Beginning cs := by
  obtain ⟨pieces, gap, rfl, hlaid⟩ := exists_pieces cs
  cases pieces with
  | nil => exact .blank hlaid
  | cons piece pieces =>
    rw [Piece.charsAll, List.append_assoc]
    cases piece with
    | form layout => exact .form hlaid.1
    | stray before =>
      rw [Piece.chars, List.append_assoc]
      exact .stray hlaid.1

namespace Cursor

variable {strict : Bool} {offset : Nat}

/-- Where a layout stands, what is read is its form, in either mode. -/
theorem eq_of_readOne_layout {layout : Layout} {rest : List Char} {reading : Reading}
    (h : layout.Stands rest)
    (hread : readOne strict ⟨offset, layout.chars ++ rest⟩ = .ok reading) :
    reading = ⟨layout.form offset, ⟨offset + Text.units layout.chars, rest⟩⟩ := by
  by_cases hopen : strict = true → layout.openAt? offset = none
  · rw [readOne_layout h hopen] at hread
    exact (Except.ok.inj hread).symm
  · rw [Classical.not_imp] at hopen
    obtain ⟨rfl, hopen⟩ := hopen
    obtain ⟨place, hplace⟩ := Option.ne_none_iff_exists'.1 hopen
    rw [readOne_open h hplace] at hread
    cases hread

/-- Only the strict mode fails to read a form. -/
theorem strict_of_readOne_error {cursor : Cursor} {unclosed : Unclosed}
    (h : readOne strict cursor = .error unclosed) : strict = true := by
  cases strict with
  | true => rfl
  | false =>
    obtain ⟨offset, cs⟩ := cursor
    cases beginning cs with
    | blank hgap =>
      rw [readOne_blanks hgap] at h
      cases h
    | stray hgap =>
      rw [readOne_stray hgap] at h
      cases h
    | form hstands =>
      rw [readOne_layout hstands fun hstrict => absurd hstrict Bool.false_ne_true] at h
      cases h

end Cursor

end SatScript
