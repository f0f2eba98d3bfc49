import SatScript.Proofs.Layout.Partition
import SatScript.Proofs.Layout.Unclosed
/-!
# SatScript — where the forms of a text begin

Each form of a text begins with a character of it that is no blank, so there are
no more forms than such characters; and the empty atoms among the forms are the
parentheses that close nothing (`BegunIn`). Which these are can be told from the
text alone: `strays` goes through it once and keeps how many lists are open and
whether a character stands in an atom or in quotes.

There is one exception. Behind a parenthesis that closes nothing a form is due at
once, so blanks behind the last one are read as an empty atom more, which begins
where the text ends. `forms_begin` says that it happens there and nowhere else.
-/

namespace SatScript

/-! ## Parentheses that close nothing -/

namespace Text

/-- What a character stands in. -/
inductive Surrounding where
  | nothing
  | atom
  | quotes
deriving DecidableEq

/-- How many lists are open before a character, and what it stands in. -/
structure Nesting where
  depth : Nat
  inside : Surrounding
deriving DecidableEq

namespace Nesting

/-- The nesting behind a character. A bar begins quotes unless it stands in an
atom. -/
def next (nesting : Nesting) (c : Char) : Nesting :=
  if nesting.inside = .quotes then
    if c = '|' then ⟨nesting.depth, .nothing⟩ else nesting
  else if c = '(' then ⟨nesting.depth + 1, .nothing⟩
  else if c = ')' then ⟨nesting.depth - 1, .nothing⟩
  else if isBlank c then ⟨nesting.depth, .nothing⟩
  else if c = '|' ∧ nesting.inside = .nothing then ⟨nesting.depth, .quotes⟩
  else ⟨nesting.depth, .atom⟩

/-- Whether the character is a parenthesis that closes nothing. -/
def isStray (nesting : Nesting) (c : Char) : Bool :=
  c == ')' && nesting.depth == 0 && nesting.inside != .quotes

end Nesting

/-- Where the parentheses stand that close nothing, in a text that is looked at
from an offset on. -/
def straysFrom (nesting : Nesting) (offset : Nat) : List Char → List Nat
  | [] => []
  | c :: cs =>
    if nesting.isStray c then offset :: straysFrom (nesting.next c) (offset + width c) cs
    else straysFrom (nesting.next c) (offset + width c) cs

/-- Where the parentheses stand that close nothing. -/
def strays (cs : List Char) : List Nat := straysFrom ⟨0, .nothing⟩ 0 cs

variable {depth offset : Nat} {inside : Surrounding} {rest : List Char}

/-- Any other character only changes the nesting. -/
theorem straysFrom_cons {nesting : Nesting} {c : Char} (h : nesting.isStray c = false)
    (cs : List Char) :
    straysFrom nesting offset (c :: cs) = straysFrom (nesting.next c) (offset + width c) cs := by
  rw [straysFrom, h]
  rfl

/-- Characters that leave the nesting as it is are passed over. -/
theorem straysFrom_stays {nesting : Nesting} {cs : List Char}
    (h : ∀ c ∈ cs, nesting.isStray c = false ∧ nesting.next c = nesting) :
    straysFrom nesting offset (cs ++ rest) = straysFrom nesting (offset + units cs) rest := by
  induction cs generalizing offset with
  | nil => rfl
  | cons c cs ih =>
    obtain ⟨⟨hstray, hnext⟩, hcs⟩ := List.forall_mem_cons.1 h
    rw [List.cons_append, straysFrom_cons hstray, hnext, ih hcs, units_cons, Nat.add_assoc]

/-- Blanks outside of quotes are passed over. -/
theorem straysFrom_blanks {before : List Char} (h : Blanks before) :
    straysFrom ⟨depth, .nothing⟩ offset (before ++ rest) =
      straysFrom ⟨depth, .nothing⟩ (offset + units before) rest := by
  refine straysFrom_stays fun c hmem => ?_
  have hc := h c hmem
  have hopen : c ≠ '(' := by
    rintro rfl
    cases hc
  have hclose : c ≠ ')' := by
    rintro rfl
    cases hc
  exact ⟨by simp [Nesting.isStray, hclose], by simp [Nesting.next, hopen, hclose, hc]⟩

/-- Characters that end no atom stay in it. -/
theorem straysFrom_plain {text : List Char} (h : ∀ c ∈ text, Reader.endsAtom c = false) :
    straysFrom ⟨depth, .atom⟩ offset (text ++ rest) =
      straysFrom ⟨depth, .atom⟩ (offset + units text) rest := by
  refine straysFrom_stays fun c hmem => ?_
  obtain ⟨hblank, hopen, hclose⟩ := of_endsAtom_eq_false (h c hmem)
  exact ⟨by simp [Nesting.isStray, hclose], by simp [Nesting.next, hopen, hclose, hblank]⟩

/-- Characters other than a bar stay in quotes. -/
theorem straysFrom_quotes {inner : List Char} (h : '|' ∉ inner) :
    straysFrom ⟨depth, .quotes⟩ offset (inner ++ rest) =
      straysFrom ⟨depth, .quotes⟩ (offset + units inner) rest := by
  refine straysFrom_stays fun c hmem => ?_
  have hbar : c ≠ '|' := by
    rintro rfl
    exact h hmem
  exact ⟨by simp [Nesting.isStray], by simp [Nesting.next, hbar]⟩

/-- What ends an atom does the same outside of atoms. -/
theorem straysFrom_delimited (h : Delimited rest) :
    straysFrom ⟨depth, .atom⟩ offset rest = straysFrom ⟨depth, .nothing⟩ offset rest := by
  cases rest with
  | nil => rfl
  | cons c rest =>
    have hbar : c ≠ '|' := by
      rintro rfl
      cases delimited_cons.1 h
    have hnext : Nesting.next ⟨depth, .atom⟩ c = Nesting.next ⟨depth, .nothing⟩ c := by
      simp [Nesting.next, hbar]
    have hstray : Nesting.isStray ⟨depth, .atom⟩ c = Nesting.isStray ⟨depth, .nothing⟩ c := rfl
    rw [straysFrom, straysFrom, hnext, hstray]

/-- An atom holds no such parenthesis. -/
theorem straysFrom_atom {text : List Char} (h : AtomStands text rest) :
    straysFrom ⟨depth, .nothing⟩ offset (text ++ rest) =
      straysFrom ⟨depth, .nothing⟩ (offset + units text) rest := by
  -- the bar that begins quotes
  have hbar (cs : List Char) : straysFrom ⟨depth, .nothing⟩ offset ('|' :: cs) =
      straysFrom ⟨depth, .quotes⟩ (offset + 1) cs :=
    straysFrom_cons (by simp [Nesting.isStray]) cs
  cases h with
  | plain hplain hrest =>
    obtain ⟨c, text, rfl⟩ := List.exists_cons_of_ne_nil hplain.ne_nil
    obtain ⟨hc, htext⟩ := List.forall_mem_cons.1 hplain.not_endsAtom
    obtain ⟨hblank, hopen, hclose⟩ := of_endsAtom_eq_false hc
    have hne : c ≠ '|' := fun heq => hplain.head_ne_bar (congrArg some heq)
    have hnext : Nesting.next ⟨depth, .nothing⟩ c = ⟨depth, .atom⟩ := by
      simp [Nesting.next, hopen, hclose, hblank, hne]
    rw [List.cons_append, straysFrom_cons (by simp [Nesting.isStray, hclose]), hnext,
      straysFrom_plain htext, straysFrom_delimited hrest, units_cons, Nat.add_assoc]
  | @quoted inner _ hinner =>
    have hquoted : quoted inner ++ rest = '|' :: (inner ++ '|' :: rest) := by simp [quoted]
    have hunits : units (quoted inner) = 1 + (units inner + 1) := by
      rw [quoted, units_cons, units_append]
      rfl
    have hend : straysFrom ⟨depth, .quotes⟩ (offset + 1 + units inner) ('|' :: rest) =
        straysFrom ⟨depth, .nothing⟩ (offset + 1 + units inner + 1) rest :=
      straysFrom_cons (by simp [Nesting.isStray]) rest
    rw [hquoted, hbar, straysFrom_quotes hinner, hend, hunits]
    congr 1
    omega
  | @cut inner hinner =>
    -- the quotes are open where the text ends
    rw [List.cons_append, hbar, straysFrom_quotes hinner]
    rfl

end Text

namespace Layout

variable {depth offset : Nat}

/-- The parenthesis that a list begins with, and the blanks before it. -/
theorem straysFrom_open {before : List Char} (h : Blanks before) (cs : List Char) :
    Text.straysFrom ⟨depth, .nothing⟩ offset (before ++ ['('] ++ cs) =
      Text.straysFrom ⟨depth + 1, .nothing⟩ (offset + Text.units (before ++ ['('])) cs := by
  have hopen : Text.straysFrom ⟨depth, .nothing⟩ (offset + Text.units before) ('(' :: cs) =
      Text.straysFrom ⟨depth + 1, .nothing⟩ (offset + Text.units before + 1) cs :=
    Text.straysFrom_cons (by simp [Text.Nesting.isStray]) cs
  rw [List.append_assoc, List.singleton_append, Text.straysFrom_blanks h, hopen,
    units_before_paren]

/-- The parenthesis that closes a list closes something; without it the text ends. -/
theorem straysFrom_closing {closed : Bool} {rest : List Char} (hend : closed = false → rest = []) :
    Text.straysFrom ⟨depth + 1, .nothing⟩ offset (closing closed ++ rest) =
      Text.straysFrom ⟨depth, .nothing⟩ (offset + Text.units (closing closed)) rest := by
  cases closed with
  | true => exact Text.straysFrom_cons (by simp [Text.Nesting.isStray]) rest
  | false =>
    rw [hend rfl]
    rfl

mutual

/-- **In a layout every parenthesis closes something.** -/
theorem straysFrom_layout : ∀ {layout : Layout} {rest : List Char} {depth offset : Nat},
    layout.Stands rest → Text.straysFrom ⟨depth, .nothing⟩ offset (layout.chars ++ rest) =
      Text.straysFrom ⟨depth, .nothing⟩ (offset + Text.units layout.chars) rest
  | .atom before text, rest, depth, offset, h => by
    rw [Stands] at h
    rw [chars, List.append_assoc, Text.straysFrom_blanks h.1, Text.straysFrom_atom h.2,
      Text.units_append, Nat.add_assoc]
  | .list before items gap closed, rest, depth, offset, h => by
    have hunits := units_chars_list before gap items closed
    rw [Stands] at h
    obtain ⟨hbefore, hend, hitems⟩ := h
    -- the items, and the blanks behind them
    have hinner (start : Nat) : Text.straysFrom ⟨depth + 1, .nothing⟩ start
        (charsAll items ++ (gap ++ (closing closed ++ rest))) =
          Text.straysFrom ⟨depth + 1, .nothing⟩
            (start + Text.units (charsAll items) + Text.units gap) (closing closed ++ rest) := by
      rcases hitems with ⟨rfl, rfl⟩ | ⟨blanks, -, hblanks, rfl, rfl⟩ | ⟨-, hgap, hall⟩
      · rfl
      · rw [charsAll, charsAll, chars, List.append_nil, List.append_nil,
          Text.straysFrom_blanks hblanks]
        rfl
      · rw [straysFrom_layouts hall, Text.straysFrom_blanks hgap]
    rw [chars_list_append, straysFrom_open hbefore, hinner, straysFrom_closing hend, hunits,
      units_before_paren]
    congr 1
    omega

/-- And in layouts one after another. -/
theorem straysFrom_layouts : ∀ {items : List Layout} {rest : List Char} {depth offset : Nat},
    StandAll items rest → Text.straysFrom ⟨depth, .nothing⟩ offset (charsAll items ++ rest) =
      Text.straysFrom ⟨depth, .nothing⟩ (offset + Text.units (charsAll items)) rest
  | [], _, _, _, _ => rfl
  | item :: items, rest, depth, offset, h => by
    rw [StandAll] at h
    rw [charsAll, List.append_assoc, straysFrom_layout h.1, straysFrom_layouts h.2,
      Text.units_append, Nat.add_assoc]

end

end Layout

namespace Piece

variable {afterStray : Bool} {pieces : List Piece} {gap : List Char} {offset : Nat}

/-- Whether a form is due directly behind the pieces, since the last of them is a
parenthesis that closes nothing. -/
def endsStray (afterStray : Bool) : List Piece → Bool
  | [] => afterStray
  | .form _ :: pieces => endsStray false pieces
  | .stray _ :: pieces => endsStray true pieces

/-- Where the empty atoms among forms stand. -/
def emptyStarts (forms : List Form) : List Nat := (forms.filter Form.isEmpty).map Form.start

/-- **The forms of pieces are one for each of them**, and an empty atom more where
one is due and blanks follow. -/
theorem forms_eq_append (afterStray : Bool) (offset : Nat) (gap : List Char)
    (pieces : List Piece) :
    forms afterStray offset gap pieces = forms afterStray offset [] pieces ++
      if endsStray afterStray pieces = true ∧ gap ≠ [] then
        [Reader.emptyAtom (offset + Text.units (charsAll pieces ++ gap))]
      else [] := by
  induction pieces generalizing afterStray offset with
  | nil =>
    have hnone : forms afterStray offset [] [] = [] := if_neg fun hdue => hdue.2 rfl
    rw [hnone, List.nil_append, forms, endsStray, charsAll, List.nil_append]
  | cons piece pieces ih =>
    have hunits : offset + Text.units piece.chars + Text.units (charsAll pieces ++ gap) =
        offset + Text.units (charsAll (piece :: pieces) ++ gap) := by
      rw [charsAll, List.append_assoc, Text.units_append piece.chars, Nat.add_assoc]
    cases piece with
    | form layout =>
      rw [chars] at hunits
      rw [forms, forms, endsStray, ih, hunits]
      rfl
    | stray before =>
      rw [chars] at hunits
      rw [forms, forms, endsStray, ih, hunits]
      rfl

/-- **The parentheses that close nothing are the empty atoms.** -/
theorem straysFrom_pieces (h : Laid pieces gap) (afterStray : Bool) (offset : Nat) :
    Text.straysFrom ⟨0, .nothing⟩ offset (charsAll pieces ++ gap) =
      emptyStarts (forms afterStray offset [] pieces) := by
  induction pieces generalizing afterStray offset with
  | nil =>
    rw [Laid] at h
    rw [charsAll, List.nil_append, ← List.append_nil gap, Text.straysFrom_blanks h, forms,
      if_neg (fun hdue => hdue.2 rfl)]
    rfl
  | cons piece pieces ih =>
    rw [charsAll, List.append_assoc]
    cases piece with
    | form layout =>
      rw [Laid] at h
      have hempty := h.1.isEmpty_form offset
      rw [chars, Layout.straysFrom_layout h.1, ih h.2 false, forms, emptyStarts, emptyStarts,
        List.filter_cons, hempty]
      rfl
    | stray before =>
      rw [Laid] at h
      have hstray : Text.straysFrom ⟨0, .nothing⟩ (offset + Text.units before)
          (')' :: (charsAll pieces ++ gap)) = (offset + Text.units before) ::
            Text.straysFrom ⟨0, .nothing⟩ (offset + Text.units before + 1)
              (charsAll pieces ++ gap) := rfl
      rw [chars, List.append_assoc, List.singleton_append, Text.straysFrom_blanks h.1, hstray,
        ih h.2 true, forms, Text.units_append, ← Nat.add_assoc]
      rfl

/-- What is laid out in front of other pieces is laid out there. -/
theorem Laid.tail {piece : Piece} (h : Laid (piece :: pieces) gap) : Laid pieces gap := by
  cases piece <;> exact h.2

/-- Only blanks stand behind the last piece. -/
theorem Laid.gap_blanks (h : Laid pieces gap) : Blanks gap := by
  induction pieces with
  | nil => exact h
  | cons piece pieces ih => exact ih h.tail

/-- A piece begins with blanks and then with the character that its form begins with. -/
theorem Laid.exists_begin {piece : Piece} (h : Laid (piece :: pieces) gap) :
    ∃ before c cs, piece.chars = before ++ c :: cs ∧ Text.isBlank c = false ∧
      ∀ afterStray offset, ∃ form, form.start = offset + Text.units before ∧
        forms afterStray offset [] (piece :: pieces) =
          form :: forms (endsStray false [piece]) (offset + Text.units piece.chars) [] pieces := by
  cases piece with
  | form layout =>
    rw [Laid] at h
    obtain ⟨before, c, cs, -, hc, -, hchars, hspan⟩ := h.1.exists_written
    exact ⟨before, c, cs, hchars, hc, fun _ offset => ⟨layout.form offset, (hspan offset).1, rfl⟩⟩
  | stray before =>
    exact ⟨before, ')', [], rfl, rfl, fun _ offset =>
      ⟨Reader.emptyAtom (offset + Text.units before), rfl, rfl⟩⟩

/-- **The form of each piece begins with a character that is no blank.** -/
theorem begins_of_mem_forms (h : Laid pieces gap) :
    ∀ form ∈ forms afterStray offset [] pieces, ∃ before c rest,
      charsAll pieces ++ gap = before ++ c :: rest ∧ Text.isBlank c = false ∧
        form.start = offset + Text.units before := by
  induction pieces generalizing afterStray offset with
  | nil =>
    intro form hform
    rw [forms, if_neg (fun hdue => hdue.2 rfl)] at hform
    cases hform
  | cons piece pieces ih =>
    obtain ⟨before, c, cs, hchars, hc, hforms⟩ := h.exists_begin
    obtain ⟨first, hstart, hforms⟩ := hforms afterStray offset
    intro form hform
    rw [hforms] at hform
    rw [charsAll, List.append_assoc]
    rcases List.mem_cons.1 hform with rfl | hform
    · refine ⟨before, c, cs ++ (charsAll pieces ++ gap), ?_, hc, hstart⟩
      rw [hchars, List.append_assoc, List.cons_append]
    · obtain ⟨before, c, rest, htext, hc, hstart⟩ := ih h.tail form hform
      refine ⟨piece.chars ++ before, c, rest, ?_, hc, ?_⟩
      · rw [htext, List.append_assoc]
      · rw [hstart, Text.units_append, Nat.add_assoc]

/-- There are no more pieces than characters that are no blanks. -/
theorem length_forms_le (h : Laid pieces gap) (afterStray : Bool) (offset : Nat) :
    (forms afterStray offset [] pieces).length ≤
      (charsAll pieces ++ gap).countP fun c => !Text.isBlank c := by
  induction pieces generalizing afterStray offset with
  | nil =>
    rw [forms, if_neg (fun hdue => hdue.2 rfl)]
    exact Nat.zero_le _
  | cons piece pieces ih =>
    obtain ⟨before, c, cs, hchars, hc, hforms⟩ := h.exists_begin
    obtain ⟨first, -, hforms⟩ := hforms afterStray offset
    have hmore := ih h.tail (endsStray false [piece]) (offset + Text.units piece.chars)
    have hpos : 0 < piece.chars.countP fun c => !Text.isBlank c := by
      refine List.countP_pos_iff.2 ⟨c, ?_, by rw [hc]; rfl⟩
      rw [hchars]
      exact List.mem_append_right _ List.mem_cons_self
    rw [hforms, List.length_cons, charsAll, List.append_assoc, List.countP_append]
    omega

/-- An empty atom behind the first piece is one among the forms. -/
theorem mem_emptyStarts_cons {piece : Piece} {place : Nat}
    (h : place ∈ emptyStarts
      (forms (endsStray false [piece]) (offset + Text.units piece.chars) [] pieces)) :
    place ∈ emptyStarts (forms afterStray offset [] (piece :: pieces)) := by
  rw [emptyStarts, List.mem_map] at h ⊢
  obtain ⟨form, hform, hplace⟩ := h
  obtain ⟨hmem, hempty⟩ := List.mem_filter.1 hform
  refine ⟨form, List.mem_filter.2 ⟨?_, hempty⟩, hplace⟩
  cases piece <;> exact List.mem_cons_of_mem _ hmem

/-- If the last piece is a parenthesis that closes nothing, the pieces end with it. -/
theorem exists_of_endsStray (h : endsStray false pieces = true) (afterStray : Bool)
    (offset : Nat) :
    ∃ before, charsAll pieces = before ++ [')'] ∧
      offset + Text.units before ∈ emptyStarts (forms afterStray offset [] pieces) := by
  induction pieces generalizing afterStray offset with
  | nil => cases h
  | cons piece pieces ih =>
    by_cases hends : endsStray false pieces = true
    · -- the last piece is among those behind the first
      obtain ⟨before, hchars, hmem⟩ :=
        ih hends (endsStray false [piece]) (offset + Text.units piece.chars)
      refine ⟨piece.chars ++ before, by rw [charsAll, hchars, List.append_assoc], ?_⟩
      rw [Text.units_append, ← Nat.add_assoc]
      exact mem_emptyStarts_cons hmem
    · cases piece with
      | form layout => exact absurd h hends
      | stray before =>
        cases pieces with
        | nil =>
          refine ⟨before, by rw [charsAll, charsAll, chars, List.append_nil], ?_⟩
          exact List.mem_cons_self
        | cons piece pieces => cases piece <;> exact absurd h hends

/-- Behind the first of several pieces stands a character that is no blank. -/
theorem Laid.exists_nonblank {piece next : Piece} (h : Laid (piece :: next :: pieces) gap) :
    ∃ n c, Text.units piece.chars ≤ n ∧
      Text.charAt? n (charsAll (piece :: next :: pieces) ++ gap) = some c ∧
        Text.isBlank c = false := by
  obtain ⟨blanks, c, cs, hchars, hc, -⟩ := h.tail.exists_begin
  have htext : charsAll (piece :: next :: pieces) ++ gap =
      piece.chars ++ blanks ++ c :: (cs ++ (charsAll pieces ++ gap)) := by
    simp only [charsAll, hchars, List.append_assoc, List.cons_append]
  refine ⟨Text.units (piece.chars ++ blanks), c, ?_, ?_, hc⟩
  · rw [Text.units_append]
    exact Nat.le_add_right _ _
  · rw [htext, Text.charAt?_units]

/-- **Where only blanks stand behind a parenthesis that closes nothing, it is the last
piece.** -/
theorem endsStray_of_mem {place : Nat} (h : Laid pieces gap)
    (hmem : place ∈ emptyStarts (forms afterStray offset [] pieces))
    (hblank : ∀ other c, place < other →
      Text.charAt? (other - offset) (charsAll pieces ++ gap) = some c → Text.isBlank c = true) :
    endsStray afterStray pieces = true ∧ place + 1 = offset + Text.units (charsAll pieces) := by
  induction pieces generalizing afterStray offset with
  | nil =>
    rw [forms, if_neg (fun hdue => hdue.2 rfl)] at hmem
    cases hmem
  | cons piece pieces ih =>
    -- the parenthesis is among the pieces behind the first
    have hlater (hmem : place ∈ emptyStarts
        (forms (endsStray false [piece]) (offset + Text.units piece.chars) [] pieces)) :
        endsStray (endsStray false [piece]) pieces = true ∧
          place + 1 = offset + Text.units (charsAll (piece :: pieces)) := by
      have hle : offset + Text.units piece.chars ≤ place := by
        obtain ⟨form, hform, rfl⟩ := List.mem_map.1 hmem
        obtain ⟨before, c, rest, -, -, hstart⟩ :=
          begins_of_mem_forms h.tail form (List.mem_filter.1 hform).1
        omega
      rw [charsAll, Text.units_append, ← Nat.add_assoc]
      refine ih h.tail hmem fun other c hlt hchar => hblank other c hlt ?_
      rw [charsAll, List.append_assoc, Text.charAt?_append_of_le (by omega)]
      exact hchar
    cases piece with
    | form layout =>
      rw [Laid] at h
      refine hlater ?_
      rw [forms, emptyStarts, List.filter_cons, h.1.isEmpty_form offset] at hmem
      exact hmem
    | stray before =>
      rcases List.mem_cons.1 hmem with hplace | hmem
      · change place = offset + Text.units before at hplace
        cases pieces with
        | nil =>
          refine ⟨rfl, ?_⟩
          rw [charsAll, charsAll, List.append_nil, units_chars_stray, hplace, Nat.add_assoc]
        | cons next pieces =>
          obtain ⟨n, c, hle, hchar, hc⟩ := h.exists_nonblank
          rw [units_chars_stray] at hle
          rw [← Nat.add_sub_cancel_left (n := offset) (m := n)] at hchar
          rw [hblank (offset + n) c (by omega) hchar] at hc
          cases hc
      · exact hlater hmem

end Piece

/-- The forms begin in a text as its parentheses and the rest of it ask for: each with a
character that is no blank, one behind the other, and the empty atoms with the
parentheses that close nothing. -/
structure BegunIn (cs : List Char) (all : List Form) : Prop where
  nonblank : ∀ form ∈ all, ∃ c, Text.charAt? form.start cs = some c ∧ Text.isBlank c = false
  increasing : all.Pairwise fun first second => first.start < second.start
  length_le : all.length ≤ cs.countP fun c => !Text.isBlank c
  empty : (all.filter Form.isEmpty).map Form.start = Text.strays cs

/-- The text ends with blanks directly behind a parenthesis that closes nothing. -/
def EndsBehindStray (cs : List Char) : Prop :=
  ∃ before gap, cs = before ++ ')' :: gap ∧ Blanks gap ∧ gap ≠ [] ∧
    Text.units before ∈ Text.strays cs

/-- A form begins before the end of the text. -/
theorem BegunIn.start_lt {cs : List Char} {all : List Form} (h : BegunIn cs all) {form : Form}
    (hform : form ∈ all) : form.start < Text.units cs := by
  obtain ⟨c, hc, -⟩ := h.nonblank form hform
  exact Text.lt_units_of_charAt? hc

namespace Piece

variable {pieces : List Piece} {gap : List Char}

/-- The forms of the pieces begin in the text. -/
theorem begunIn_forms (h : Laid pieces gap) :
    BegunIn (charsAll pieces ++ gap) (forms false 0 [] pieces) where
  nonblank form hform := by
    obtain ⟨before, c, rest, htext, hc, hstart⟩ := begins_of_mem_forms h form hform
    rw [Nat.zero_add] at hstart
    exact ⟨c, by rw [htext, hstart, Text.charAt?_units], hc⟩
  increasing := by
    have hwithin := (within_forms h false 0).2
    rw [forms_eq_append] at hwithin
    exact (List.pairwise_append.1 hwithin).1.imp fun hbehind => hbehind.1
  length_le := length_forms_le h false 0
  empty := (straysFrom_pieces h false 0).symm

/-- Whether the text ends behind a parenthesis that closes nothing can be told from the
pieces. -/
theorem endsBehindStray_iff (h : Laid pieces gap) :
    EndsBehindStray (charsAll pieces ++ gap) ↔ endsStray false pieces = true ∧ gap ≠ [] := by
  have hstrays : Text.strays (charsAll pieces ++ gap) = emptyStarts (forms false 0 [] pieces) :=
    straysFrom_pieces h false 0
  constructor
  · rintro ⟨before, blanks, htext, hblanks, hne, hmem⟩
    rw [hstrays] at hmem
    obtain ⟨hends, hplace⟩ := endsStray_of_mem h hmem fun other c hlt hchar => by
      have hparen : before ++ ')' :: blanks = (before ++ [')']) ++ blanks := by simp
      have hunits : Text.units (before ++ [')']) = Text.units before + 1 := Text.units_append _ _
      rw [htext, hparen, Text.charAt?_append_of_le (by omega)] at hchar
      exact hblanks c (Text.mem_of_charAt? hchar)
    refine ⟨hends, ?_⟩
    rintro rfl
    -- the blanks would be of no width
    obtain ⟨c, cs, rfl⟩ := List.exists_cons_of_ne_nil hne
    have hwidth := Text.width_pos c
    have hone : Text.width ')' = 1 := rfl
    have hunits := congrArg Text.units htext
    rw [List.append_nil, Text.units_append, Text.units_cons, Text.units_cons] at hunits
    omega
  · rintro ⟨hends, hne⟩
    obtain ⟨before, hchars, hmem⟩ := exists_of_endsStray hends false 0
    rw [Nat.zero_add, ← hstrays] at hmem
    refine ⟨before, gap, ?_, h.gap_blanks, hne, hmem⟩
    rw [hchars, List.append_assoc, List.singleton_append]

end Piece

/-- **Where the forms of a text begin.** Whether lists may be left open or not, all that
can be read are the same forms, and if they may, reading succeeds. Each form begins
within the text with a character that is no blank, they begin one behind the other, so
there are no more of them than such characters, and the empty atoms are just the
parentheses that close nothing: all of this unless blanks stand at the end of the text
directly behind such a parenthesis. There all forms but the last begin so, and the last
is an empty atom that begins where the text ends. -/
theorem forms_begin (cs : List Char) :
    (∀ strict all, readAll strict cs = .ok all → all = forms cs) ∧
    readAll false cs = .ok (forms cs) ∧
    (BegunIn cs (forms cs) ↔ ¬ EndsBehindStray cs) ∧
    (EndsBehindStray cs → ∃ early,
      forms cs = early ++ [Reader.emptyAtom (Text.units cs)] ∧ BegunIn cs early) := by
  obtain ⟨pieces, gap, rfl, hlaid⟩ := exists_pieces cs
  have hlast : EndsBehindStray (Piece.charsAll pieces ++ gap) →
      forms (Piece.charsAll pieces ++ gap) = Piece.forms false 0 [] pieces ++
        [Reader.emptyAtom (Text.units (Piece.charsAll pieces ++ gap))] := by
    intro hends
    rw [forms_pieces hlaid, Piece.forms_eq_append,
      if_pos ((Piece.endsBehindStray_iff hlaid).1 hends), Nat.zero_add]
  have hbegun := Piece.begunIn_forms hlaid
  refine ⟨?_, ?_, ⟨?_, ?_⟩, fun hends => ⟨_, hlast hends, hbegun⟩⟩
  · intro strict all hall
    rw [forms_pieces hlaid]
    by_cases hopen : strict = true → Piece.openAt? 0 pieces = none
    · rw [readAll_pieces hlaid hopen] at hall
      exact (Except.ok.inj hall).symm
    · -- a list is left open, and the strict mode reports it
      rw [Classical.not_imp] at hopen
      obtain ⟨rfl, hopen⟩ := hopen
      obtain ⟨place, hplace⟩ := Option.ne_none_iff_exists'.1 hopen
      have herror := @Cursor.readMore_open pieces gap place false 0 hlaid hplace
      rw [readAll, Cursor.readAll, Cursor.ofText, ← Cursor.entering_false, herror] at hall
      cases hall
  · rw [forms_pieces hlaid]
    exact readAll_pieces hlaid fun hstrict => absurd hstrict Bool.false_ne_true
  · -- the atom at the end of the text begins with nothing
    intro hforms hends
    rw [hlast hends] at hforms
    exact Nat.lt_irrefl _ (hforms.start_lt (List.mem_append_right _ List.mem_cons_self))
  · intro hends
    rw [Piece.endsBehindStray_iff hlaid] at hends
    rw [forms_pieces hlaid, Piece.forms_eq_append, if_neg hends, List.append_nil]
    exact hbegun

/-- Behind the one parenthesis, which closes nothing, an empty atom is read where the
text ends. -/
theorem forms_begin_blank : ¬ BegunIn ") ".toList (forms ") ".toList) := by
  intro hforms
  have hread : forms ") ".toList = [Reader.emptyAtom 0, Reader.emptyAtom 2] := by cbv
  have hlt := hforms.start_lt (hread ▸ List.mem_cons_of_mem _ List.mem_cons_self)
  exact absurd hlt (by decide)

end SatScript
