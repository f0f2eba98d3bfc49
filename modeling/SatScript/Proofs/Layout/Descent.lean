import SatScript.Proofs.Layout.Existence
import SatScript.Proofs.Layout.Shift
import SatScript.Proofs.Text.Place
/-!
# SatScript — reading by descent

The reader takes one character at a time and keeps the open lists beside it, so
that it ends is no question. The plain way to read a list is another: to read its
items one after another, and each of them by descending into it. That this ends is
not seen from the text of the reader, since an item may be the empty atom, for
which nothing is taken. `descend` is that way with two bounds put to it: it is given
up where lists are nested deeper than allowed, and where a round of a list takes no
character. `descend_eq` says that neither of them is ever met, the depth being as
many characters as are left, and that descending comes to what the reader comes to.

`reader_advances` puts this beside how far the reader gets: from an offset in the
text to one that is not before it nor behind the end, and no further than past the
blanks just where the text ends there or a parenthesis closes nothing.
-/

namespace SatScript

/-! ## Atoms -/

/-- The text of the atom that a text begins with: up to the bar that closes it if it is
quoted, else up to a character that ends it, or else up to the end. -/
def atomText : List Char → List Char
  | '|' :: cs => '|' :: (cs.takeWhile (· != '|') ++ (cs.dropWhile (· != '|')).take 1)
  | cs => cs.takeWhile fun c => !Reader.endsAtom c

/-- The text of an atom is found again, whatever follows it. -/
theorem AtomStands.atomText_append {text rest : List Char} (h : AtomStands text rest) :
    atomText (text ++ rest) = text := by
  have hall {inner : List Char} (hinner : '|' ∉ inner) : ∀ c ∈ inner, (c != '|') = true := by
    intro c hc
    rw [bne_iff_ne]
    rintro rfl
    exact hinner hc
  cases h with
  | plain hplain hrest =>
    obtain ⟨c, text, rfl⟩ := List.exists_cons_of_ne_nil hplain.ne_nil
    have hbar : c ≠ '|' := by
      rintro rfl
      exact hplain.head_ne_bar rfl
    have hend : rest.takeWhile (fun c => !Reader.endsAtom c) = [] := by
      cases rest with
      | nil => rfl
      | cons d rest => rw [List.takeWhile_cons_of_neg (by simp [delimited_cons.1 hrest])]
    have htext : ∀ d ∈ c :: text, (!Reader.endsAtom d) = true := fun d hd => by
      rw [hplain.not_endsAtom d hd]
      rfl
    rw [List.cons_append, atomText, ← List.cons_append, List.takeWhile_append_of_pos htext, hend,
      List.append_nil]
    · rintro _ heq
      exact hbar (List.cons.inj heq).1
  | @quoted inner _ hinner =>
    rw [SatScript.quoted, List.cons_append, List.append_assoc, List.singleton_append, atomText,
      List.takeWhile_append_of_pos (hall hinner), List.dropWhile_append_of_pos (hall hinner)]
    simp
  | @cut inner hinner =>
    rw [List.cons_append, atomText, List.takeWhile_append_of_pos (hall hinner),
      List.dropWhile_append_of_pos (hall hinner)]
    simp

namespace Cursor

/-- Read an atom. -/
def readAtom (cursor : Cursor) : Reading :=
  let text := atomText cursor.rest
  let stop := cursor.offset + Text.units text
  ⟨.atom (String.ofList text) cursor.offset stop, ⟨stop, cursor.rest.drop text.length⟩⟩

/-! ## Lists -/

/-- Read the items of a list up to the parenthesis that closes it, or the end of the text:
one in each round, and the blanks behind it. A round that takes no character gives the
list up. -/
def readItems (readItem : Cursor → Option (Except Unclosed Reading)) (strict : Bool)
    (start : Nat) (items : List Form) : Cursor → Option (Except Unclosed Reading)
  | ⟨offset, []⟩ =>
    some (if strict then .error ⟨start, offset⟩ else .ok ⟨.list items start offset, ⟨offset, []⟩⟩)
  | ⟨offset, c :: cs⟩ =>
    if c = ')' then some (.ok ⟨.list items start (offset + 1), ⟨offset + 1, cs⟩⟩)
    else
      match readItem ⟨offset, c :: cs⟩ with
      | none => none
      | some (.error unclosed) => some (.error unclosed)
      | some (.ok reading) =>
        if _h : reading.next.skipBlanks.rest.length < (c :: cs).length then
          readItems readItem strict start (items ++ [reading.form]) reading.next.skipBlanks
        else none
termination_by cursor => cursor.rest.length
decreasing_by exact _h

/-- Read one form by descending into lists, which may be nested as deep as is said. -/
def descend (strict : Bool) : Nat → Cursor → Option (Except Unclosed Reading)
  | depth, cursor =>
    match cursor.skipBlanks, depth with
    | ⟨_, '(' :: _⟩, 0 => none
    | ⟨offset, '(' :: cs⟩, depth + 1 =>
      readItems (descend strict depth) strict offset [] ⟨offset + 1, cs⟩
    | skipped, _ => some (.ok skipped.readAtom)

/-! ## A descent and the reader -/

variable {strict : Bool} {offset : Nat}

/-- Where a text does not begin with a blank, no blanks stand before it. -/
theorem eq_nil_of_head? {gap rest : List Char} (hgap : Blanks gap)
    (h : ∀ c ∈ (gap ++ rest).head?, Text.isBlank c = false) : gap = [] := by
  cases gap with
  | nil => rfl
  | cons c gap =>
    have hblank := hgap.of_cons.1
    rw [h c rfl] at hblank
    cases hblank

/-- Where neither a blank nor a list begins, an atom is read, which may be the empty one. -/
theorem readOne_eq_readAtom {cs : List Char} (hblank : ∀ c ∈ cs.head?, Text.isBlank c = false)
    (hopen : cs.head? ≠ some '(') :
    readOne strict ⟨offset, cs⟩ = .ok (readAtom ⟨offset, cs⟩) := by
  cases beginning cs with
  | blank hgap =>
    rw [← List.append_nil cs] at hblank
    rw [eq_nil_of_head? hgap hblank]
    rfl
  | stray hgap =>
    rw [eq_nil_of_head? hgap hblank]
    rfl
  | @form layout rest h =>
    cases layout with
    | atom before text =>
      have hatom := h
      rw [Layout.Stands] at hatom
      rw [Layout.chars, List.append_assoc] at hblank
      obtain rfl := eq_nil_of_head? hatom.1 hblank
      rw [readOne_layout h fun _ => rfl, Layout.chars, List.nil_append, readAtom,
        hatom.2.atomText_append, List.drop_left]
      rfl
    | list before items gap closed =>
      rw [Layout.Stands] at h
      rw [Layout.chars, List.append_assoc] at hblank
      obtain rfl := eq_nil_of_head? h.1 hblank
      exact absurd rfl hopen

end Cursor

namespace Reader

variable {strict : Bool} {frames : List Frame} {offset : Nat}

/-- **Behind a parenthesis the reader reads one form by itself and goes on with it as an
item**, unless the text ends there or the list is closed. -/
theorem readFrom_opening_eq {cs : List Char} (hne : cs ≠ []) (hclose : cs.head? ≠ some ')') :
    readFrom strict ⟨frames, .opening⟩ offset cs =
      Cursor.readOne strict ⟨offset, cs⟩ >>= fun reading =>
        resume strict frames reading.form reading.next.offset reading.next.rest := by
  cases beginning cs with
  | blank hgap =>
    -- the text ends where a form is due
    rw [Cursor.readOne_blanks hgap, ← List.append_nil cs, readFrom_opening_blanks hne hgap,
      List.append_nil]
    cases frames with
    | nil => rfl
    | cons frame frames => cases strict <;> rfl
  | @stray gap rest hgap =>
    have hblanks : gap ≠ [] := by
      rintro rfl
      exact hclose rfl
    rw [Cursor.readOne_stray hgap, readFrom_opening_blanks hblanks hgap]
    cases frames with
    | nil => rfl
    | cons frame frames => rfl
  | @form layout rest h =>
    by_cases hopen : strict = true → layout.openAt? offset = none
    · rw [Cursor.readOne_layout h hopen, readFrom_layout strict layout Mode.isFresh_opening h hopen]
      rfl
    · -- a list is left open in the form, whatever lists are open around it
      rw [Classical.not_imp] at hopen
      obtain ⟨rfl, hopen⟩ := hopen
      obtain ⟨place, hplace⟩ := Option.ne_none_iff_exists'.1 hopen
      rw [Cursor.readOne_open h hplace, readFrom_open layout Mode.isFresh_opening h hplace]
      rfl

/-- Behind an item and the blanks that follow it the reader is where it is behind a
parenthesis. -/
theorem readFrom_between_eq (offset : Nat) (cs : List Char) :
    readFrom strict ⟨frames, .between⟩ offset cs =
      readFrom strict ⟨frames, .opening⟩ (Cursor.skipFrom offset cs).offset
        (Cursor.skipFrom offset cs).rest := by
  induction cs generalizing offset with
  | nil => cases frames <;> rfl
  | cons c cs ih =>
    rw [Cursor.skipFrom]
    cases hblank : Text.isBlank c with
    | true =>
      have hstep : step ⟨frames, .between⟩ offset c = .more ⟨frames, .between⟩ := by
        simp [step, stepBetween, hblank]
      rw [if_pos rfl, readFrom_cons_of_more hstep, width_of_isBlank hblank, ih]
    | false =>
      have hstep : step ⟨frames, .between⟩ offset c = step ⟨frames, .opening⟩ offset c := by
        simp [step, stepBetween, hblank]
      rw [if_neg Bool.false_ne_true, readFrom, readFrom, hstep]

end Reader

namespace Cursor

variable {strict : Bool} {start : Nat}

/-- **Reading the items of a list in rounds comes to what the reader comes to**, if each
item is read as the reader reads it. -/
theorem readItems_eq {readItem : Cursor → Option (Except Unclosed Reading)} {bound : Nat}
    (hitem : ∀ cursor : Cursor, cursor.rest.length ≤ bound →
      readItem cursor = some (cursor.readOne strict)) :
    ∀ (cursor : Cursor) (items : List Form), cursor.rest.length ≤ bound →
      readItems readItem strict start items cursor =
        some (Reader.readFrom strict ⟨[⟨start, items.reverse⟩], .opening⟩ cursor.offset
          cursor.rest)
  | ⟨offset, []⟩, items, _ => by
    rw [readItems]
    cases strict <;> simp [Reader.readFrom, Reader.finish, Reader.pending, Reader.closeAll,
      Reader.Frame.close]
  | ⟨offset, c :: cs⟩, items, hbound => by
    rw [readItems]
    by_cases hclose : c = ')'
    · subst hclose
      simp [Reader.readFrom, Reader.step, Reader.closeList, Reader.deliver, Reader.Frame.close,
        Text.isBlank, Text.width]
    · have hhead : (c :: cs).head? ≠ some ')' := fun heq => hclose (Option.some.inj heq)
      rw [if_neg hclose, hitem _ hbound, Reader.readFrom_opening_eq (List.cons_ne_nil c cs) hhead]
      cases hread : readOne strict ⟨offset, c :: cs⟩ with
      | error unclosed => rfl
      | ok reading =>
        have hlt : reading.next.skipBlanks.rest.length < (c :: cs).length :=
          Nat.lt_of_le_of_lt (length_skipBlanks_le _) (Reader.length_next_lt hclose hread)
        have hmore := readItems_eq hitem reading.next.skipBlanks (items ++ [reading.form])
          (Nat.le_trans (Nat.le_of_lt hlt) hbound)
        simp only [dif_pos hlt, hmore]
        change _ = some (Reader.readFrom strict
          ⟨[Reader.Frame.push ⟨start, items.reverse⟩ reading.form], .between⟩ _ _)
        rw [Reader.readFrom_between_eq]
        simp [Reader.Frame.push, skipBlanks]
termination_by cursor => cursor.rest.length
decreasing_by exact hlt

/-- Where a list begins behind the blanks, its items are read in rounds. -/
theorem descend_of_open {depth offset : Nat} {cursor : Cursor} {cs : List Char}
    (h : cursor.skipBlanks = ⟨offset, '(' :: cs⟩) :
    descend strict (depth + 1) cursor =
      readItems (descend strict depth) strict offset [] ⟨offset + 1, cs⟩ := by
  unfold descend
  rw [h]
  rfl

/-- Elsewhere an atom is read. -/
theorem descend_of_not_open {depth : Nat} {cursor : Cursor}
    (h : cursor.skipBlanks.rest.head? ≠ some '(') :
    descend strict depth cursor = some (.ok cursor.skipBlanks.readAtom) := by
  unfold descend
  split
  · next heq => exact absurd (by rw [heq]; rfl) h
  · next heq => exact absurd (by rw [heq]; rfl) h
  · rfl

/-- **Descending comes to what the reader comes to**, and neither bound is met: lists are
nested no deeper than characters are left, and every round takes one. -/
theorem descend_eq {depth : Nat} {cursor : Cursor} (hdepth : cursor.rest.length ≤ depth) :
    descend strict depth cursor = some (cursor.readOne strict) := by
  induction depth generalizing cursor with
  | zero =>
    obtain ⟨offset, cs⟩ := cursor
    obtain rfl := List.eq_nil_of_length_eq_zero (Nat.le_zero.1 hdepth)
    rw [descend_of_not_open (by simp [skipBlanks, skipFrom])]
    rfl
  | succ depth ih =>
    have hle := Nat.le_trans (length_skipBlanks_le cursor) hdepth
    rw [← readOne_skipBlanks]
    cases hskip : cursor.skipBlanks with
    | mk offset cs =>
      rw [hskip] at hle
      by_cases hopen : cs.head? = some '('
      · obtain ⟨cs, rfl⟩ := List.head?_eq_some_iff.1 hopen
        have hstep : Reader.step Reader.State.initial offset '(' =
            .more ⟨[⟨offset, []⟩], .opening⟩ := rfl
        rw [descend_of_open hskip, readItems_eq (fun _ => ih) _ _ (Nat.le_of_succ_le_succ hle),
          readOne, Reader.readFrom_cons_of_more hstep]
        rfl
      · rw [descend_of_not_open (by rwa [hskip]), hskip, readOne_eq_readAtom ?_ hopen]
        intro c hc
        obtain ⟨cs, rfl⟩ := List.head?_eq_some_iff.1 hc
        exact not_isBlank_of_skipFrom hskip

/-! ## All forms -/

/-- Read forms up to the end of the text, in no more rounds than are said. -/
def readMoreWithin (strict : Bool) : Nat → Cursor → Option (Except Unclosed (List Form))
  | _, ⟨_, []⟩ => some (.ok [])
  | 0, ⟨_, _ :: _⟩ => none
  | rounds + 1, ⟨offset, c :: cs⟩ =>
    match readOne strict ⟨offset, c :: cs⟩ with
    | .error unclosed => some (.error unclosed)
    | .ok reading =>
      (readMoreWithin strict rounds (behind reading)).map fun more =>
        (reading.form :: ·) <$> more

/-- **As many rounds as characters are left are enough**, since each takes one. -/
theorem readMoreWithin_eq {rounds : Nat} {cursor : Cursor} (h : cursor.rest.length ≤ rounds) :
    readMoreWithin strict rounds cursor = some (readMore strict cursor) := by
  induction rounds generalizing cursor with
  | zero =>
    obtain ⟨offset, cs⟩ := cursor
    obtain rfl := List.eq_nil_of_length_eq_zero (Nat.le_zero.1 h)
    rw [readMoreWithin, readMore]
  | succ rounds ih =>
    obtain ⟨offset, cs⟩ := cursor
    cases cs with
    | nil => rw [readMoreWithin, readMore]
    | cons c cs =>
      rw [readMoreWithin]
      cases hread : readOne strict ⟨offset, c :: cs⟩ with
      | error unclosed => rw [readMore_of_readOne_error (List.cons_ne_nil c cs) hread]
      | ok reading =>
        have hlt := length_behind_lt hread
        rw [readMore_of_readOne (List.cons_ne_nil c cs) hread]
        simp only [ih (Nat.le_of_lt_succ (Nat.lt_of_lt_of_le hlt h)), Option.map_some]

/-! ## How far one form is read -/

/-- What is passed over are blanks. -/
theorem exists_skipBlanks (cursor : Cursor) : ∃ gap, Blanks gap ∧
    cursor.rest = gap ++ cursor.skipBlanks.rest ∧
      cursor.skipBlanks.offset = cursor.offset + Text.units gap := by
  obtain ⟨offset, cs⟩ := cursor
  obtain ⟨gap, rest, rfl, hgap, hrest⟩ := exists_run Text.isBlank cs
  have hskip : skipBlanks ⟨offset, gap ++ rest⟩ = ⟨offset + Text.units gap, rest⟩ := by
    rw [skipBlanks, skipFrom_blanks hgap]
    cases rest with
    | nil => rfl
    | cons c rest => rw [skipFrom, if_neg (by rw [hrest c rfl]; exact Bool.false_ne_true)]
  exact ⟨gap, hgap, by rw [hskip], by rw [hskip]⟩

/-- **A form takes the text from where it is read up to where reading goes on**, and
nothing but blanks just where the text ends behind them or a parenthesis closes
nothing. -/
theorem next_of_readOne {cursor : Cursor} {reading : Reading}
    (h : readOne strict cursor = .ok reading) :
    cursor.offset ≤ reading.next.offset ∧
    reading.next.offset + Text.units reading.next.rest =
      cursor.offset + Text.units cursor.rest ∧
    (reading.next.offset = cursor.skipBlanks.offset ↔
      cursor.skipBlanks.rest = [] ∨ cursor.skipBlanks.rest.head? = some ')') := by
  obtain ⟨offset, cs⟩ := cursor
  cases beginning cs with
  | blank hgap =>
    rw [readOne_blanks hgap] at h
    cases h
    have hskip := @skipFrom_blanks cs [] offset hgap
    rw [List.append_nil] at hskip
    rw [skipBlanks, hskip]
    exact ⟨Nat.le_add_right _ _, rfl, iff_of_true rfl (.inl rfl)⟩
  | @stray gap rest hgap =>
    rw [readOne_stray hgap] at h
    cases h
    rw [skipBlanks, skipFrom_blanks hgap, Text.units_append, ← Nat.add_assoc]
    exact ⟨Nat.le_add_right _ _, rfl, iff_of_true rfl (.inr rfl)⟩
  | @form layout rest hstands =>
    rw [eq_of_readOne_layout hstands h, Text.units_append, ← Nat.add_assoc]
    obtain ⟨before, c, cs, hbefore, hblank, hclose, hchars⟩ := hstands.exists_begin
    refine ⟨Nat.le_add_right _ _, rfl, ?_⟩
    -- behind the blanks stands a character that is taken
    have hskip : skipBlanks ⟨offset, layout.chars ++ rest⟩ =
        ⟨offset + Text.units before, c :: (cs ++ rest)⟩ := by
      rw [hchars, List.append_assoc, List.cons_append, skipBlanks, skipFrom_blanks hbefore,
        skipFrom, if_neg (by rw [hblank]; exact Bool.false_ne_true)]
    have hpos := Text.width_pos c
    have hunits := congrArg Text.units hchars
    rw [Text.units_append, Text.units_cons] at hunits
    rw [hskip]
    refine iff_of_false (by simp only; omega) ?_
    rintro (hnil | hparen)
    · cases hnil
    · exact hclose (Option.some.inj hparen)

end Cursor

/-! ## From an offset on -/

/-- Blanks are passed over from an offset on as the reader does it. -/
theorem skipBlanksAt_natCast (cs : List Char) (offset : Nat) :
    skipBlanksAt cs offset = (Cursor.atOffset cs offset).skipBlanks.offset := by
  have honward := Text.onward_of_after? offset cs
  rw [skipBlanksAt, if_neg (Int.not_lt.2 (Int.natCast_nonneg offset)), Int.toNat_natCast,
    Cursor.atOffset, Cursor.skipBlanks]
  cases hrest : Text.after? offset cs with
  | some rest => rw [honward.1 rest hrest]
  | none =>
    -- what is left begins with no blank
    have hhalf := honward.2 hrest
    cases hleft : Text.onward offset cs with
    | nil => rfl
    | cons c more =>
      obtain rfl : c = '\uFFFD' := hhalf c (by rw [hleft]; rfl)
      rfl

/-- Reading a form from an offset in the text ends, and gets on. -/
structure AdvancesFrom (strict : Bool) (cs : List Char) (offset : Nat) : Prop where
  /-- Descending into lists as deep as there are units left, and in rounds each of which
  takes a character, comes to what is read. -/
  descends : ∀ depth, Text.units cs - offset ≤ depth →
    (Cursor.atOffset cs offset).descend strict depth = some (readAt strict cs offset)
  /-- Only in the strict mode a fault may be all that it comes to. -/
  strict_of_error : ∀ unclosed, readAt strict cs offset = .error unclosed → strict = true
  /-- Reading goes on not before the offset and not behind the end of the text. -/
  bounds : ∀ reading, readAt strict cs offset = .ok reading →
    offset ≤ reading.next.offset ∧ reading.next.offset ≤ Text.units cs
  /-- It goes on where the blanks end just if the text ends there, or a parenthesis stands
  there that closes nothing. -/
  stays_iff : ∀ reading, readAt strict cs offset = .ok reading →
    (reading.next.offset = skipBlanksAt cs offset ↔
      skipBlanksAt cs offset = Text.units cs ∨
        Text.charAt? (skipBlanksAt cs offset).toNat cs = some ')')

/-- **The reader always advances.** From every offset of a text, in either mode, reading a
form ends, be it by descending into lists, which are nested no deeper than the text is
long from there on and each round of which takes a character; and it goes on from a
later offset, unless there is nothing to take. Reading all forms takes no more rounds
than the text has characters. -/
theorem reader_advances (strict : Bool) (cs : List Char) :
    (∀ offset ≤ Text.units cs, AdvancesFrom strict cs offset) ∧
    Cursor.readMoreWithin strict cs.length (Cursor.ofText cs).skipBlanks =
      some (readAll strict cs) := by
  refine ⟨fun offset hoffset => ?_,
    Cursor.readMoreWithin_eq (Cursor.length_skipBlanks_le (Cursor.ofText cs))⟩
  have hunits : offset + Text.units (Cursor.atOffset cs offset).rest = Text.units cs :=
    Text.add_units_onward hoffset
  refine ⟨fun depth hdepth => Cursor.descend_eq ?_, fun _ => Cursor.strict_of_readOne_error,
    fun reading hread => ?_, fun reading hread => ?_⟩
  · have hle := Text.length_le_units (Cursor.atOffset cs offset).rest
    omega
  · obtain ⟨hle, hnext, -⟩ := Cursor.next_of_readOne hread
    have hstart : (Cursor.atOffset cs offset).offset = offset := rfl
    omega
  · obtain ⟨gap, -, hgap, hskip⟩ := Cursor.exists_skipBlanks (Cursor.atOffset cs offset)
    have honward := Text.onward_add_units hgap
    change _ = offset + Text.units gap at hskip
    rw [← hskip] at honward
    rw [skipBlanksAt_natCast, Int.natCast_inj, Int.natCast_inj, Int.toNat_natCast,
      (Cursor.next_of_readOne hread).2.2, ← honward, Text.onward_eq_nil_iff,
      Text.head?_onward_eq_some_iff rfl (by decide)]
    have hle : (Cursor.atOffset cs offset).skipBlanks.offset ≤ Text.units cs := by
      rw [hgap, Text.units_append] at hunits
      omega
    exact or_congr_left ⟨Nat.le_antisymm hle, fun heq => Nat.le_of_eq heq.symm⟩

/-- Before the parenthesis, which closes nothing, only the blanks are taken; from the middle
of the last character on, which takes two units, half of it is. -/
theorem reader_advances_pair :
    let cs := "a  )😀".toList
    (1 ≤ Text.units cs ∧ 5 ≤ Text.units cs ∧ Text.units cs = 6) ∧
    (∃ reading, readAt false cs 1 = .ok reading ∧ reading.next.offset = 3) ∧
    ∃ reading, readAt false cs 5 = .ok reading ∧ reading.next.offset = 6 := by
  intro cs
  have hunits : Text.units cs = 6 := by decide
  have hone : 1 ≤ Text.units cs := by rw [hunits]; decide
  have hfive : 5 ≤ Text.units cs := by rw [hunits]; decide
  have hreads {offset : Nat} (h : AdvancesFrom false cs offset) :
      ∃ reading, readAt false cs offset = .ok reading := by
    cases hread : readAt false cs offset with
    | ok reading => exact ⟨reading, rfl⟩
    | error unclosed => exact absurd (h.strict_of_error unclosed hread) Bool.false_ne_true
  have hbefore := (reader_advances false cs).1 1 hone
  have hinside := (reader_advances false cs).1 5 hfive
  obtain ⟨before, hbefore_read⟩ := hreads hbefore
  obtain ⟨inside, hinside_read⟩ := hreads hinside
  refine ⟨⟨hone, hfive, hunits⟩, ⟨before, hbefore_read, ?_⟩, inside, hinside_read, ?_⟩
  · have hskip : skipBlanksAt cs (1 : Nat) = 3 := by decide
    have hstays := (hbefore.stays_iff before hbefore_read).2 (.inr (by rw [hskip]; decide))
    exact Int.natCast_inj.1 (hstays.trans hskip)
  · have hskip : skipBlanksAt cs (5 : Nat) = 5 := by decide
    obtain ⟨hle, hstop⟩ := hinside.bounds inside hinside_read
    -- neither the end of the text stands there nor a parenthesis
    have hmoves : inside.next.offset ≠ 5 := fun heq => by
      have hstays := (hinside.stays_iff inside hinside_read).1 (by rw [heq]; exact hskip.symm)
      rw [hskip, hunits] at hstays
      exact absurd hstays (by decide)
    omega

end SatScript
