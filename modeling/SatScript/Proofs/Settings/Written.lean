import SatScript.Proofs.Settings.Line
import SatScript.Proofs.Term.Numeral
/-!
# SatScript — documents that are written down

A document of sections is written down line by line: a line for the name of each
section, and indented lines for its entries. Empty lines and comments may stand
anywhere between them, and a comment behind what a line says (`Writes`). What is
written down is read as it was (`WrittenAs.read_eq`), and every document can be
written down that has plain names and values (`IsWritable.exists_writtenAs`).
-/

namespace SatScript

/-! ## Plain values -/

/-- The digits of an integer, with a minus sign if it is negative. -/
def Text.ofInteger (n : Int) : List Char :=
  if n < 0 then '-' :: digits n.natAbs else digits n.natAbs

/-- The digits of an integer are read as the integer. -/
theorem Text.integer?_ofInteger (n : Int) : integer? (ofInteger n) = some n := by
  have hdigits := (isDecimal_digits n.natAbs).isDigits
  by_cases h : n < 0
  · rw [ofInteger, if_pos h, integer?, if_pos hdigits, value_digits, signed, if_pos rfl,
      Int.ofNat_natAbs_of_nonpos h.le, neg_neg]
  · have hminus : '-' ∉ digits n.natAbs := not_mem_of_isDigits hdigits (by decide)
    rw [ofInteger, if_neg h, integer?.eq_2 _ fun ds hds => hminus (by rw [hds]; simp),
      if_pos hdigits, value_digits, signed, if_neg Bool.false_ne_true,
      Int.natAbs_of_nonneg (not_lt.1 h)]

namespace Sections

open Text (IsSpaces IsTrimmed)

/-- How a plain value is written: a flag as a word, an integer with its digits, and a
text as it is, unless it is empty, has spaces around it, holds a number sign or the
end of a line, or would be read as a flag or an integer. -/
inductive Written : Scalar → List Char → Prop
  | flag (value : Bool) : Written (.flag value) (if value then "true".toList else "false".toList)
  | integer (n : Int) : Written (.number (Number.ofInt n)) (Text.ofInteger n)
  | text {cs : List Char} (hne : cs ≠ []) (htrimmed : IsTrimmed cs)
      (hmark : ∀ c ∈ cs, c ≠ '#' ∧ staysInComment c = true)
      (hflag : cs ≠ "true".toList ∧ cs ≠ "false".toList)
      (hinteger : ∀ ds, Text.isDigits ds = true → cs ≠ ds ∧ cs ≠ '-' :: ds) :
      Written (.text (String.ofList cs)) cs

variable {value : Scalar} {chars : List Char}

/-- **What is written is read as it was.** -/
theorem Written.scalar_eq (h : Written value chars) : scalar chars = value := by
  cases h with
  | flag value => cases value <;> rfl
  | integer n =>
    have hread := Text.integer?_ofInteger n
    have hword {word : List Char} (hnone : Text.integer? word = none) :
        Text.ofInteger n ≠ word := fun heq => by rw [heq, hnone] at hread; cases hread
    rw [scalar, if_neg (hword (by decide)), if_neg (hword (by decide)), hread]
  | text hne htrimmed hmark hflag hinteger =>
    have hnone : Text.integer? chars = none := by
      rw [Text.integer?.eq_def]
      split
      · next ds => exact if_neg fun hds => (hinteger ds hds).2 rfl
      · exact if_neg fun hds => (hinteger chars hds).1 rfl
    rw [scalar, if_neg hflag.1, if_neg hflag.2, hnone]

/-- What is written of an integer are digits and a minus sign. -/
theorem mem_ofInteger {n : Int} {c : Char} (h : c ∈ Text.ofInteger n) :
    c = '-' ∨ c.isDigit = true := by
  have hdigits := (Text.isDigits_iff.1 (Text.isDecimal_digits n.natAbs).isDigits).2 c
  rw [Text.ofInteger] at h
  split at h
  · exact (List.mem_cons.1 h).imp_right hdigits
  · exact .inr (hdigits h)

/-- What is written is something, has no spaces around it and stays on one line with a
comment behind it. -/
structure IsPlain (chars : List Char) : Prop where
  ne : chars ≠ []
  trimmed : IsTrimmed chars
  mark : ∀ c ∈ chars, c ≠ '#' ∧ staysInComment c = true

/-- Characters that may stand anywhere in what is written. -/
def isFree (c : Char) : Bool := !Text.isSpace c && c != '#' && staysInComment c

theorem IsPlain.of_free (hne : chars ≠ []) (h : chars.all isFree = true) : IsPlain chars := by
  simp only [isFree, List.all_eq_true, Bool.and_eq_true, Bool.not_eq_true', bne_iff_ne] at h
  exact ⟨hne, Text.isTrimmed_of_forall fun c hc => (h c hc).1.1,
    fun c hc => ⟨(h c hc).1.2, (h c hc).2⟩⟩

theorem isFree_of_isDigit {c : Char} (h : c.isDigit = true) : isFree c = true := by
  have hne {d : Char} (hd : d.isDigit = false) : c ≠ d := fun heq => by
    rw [heq, hd] at h
    cases h
  have hmark : c ≠ '#' := hne rfl
  have hfeed : c ≠ '\n' := hne rfl
  have hreturn : c ≠ '\r' := hne rfl
  have hline : c ≠ '\u2028' := hne rfl
  have hparagraph : c ≠ '\u2029' := hne rfl
  simp [isFree, staysInComment, Text.isSpace_of_isDigit h, hmark, hfeed, hreturn, hline,
    hparagraph]

theorem Written.isPlain (h : Written value chars) : IsPlain chars := by
  cases h with
  | flag value => cases value <;> exact .of_free (by decide) rfl
  | integer n =>
    have hne : Text.ofInteger n ≠ [] := fun hnil => by
      have hread := Text.integer?_ofInteger n
      rw [hnil] at hread
      cases hread
    refine .of_free hne (List.all_eq_true.2 fun c hc => ?_)
    rcases mem_ofInteger hc with rfl | hdigit
    · rfl
    · exact isFree_of_isDigit hdigit
  | text hne htrimmed hmark => exact ⟨hne, htrimmed, hmark⟩

/-! ## Lines -/

/-- The name of a section or the key of an entry: not empty, not reserved, and
without spaces, colons and number signs. -/
structure IsName (name : String) : Prop where
  ne : name.toList ≠ []
  free : name ≠ reservedKey
  chars : ∀ c ∈ name.toList, Text.isSpace c = false ∧ c ≠ ':' ∧ c ≠ '#'

/-- A line that says nothing: spaces, and perhaps a comment behind them. -/
def IsIdle (cs : List Char) : Prop :=
  ∃ spaces rest, IsSpaces spaces ∧ (rest = [] ∨ rest.head? = some '#') ∧ cs = spaces ++ rest

/-- What may stand behind what a line says: nothing, or spaces and a comment. -/
def MayFollow (tail : List Char) : Prop := tail = [] ∨ IsTail tail

variable {name key : String} {indent tail line : List Char}

theorem IsPlain.not_mem_mark (h : IsPlain chars) : '#' ∉ chars := fun hmem => (h.mark _ hmem).1 rfl

namespace IsName

theorem of_all (hne : name.toList ≠ []) (hfree : name ≠ reservedKey)
    (h : name.toList.all (fun c => !Text.isSpace c && c != ':' && c != '#') = true) :
    IsName name := by
  simp only [List.all_eq_true, Bool.and_eq_true, Bool.not_eq_true', bne_iff_ne] at h
  exact ⟨hne, hfree, fun c hc => ⟨(h c hc).1.1, (h c hc).1.2, (h c hc).2⟩⟩

/-- A value is entered under a name. -/
theorem assign_eq {α : Type} (h : IsName name) (table : Table α) (value : α) :
    assign table name value = table.set name value := if_neg h.free

theorem isTrimmed (h : IsName name) : IsTrimmed name.toList :=
  Text.isTrimmed_of_forall fun c hc => (h.chars c hc).1

theorem not_mem_colon (h : IsName name) : ':' ∉ name.toList := fun hmem => (h.chars _ hmem).2.1 rfl

theorem not_mem_mark (h : IsName name) : '#' ∉ name.toList := fun hmem => (h.chars _ hmem).2.2 rfl

/-- What begins a name is no number sign. -/
theorem start (h : IsName name) : '#' ∉ (Text.trimStart name.toList).head? := by
  rw [Text.trimStart_eq_self h.isTrimmed.head]
  exact fun hmark => h.not_mem_mark (List.mem_of_mem_head? hmark)

end IsName

/-- A line that says nothing is passed over. -/
theorem line?_idle (h : IsIdle line) : line? line = none := by
  obtain ⟨spaces, rest, hspaces, hrest, rfl⟩ := h
  refine line?_eq_none fun hspeaks => ?_
  have hstart := hspeaks.start
  rw [Text.trimStart_append hspaces] at hstart
  rcases hrest with rfl | hmark
  · rw [List.append_nil] at hspeaks
    exact hspaces.not_mem rfl hspeaks.colon
  · have hself : Text.trimStart rest = rest := Text.trimStart_eq_self fun c hc => by
      rw [Option.mem_def, hmark, Option.some.injEq] at hc
      rw [← hc]
      rfl
    rw [hself] at hstart
    exact hstart hmark

theorem isSpaces_blank : IsSpaces [' '] := List.forall_mem_singleton.2 rfl

/-- **A name with a colon opens a section**, whatever comment stands behind it. -/
theorem line?_section (hname : IsName name) (htail : MayFollow tail) :
    line? (name.toList ++ [':'] ++ tail) =
      some { indented := false, key := name, value := [] } := by
  have hmark : '#' ∉ name.toList ++ [':'] := by
    rw [List.mem_append, not_or]
    exact ⟨hname.not_mem_mark, by decide⟩
  have hlast : ∀ c ∈ (name.toList ++ [':']).getLast?, Text.isSpace c = false := fun c hc => by
    rw [List.getLast?_concat, Option.mem_def, Option.some.injEq] at hc
    rw [← hc]
    rfl
  have hindented : isIndented (name.toList ++ [':']) = false := by
    obtain ⟨c, rest, hcons⟩ := List.exists_cons_of_ne_nil hname.ne
    rw [isIndented, hcons]
    exact (hname.chars c (by rw [hcons]; exact List.mem_cons_self)).1
  rw [line?_eq, stripComment_of_tail hmark hlast htail,
    said?_of_colon hname.not_mem_colon hname.start, hindented, Text.trim_eq_self hname.isTrimmed,
    String.ofList_toList]
  rfl

/-- **A key with a colon and a value is an entry**, if the line is indented, whatever
comment stands behind it. -/
theorem line?_entry (hindent : IsSpaces indent) (hne : indent ≠ []) (hkey : IsName key)
    (hchars : IsPlain chars) (htail : MayFollow tail) :
    line? (indent ++ key.toList ++ [':', ' '] ++ chars ++ tail) =
      some { indented := true, key, value := chars } := by
  have hmark : '#' ∉ indent ++ key.toList ++ [':', ' '] ++ chars := by
    simp only [List.mem_append, not_or]
    exact ⟨⟨⟨hindent.not_mem rfl, hkey.not_mem_mark⟩, by decide⟩, hchars.not_mem_mark⟩
  have hlast : ∀ c ∈ (indent ++ key.toList ++ [':', ' '] ++ chars).getLast?,
      Text.isSpace c = false := by
    rw [List.getLast?_append_of_ne_nil _ hchars.ne]
    exact hchars.trimmed.last
  have hcolon : ':' ∉ indent ++ key.toList := by
    rw [List.mem_append, not_or]
    exact ⟨hindent.not_mem rfl, hkey.not_mem_colon⟩
  have hstart : '#' ∉ (Text.trimStart (indent ++ key.toList)).head? := by
    rw [Text.trimStart_append hindent]
    exact hkey.start
  have hnone : IsSpaces [] := fun c hc => by cases hc
  have htrim : Text.trim (indent ++ key.toList) = key.toList := by
    have h := Text.trim_between hindent hkey.isTrimmed hnone
    rwa [List.append_nil] at h
  have hvalue : Text.trim (' ' :: chars) = chars := by
    have h := Text.trim_between isSpaces_blank hchars.trimmed hnone
    rwa [List.append_nil] at h
  have hindented : isIndented (indent ++ key.toList ++ ':' :: ' ' :: chars) = true := by
    obtain ⟨c, rest, rfl⟩ := List.exists_cons_of_ne_nil hne
    exact hindent c List.mem_cons_self
  have hline : indent ++ key.toList ++ [':', ' '] ++ chars =
      indent ++ key.toList ++ ':' :: ' ' :: chars := by
    rw [List.append_assoc _ [':', ' ']]
    rfl
  rw [line?_eq, stripComment_of_tail hmark hlast htail, hline, said?_of_colon hcolon hstart,
    hindented, htrim, hvalue, String.ofList_toList]

/-! ## Documents -/

/-- Lines that the entries of a section are written on: each on one, indented, with
lines that say nothing between them and comments behind them. -/
inductive WritesEntries : List (String × Scalar) → List (List Char) → Prop
  | nil : WritesEntries [] []
  | idle {entries : List (String × Scalar)} {line : List Char} {lines : List (List Char)}
      (hline : IsIdle line) (hlines : WritesEntries entries lines) :
      WritesEntries entries (line :: lines)
  | entry {entries : List (String × Scalar)} {lines : List (List Char)} {key : String}
      {value : Scalar} {indent chars tail : List Char} (hindent : IsSpaces indent)
      (hne : indent ≠ []) (hkey : IsName key) (hvalue : Written value chars)
      (htail : MayFollow tail) (hlines : WritesEntries entries lines) :
      WritesEntries ((key, value) :: entries)
        ((indent ++ key.toList ++ [':', ' '] ++ chars ++ tail) :: lines)

/-- Lines that a document is written on: a line that opens each section and lines for
its entries, with lines that say nothing before the first section. -/
inductive Writes : List (String × Table Scalar) → List (List Char) → Prop
  | nil : Writes [] []
  | idle {sections : List (String × Table Scalar)} {line : List Char} {lines : List (List Char)}
      (hline : IsIdle line) (hlines : Writes sections lines) : Writes sections (line :: lines)
  | section {sections : List (String × Table Scalar)} {lines more : List (List Char)}
      {name : String} {entries : Table Scalar} {tail : List Char} (hname : IsName name)
      (htail : MayFollow tail) (hentries : WritesEntries entries.entries lines)
      (hmore : Writes sections more) :
      Writes ((name, entries) :: sections) ((name.toList ++ [':'] ++ tail) :: (lines ++ more))

end Sections

namespace Table

variable {α : Type}

/-- Of two values that are set for one name one after the other the later counts. -/
theorem set_set (table : Table α) (name : String) (first second : α) :
    (table.set name first).set name second = table.set name second := by
  have hentries (entries : List (String × α)) :
      setEntry name second (setEntry name first entries) = setEntry name second entries := by
    induction entries with
    | nil => simp [setEntry]
    | cons entry rest ih =>
      rw [setEntry, setEntry]
      split
      · rw [setEntry, if_pos rfl]
      · next h => rw [setEntry, if_neg h, ih]
  simp only [set, hentries]

end Table

namespace Sections

/-- The state in which a section is open. -/
def State.within (document : Sections) (name : String) (entries : Table Scalar) : State where
  document := document.set name (.section entries)
  current := some (name, entries)

variable {document : Sections} {name key : String} {lines : List (List Char)}
  {value : Scalar} {chars : List Char}

/-- A line that opens a section. -/
theorem State.take_section (state : State) (hname : IsName name) :
    state.take { indented := false, key := name, value := [] } =
      State.within state.document name Table.empty := by
  rw [State.within, ← hname.assign_eq]
  rfl

/-- A line with an entry of the section that is open. -/
theorem State.take_entry (table : Table Scalar) (hname : IsName name) (hkey : IsName key)
    (hvalue : Written value chars) :
    (State.within document name table).take { indented := true, key, value := chars } =
      State.within document name (table.set key value) := by
  show State.mk (assign (document.set name (.section table)) name
    (.section (assign table key (scalar chars)))) (some (name, assign table key (scalar chars))) = _
  rw [hname.assign_eq, hkey.assign_eq, hvalue.scalar_eq, Table.set_set]
  rfl

/-- Lines that entries are written on put them into the section that is open. -/
theorem WritesEntries.foldl_take {entries : List (String × Scalar)}
    (h : WritesEntries entries lines) (hname : IsName name) (table : Table Scalar) :
    (lines.filterMap line?).foldl State.take (State.within document name table) =
      State.within document name (table.setAll entries) := by
  induction h generalizing table with
  | nil => rfl
  | idle hline _ ih => rw [List.filterMap_cons_none (line?_idle hline), ih]
  | entry hindent hne hkey hvalue htail _ ih =>
    rw [List.filterMap_cons_some (line?_entry hindent hne hkey hvalue.isPlain htail),
      List.foldl_cons, State.take_entry table hname hkey hvalue, ih]
    rfl

/-- Lines that sections are written on put them into the document. -/
theorem Writes.foldl_take {sections : List (String × Table Scalar)} (h : Writes sections lines)
    (state : State) :
    ((lines.filterMap line?).foldl State.take state).document =
      state.document.setAll (sections.map fun entry => (entry.1, .section entry.2)) := by
  induction h generalizing state with
  | nil => rfl
  | idle hline _ ih => rw [List.filterMap_cons_none (line?_idle hline), ih]
  | @«section» sections lines more name entries tail hname htail hentries _ ih =>
    rw [List.filterMap_cons_some (line?_section hname htail), List.foldl_cons,
      List.filterMap_append, List.foldl_append, State.take_section _ hname,
      hentries.foldl_take hname, ih]
    have hall : Table.empty.setAll entries.entries = entries := entries.ofList_entries
    rw [hall]
    rfl

/-- A text that a document is written as: lines with line feeds between them. -/
def WrittenAs (document : Table (Table Scalar)) (text : List Char) : Prop :=
  ∃ lines, Writes document.entries lines ∧ (∀ line ∈ lines, '\n' ∉ line) ∧
    text = ['\n'].intercalate lines

variable {document : Table (Table Scalar)} {text : List Char}

/-- **What is written down is read as it was.** -/
theorem WrittenAs.read_eq (h : WrittenAs document text) :
    read text = document.map Entry.section := by
  obtain ⟨lines, hwrites, hlines, rfl⟩ := h
  have hread : read (['\n'].intercalate lines) =
      ((lines.filterMap line?).foldl State.take {}).document := by
    cases lines with
    | nil => rfl
    | cons line lines =>
      rw [read, Text.split_intercalate (List.cons_ne_nil _ _) hlines]
  rw [hread, hwrites.foldl_take]
  exact (document.map Entry.section).ofList_entries

/-! ## What can be written down -/

/-- A document that can be written down: the sections and the keys have plain names,
and the values are plain. -/
def IsWritable (document : Table (Table Scalar)) : Prop :=
  ∀ name entries, document.get? name = some entries → IsName name ∧
    ∀ key value, entries.get? key = some value → IsName key ∧ ∃ chars, Written value chars

theorem IsName.not_mem_feed (h : IsName name) : '\n' ∉ name.toList := fun hmem => by
  cases (h.chars _ hmem).1

theorem IsPlain.not_mem_feed (h : IsPlain chars) : '\n' ∉ chars := fun hmem => by
  cases (h.mark _ hmem).2

theorem exists_writesEntries {entries : List (String × Scalar)}
    (h : ∀ entry ∈ entries, IsName entry.1 ∧ ∃ chars, Written entry.2 chars) :
    ∃ lines, WritesEntries entries lines ∧ ∀ line ∈ lines, '\n' ∉ line := by
  induction entries with
  | nil => exact ⟨[], .nil, fun line hline => by cases hline⟩
  | cons entry entries ih =>
    obtain ⟨⟨hkey, chars, hvalue⟩, hrest⟩ := List.forall_mem_cons.1 h
    obtain ⟨lines, hwrites, hlines⟩ := ih hrest
    refine ⟨_, .entry isSpaces_blank (List.cons_ne_nil _ _) hkey hvalue (.inl rfl) hwrites,
      List.forall_mem_cons.2 ⟨?_, hlines⟩⟩
    simp [hkey.not_mem_feed, hvalue.isPlain.not_mem_feed]

theorem exists_writes {sections : List (String × Table Scalar)}
    (h : ∀ entry ∈ sections, IsName entry.1 ∧
      ∀ line ∈ entry.2.entries, IsName line.1 ∧ ∃ chars, Written line.2 chars) :
    ∃ lines, Writes sections lines ∧ ∀ line ∈ lines, '\n' ∉ line := by
  induction sections with
  | nil => exact ⟨[], .nil, fun line hline => by cases hline⟩
  | cons entry sections ih =>
    obtain ⟨⟨hname, hentries⟩, hrest⟩ := List.forall_mem_cons.1 h
    obtain ⟨more, hmore, hmoreLines⟩ := ih hrest
    obtain ⟨lines, hwrites, hlines⟩ := exists_writesEntries hentries
    refine ⟨_, .section hname (.inl rfl) hwrites hmore,
      List.forall_mem_cons.2 ⟨?_, List.forall_mem_append.2 ⟨hlines, hmoreLines⟩⟩⟩
    simp [hname.not_mem_feed]

/-- **Every document with plain names and values can be written down.** -/
theorem IsWritable.exists_writtenAs (h : IsWritable document) :
    ∃ text, WrittenAs document text := by
  have hplain : ∀ entry ∈ document.entries, IsName entry.1 ∧
      ∀ line ∈ entry.2.entries, IsName line.1 ∧ ∃ chars, Written line.2 chars :=
    fun entry hentry => by
      obtain ⟨hname, hentries⟩ := h _ _ (Table.get?_of_mem hentry)
      exact ⟨hname, fun line hline => hentries _ _ (Table.get?_of_mem hline)⟩
  obtain ⟨lines, hwrites, hlines⟩ := exists_writes hplain
  exact ⟨_, lines, hwrites, hlines, rfl⟩

/-! ## The reserved key -/

/-- Nothing is entered under the reserved key, in the document and in its sections. -/
structure State.Unreserved (state : State) : Prop where
  document : state.document.get? reservedKey = none
  sections : ∀ name entries, state.document.get? name = some (.section entries) →
    entries.get? reservedKey = none
  current : ∀ name entries, state.current = some (name, entries) →
    entries.get? reservedKey = none

/-- Under the reserved key nothing is entered. -/
theorem get?_assign_reservedKey {α : Type} {table : Table α}
    (h : table.get? reservedKey = none) (key : String) (value : α) :
    (assign table key value).get? reservedKey = none := by
  rw [get?_assign, if_neg fun hkey => hkey.1 hkey.2.symm, h]

namespace State.Unreserved

variable {state : State}

/-- A section without the reserved key is entered, or a plain value. -/
theorem assign (h : state.Unreserved) (name : String) {entry : Entry}
    (hentry : ∀ entries, entry = .section entries → entries.get? reservedKey = none) :
    (Sections.assign state.document name entry).get? reservedKey = none ∧
      ∀ other entries, (Sections.assign state.document name entry).get? other =
        some (.section entries) → entries.get? reservedKey = none := by
  refine ⟨get?_assign_reservedKey h.document _ _, fun other entries hget => ?_⟩
  rw [get?_assign] at hget
  split at hget
  · exact hentry entries (Option.some.inj hget)
  · exact h.sections other entries hget

/-- No line enters anything under the reserved key. -/
theorem take (h : state.Unreserved) (line : Line) : (state.take line).Unreserved := by
  have hempty : ∀ entries, Entry.section Table.empty = .section entries →
      entries.get? reservedKey = none := fun entries heq => by
    rw [← Entry.section.inj heq, Table.get?_empty]
  rw [State.take]
  split
  · split
    · exact h
    · next name entries hcurrent =>
      have hentries : ∀ more, Entry.section (Sections.assign entries line.key
          (scalar line.value)) = .section more → more.get? reservedKey = none := fun more heq => by
        rw [← Entry.section.inj heq]
        exact get?_assign_reservedKey (h.current name entries hcurrent) _ _
      obtain ⟨hdocument, hsections⟩ := h.assign name hentries
      exact ⟨hdocument, hsections, fun other more hopen => hentries more (by cases hopen; rfl)⟩
  · split
    · obtain ⟨hdocument, hsections⟩ := h.assign line.key hempty
      exact ⟨hdocument, hsections, fun other more hopen => hempty more (by cases hopen; rfl)⟩
    · have hscalar : ∀ entries, Entry.scalar (scalar line.value) = .section entries →
          entries.get? reservedKey = none := fun _ heq => by cases heq
      obtain ⟨hdocument, hsections⟩ := h.assign line.key hscalar
      exact ⟨hdocument, hsections, fun other more hopen => by cases hopen⟩

end State.Unreserved

/-- **No document has the reserved key**, nor has a section of one. So a document with
it cannot be written down. -/
theorem get?_read_reservedKey (cs : List Char) :
    (read cs).get? reservedKey = none ∧
      ∀ name entries, (read cs).get? name = some (.section entries) →
        entries.get? reservedKey = none := by
  have hstart : State.Unreserved {} :=
    { document := rfl
      sections := fun _ _ h => by cases h
      current := fun _ _ h => by cases h }
  have hend := List.foldlRecOn ((Text.split '\n' cs).filterMap line?) State.take hstart
    fun _ h line _ => h.take line
  exact ⟨hend.document, hend.sections⟩

end Sections

end SatScript
