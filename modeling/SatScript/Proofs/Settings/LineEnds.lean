import SatScript.Proofs.Settings.Line
import SatScript.Proofs.Term.Numeral
/-!
# SatScript — carriage returns at the ends of lines

A text of settings can be saved with a carriage return before every line feed.
A return is a space, so it is trimmed, but it is none of the characters that a
comment can hold, and a comment runs to the end of its line or is none. So a line
with a return says what it says with its comment left in it (`line?_return`).
That is the same unless a comment stands behind something (`line?_eq_said?_iff`),
and a text without such lines is the same document with returns
(`read_withReturns`).
-/

namespace SatScript

/-- The text with a carriage return before every line feed. -/
def Text.withReturns (cs : List Char) : List Char :=
  cs.flatMap fun c => if c = '\n' then ['\r', '\n'] else [c]

namespace Sections

open Text (IsSpaces withReturns)

variable {line cs : List Char}

/-! ## One line -/

/-- A comment with a return at its end is none. -/
theorem stripComment_return (cs : List Char) :
    stripComment (cs ++ ['\r']) = cs ++ ['\r'] := by
  have hreturn : stripComment ['\r'] = ['\r'] := by decide
  rw [stripComment_append fun part _ _ => ?_, hreturn]
  refine Bool.eq_false_iff.2 fun hcomment => ?_
  obtain ⟨spaces, rest, -, hrest, hsplit⟩ := isComment_iff.1 hcomment
  -- the return would stand in the comment, behind the number sign
  have hlast : ('#' :: rest).getLast? = some '\r' := by
    have h := congrArg List.getLast? hsplit
    rw [List.getLast?_append_of_ne_nil _ (List.cons_ne_nil _ _),
      List.getLast?_append_of_ne_nil _ (List.cons_ne_nil _ _)] at h
    exact h.symm
  rw [List.getLast?_cons] at hlast
  cases hend : rest.getLast? with
  | none => simp [hend] at hlast
  | some c =>
    have hc : c = '\r' := by simpa [hend] using hlast
    have hstays := hrest c (List.mem_of_getLast? hend)
    rw [hc] at hstays
    cases hstays

/-- A return behind a line is trimmed. -/
theorem said?_return (cs : List Char) : said? (cs ++ ['\r']) = said? cs := by
  have htrim : Text.trim (cs ++ ['\r']) = Text.trim cs :=
    Text.trim_append (fun c hc => by rw [List.mem_singleton.1 hc]; rfl) cs
  cases cs with
  | nil => rfl
  | cons c cs =>
    rw [said?, htrim, said?]
    rfl

/-- **A line with a return says what it says with its comment left in it.** -/
theorem line?_return (cs : List Char) : line? (cs ++ ['\r']) = said? cs := by
  rw [line?_eq, stripComment_return, said?_return]

/-- A line with a comment behind something: it says something, and spaces and a
comment end it. -/
structure Remarked (line : List Char) : Prop where
  tail : ∃ before tail, line = before ++ tail ∧ IsTail tail
  speaks : Speaks line

/-- Without a comment behind something a line says what is in it. -/
theorem line?_of_not_remarked (h : ¬ Remarked line) : line? line = said? line := by
  obtain ⟨tail, hline, htail⟩ := exists_tail line
  rw [line?_eq]
  rcases htail with rfl | htail
  · rw [← List.append_nil (stripComment line), ← hline]
  · have hspeaks : ¬ Speaks line := fun hspeaks => h ⟨⟨_, tail, hline, htail⟩, hspeaks⟩
    rw [← line?_eq, line?_eq_none hspeaks, said?_eq_none hspeaks]

/-! ## What a comment does to a value -/

/-- As many number signs are in a text when it is trimmed. -/
theorem count_trim (cs : List Char) : (Text.trim cs).count '#' = cs.count '#' := by
  have hspaces {spaces : List Char} (h : IsSpaces spaces) : spaces.count '#' = 0 :=
    List.count_eq_zero_of_not_mem fun hmem => by cases h _ hmem
  obtain ⟨behind, hbehind, hend⟩ := Text.exists_trimEnd (Text.trimStart cs)
  have hstart : (Text.trimStart cs).count '#' = cs.count '#' := by
    conv_rhs => rw [← List.takeWhile_append_dropWhile (p := Text.isSpace) (l := cs)]
    rw [List.count_append, hspaces fun c hc => List.mem_takeWhile_imp hc, Nat.zero_add]
    rfl
  rw [← hstart, hend, List.count_append, hspaces hbehind, Nat.add_zero]
  rfl

/-- Of a line that ends in a comment something is taken off. -/
theorem length_stripComment_le {tail : List Char} (h : IsTail tail) (before : List Char) :
    (stripComment (before ++ tail)).length ≤ before.length := by
  induction before with
  | nil => rw [List.nil_append, stripComment_tail h]
  | cons c before ih =>
    rw [List.cons_append, stripComment]
    split
    · exact Nat.zero_le _
    · exact Nat.succ_le_succ ih

/-- What is left of what was said: nothing, or for the same key a value with fewer
number signs. -/
def LeavesLess (said : Line) (left : Option Line) : Prop :=
  left = none ∨ ∃ value, left = some { said with value } ∧ value.count '#' < said.value.count '#'

/-- **A comment behind something is part of what a line with a return says.** Without
it the line says less. -/
theorem exists_said_of_remarked (h : Remarked line) :
    ∃ said, said? line = some said ∧ LeavesLess said (line? line) := by
  obtain ⟨before, tail, hline, htail⟩ := h.tail
  obtain ⟨more, hstrip, hmore⟩ := exists_tail line
  have hcut : IsTail more := by
    refine hmore.resolve_left fun hnil => ?_
    rw [hnil, List.append_nil] at hstrip
    have hle := length_stripComment_le htail before
    rw [← hline, ← hstrip, hline, List.length_append] at hle
    obtain ⟨spaces, rest, -, -, -, rfl⟩ := htail
    rw [List.length_append, List.length_cons] at hle
    omega
  obtain ⟨said, hsaid⟩ := Option.isSome_iff_exists.1 (isSome_said?_iff.2 h.speaks)
  refine ⟨said, hsaid, ?_⟩
  by_cases hcolon : ':' ∈ stripComment line
  · obtain ⟨key, value, hkeyed, hkey⟩ := List.eq_append_cons_of_mem hcolon
    rw [hkeyed, List.append_assoc, List.cons_append] at hstrip
    have hmark : '#' ∉ (Text.trimStart key).head? := fun hmark => h.speaks.start (by
      rw [hstrip, Text.trimStart_append_cons (by decide), List.head?_append, hmark]
      rfl)
    rw [hstrip, said?_of_colon hkey hmark] at hsaid
    have hindented : isIndented (key ++ ':' :: value) =
        isIndented (key ++ ':' :: (value ++ more)) := by
      cases key <;> rfl
    obtain rfl := Option.some.inj hsaid
    refine .inr ⟨Text.trim value, ?_, ?_⟩
    · rw [line?_eq, hkeyed, said?_of_colon hkey hmark, hindented]
    · obtain ⟨spaces, rest, -, -, -, rfl⟩ := hcut
      rw [count_trim, count_trim, List.count_append, List.count_append, List.count_cons_self]
      omega
  · exact .inl (said?_eq_none fun hspeaks => hcolon hspeaks.colon)

/-- **With a return a line says the same just if no comment stands behind
something.** -/
theorem line?_eq_said?_iff : line? line = said? line ↔ ¬ Remarked line := by
  constructor
  · intro heq h
    obtain ⟨said, hsaid, hnone | ⟨value, hvalue, hcount⟩⟩ := exists_said_of_remarked h
    · rw [heq, hsaid] at hnone
      cases hnone
    · rw [heq, hsaid] at hvalue
      obtain ⟨-, -, rfl⟩ := Line.mk.inj (Option.some.inj hvalue)
      exact lt_irrefl _ hcount
  · exact line?_of_not_remarked

/-! ## Whole texts -/

/-- The lines of a text, each with a return but the last, which no line feed
ends. -/
theorem split_withReturns (cs : List Char) :
    Text.split '\n' (withReturns cs) =
      (Text.split '\n' cs).dropLast.map (· ++ ['\r']) ++ (Text.split '\n' cs).getLast?.toList := by
  have hplain {line : List Char} (h : '\n' ∉ line) : withReturns line = line := by
    rw [withReturns, List.flatMap_congr fun c hc => if_neg (ne_of_mem_of_not_mem hc h)]
    exact List.flatMap_singleton' line
  have hlines (lines : List (List Char)) (hne : lines ≠ [])
      (h : ∀ line ∈ lines, '\n' ∉ line) :
      Text.split '\n' (withReturns (['\n'].intercalate lines)) =
        lines.dropLast.map (· ++ ['\r']) ++ lines.getLast?.toList := by
    induction lines with
    | nil => exact absurd rfl hne
    | cons line lines ih =>
      obtain ⟨hline, hlines⟩ := List.forall_mem_cons.1 h
      cases lines with
      | nil =>
        have hjoin : ['\n'].intercalate [line] = line := by simp [List.intercalate]
        rw [hjoin, hplain hline, Text.split_of_not_mem hline]
        rfl
      | cons next lines =>
        have hjoin : ['\n'].intercalate (line :: next :: lines) =
            line ++ '\n' :: ['\n'].intercalate (next :: lines) := by
          simp [List.intercalate]
        have hreturns : withReturns (['\n'].intercalate (line :: next :: lines)) =
            (line ++ ['\r']) ++ '\n' :: withReturns (['\n'].intercalate (next :: lines)) := by
          rw [hjoin, withReturns, List.flatMap_append, ← withReturns, hplain hline,
            List.flatMap_cons, if_pos rfl, ← withReturns]
          simp
        rw [hreturns, Text.split_append (by simpa using hline), ih (List.cons_ne_nil _ _) hlines]
        simp
  have h := hlines (Text.split '\n' cs) (Text.split_ne_nil _ _) fun line =>
    Text.not_mem_of_mem_split
  rwa [Text.intercalate_split] at h

/-- The lines of a text that a line feed ends. -/
def endedLines (cs : List Char) : List (List Char) := (Text.split '\n' cs).dropLast

/-- What a text says line by line: the lines that a line feed ends, and the last. -/
theorem filterMap_line? (cs : List Char) :
    (Text.split '\n' cs).filterMap line? =
      (endedLines cs).filterMap line? ++ (Text.split '\n' cs).getLast?.toList.filterMap line? := by
  obtain ⟨last, hlast⟩ := Option.ne_none_iff_exists'.1
    (mt List.getLast?_eq_none_iff.1 (Text.split_ne_nil '\n' cs))
  rw [← List.filterMap_append, endedLines, hlast, Option.toList,
    List.dropLast_append_getLast? last hlast]

/-- **With returns a text says what it says with the comments left in the lines that a
line feed ends.** -/
theorem filterMap_line?_withReturns (cs : List Char) :
    (Text.split '\n' (withReturns cs)).filterMap line? =
      (endedLines cs).filterMap said? ++
        (Text.split '\n' cs).getLast?.toList.filterMap line? := by
  rw [split_withReturns, List.filterMap_append, List.filterMap_map]
  congr 1
  exact List.filterMap_congr fun line _ => line?_return line

/-- As many lines say something, and perhaps more, with their comments left in
them. -/
theorem length_filterMap_line?_le (lines : List (List Char)) :
    (lines.filterMap line?).length ≤ (lines.filterMap said?).length := by
  rw [List.length_filterMap_eq_countP, List.length_filterMap_eq_countP]
  refine List.countP_mono_left fun line _ hline => ?_
  by_contra hsaid
  have hremarked : ¬ Remarked line := fun h => hsaid (isSome_said?_iff.2 h.speaks)
  rw [line?_of_not_remarked hremarked] at hline
  exact hsaid hline

/-- Lines say the same with their comments left in them just if none of them has a
comment behind something. -/
theorem filterMap_said?_eq_iff (lines : List (List Char)) :
    lines.filterMap said? = lines.filterMap line? ↔ ∀ line ∈ lines, ¬ Remarked line := by
  induction lines with
  | nil => simp
  | cons line lines ih =>
    rw [List.forall_mem_cons, ← ih, List.filterMap_cons, List.filterMap_cons]
    by_cases h : Remarked line
    · -- the first line says more, and the others no less
      refine iff_of_false (fun heq => ?_) fun hboth => hboth.1 h
      obtain ⟨said, hsaid, hnone | ⟨value, hvalue, hcount⟩⟩ := exists_said_of_remarked h
      · have hlength := congrArg List.length heq
        rw [hsaid, hnone] at hlength
        have hle := length_filterMap_line?_le lines
        simp only [List.length_cons] at hlength
        omega
      · rw [hsaid, hvalue] at heq
        obtain ⟨-, -, hsame⟩ := Line.mk.inj (List.cons.inj heq).1
        rw [hsame] at hcount
        exact lt_irrefl _ hcount
    · rw [line?_of_not_remarked h, and_iff_right h]
      cases said? line with
      | none => rfl
      | some said => exact List.cons_inj_right said

/-! ## Documents -/

/-- The document that lines make that say so much. -/
def ofLines (lines : List Line) : Sections := (lines.foldl State.take {}).document

theorem read_eq (cs : List Char) : read cs = ofLines ((Text.split '\n' cs).filterMap line?) := rfl

/-- A value with a number sign in it is a text. -/
theorem scalar_of_mark {cs : List Char} (h : '#' ∈ cs) : scalar cs = .text (String.ofList cs) := by
  have hdigits {ds : List Char} (hmem : '#' ∈ ds) : ¬ Text.isDigits ds = true := fun hds =>
    Text.not_mem_of_isDigits hds (by decide) hmem
  have hinteger : Text.integer? cs = none := by
    rw [Text.integer?.eq_def]
    split
    · next ds => exact if_neg (hdigits (by simpa using h))
    · exact if_neg (hdigits h)
  have htrue : cs ≠ "true".toList := fun heq => by rw [heq] at h; revert h; decide
  have hfalse : cs ≠ "false".toList := fun heq => by rw [heq] at h; revert h; decide
  rw [scalar, if_neg htrue, if_neg hfalse, hinteger]

/-- A value with fewer number signs stands for another plain value. -/
theorem scalar_ne_of_count {cs ds : List Char} (h : ds.count '#' < cs.count '#') :
    scalar ds ≠ scalar cs := by
  intro heq
  rw [scalar_of_mark (List.count_pos_iff.1 (Nat.zero_lt_of_lt h)), scalar] at heq
  split at heq
  · cases heq
  · split at heq
    · cases heq
    · split at heq
      · cases heq
      · have hsame : ds = cs := String.ofList_injective (Scalar.text.inj heq)
        rw [hsame] at h
        exact lt_irrefl _ h

/-- A text of which a line feed ends every line. -/
theorem read_of_ended {lines : List (List Char)} (h : Text.split '\n' cs = lines ++ [[]]) :
    endedLines cs = lines ∧ read cs = ofLines (lines.filterMap line?) ∧
      read (withReturns cs) = ofLines (lines.filterMap said?) := by
  have hended : endedLines cs = lines := by rw [endedLines, h, List.dropLast_concat]
  have hlast : (Text.split '\n' cs).getLast?.toList.filterMap line? = [] := by
    rw [h, List.getLast?_concat]
    rfl
  refine ⟨hended, ?_, ?_⟩
  · rw [read_eq, filterMap_line?, hlast, List.append_nil, hended]
  · rw [read_eq, filterMap_line?_withReturns, hlast, List.append_nil, hended]

/-- What is entered under a key that is not reserved. -/
theorem get?_assign_self {α : Type} (table : Table α) {key : String} (h : key ≠ reservedKey)
    (value : α) : (assign table key value).get? key = some value := by
  rw [get?_assign, if_pos ⟨h, rfl⟩]

/-- What a line that is not indented puts under its key. -/
theorem get?_take (state : State) {line : Line} (h : line.indented = false)
    (hkey : line.key ≠ reservedKey) :
    (state.take line).document.get? line.key =
      some (if line.value.isEmpty then .section Table.empty else .scalar (scalar line.value)) := by
  rw [State.take, h, if_neg Bool.false_ne_true]
  split
  · exact get?_assign_self _ hkey _
  · exact get?_assign_self _ hkey _

/-- The line that opens a section. -/
def header : Line := { indented := false, key := "s", value := [] }

/-- What an indented line puts into the section that is open. -/
theorem get?_ofLines_header {line : Line} (h : line.indented = true) :
    (ofLines [header, line]).get? header.key =
      some (.section (assign Table.empty line.key (scalar line.value))) := by
  have htake : ofLines [header, line] =
      assign (Table.empty.set header.key (.section Table.empty)) header.key
        (.section (assign Table.empty line.key (scalar line.value))) := by
    show (State.take _ line).document = _
    rw [State.take, h, if_pos rfl]
    rfl
  rw [htake, get?_assign_self _ (by decide)]

/-- Whether the key of a line, as it is with the comment left in, is reserved. -/
def HasReservedKey (line : List Char) : Prop :=
  ∃ said, said? line = some said ∧ said.key = reservedKey

/-- Of a line that is not indented less is entered in the document. -/
theorem ofLines_ne {said : Line} {left : Option Line} (h : LeavesLess said left)
    (hindented : said.indented = false) (hkey : said.key ≠ reservedKey) :
    ofLines [said] ≠ ofLines left.toList := by
  have hget : (ofLines [said]).get? said.key = _ := get?_take {} hindented hkey
  intro heq
  rw [heq] at hget
  rcases h with rfl | ⟨value, rfl, hcount⟩
  · cases hget
  · have hget' : (ofLines [{ said with value }]).get? said.key = _ := get?_take {} hindented hkey
    have hfull : said.value.isEmpty = false := by
      rw [List.isEmpty_eq_false_iff]
      intro hnil
      rw [hnil] at hcount
      cases hcount
    rw [Option.toList, hget', hfull] at hget
    split at hget
    · cases hget
    · exact scalar_ne_of_count hcount (Entry.scalar.inj (Option.some.inj hget))

/-- Of an indented line less is entered in the section that is open. -/
theorem ofLines_header_ne {said : Line} {left : Option Line} (h : LeavesLess said left)
    (hindented : said.indented = true) (hkey : said.key ≠ reservedKey) :
    ofLines [header, said] ≠ ofLines (header :: left.toList) := by
  have hentry (value : List Char) : (assign Table.empty said.key (scalar value)).get? said.key =
      some (scalar value) := get?_assign_self _ hkey _
  have hget := get?_ofLines_header hindented
  intro heq
  rw [heq] at hget
  rcases h with rfl | ⟨value, rfl, hcount⟩
  · have hempty := congrArg (·.get? said.key) (Entry.section.inj (Option.some.inj hget))
    simp only [hentry] at hempty
    cases hempty
  · rw [Option.toList, get?_ofLines_header
      (show ({ said with value } : Line).indented = true from hindented)] at hget
    have hscalar := congrArg (·.get? said.key) (Entry.section.inj (Option.some.inj hget))
    simp only [hentry] at hscalar
    exact scalar_ne_of_count hcount (Option.some.inj hscalar)

/-- **A comment behind something shows**, unless the key is reserved: the line alone,
or in a section if it is indented, is another document with returns. -/
theorem exists_differs (h : Remarked line) (hkey : ¬ HasReservedKey line) (hfeed : '\n' ∉ line)
    (hreturn : '\r' ∉ line) :
    ∃ cs, '\r' ∉ cs ∧ line ∈ endedLines cs ∧ read (withReturns cs) ≠ read cs ∧
      ∀ other ∈ endedLines cs, Remarked other → other = line := by
  obtain ⟨said, hsaid, hleft⟩ := exists_said_of_remarked h
  have hfree : said.key ≠ reservedKey := fun heq => hkey ⟨said, hsaid, heq⟩
  have hlines (take : List Char → Option Line) : [line].filterMap take = (take line).toList := by
    rw [List.filterMap_cons]
    cases take line <;> rfl
  have halone : Text.split '\n' (line ++ ['\n']) = [line] ++ [[]] := Text.split_append hfeed []
  cases hindented : said.indented with
  | false =>
    obtain ⟨hended, hread, hreturns⟩ := read_of_ended halone
    refine ⟨line ++ ['\n'], by simpa using hreturn, by rw [hended]; exact List.mem_cons_self, ?_,
      fun other hother _ => by rw [hended] at hother; exact List.mem_singleton.1 hother⟩
    rw [hread, hreturns, hlines, hlines, hsaid]
    exact ofLines_ne hleft hindented hfree
  | true =>
    have hopens : line? "s:".toList = some header := by decide
    have hopens' : said? "s:".toList = some header := by decide
    have hsplit : Text.split '\n' ("s:".toList ++ '\n' :: (line ++ ['\n'])) =
        ["s:".toList, line] ++ [[]] := by
      rw [Text.split_append (by decide), halone]
      rfl
    obtain ⟨hended, hread, hreturns⟩ := read_of_ended hsplit
    refine ⟨"s:".toList ++ '\n' :: (line ++ ['\n']), by simpa using hreturn,
      by rw [hended]; simp, ?_, fun other hother hremarked => ?_⟩
    · rw [hread, hreturns, List.filterMap_cons_some hopens, List.filterMap_cons_some hopens',
        hlines, hlines, hsaid]
      exact ofLines_header_ne hleft hindented hfree
    · rw [hended, List.mem_cons, List.mem_singleton] at hother
      refine hother.resolve_left fun hheader => ?_
      rw [hheader] at hremarked
      exact line?_eq_said?_iff.1 (hopens.trans hopens'.symm) hremarked

/-- A line whose key is reserved shows nothing, but the line behind it may: every line
is in a text that is another document with returns. -/
theorem exists_differs_behind (hfeed : '\n' ∉ line) (hreturn : '\r' ∉ line) :
    ∃ cs, '\r' ∉ cs ∧ line ∈ endedLines cs ∧ read (withReturns cs) ≠ read cs := by
  have hsplit : Text.split '\n' (line ++ '\n' :: "s: 0 # 1\n".toList) =
      [line, "s: 0 # 1".toList] ++ [[]] := by
    rw [Text.split_append hfeed]
    rfl
  obtain ⟨hended, hread, hreturns⟩ := read_of_ended hsplit
  refine ⟨line ++ '\n' :: "s: 0 # 1\n".toList, by simpa using hreturn,
    by rw [hended]; exact List.mem_cons_self, ?_⟩
  -- whatever the first line says, the second one enters its value
  have hlast (take : List Char → Option Line) (value : List Char)
      (h : take "s: 0 # 1".toList = some { indented := false, key := "s", value }) :
      (ofLines ([line, "s: 0 # 1".toList].filterMap take)).get? "s" =
        some (if value.isEmpty then .section Table.empty else .scalar (scalar value)) := by
    have hentered (state : State) := get?_take state
      (show Line.indented { indented := false, key := "s", value } = false from rfl)
      (show "s" ≠ reservedKey by decide)
    rw [← List.singleton_append, List.filterMap_append, List.filterMap_cons_some h, ofLines,
      List.foldl_append]
    exact hentered _
  rw [hread, hreturns]
  intro heq
  have hget := hlast said? "0 # 1".toList (by decide)
  rw [heq, hlast line? "0".toList (by decide)] at hget
  revert hget
  decide

/-- **Returns change the comments behind something, and nothing else.** With a carriage
return before every line feed a text is the same document, unless a line that a
line feed ends has a comment behind what it says. Just these lines say something
else then: what they say with the comment left in, as do all other lines. And
each such line shows in the document of some text, which needs no other such line
unless the key is reserved. -/
theorem read_withReturns (cs : List Char) :
    ((∀ line ∈ endedLines cs, ¬ Remarked line) → read (withReturns cs) = read cs) ∧
      ((Text.split '\n' (withReturns cs)).filterMap line? = (Text.split '\n' cs).filterMap line? ↔
        ∀ line ∈ endedLines cs, ¬ Remarked line) ∧
      read (withReturns cs) =
        ofLines ((endedLines cs).filterMap said? ++
          (Text.split '\n' cs).getLast?.toList.filterMap line?) ∧
      ∀ line, Remarked line → '\n' ∉ line → '\r' ∉ line →
        ∃ text, '\r' ∉ text ∧ line ∈ endedLines text ∧ read (withReturns text) ≠ read text ∧
          (¬ HasReservedKey line → ∀ other ∈ endedLines text, Remarked other → other = line) := by
  have hsame : (Text.split '\n' (withReturns cs)).filterMap line? =
      (Text.split '\n' cs).filterMap line? ↔ ∀ line ∈ endedLines cs, ¬ Remarked line := by
    rw [filterMap_line?_withReturns, filterMap_line?, List.append_left_inj,
      filterMap_said?_eq_iff]
  refine ⟨fun h => ?_, hsame, ?_, fun line h hfeed hreturn => ?_⟩
  · rw [read_eq, read_eq, hsame.2 h]
  · rw [read_eq, filterMap_line?_withReturns]
  · by_cases hkey : HasReservedKey line
    · obtain ⟨text, htext, hmem, hdiffers⟩ := exists_differs_behind hfeed hreturn
      exact ⟨text, htext, hmem, hdiffers, fun hfree => absurd hkey hfree⟩
    · obtain ⟨text, htext, hmem, hdiffers, honly⟩ := exists_differs h hkey hfeed hreturn
      exact ⟨text, htext, hmem, hdiffers, fun _ => honly⟩

/-- A line that is all comment, with a number sign in it, and a comment behind the
last line, which no line feed ends. -/
theorem read_withReturns_last :
    let text := "# checks # all\nsolver:\n\ttimeout_ms: 500\n  produce_models: true # sat".toList
    (∀ line ∈ endedLines text, ¬ Remarked line) ∧
      read (withReturns text) = read text ∧
      Overrides.ofSections (read (withReturns text)) =
        { timeout := some (.finite 500), produceModels := some true } := by
  intro text
  have hlines : ∀ line ∈ endedLines text, ¬ Remarked line := fun line hline =>
    line?_eq_said?_iff.1
      ((by decide : ∀ line ∈ endedLines text, line? line = said? line) line hline)
  have hread := (read_withReturns text).1 hlines
  refine ⟨hlines, hread, ?_⟩
  rw [hread]
  decide

/-- **With returns a comment behind a value becomes part of it**, and the setting is
lost. -/
theorem read_withReturns_differs :
    let text := "solver:\n  timeout_ms: 500 # per check\n".toList
    '\r' ∉ text ∧ read (withReturns text) ≠ read text ∧
      (read text).value? "solver" "timeout_ms" = some (.number (.finite 500)) ∧
      (read (withReturns text)).value? "solver" "timeout_ms" = some (.text "500 # per check") ∧
      Overrides.ofSections (read text) = { timeout := some (.finite 500) } ∧
      Overrides.ofSections (read (withReturns text)) = {} := by
  decide

end Sections

end SatScript
