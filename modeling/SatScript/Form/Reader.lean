import SatScript.Form.Basic
import SatScript.Text.Blank
/-!
# SatScript — reading forms

The reader is a machine that takes one character at a time. Its state
holds the lists that are open, innermost first, and what it is in the
middle of (`Mode`); `step` says what a character does. A character
either moves the machine on or ends the form, and then belongs to the
form or is left for what follows. `readFrom` runs the machine, `readOne`
reads one form and `readAll` all forms of a text.

Three rules are worth stating. Directly behind an opening parenthesis a
list may close, so `()` is empty; once a blank has followed, a form is
due, and if none comes the empty atom stands for it, so `( )` holds one
item. A closing parenthesis that closes nothing is left where it is by
`readOne`, which answers the empty atom; `readAll` goes past it, and the
next form is due directly behind it. Lists that are open at the end of
the text are closed there, unless the reader is strict: then the
innermost of them is reported.

`length_next_lt` and `length_behind_lt` say that reading moves on.
-/

namespace SatScript

/-- A position in a text: its offset, and the text from there on. -/
structure Cursor where
  offset : Nat
  rest : List Char
deriving DecidableEq

namespace Cursor

/-- The beginning of a text. -/
def ofText (cs : List Char) : Cursor := ⟨0, cs⟩

/-- The position at an offset; behind the end nothing is left of the text. -/
def atOffset (cs : List Char) (offset : Nat) : Cursor := ⟨offset, Text.onward offset cs⟩

/-- Go past blanks, from the offset at which the text stands. -/
def skipFrom (offset : Nat) : List Char → Cursor
  | [] => ⟨offset, []⟩
  | c :: cs => if Text.isBlank c then skipFrom (offset + 1) cs else ⟨offset, c :: cs⟩

/-- Go past blanks. -/
def skipBlanks (cursor : Cursor) : Cursor := skipFrom cursor.offset cursor.rest

/-- Going past blanks lengthens nothing. -/
theorem length_skipFrom_le (offset : Nat) (cs : List Char) :
    (skipFrom offset cs).rest.length ≤ cs.length := by
  induction cs generalizing offset with
  | nil => simp [skipFrom]
  | cons c cs ih =>
    unfold skipFrom
    split
    · exact Nat.le_succ_of_le (ih _)
    · exact Nat.le_refl _

theorem length_skipBlanks_le (cursor : Cursor) :
    cursor.skipBlanks.rest.length ≤ cursor.rest.length :=
  length_skipFrom_le _ _

/-- What is left after blanks does not begin with one. -/
theorem not_isBlank_of_skipFrom {offset offset' : Nat} {cs : List Char} {c : Char}
    {rest : List Char} (h : skipFrom offset cs = ⟨offset', c :: rest⟩) :
    Text.isBlank c = false := by
  induction cs generalizing offset with
  | nil => simp [skipFrom] at h
  | cons d ds ih =>
    unfold skipFrom at h
    split at h
    · exact ih h
    · rename_i hd
      simp only [Cursor.mk.injEq, List.cons.injEq] at h
      obtain ⟨-, rfl, -⟩ := h
      simpa using hd

end Cursor

/-- The offset after the blanks that stand at an offset. An offset outside of
the text, or inside a character, stays as it is. -/
def skipBlanksAt (cs : List Char) (offset : Int) : Int :=
  if offset < 0 then offset
  else
    match Text.after? offset.toNat cs with
    | none => offset
    | some rest => (Cursor.skipFrom offset.toNat rest).offset

/-- A list that is still open at the end of the text, from its parenthesis to
that end. -/
structure Unclosed where
  start : Nat
  stop : Nat
deriving DecidableEq

/-- A form and the position behind it. -/
structure Reading where
  form : Form
  next : Cursor

namespace Reader

/-- An open list: where it begins, and its items so far, the latest first. -/
structure Frame where
  start : Nat
  items : List Form

/-- What the reader is in the middle of: directly behind an opening
parenthesis; where a form is due; behind an item of a list; in an atom; in
a quoted atom. An atom is kept with its latest character first. -/
inductive Mode where
  | opening
  | due
  | between
  | plain (start : Nat) (taken : List Char)
  | quoted (start : Nat) (taken : List Char)

/-- The open lists, innermost first, and the mode. -/
structure State where
  frames : List Frame
  mode : Mode

/-- What a character does: the reader goes on, or a form is complete and the
character belongs to it or not. -/
inductive Step where
  | more (state : State)
  | done (form : Form) (taken : Bool)

/-- No list is open and a form is due. -/
def State.initial : State := ⟨[], .due⟩

/-- The atom of the characters taken, the latest first. -/
def atomOf (start stop : Nat) (taken : List Char) : Form :=
  .atom (String.ofList taken.reverse) start stop

/-- The empty atom that stands for a form that is due and does not come. -/
def emptyAtom (offset : Nat) : Form := .atom "" offset offset

/-- An open list with one more item. -/
def Frame.push (frame : Frame) (item : Form) : Frame := { frame with items := item :: frame.items }

/-- The list of an open list that ends at an offset. -/
def Frame.close (frame : Frame) (stop : Nat) : Form := .list frame.items.reverse frame.start stop

/-- A form is complete with the character that was taken: it is an item of
the innermost open list, or the form that was asked for. -/
def deliver (frames : List Frame) (form : Form) : Step :=
  match frames with
  | [] => .done form true
  | frame :: rest => .more ⟨frame.push form :: rest, .between⟩

/-- A closing parenthesis closes the innermost open list. -/
def closeList (frames : List Frame) (offset : Nat) : Step :=
  match frames with
  | [] => .done (emptyAtom offset) false
  | frame :: rest => deliver rest (frame.close (offset + 1))

/-- A form begins with a character that is no blank and closes nothing. -/
def beginForm (frames : List Frame) (offset : Nat) (c : Char) : Step :=
  if c = '(' then .more ⟨⟨offset, []⟩ :: frames, .opening⟩
  else if c = '|' then .more ⟨frames, .quoted offset [c]⟩
  else .more ⟨frames, .plain offset [c]⟩

/-- A character behind an item of a list. -/
def stepBetween (frames : List Frame) (offset : Nat) (c : Char) : Step :=
  if Text.isBlank c then .more ⟨frames, .between⟩
  else if c = ')' then closeList frames offset
  else beginForm frames offset c

/-- A character that is not part of the atom before it. -/
def stepBehind (frames : List Frame) (atom : Form) (offset : Nat) (c : Char) : Step :=
  match frames with
  | [] => .done atom false
  | frame :: rest => stepBetween (frame.push atom :: rest) offset c

/-- Whether the character ends an atom that is not quoted. -/
def endsAtom (c : Char) : Bool := Text.isBlank c || c == '(' || c == ')'

/-- What the character at an offset does. -/
def step (state : State) (offset : Nat) (c : Char) : Step :=
  match state.mode with
  | .opening =>
    if Text.isBlank c then .more ⟨state.frames, .due⟩
    else if c = ')' then closeList state.frames offset
    else beginForm state.frames offset c
  | .due =>
    if Text.isBlank c then .more state
    else if c = ')' then stepBehind state.frames (emptyAtom offset) offset c
    else beginForm state.frames offset c
  | .between => stepBetween state.frames offset c
  | .plain start taken =>
    if endsAtom c then stepBehind state.frames (atomOf start offset taken) offset c
    else .more ⟨state.frames, .plain start (c :: taken)⟩
  | .quoted start taken =>
    if c = '|' then deliver state.frames (atomOf start (offset + 1) (c :: taken))
    else .more ⟨state.frames, .quoted start (c :: taken)⟩

/-- The atom that the end of the text completes, if the reader is in one or
one is due. -/
def pending (mode : Mode) (offset : Nat) : Option Form :=
  match mode with
  | .opening => none
  | .due => some (emptyAtom offset)
  | .between => none
  | .plain start taken => some (atomOf start offset taken)
  | .quoted start taken => some (atomOf start offset taken)

/-- Close an open list and all lists around it at an offset. -/
def closeAll (offset : Nat) (frame : Frame) : List Frame → Form
  | [] => frame.close offset
  | outer :: rest => closeAll offset (outer.push (frame.close offset)) rest

/-- The form at the end of the text. -/
def finish (strict : Bool) (state : State) (offset : Nat) : Except Unclosed Form :=
  match state.frames, pending state.mode offset with
  | [], some atom => .ok atom
  | [], none => .ok (emptyAtom offset)
  | frame :: rest, item? =>
    if strict then .error ⟨frame.start, offset⟩
    else
      match item? with
      | some item => .ok (closeAll offset (frame.push item) rest)
      | none => .ok (closeAll offset frame rest)

/-- Run the reader on the text from an offset on. -/
def readFrom (strict : Bool) (state : State) (offset : Nat) : List Char → Except Unclosed Reading
  | [] =>
    match finish strict state offset with
    | .error unclosed => .error unclosed
    | .ok form => .ok ⟨form, ⟨offset, []⟩⟩
  | c :: cs =>
    match step state offset c with
    | .more state' => readFrom strict state' (offset + Text.width c) cs
    | .done form true => .ok ⟨form, ⟨offset + Text.width c, cs⟩⟩
    | .done form false => .ok ⟨form, ⟨offset, c :: cs⟩⟩

/-- Reading lengthens nothing. -/
theorem length_next_le {strict : Bool} {state : State} {offset : Nat} {cs : List Char}
    {r : Reading} (h : readFrom strict state offset cs = .ok r) :
    r.next.rest.length ≤ cs.length := by
  induction cs generalizing state offset with
  | nil =>
    unfold readFrom at h
    split at h
    · cases h
    · cases h
      simp
  | cons c cs ih =>
    unfold readFrom at h
    split at h
    · exact Nat.le_succ_of_le (ih h)
    · cases h
      simp
    · cases h
      simp

/-- A character that begins a form moves the reader on. -/
theorem exists_more_of_beginForm (frames : List Frame) (offset : Nat) (c : Char) :
    ∃ state, beginForm frames offset c = .more state := by
  unfold beginForm
  split
  · exact ⟨_, rfl⟩
  · split <;> exact ⟨_, rfl⟩

/-- **Reading moves on**, unless a parenthesis stands there that closes nothing: a form
begins, or a blank is taken. -/
theorem length_next_lt {strict : Bool} {offset : Nat} {c : Char} {cs : List Char} {r : Reading}
    (hc : c ≠ ')') (h : readFrom strict State.initial offset (c :: cs) = .ok r) :
    r.next.rest.length < (c :: cs).length := by
  have hmore : ∃ state, step State.initial offset c = .more state := by
    cases hb : Text.isBlank c with
    | true => exact ⟨State.initial, by simp [step, State.initial, hb]⟩
    | false =>
      obtain ⟨state, hs⟩ := exists_more_of_beginForm [] offset c
      exact ⟨state, by simp [step, State.initial, hb, hc, hs]⟩
  obtain ⟨state, hs⟩ := hmore
  unfold readFrom at h
  rw [hs] at h
  exact Nat.lt_succ_of_le (length_next_le h)

end Reader

namespace Cursor

/-- Read one form. -/
def readOne (strict : Bool) (cursor : Cursor) : Except Unclosed Reading :=
  Reader.readFrom strict Reader.State.initial cursor.offset cursor.rest

/-- Where the form after a reading begins. Behind a closing parenthesis that
closes nothing, for which the empty atom was read, it is looked for
directly; else behind blanks. -/
def behind (reading : Reading) : Cursor :=
  match reading.form, reading.next.rest with
  | .atom "" _ _, ')' :: cs => ⟨reading.next.offset + 1, cs⟩
  | _, _ => reading.next.skipBlanks

/-- **Reading all forms moves on** with every form. -/
theorem length_behind_lt {strict : Bool} {offset : Nat} {c : Char} {cs : List Char}
    {reading : Reading} (h : readOne strict ⟨offset, c :: cs⟩ = .ok reading) :
    (behind reading).rest.length < (c :: cs).length := by
  by_cases hc : c = ')'
  · subst hc
    unfold readOne Reader.readFrom at h
    have hs : Reader.step Reader.State.initial offset ')' =
        .done (Reader.emptyAtom offset) false := rfl
    rw [hs] at h
    cases h
    exact Nat.lt_succ_self _
  · have hn : reading.next.rest.length ≤ cs.length :=
      Nat.le_of_lt_succ (Reader.length_next_lt hc h)
    refine Nat.lt_succ_of_le (Nat.le_trans ?_ hn)
    unfold behind
    split
    · rename_i hr
      rw [hr]
      exact Nat.le_succ _
    · exact length_skipBlanks_le _

/-- Read forms up to the end of the text. -/
def readMore (strict : Bool) : Cursor → Except Unclosed (List Form)
  | ⟨_, []⟩ => .ok []
  | ⟨offset, c :: cs⟩ =>
    match _h : readOne strict ⟨offset, c :: cs⟩ with
    | .error unclosed => .error unclosed
    | .ok reading => (reading.form :: ·) <$> readMore strict (behind reading)
termination_by cursor => cursor.rest.length
decreasing_by exact length_behind_lt _h

/-- Read all forms from a position to the end of the text; blanks alone are
none. -/
def readAll (strict : Bool) (cursor : Cursor) : Except Unclosed (List Form) :=
  readMore strict cursor.skipBlanks

end Cursor

/-- Read the first form of a text. -/
def readOne (strict : Bool) (cs : List Char) : Except Unclosed Reading :=
  (Cursor.ofText cs).readOne strict

/-- Read the form at an offset of a text. -/
def readAt (strict : Bool) (cs : List Char) (offset : Nat) : Except Unclosed Reading :=
  (Cursor.atOffset cs offset).readOne strict

/-- An atom that is read from an offset before the text. -/
structure EarlyAtom where
  text : String
  start : Int
  stop : Nat
deriving DecidableEq

/-- Read from an offset before the text. There is no blank and no
parenthesis there, so an atom begins, and it runs on into the text. Its own
text is counted from the end of the text. -/
def readBefore (cs : List Char) (offset : Int) : EarlyAtom :=
  let stop := Text.units (cs.takeWhile fun c => !Reader.endsAtom c)
  { text := String.ofList (Text.slice (Text.units cs + offset).toNat stop cs)
    start := offset
    stop }

/-- What is read at an offset. -/
inductive OffsetReading where
  | inside (reading : Reading)
  | before (atom : EarlyAtom)

/-- Read the form at an offset, which may lie outside of the text. -/
def readAtOffset (strict : Bool) (cs : List Char) (offset : Int) :
    Except Unclosed OffsetReading :=
  if offset < 0 then .ok (.before (readBefore cs offset))
  else OffsetReading.inside <$> readAt strict cs offset.toNat

/-- Read all forms of a text. -/
def readAll (strict : Bool) (cs : List Char) : Except Unclosed (List Form) :=
  (Cursor.ofText cs).readAll strict

/-- Read all forms of a text, closing open lists at its end. -/
def forms (cs : List Char) : List Form :=
  match readAll false cs with
  | .ok all => all
  | .error _ => []

end SatScript
