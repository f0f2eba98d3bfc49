import SatScript.Json.Basic
import SatScript.Json.Fault
import SatScript.Text.Digits
import SatScript.Text.Units
/-!
# SatScript — reading JSON

A text is read as one JSON value with nothing but white space around it.
The grammar is the strict one: no comments, no commas at the end, no
control characters in strings, no leading zeros. Numbers are rounded to
binary64. Each reader takes what it reads off the front of the text and
answers with the rest, or stops at the first fault and answers with its
cause and the text from there on. A rest carries the proof that it is an
end of the text. A value takes a character before what it holds is read,
and items and members go on only behind a comma, so reading ends by the
length of the text, however deep values nest.
-/

namespace SatScript

namespace Json

/-- White space between the tokens of JSON. -/
def isBlank (c : Char) : Bool := c == ' ' || c == '\t' || c == '\n' || c == '\r'

/-- The text behind white space. -/
def skip (cs : List Char) : List Char := cs.dropWhile isBlank

/-- What is behind white space is an end of the text. -/
theorem skip_suffix (cs : List Char) : skip cs <:+ cs := List.dropWhile_suffix _

/-- What is behind the first character that is no white space is an end of
the text. -/
theorem suffix_of_skip {cs rest : List Char} {c : Char} (h : skip cs = c :: rest) :
    rest <:+ cs :=
  (List.suffix_cons c rest).trans (h ▸ skip_suffix cs)

/-- What is behind the first character that is no white space is shorter than
the text. -/
theorem length_lt_of_skip {cs rest : List Char} {c : Char} (h : skip cs = c :: rest) :
    rest.length < cs.length := by
  have hle := (skip_suffix cs).length_le
  rw [h, List.length_cons] at hle
  exact hle

/-- The value of a hexadecimal digit. -/
def hexValue? (c : Char) : Option Nat :=
  if '0' ≤ c ∧ c ≤ '9' then some (c.toNat - '0'.toNat)
  else if 'a' ≤ c ∧ c ≤ 'f' then some (c.toNat - 'a'.toNat + 10)
  else if 'A' ≤ c ∧ c ≤ 'F' then some (c.toNat - 'A'.toNat + 10)
  else none

/-- Where a reader stops: a cause, and the text from its place on. -/
structure Stop where
  cause : Cause
  behind : List Char

/-- What a reader may leave of a text: an end of it. -/
abbrev Rest (cs : List Char) := { rest : List Char // rest <:+ cs }

/-- Hexadecimal digits that follow others, as many as are due; `n` is the
value of those before. -/
def readHexDigits (n : Nat) : Nat → (cs : List Char) → Except Stop (Nat × Rest cs)
  | 0, cs => .ok (n, ⟨cs, List.suffix_refl cs⟩)
  | _ + 1, [] => .error ⟨.codeUnit, []⟩
  | due + 1, c :: cs =>
    match hexValue? c with
    | none => .error ⟨.codeUnit, c :: cs⟩
    | some digit => do
      let (m, ⟨rest, h⟩) ← readHexDigits (16 * n + digit) due cs
      return (m, ⟨rest, h.trans (List.suffix_cons c cs)⟩)

/-- The code unit of four hexadecimal digits. -/
def readUnit (cs : List Char) : Except Stop (UInt16 × Rest cs) := do
  let (n, rest) ← readHexDigits 0 4 cs
  return (UInt16.ofNat n, rest)

/-- The character of an escape by code unit. Two halves of a pair that are
escaped one after the other are one character. -/
def readUnitEscape (cs : List Char) : Except Stop (Char × Rest cs) := do
  let (u, ⟨rest, h⟩) ← readUnit cs
  let alone := (Text.decodeUnit u, ⟨rest, h⟩)
  match rest, h with
  | '\\' :: 'u' :: more, h =>
    match readUnit more with
    | .ok (v, ⟨after, ha⟩) =>
      if Text.isHigh u && Text.isLow v then
        return (Text.decodePair u v,
          ⟨after, ha.trans ((List.suffix_append ['\\', 'u'] more).trans h)⟩)
      else return alone
    | .error _ => return alone
  | _, _ => return alone

/-- The character of an escape, behind its backslash. -/
def readEscape : (cs : List Char) → Except Stop (Char × Rest cs)
  | [] => .error ⟨.escape, []⟩
  | c :: rest =>
    have h := List.suffix_cons c rest
    match c with
    | '"' => .ok ('"', ⟨rest, h⟩)
    | '\\' => .ok ('\\', ⟨rest, h⟩)
    | '/' => .ok ('/', ⟨rest, h⟩)
    | 'b' => .ok ('\x08', ⟨rest, h⟩)
    | 'f' => .ok ('\x0c', ⟨rest, h⟩)
    | 'n' => .ok ('\n', ⟨rest, h⟩)
    | 'r' => .ok ('\r', ⟨rest, h⟩)
    | 't' => .ok ('\t', ⟨rest, h⟩)
    | 'u' => do
      let (d, ⟨rest, hr⟩) ← readUnitEscape rest
      return (d, ⟨rest, hr.trans h⟩)
    | _ => .error ⟨.escape, c :: rest⟩

/-- The rest of a string, behind its opening quote; `taken` has its latest
character first. -/
def readString {text : List Char} (taken : List Char) :
    (cs : List Char) → cs <:+ text → Except Stop (String × Rest text)
  | [], _ => .error ⟨.openString, []⟩
  | c :: cs, h =>
    have hcs := (List.suffix_cons c cs).trans h
    if c = '"' then .ok (String.ofList taken.reverse, ⟨cs, hcs⟩)
    else if c = '\\' then do
      let (d, ⟨rest, hr⟩) ← readEscape cs
      have := hr.length_le
      readString (d :: taken) rest (hr.trans hcs)
    else if c.toNat < 0x20 then .error ⟨.controlCharacter, c :: cs⟩
    else readString (c :: taken) cs hcs
termination_by cs => cs.length

/-- The digits at the front of a text. -/
def takeDigits (cs : List Char) : List Char × Rest cs :=
  (cs.takeWhile Char.isDigit, ⟨cs.dropWhile Char.isDigit, List.dropWhile_suffix _⟩)

/-- One or more digits; `cause` is what is wrong if none is there. -/
def readDigits (cause : Cause) (cs : List Char) : Except Stop (List Char × Rest cs) :=
  match takeDigits cs with
  | ([], _) => .error ⟨cause, cs⟩
  | (ds, rest) => .ok (ds, rest)

/-- Digits behind a point; without a point there are none. -/
def readFraction : (cs : List Char) → Except Stop (List Char × Rest cs)
  | '.' :: cs => do
    let (ds, ⟨rest, h⟩) ← readDigits .fraction cs
    return (ds, ⟨rest, h.trans (List.suffix_cons '.' cs)⟩)
  | cs => .ok ([], ⟨cs, List.suffix_refl cs⟩)

/-- A sign at the front of a text, and whether it is a minus. -/
def takeSign : (cs : List Char) → Bool × Rest cs
  | '+' :: cs => (false, ⟨cs, List.suffix_cons '+' cs⟩)
  | '-' :: cs => (true, ⟨cs, List.suffix_cons '-' cs⟩)
  | cs => (false, ⟨cs, List.suffix_refl cs⟩)

/-- An exponent; without one it is zero. -/
def readExponent : (cs : List Char) → Except Stop (Int × Rest cs)
  | c :: cs =>
    if c = 'e' ∨ c = 'E' then do
      let (negative, ⟨digits, hd⟩) := takeSign cs
      let (ds, ⟨rest, h⟩) ← readDigits .exponent digits
      return (Text.signed negative (Text.value ds),
        ⟨rest, h.trans (hd.trans (List.suffix_cons c cs))⟩)
    else .ok (0, ⟨c :: cs, List.suffix_refl _⟩)
  | [] => .ok (0, ⟨[], List.suffix_refl _⟩)

/-- The whole part of a number, from its first digit on. A zero is not followed
by more digits. -/
def readWhole (first : Char) (cs : List Char) : Except Stop (List Char × Rest cs) :=
  match takeDigits cs with
  | ([], rest) => .ok ([first], rest)
  | (ds, rest) => if first = '0' then .error ⟨.number, cs⟩ else .ok (first :: ds, rest)

/-- A number, from its first digit on. -/
def readNumber (negative : Bool) (first : Char) (cs : List Char) :
    Except Stop (Json × Rest cs) := do
  let (whole, ⟨rest, hw⟩) ← readWhole first cs
  let (fraction, ⟨rest, hf⟩) ← readFraction rest
  let (exponent, ⟨rest, he⟩) ← readExponent rest
  return (.number (Number.ofDecimal negative (Text.value (whole ++ fraction))
    (exponent - fraction.length)), ⟨rest, he.trans (hf.trans hw)⟩)

/-- A number behind its minus. -/
def readNegative : (cs : List Char) → Except Stop (Json × Rest cs)
  | [] => .error ⟨.lonelyMinus, []⟩
  | c :: cs =>
    if c.isDigit then do
      let (json, ⟨rest, h⟩) ← readNumber true c cs
      return (json, ⟨rest, h.trans (List.suffix_cons c cs)⟩)
    else .error ⟨.lonelyMinus, c :: cs⟩

/-- What is wrong with a character inside a word that should go on otherwise. -/
def strayCause (c : Char) : Cause :=
  if c = '"' then .string
  else if c.isDigit || c == '-' then .number
  else .character

/-- The rest of a word. -/
def readWord (value : Json) : List Char → (cs : List Char) → Except Stop (Json × Rest cs)
  | [], cs => .ok (value, ⟨cs, List.suffix_refl cs⟩)
  | _ :: _, [] => .error ⟨.endOfText, []⟩
  | d :: ds, c :: cs =>
    if c = d then do
      let (json, ⟨rest, h⟩) ← readWord value ds cs
      return (json, ⟨rest, h.trans (List.suffix_cons c cs)⟩)
    else .error ⟨strayCause c, c :: cs⟩

/-- The character `mark`; `cause` is what is wrong if another stands there. -/
def expect (mark : Char) (cause : Cause) :
    (cs : List Char) → Except Stop { rest : List Char // cs = mark :: rest }
  | [] => .error ⟨cause, []⟩
  | c :: cs => if h : c = mark then .ok ⟨cs, h ▸ rfl⟩ else .error ⟨cause, c :: cs⟩

/-- A value that holds no others, behind its first character. -/
def readPlain (first : Char) (cs : List Char) : Except Stop (Json × Rest cs) :=
  match first with
  | 'n' => readWord .null ['u', 'l', 'l'] cs
  | 't' => readWord (.bool true) ['r', 'u', 'e'] cs
  | 'f' => readWord (.bool false) ['a', 'l', 's', 'e'] cs
  | '"' => do
    let (s, rest) ← readString [] cs (List.suffix_refl cs)
    return (.string s, rest)
  | '-' => readNegative cs
  | c => if c.isDigit then readNumber false c cs else .error ⟨.character, c :: cs⟩

mutual

/-- A value, at the front of the text. -/
def readValue (cs : List Char) : Except Stop (Json × Rest cs) :=
  match hs : skip cs with
  | [] => .error ⟨.endOfText, []⟩
  | c :: inner => do
    have := length_lt_of_skip hs
    have := (skip_suffix inner).length_le
    let (json, ⟨rest, h⟩) ←
      if c = '[' then
        match hi : skip inner with
        | ']' :: rest => pure (.array [], ⟨rest, suffix_of_skip hi⟩)
        | items => readItems [] items (hi ▸ skip_suffix inner)
      else if c = '\x7b' then
        match hi : skip inner with
        | '\x7d' :: rest => pure (.object [], ⟨rest, suffix_of_skip hi⟩)
        | members => readMembers .nameOrBrace [] members (hi ▸ skip_suffix inner)
      else readPlain c inner
    return (json, ⟨rest, h.trans (suffix_of_skip hs)⟩)
termination_by (cs.length, 0)

/-- The items of an array that is not empty; those before have the latest
first. -/
def readItems {text : List Char} (before : List Json) (cs : List Char) (h : cs <:+ text) :
    Except Stop (Json × Rest text) := do
  let (item, ⟨rest, hr⟩) ← readValue cs
  match hs : skip rest with
  | ',' :: more =>
    have := Nat.lt_of_lt_of_le (length_lt_of_skip hs) hr.length_le
    readItems (item :: before) more ((suffix_of_skip hs).trans (hr.trans h))
  | behind => do
    let ⟨rest, he⟩ ← expect ']' .commaOrBracket behind
    return (.array (item :: before).reverse,
      ⟨rest, (suffix_of_skip (hs.trans he)).trans (hr.trans h)⟩)
termination_by (cs.length, 1)

/-- The members of an object that is not empty; those before have the latest
first. Without a name, `cause` is what is wrong. -/
def readMembers {text : List Char} (cause : Cause) (before : List (String × Json))
    (cs : List Char) (h : cs <:+ text) : Except Stop (Json × Rest text) := do
  let ⟨rest, hq⟩ ← expect '"' cause (skip cs)
  let (name, ⟨rest, hn⟩) ← readString [] rest (suffix_of_skip hq)
  let ⟨value, hc⟩ ← expect ':' .colon (skip rest)
  have hv := (suffix_of_skip hc).trans hn
  have := Nat.lt_of_lt_of_le (length_lt_of_skip hc) hn.length_le
  let (member, ⟨rest, hr⟩) ← readValue value
  match hs : skip rest with
  | ',' :: more =>
    have := Nat.lt_of_lt_of_le (length_lt_of_skip hs) (hr.trans hv).length_le
    readMembers .quotedName ((name, member) :: before) more
      ((suffix_of_skip hs).trans (hr.trans (hv.trans h)))
  | behind => do
    let ⟨rest, he⟩ ← expect '\x7d' .commaOrBrace behind
    return (ofMembers ((name, member) :: before).reverse,
      ⟨rest, (suffix_of_skip (hs.trans he)).trans (hr.trans (hv.trans h))⟩)
termination_by (cs.length, 1)

end

/-- A value with nothing but white space behind it. -/
def readDocument (cs : List Char) : Except Stop Json := do
  let (json, ⟨rest, _⟩) ← readValue cs
  match skip rest with
  | [] => return json
  | behind => .error ⟨.more, behind⟩

/-- The JSON value that a text is. -/
def read (cs : List Char) : Except Fault Json :=
  match readDocument cs with
  | .ok json => .ok json
  | .error stop => .error ⟨stop.cause, cs.take (cs.length - stop.behind.length), stop.behind⟩

end Json

end SatScript
