import SatScript.Text.Units
/-!
# SatScript — faults of JSON texts

Why a text is no JSON. A fault is a cause and the place at which it was
found, counted in code units. Most causes are reported with their place,
as offset and as line and column. A character that nothing can begin with
is shown between the characters around it.
-/

namespace SatScript

namespace Json

/-- Why a text is no JSON. -/
inductive Cause where
  | endOfText
  | character
  | number
  | string
  | nameOrBrace
  | quotedName
  | colon
  | commaOrBrace
  | commaOrBracket
  | openString
  | controlCharacter
  | escape
  | codeUnit
  | lonelyMinus
  | fraction
  | exponent
  | more
deriving DecidableEq

/-- The wording of a cause, before its place. -/
def Cause.wording : Cause → String
  | .endOfText => "Unexpected end of JSON input"
  | .character => "Unexpected token in JSON"
  | .number => "Unexpected number in JSON"
  | .string => "Unexpected string in JSON"
  | .nameOrBrace => "Expected property name or '\x7d' in JSON"
  | .quotedName => "Expected double-quoted property name in JSON"
  | .colon => "Expected ':' after property name in JSON"
  | .commaOrBrace => "Expected ',' or '\x7d' after property value in JSON"
  | .commaOrBracket => "Expected ',' or ']' after array element in JSON"
  | .openString => "Unterminated string in JSON"
  | .controlCharacter => "Bad control character in string literal in JSON"
  | .escape => "Bad escaped character in JSON"
  | .codeUnit => "Bad Unicode escape in JSON"
  | .lonelyMinus => "No number after minus sign in JSON"
  | .fraction => "Unterminated fractional number in JSON"
  | .exponent => "Exponent part is missing a number in JSON"
  | .more => "Unexpected non-whitespace character after JSON"

/-- A cause, and the text before and behind its place. -/
structure Fault where
  cause : Cause
  before : List Char
  behind : List Char
deriving DecidableEq

/-- The line and column behind a text, from a line and a column on. A carriage
return with a line feed ends one line. -/
def placeFrom (line column : Nat) : List Char → Nat × Nat
  | [] => (line, column)
  | '\r' :: '\n' :: cs => placeFrom (line + 1) 1 cs
  | c :: cs =>
    if c = '\r' ∨ c = '\n' then placeFrom (line + 1) 1 cs
    else placeFrom line (column + Text.width c) cs

namespace Fault

/-- The whole text. -/
def text (fault : Fault) : List Char := fault.before ++ fault.behind

/-- The place, as it is reported. -/
def place (fault : Fault) : String :=
  let (line, column) := placeFrom 1 1 fault.before
  " at position " ++ toString (Text.units fault.before) ++ " (line " ++ toString line ++
    " column " ++ toString column ++ ")"

/-- How many code units are shown on either side of a place. -/
def margin : Nat := 10

/-- The text around the place: all of a text that is short, else what is near
the place, with dots where something is left out. -/
def excerpt (fault : Fault) : String :=
  let offset := Text.units fault.before
  let length := Text.units fault.text
  let shown (start stop : Nat) : String :=
    "\"" ++ String.ofList (Text.slice start stop fault.text) ++ "\""
  if length ≤ 2 * margin then shown 0 length
  else if offset < margin then shown 0 (offset + margin) ++ "..."
  else if offset < length - margin then
    "..." ++ shown (offset - margin) (offset + margin) ++ "..."
  else "..." ++ shown (offset - margin) length

/-- Texts that are the writing of a value which JSON has not. -/
def foreignValues : List String := ["[object Object]", "NaN", "Infinity", "undefined"]

/-- The report of a character that nothing can begin with. -/
def characterMessage (fault : Fault) : String :=
  let text := String.ofList fault.text
  if foreignValues.contains text then "\"" ++ text ++ "\" is not valid JSON"
  else
    let offset := Text.units fault.before
    "Unexpected token '" ++ String.ofList (Text.slice offset (offset + 1) fault.text) ++ "', " ++
      fault.excerpt ++ " is not valid JSON"

/-- The report of a fault. -/
def message (fault : Fault) : String :=
  match fault.cause with
  | .endOfText => fault.cause.wording
  | .character => fault.characterMessage
  | cause => cause.wording ++ fault.place

end Fault

end Json

end SatScript
