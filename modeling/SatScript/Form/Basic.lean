import SatScript.Span
import SatScript.Text.Units
/-!
# SatScript — forms

A script is a sequence of forms: atoms, and lists of forms. A form knows
where it stood in the text it was read from. `render` writes a form
canonically, one space between the items of a list; `same` compares two
forms and leaves aside where they stood.
-/

namespace SatScript

/-- An atom or a list of forms, with the offsets between which it stood. -/
inductive Form where
  | atom (text : String) (start stop : Nat)
  | list (items : List Form) (start stop : Nat)
deriving Inhabited

namespace Form

/-- An atom that stood in no text: its offsets are those of its own text. -/
def ofText (text : String) : Form := .atom text 0 (Text.units text.toList)

/-- A list that stood in no text. -/
def ofItems (items : List Form) : Form := .list items 0 0

/-- Where the form begins. -/
def start : Form → Nat
  | .atom _ start _ => start
  | .list _ start _ => start

/-- Where the form ends. -/
def stop : Form → Nat
  | .atom _ _ stop => stop
  | .list _ _ stop => stop

/-- Where the form stood. -/
def span (form : Form) : Span := ⟨form.start, form.stop⟩

/-- The atom that heads a list, as its text; an atom has no head. -/
def headText? : Form → Option String
  | .list (.atom text _ _ :: _) _ _ => some text
  | _ => none

mutual

/-- The characters of the canonical writing of a form. -/
def chars : Form → List Char
  | .atom text _ _ => text.toList
  | .list items _ _ => '(' :: (charsOfItems items ++ [')'])

/-- The characters of the items of a list, one space between two items. -/
def charsOfItems : List Form → List Char
  | [] => []
  | item :: items => chars item ++ charsOfMore items

/-- The characters of items that follow others, one space before each. -/
def charsOfMore : List Form → List Char
  | [] => []
  | item :: items => ' ' :: (chars item ++ charsOfMore items)

end

/-- The canonical writing of a form. -/
def render (form : Form) : String := String.ofList form.chars

mutual

/-- Whether two forms are equal, wherever they stood. -/
def same : Form → Form → Bool
  | .atom text _ _, .atom other _ _ => text == other
  | .list items _ _, .list others _ _ => sameItems items others
  | _, _ => false

/-- Whether two lists of forms are equal item by item. -/
def sameItems : List Form → List Form → Bool
  | [], [] => true
  | item :: items, other :: others => same item other && sameItems items others
  | _, _ => false

end

@[simp] theorem start_atom (text : String) (start stop : Nat) :
    (Form.atom text start stop).start = start := rfl

@[simp] theorem start_list (items : List Form) (start stop : Nat) :
    (Form.list items start stop).start = start := rfl

@[simp] theorem stop_atom (text : String) (start stop : Nat) :
    (Form.atom text start stop).stop = stop := rfl

@[simp] theorem stop_list (items : List Form) (start stop : Nat) :
    (Form.list items start stop).stop = stop := rfl

end Form

end SatScript
