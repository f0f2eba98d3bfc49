import SatScript.BaseSort
import SatScript.Fault
import SatScript.Form.Basic
/-!
# SatScript — commands

A form at top level is a command. `ofForm` says which one, or what is
wrong with the form: first that it is a list headed by an atom, then that
the command is known, then its elements. A command that takes no elements
takes any.
-/

namespace SatScript

/-- What a form at top level asks for. -/
inductive Command where
  | ignore (name : String)
  | declare (name : String) (sort : BaseSort)
  | assert (body : Form)
  | check
  | exit

namespace Command

/-- Whether the command is one that is read and ignored. -/
def isIgnored (name : String) : Bool := ["set-info", "set-logic", "define-fun"].contains name

/-- Read the elements of a declaration `(declare-fun name () sort)`. -/
def declaration (form : Form) (items : List Form) : Except Fault Command :=
  match items with
  | [_, name, params, sort] =>
    match name with
    | .list .. => .error (.found (.shape .namelessDeclaration) form.span)
    | .atom name _ _ =>
      match params with
      | .list [] _ _ =>
        match sort with
        | .list .. => .error (.found (.shape (.declaredSort form.render)) form.span)
        | .atom sort _ _ =>
          match BaseSort.ofName? sort with
          | none => .error (.found (.shape (.declaredSort form.render)) form.span)
          | some sort => .ok (.declare name sort)
      | _ => .error (.found (.shape (.declaredParameters form.render)) form.span)
  | _ => .error (.found (.wrongCount "declare-fun" (.exactly 4) items.length) form.span)

/-- Read the elements of an assertion `(assert body)`. -/
def assertion (form : Form) (items : List Form) : Except Fault Command :=
  match items with
  | [_, body] => .ok (.assert body)
  | _ => .error (.found (.wrongCount "assert" (.exactly 2) items.length) form.span)

/-- The command that a form is. -/
def ofForm (form : Form) : Except Fault Command :=
  match form with
  | .atom text _ _ => .error (.found (.shape (.atomForCommand text)) form.span)
  | .list items _ _ =>
    match items with
    | .atom name start stop :: _ =>
      if isIgnored name then .ok (.ignore name)
      else if name = "declare-fun" then declaration form items
      else if name = "assert" then assertion form items
      else if name = "check-sat" then .ok .check
      else if name = "exit" then .ok .exit
      else .error (.found (.unknownCommand name) ⟨start, stop⟩)
    | _ => .error (.found (.shape (.namelessCommand form.render)) form.span)

/-- An atom is no command. -/
theorem ofForm_atom (text : String) (start stop : Nat) :
    ∃ fault, ofForm (.atom text start stop) = .error fault := ⟨_, rfl⟩

end Command

end SatScript
