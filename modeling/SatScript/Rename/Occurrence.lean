import SatScript.Form.Reader
import SatScript.Numeral
import SatScript.Scope
import SatScript.Text.Comment
/-!
# SatScript — occurrences of names

Where the names of a script stand, and what each resolves to. A global is
declared by `declare-fun` in any source and visible in every source. A
local is bound by a `let` and visible in its body; it is known by the
place of its binder. `occurrences` lists the names of a source in the
order of the text: the name of each declaration, and the names in each
assertion. An operator is no name, nor is a numeral.
-/

namespace SatScript

/-- What a name resolves to. -/
inductive Target where
  | global (name : String)
  | local (name source : String) (offset : Int)
deriving DecidableEq

namespace Target

/-- The name of a target. -/
def name : Target → String
  | .global name => name
  | .local name _ _ => name

/-- Whether two targets are one: globals by name, locals by the place of
their binder. -/
def same : Target → Target → Bool
  | .global name, .global other => name == other
  | .local _ source offset, .local _ source' offset' => source == source' && offset == offset'
  | _, _ => false

end Target

/-- A name in a source, and what it resolves to, if anything. -/
structure Occurrence where
  text : String
  start : Nat
  stop : Nat
  target : Option Target
deriving DecidableEq

/-- Where an occurrence stands. -/
def Occurrence.span (occurrence : Occurrence) : Span := ⟨occurrence.start, occurrence.stop⟩

namespace Occurrence

/-- What a name resolves to in a scope of locals: the local, else the global
of that name. -/
def resolve (globals : List String) (scope : Scope Target) (text : String) : Option Target :=
  match scope.lookup text with
  | some target => some target
  | none => if globals.contains text then some (.global text) else none

/-- The locals that bindings introduce. A binding is a list headed by an
atom; anything else binds nothing. -/
def binders (source : String) : List Form → List (String × Target)
  | [] => []
  | .list (.atom name start _ :: _) _ _ :: rest =>
    (name, .local name source start) :: binders source rest
  | _ :: rest => binders source rest

mutual

/-- The names in an expression. -/
def inForm (source : String) (globals : List String) (scope : Scope Target) :
    Form → List Occurrence
  | .atom text start stop =>
    if text = "" ∨ Numeral.startsNumeral text then []
    else [⟨text, start, stop, resolve globals scope text⟩]
  | .list [] _ _ => []
  | .list (.atom head _ _ :: rest) _ _ =>
    if head = "let" then inLet source globals scope rest
    else inForms source globals scope rest
  | .list (.list items start stop :: rest) _ _ =>
    inForm source globals scope (.list items start stop) ++ inForms source globals scope rest

/-- The names in what stands behind `let`: names of bindings with their
values, then the body. Without bindings and a body it is no `let`. -/
def inLet (source : String) (globals : List String) (scope : Scope Target) :
    List Form → List Occurrence
  | [.list bindings _ _, body] =>
    inBindings source globals scope bindings ++
      inForm source globals (scope.extend (binders source bindings)) body
  | [] => []
  | form :: forms => inForm source globals scope form ++ inForms source globals scope forms

/-- The names in several expressions. -/
def inForms (source : String) (globals : List String) (scope : Scope Target) :
    List Form → List Occurrence
  | [] => []
  | form :: forms => inForm source globals scope form ++ inForms source globals scope forms

/-- The names in bindings, whose values see the scope around the `let`. -/
def inBindings (source : String) (globals : List String) (scope : Scope Target) :
    List Form → List Occurrence
  | [] => []
  | .list (.atom name start stop :: value :: _) _ _ :: rest =>
    ⟨name, start, stop, some (.local name source start)⟩ ::
      (inForm source globals scope value ++ inBindings source globals scope rest)
  | .list [.atom name start stop] _ _ :: rest =>
    ⟨name, start, stop, some (.local name source start)⟩ ::
      inBindings source globals scope rest
  | _ :: rest => inBindings source globals scope rest

end

/-- The name that a command declares. -/
def declared? : Form → Option Occurrence
  | .list (.atom head _ _ :: .atom name start stop :: _) _ _ =>
    if head = "declare-fun" then some ⟨name, start, stop, some (.global name)⟩ else none
  | _ => none

/-- The expression that a command asserts. -/
def asserted? : Form → Option Form
  | .list (.atom head _ _ :: body :: _) _ _ => if head = "assert" then some body else none
  | _ => none

/-- The names in a command. -/
def inCommand (source : String) (globals : List String) (form : Form) : List Occurrence :=
  match declared? form with
  | some occurrence => [occurrence]
  | none =>
    match asserted? form with
    | some body => inForm source globals Scope.empty body
    | none => []

/-- The names in the commands of a source. -/
def inCommands (source : String) (globals : List String) (forms : List Form) :
    List Occurrence :=
  forms.flatMap (inCommand source globals)

end Occurrence

end SatScript
