import SatScript.Diagnostic.Basic
import SatScript.Edit
import SatScript.Rename.Occurrence
/-!
# SatScript — renaming

A name is renamed over all sources at once. The name at an offset is
resolved, every occurrence of its target gets an edit, the edits are
applied, and then every name of every source has to resolve to what it
resolved to before. If one does not, nothing is renamed.
-/

namespace SatScript

/-- The texts of the sources, by name, in the order in which the names first
came. -/
abbrev Sources := Table String

/-- Why a name cannot be renamed. -/
inductive RenameFault where
  | unknownSource (name : String)
  | invalidName (name : String)
  | nothingAt (source : String) (offset : Int)
  | alreadyDeclared (name : String)
  | edit (fault : EditFault)
  | captured (newName : String) (source : String) (occurrence : Occurrence)
deriving DecidableEq

namespace RenameFault

/-- The wording of a rename fault. -/
def message : RenameFault → String
  | .unknownSource name => "unknown source " ++ name
  | .invalidName name => "'" ++ name ++ "' is not a valid symbol name"
  | .nothingAt source offset =>
    "no renameable symbol at offset " ++ toString offset ++ " in " ++ source
  | .alreadyDeclared name => "'" ++ name ++ "' is already declared"
  | .edit fault => fault.message
  | .captured newName source occurrence =>
    "renaming to '" ++ newName ++ "' would change what '" ++ occurrence.text ++
      "' at offset " ++ toString occurrence.start ++ " in " ++ source ++ " refers to"

/-- Where a rename fault was found. -/
def place : RenameFault → Option Place
  | .unknownSource _ => none
  | .invalidName _ => none
  | .nothingAt source offset => some { source := some source, span := ⟨offset, offset⟩ }
  | .alreadyDeclared _ => none
  | .edit fault => some { span := fault.span }
  | .captured _ source occurrence => some { source := some source, span := occurrence.span }

/-- A rename fault as a diagnostic. -/
def diagnostic (fault : RenameFault) : Diagnostic :=
  Diagnostic.make .rename (some [("detail", .text fault.message)]) fault.place

end RenameFault

/-- Whether a text can be the new name: it is quoted and holds no further
bar, or it is a name that needs no quotes. -/
def isValidName (name : String) : Bool :=
  match name.toList with
  | [] => false
  | c :: cs =>
    (c == '|' && cs.getLast? == some '|' && !cs.dropLast.contains '|') ||
      (!Numeral.startsNumeral name &&
        (c :: cs).all fun d => !(Text.isSpace d || d == '(' || d == ')' || d == '|' || d == ';'))

namespace Sources

/-- The forms of a source, with the offsets of its text. -/
def forms (sources : Sources) (source : String) : Except RenameFault (List Form) :=
  match sources.get? source with
  | none => .error (.unknownSource source)
  | some text => .ok (SatScript.forms (Text.blankedComments text.toList))

/-- The names that are declared in any source, in the order of their first
declaration. -/
def globals (sources : Sources) : List String :=
  (sources.entries.flatMap fun entry =>
    (SatScript.forms (Text.blankedComments entry.2.toList)).filterMap fun form =>
      (Occurrence.declared? form).map (·.text)).eraseDups

/-- The names of a source, with what they resolve to. -/
def occurrences (sources : Sources) (source : String) : Except RenameFault (List Occurrence) := do
  return Occurrence.inCommands source sources.globals (← sources.forms source)

/-- What the name at an offset resolves to. -/
def targetAt (sources : Sources) (source : String) (offset : Int) :
    Except RenameFault (Option Target) := do
  let occurrences ← sources.occurrences source
  return occurrences.findSome? fun occurrence =>
    if occurrence.span.covers offset then occurrence.target else none

/-- Whether the occurrence is one of the target. -/
def refersTo (target : Target) (occurrence : Occurrence) : Bool :=
  match occurrence.target with
  | some found => found.same target
  | none => false

/-- The sources in which a target can occur. -/
def visibleIn (sources : Sources) : Target → List String
  | .global _ => sources.keys
  | .local _ source _ => [source]

/-- The occurrences of a target, by source. -/
def references (sources : Sources) (target : Target) :
    Except RenameFault (List (String × List Occurrence)) :=
  (sources.visibleIn target).mapM fun source => do
    return (source, (← sources.occurrences source).filter (refersTo target))

end Sources

/-- What a renaming does: its target, the edits by source, and the sources
after it. -/
structure Renaming where
  target : Target
  changes : Table (List Edit)
  sources : Sources

namespace Renaming

/-- The edit that gives an occurrence its new name. -/
def editOf (newName : String) (occurrence : Occurrence) : Edit :=
  ⟨occurrence.start, occurrence.stop, newName⟩

/-- The edits by source; a source without occurrences has none. -/
def changesOf (newName : String) (references : List (String × List Occurrence)) :
    Table (List Edit) :=
  Table.ofList <| references.filterMap fun (source, occurrences) =>
    if occurrences.isEmpty then none else some (source, occurrences.map (editOf newName))

/-- The sources with their edits applied. -/
def edited (sources : Sources) (changes : Table (List Edit)) : Except RenameFault Sources := do
  let entries ← sources.entries.mapM fun (source, text) =>
    match changes.get? source with
    | none => .ok (source, text)
    | some edits =>
      match Edit.applyAll text edits with
      | .ok text => .ok (source, text)
      | .error fault => .error (.edit fault)
  return Table.ofList entries

/-- Where an offset comes to lie: each edit that ends before it moves it by
what the edit adds. -/
def shift (edits : List Edit) (offset : Int) : Int :=
  edits.foldl
    (fun shifted edit =>
      if edit.stop ≤ offset then
        shifted + (Text.units edit.newText.toList - (edit.stop - edit.start))
      else shifted)
    offset

/-- What a name has to resolve to after the renaming, given what it resolved
to before. -/
def image (renamed : Target) (newName : String) (edits : List Edit) (target : Target) : Target :=
  let name := if target.same renamed then newName else target.name
  match target with
  | .global _ => .global name
  | .local _ source offset => .local name source (shift edits offset)

/-- Whether a name resolves to what it has to. -/
def agrees (expected actual : Option Target) : Bool :=
  match expected, actual with
  | none, none => true
  | some e, some a => e.same a && e.name == a.name
  | _, _ => false

/-- The first name of a source that does not resolve to what it has to; names
before and after the renaming are compared one by one. -/
def firstCaptured (renamed : Target) (newName : String) (edits : List Edit) :
    List Occurrence → List Occurrence → Option Occurrence
  | [], _ => none
  | old :: olds, news =>
    if agrees (old.target.map (image renamed newName edits)) (news.head?.bind (·.target)) then
      firstCaptured renamed newName edits olds news.tail
    else some old

/-- Check that every name of every source resolves to what it has to. -/
def check (before after : Sources) (renamed : Target) (newName : String)
    (changes : Table (List Edit)) : List String → Except RenameFault Unit
  | [] => .ok ()
  | source :: rest => do
    let old ← before.occurrences source
    let new ← after.occurrences source
    match firstCaptured renamed newName ((changes.get? source).getD []) old new with
    | some occurrence => .error (.captured newName source occurrence)
    | none => check before after renamed newName changes rest

end Renaming

/-- Rename what the name at an offset of a source resolves to. -/
def Sources.rename (sources : Sources) (source : String) (offset : Int) (newName : String) :
    Except RenameFault Renaming := do
  if !isValidName newName then .error (.invalidName newName)
  match ← sources.targetAt source offset with
  | none => .error (.nothingAt source offset)
  | some target =>
    match target with
    | .global name =>
      if newName ≠ name ∧ newName ∈ sources.globals then .error (.alreadyDeclared newName)
    | .local .. => pure ()
    let changes := Renaming.changesOf newName (← sources.references target)
    let after ← Renaming.edited sources changes
    Renaming.check sources after target newName changes sources.keys
    return { target, changes, sources := after }

end SatScript
