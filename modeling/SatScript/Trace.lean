import SatScript.BaseSort
import SatScript.Fault
import SatScript.Verdict
/-!
# SatScript — the trace of a run

While a script runs, events tell what was read, bound and decided. A
`Traced` computation yields its events and either a value or a fault; the
events that came before a fault are kept.
-/

namespace SatScript

/-- Something that happens while a script runs. -/
inductive Event where
  | parsed (consumed form : String)
  | binding (name value : String)
  | declared (name : String) (sort : BaseSort)
  | ignored (command : String)
  | decided (verdict : Verdict)
deriving DecidableEq

/-- The text of an event. -/
def Event.text : Event → String
  | .parsed consumed form => "got : " ++ consumed ++ "\n -> " ++ form
  | .binding name value => "Binding " ++ name ++ " to " ++ value
  | .declared name sort => "Declared " ++ name ++ " : " ++ sort.name
  | .ignored command => "Ignoring '" ++ command ++ "'"
  | .decided verdict => "Verdict: " ++ verdict.name

/-- The events of a computation, and its value or the fault that ended it. -/
structure Traced (α : Type) where
  events : List Event
  result : Except Fault α

namespace Traced

variable {α β : Type}

/-- A value without events. -/
def ok (value : α) : Traced α := ⟨[], .ok value⟩

/-- A fault without events. -/
def fail (fault : Fault) : Traced α := ⟨[], .error fault⟩

/-- One event. -/
def emit (event : Event) : Traced Unit := ⟨[event], .ok ()⟩

/-- One computation after another; a fault ends both. -/
def andThen (first : Traced α) (next : α → Traced β) : Traced β :=
  match first.result with
  | .error fault => ⟨first.events, .error fault⟩
  | .ok value => ⟨first.events ++ (next value).events, (next value).result⟩

instance : Monad Traced where
  pure := ok
  bind := andThen

/-- What comes of two computations is what comes of their results. -/
theorem result_bind (first : Traced α) (next : α → Traced β) :
    (first >>= next).result = first.result >>= fun value => (next value).result := by
  show (first.andThen next).result = _
  rw [andThen]
  cases first.result <;> rfl

end Traced

end SatScript
