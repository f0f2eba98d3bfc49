import SatScript.Number.Basic
import SatScript.Table
/-!
# SatScript — JSON values

JSON values as they are read: an object has every name once. Of several
members of one name the last counts.
-/

namespace SatScript

/-- A JSON value. -/
inductive Json where
  | null
  | bool (value : Bool)
  | number (value : Number)
  | string (value : String)
  | array (items : List Json)
  | object (members : List (String × Json))
deriving Inhabited

namespace Json

/-- The object of members as they stand in a text. -/
def ofMembers (members : List (String × Json)) : Json :=
  .object (Table.ofList members).entries

/-- The member of an object; other values have no members. -/
def member? (value : Json) (name : String) : Option Json :=
  match value with
  | .object members => members.lookup name
  | _ => none

end Json

end SatScript
