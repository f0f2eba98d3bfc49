import SatScript.Path
import SatScript.Settings.Files
import SatScript.Table
/-!
# SatScript — snapshots of a directory

A snapshot holds the files below a directory by their names relative to
it. A path is followed component by component: every component but the
last has to be a directory, `.` stays and `..` goes up. The directories
above are there, up to the root; nothing else outside of the snapshot
is. Names are bounded: a component by 255 bytes, a path by 4095.
-/

namespace SatScript

/-- The files below a directory, by relative name. -/
abbrev Snapshot := Table String

namespace Snapshot

/-- The snapshot of files that are put below a directory one after another. -/
def ofFiles (files : List (String × String)) : Snapshot :=
  Table.ofList (files.map fun file => (Path.relative file.1, file.2))

/-- Whether some file lies below a directory, given as its components. -/
def hasDirectory (snapshot : Snapshot) (parts : List (List Char)) : Bool :=
  snapshot.keys.any fun name => (Path.ofComponents parts ++ "/").toList.isPrefixOf name.toList

/-- Whether a component is too long to be a name. -/
def isTooLong (part : List Char) : Bool := 255 < (String.ofList part).utf8ByteSize

/-- Follow components from a directory, whose components come with the last
one first. -/
def follow (snapshot : Snapshot) (here : List (List Char)) : List (List Char) → FileStatus
  | [] => .directory
  | part :: rest =>
    if Path.stays part || Path.goesUp part then follow snapshot (Path.enter false here part) rest
    else if isTooLong part then .nameTooLong
    else
      match snapshot.get? (Path.ofComponents (part :: here).reverse) with
      | some contents => if rest.isEmpty then .text contents else .underFile
      | none =>
        if snapshot.hasDirectory (part :: here).reverse then follow snapshot (part :: here) rest
        else .missing

/-- What components from the root lead to. -/
def fromRoot (parts : List (List Char)) : FileStatus :=
  match parts.dropWhile fun part => Path.stays part || Path.goesUp part with
  | [] => .directory
  | part :: _ => if isTooLong part then .nameTooLong else .missing

/-- What a path leads to. -/
def status (snapshot : Snapshot) (path : String) : FileStatus :=
  if 4095 < path.utf8ByteSize then .nameTooLong
  else
    match path.toList with
    | [] => .missing
    | '/' :: rest => fromRoot (Path.components rest)
    | cs => snapshot.follow [] (Path.components cs)

end Snapshot

end SatScript
