import SatScript.Text.Split
/-!
# SatScript — paths

Paths as texts: their components between slashes, the extension of the
last one, and how a name is looked up in a directory. Nothing here asks
what a path leads to.
-/

namespace SatScript

namespace Path

/-- The components between the slashes of a path. -/
def components (path : List Char) : List (List Char) := Text.split '/' path

/-- The relative path of components. -/
def ofComponents (parts : List (List Char)) : String :=
  String.ofList (['/'].intercalate parts)

/-- A path is the path of its components. -/
theorem ofComponents_components (path : List Char) :
    ofComponents (components path) = String.ofList path := by
  rw [ofComponents, components, Text.intercalate_split]

/-- Whether a component stays where it is. -/
def stays (part : List Char) : Bool := part = [] || part = ['.']

/-- Whether a component goes up. -/
def goesUp (part : List Char) : Bool := part = ['.', '.']

/-- The last component of a path; slashes at its end do not count. -/
def baseName (path : List Char) : List Char :=
  ((path.reverse.dropWhile (· == '/')).takeWhile (· != '/')).reverse

/-- The extension of a path: its last component from the last point on,
unless nothing stands before that point. -/
def extension (path : String) : List Char :=
  let base := baseName path.toList
  if goesUp base then []
  else
    let tail := base.reverse.takeWhile (· != '.')
    if tail.length + 1 < base.length then '.' :: tail.reverse else []

/-- Take a component off or put one on, the last one first: a component that
goes up takes the one before it away, whatever that leads to. Above the root
there is only the root. -/
def enter (absolute : Bool) (parts : List (List Char)) (part : List Char) : List (List Char) :=
  if stays part then parts
  else if goesUp part then
    match parts with
    | [] => if absolute then [] else [part]
    | last :: above => if goesUp last then part :: parts else above
  else part :: parts

/-- The path of components without those that stay or go back. -/
def normal (absolute : Bool) (parts : List (List Char)) : String :=
  ofComponents (parts.foldl (enter absolute) []).reverse

/-- The path of a name in a directory. -/
def inDirectory (directory name : String) : String :=
  let absolute := directory.toList.head? = some '/'
  let path := normal absolute (components directory.toList ++ [name.toList])
  if absolute then "/" ++ path else path

/-- A path below a directory, as a relative path. -/
def relative (path : String) : String := normal false (components path.toList)

end Path

end SatScript
