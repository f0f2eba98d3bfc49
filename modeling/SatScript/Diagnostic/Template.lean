/-!
# SatScript — message templates

A message is made from a template in which placeholders stand in braces.
The parameters are filled in one after another: each replaces the first
occurrence of its placeholder in the text as it is by then. In the text
that is put in, a dollar sign has a meaning of its own: before another
dollar sign it stands for one, before an ampersand for the placeholder,
before a grave accent for all that precedes the placeholder, and before
an apostrophe for all that follows it. Any other dollar sign is itself.
-/

namespace SatScript

namespace Template

/-- What stands before and after the first occurrence of a pattern. -/
def split? (pattern : List Char) : List Char → Option (List Char × List Char)
  | [] => if pattern.isEmpty then some ([], []) else none
  | c :: cs =>
    if pattern.isPrefixOf (c :: cs) then some ([], (c :: cs).drop pattern.length)
    else (split? pattern cs).map fun (before, after) => (c :: before, after)

/-- The text that is put in for a placeholder. -/
def expand (before placeholder after : List Char) : List Char → List Char
  | '$' :: '$' :: cs => '$' :: expand before placeholder after cs
  | '$' :: '&' :: cs => placeholder ++ expand before placeholder after cs
  | '$' :: '`' :: cs => before ++ expand before placeholder after cs
  | '$' :: '\'' :: cs => after ++ expand before placeholder after cs
  | c :: cs => c :: expand before placeholder after cs
  | [] => []

/-- The placeholder of a parameter. -/
def placeholder (key : String) : List Char := '\x7b' :: (key.toList ++ ['\x7d'])

/-- Fill one parameter in. -/
def fillOne (text : List Char) (key value : String) : List Char :=
  match split? (placeholder key) text with
  | none => text
  | some (before, after) =>
    before ++ expand before (placeholder key) after value.toList ++ after

/-- Fill the parameters in, one after another. -/
def fill (template : String) (params : List (String × String)) : String :=
  String.ofList (params.foldl (fun text p => fillOne text p.1 p.2) template.toList)

end Template

end SatScript
