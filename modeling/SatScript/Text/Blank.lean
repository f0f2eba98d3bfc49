/-!
# SatScript — blanks and spaces

Two classes of white space are in use. *Blanks* separate the forms of a
script and are four characters: space, tab, line feed, carriage return.
*Spaces* are the Unicode white space and line ends (with the byte order
mark); names may not hold one, and settings are trimmed of them. Every
blank is a space (`isSpace_of_isBlank`).
-/

namespace SatScript

namespace Text

/-- White space between the forms of a script. -/
def isBlank (c : Char) : Bool := c == ' ' || c == '\t' || c == '\n' || c == '\r'

/-- White space and line ends of Unicode, with the byte order mark. -/
def isSpace (c : Char) : Bool :=
  let n := c.toNat
  (0x9 ≤ n && n ≤ 0xD) || n == 0x20 || n == 0xA0 || n == 0x1680 ||
    (0x2000 ≤ n && n ≤ 0x200A) || n == 0x2028 || n == 0x2029 || n == 0x202F ||
    n == 0x205F || n == 0x3000 || n == 0xFEFF

/-- The text without the spaces before it. -/
def trimStart (cs : List Char) : List Char := cs.dropWhile isSpace

/-- The text without the spaces behind it. -/
def trimEnd (cs : List Char) : List Char := (cs.reverse.dropWhile isSpace).reverse

/-- The text without the spaces around it. -/
def trim (cs : List Char) : List Char := trimEnd (trimStart cs)

/-- Every blank is a space. -/
theorem isSpace_of_isBlank {c : Char} (h : isBlank c = true) : isSpace c = true := by
  simp only [isBlank, Bool.or_eq_true, beq_iff_eq] at h
  rcases h with ((rfl | rfl) | rfl) | rfl <;> decide

end Text

end SatScript
