/-
Automation.Text.Blank — which characters count as blank, and trimming.

A character is blank when it has the Unicode property White_Space: the
ASCII controls from tab to carriage return, the space, and eighteen
others. `trim` drops the blanks at both ends of a text and nothing else.
-/

namespace Automation.Text

/-- The characters with the Unicode property White_Space. -/
def isBlank (c : Char) : Bool :=
  let n := c.toNat
  (9 ≤ n && n ≤ 13) || n == 32 || n == 0x85 || n == 0xA0 || n == 0x1680 ||
    (0x2000 ≤ n && n ≤ 0x200A) || n == 0x2028 || n == 0x2029 || n == 0x202F ||
    n == 0x205F || n == 0x3000

/-- Drop the blanks in front. -/
def trimStart (s : List Char) : List Char :=
  s.dropWhile isBlank

/-- Drop the blanks at the end. -/
def trimEnd (s : List Char) : List Char :=
  (s.reverse.dropWhile isBlank).reverse

/-- Drop the blanks at both ends. -/
def trim (s : List Char) : List Char :=
  trimEnd (trimStart s)

/-- A text without any other character than blanks. -/
def isAllBlank (s : String) : Bool :=
  s.toList.all isBlank

end Automation.Text
