/-
Automation.Services.Series — ids by number.

The members of a series are numbered from one. An id is the text with
which all ids of the series begin, followed by the number, and zeros in
front of the number if it has too few digits.
-/
import Automation.Text.Numeral

namespace Automation

/-- A series of ids. -/
structure Series where
  /-- What all ids begin with. -/
  start : String
  /-- How many digits a number has at least. -/
  digits : Nat := 1
  deriving DecidableEq, Repr, Inhabited

/-- The id of a number. -/
def Series.id (series : Series) (n : Nat) : String :=
  series.start ++ String.ofList (Text.padded series.digits n)

end Automation
