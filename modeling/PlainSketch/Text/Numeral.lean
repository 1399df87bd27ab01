import PlainSketch.Fault
import PlainSketch.Text.Digit

/-!
# Numerals

Reading decimal numerals, whose digits may come from any script, and the limit on the size of the
integers that are read and written.
-/
namespace PlainSketch.Text

/-- The number that a row of digits denotes, the most significant first. -/
def digitsValue (cs : List Char) : Nat :=
  cs.foldl (fun n c => 10 * n + (digitValue? c).getD 0) 0

/-- Digits only, and at least one. -/
def isNatural (cs : List Char) : Bool := !cs.isEmpty && cs.all isDigit

/-- Digits, perhaps after a minus sign. -/
def isInteger : List Char → Bool
  | '-' :: cs => isNatural cs
  | cs => isNatural cs

/-- Reads a row of digits; leading zeros count against the limit. -/
def readNatural (cs : List Char) : Except Fault Nat :=
  if digitLimit < cs.length then .error (.numeralTooLong cs.length) else .ok (digitsValue cs)

/-- Reads a row of digits with an optional minus sign, which does not count against the limit. -/
def readInteger : List Char → Except Fault Int
  | '-' :: cs => (readNatural cs).map fun n => -(n : Int)
  | cs => (readNatural cs).map fun n => (n : Int)

/-- The integer, provided that it is short enough to be written. -/
def writable (n : Int) : Except Fault Int :=
  if n.natAbs < Nat.pow 10 digitLimit then .ok n else .error .integerTooLong

end PlainSketch.Text
