import PlainSketch.Text.Displayed

/-!
# Faults

What is wrong with a script is a finding and never stops the work. A fault does: it is the reason
why there is no result at all.
-/
namespace PlainSketch

/-- The most decimal digits that are read into or written from an integer. -/
def digitLimit : Nat := 4300

inductive Fault where
  /-- A numeral of the script has this many digits, more than `digitLimit`. -/
  | numeralTooLong (digits : Nat)
  /-- An integer to be written has more than `digitLimit` digits. -/
  | integerTooLong
  /-- A unit of time spelled with a letter that no unit has, though a keyword may. -/
  | unknownUnit (spelling : String)
  /-- A line of the sketch with no body to go to. -/
  | noOpenBody
deriving DecidableEq, Repr

def Fault.message : Fault → String
  | .numeralTooLong digits =>
    s!"Exceeds the limit ({digitLimit} digits) for integer string conversion: " ++
      s!"value has {digits} digits; use sys.set_int_max_str_digits() to increase the limit"
  | .integerTooLong =>
    s!"Exceeds the limit ({digitLimit} digits) for integer string conversion; " ++
      "use sys.set_int_max_str_digits() to increase the limit"
  | .unknownUnit spelling => Text.display spelling
  | .noOpenBody => "no open block to write to"

end PlainSketch
