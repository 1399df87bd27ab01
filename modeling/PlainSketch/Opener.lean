import PlainSketch.Shape

/-!
# Control openers

The six shapes of line that open a control block inside a body. Both passes over a script know
control blocks by these shapes only.
-/
namespace PlainSketch

/-- A line that opens a control block, with its operands as written. -/
inductive Opener where
  | ifDo (condition : List Char)
  | repeatTimes (count : List Char)
  | forever
  | whileDo (condition : List Char)
  | every (amount unit : List Char)
  | after (amount unit : List Char)
deriving DecidableEq, Repr

namespace Opener
open Shape

/-- A gap, `do:` and the end of the line. -/
def doEnd : Shape Unit := do
  nextKeyword "do:"
  lineEnd

def ifShape : Shape Opener := do
  keyword "if"
  let r ← longTextBefore doEnd
  return .ifDo r.1

def repeatShape : Shape Opener := do
  keyword "repeat"
  gap
  let count ← signedDigits
  nextKeyword "times"
  doEnd
  return .repeatTimes count

def foreverShape : Shape Opener := do
  keyword "forever"
  doEnd
  return .forever

def whileShape : Shape Opener := do
  keyword "while"
  let r ← longTextBefore doEnd
  return .whileDo r.1

/-- An amount of time, with its unit as spelled. -/
def interval (units : List String) : Shape (List Char × List Char) := do
  let amount ← digits
  optGap
  let unit ← spellingOf units
  return (amount, unit)

/-- The units of the timers. -/
def timerUnits : List String := ["ms", "milliseconds", "millisecond", "seconds", "second", "s"]

def everyShape : Shape Opener := do
  keyword "every"
  gap
  let t ← interval timerUnits
  doEnd
  return .every t.1 t.2

def afterShape : Shape Opener := do
  keyword "after"
  gap
  let t ← interval timerUnits
  doEnd
  return .after t.1 t.2

/-- The six shapes, in the order in which they are tried. -/
def shapes : List (Shape Opener) :=
  [ifShape, repeatShape, foreverShape, whileShape, everyShape, afterShape]

/-- Reads a line as a control opener. -/
def ofCode? (code : List Char) : Option Opener := firstOf? shapes code

end Opener
end PlainSketch
