import PlainSketch.Shape

/-!
# Declarations

The shapes of the lines that declare functions and pins.
-/
namespace PlainSketch.Declaration
open Shape

/-- `function NAME:` -/
def functionShape : Shape String := do
  keyword "function"
  gap
  let n ← name
  optGap
  keyword ":"
  lineEnd
  return n

/-- A line that begins with the word `pin`. -/
def pinWord : Shape Unit := do
  keyword "pin"
  wordEnd

/-- `pin NAME is VALUE` -/
def pinShape : Shape (String × List Char) := do
  keyword "pin"
  gap
  let n ← name
  nextKeyword "is"
  return (n, ← value)

/-- `set NAME to pin`, up to the gap after it. -/
def pinAssignmentHead : Shape String := do
  keyword "set"
  gap
  let n ← name
  nextKeyword "to"
  nextKeyword "pin"
  return n

/-- `set NAME to pin VALUE` -/
def pinAssignmentShape : Shape (String × List Char) := do
  let n ← pinAssignmentHead
  return (n, ← value)

/-- A line about a pin, which the second pass leaves alone. -/
def isPinLine (code : List Char) : Bool :=
  pinWord.fits code || (pinAssignmentHead >>= fun _ => gap).fits code

/-- One of the two spellings of the line that starts the other branch of an `if`. -/
def isOtherwise (code : List Char) : Bool :=
  Text.isWord "otherwise do:" code || Text.isWord "otherwise:" code

end PlainSketch.Declaration
