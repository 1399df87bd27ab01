import PlainSketch.Declaration
import PlainSketch.Line.Numbered
import PlainSketch.Opener
import PlainSketch.Symbol.Declare

/-!
# The outline of a script

The first pass. It finds every pin and function before any code is compiled, so that a function may
be called above its declaration, and it gives variables a first type from the lines that write to
them. Only the depth of nesting is tracked; what is wrong with the nesting itself is left to the
second pass.
-/
namespace PlainSketch

/-- What the first pass sees in a line. -/
inductive OutlineLine where
  /-- Opens a block, but no function. -/
  | opener
  | closer
  /-- Belongs to the block structure and changes no depth. -/
  | neutral
  | function (name : String)
  /-- Begins with `pin`; holds name and value if the rest is in order too. -/
  | pin (parts : Option (String × List Char))
  | pinAssignment (name : String) (value : List Char)
  /-- Writes to a variable, at this type. -/
  | writes (name : String) (type : ValueType)
  | other
deriving DecidableEq, Repr

namespace OutlineLine
open Shape Text Declaration

/-- `read time into NAME` and `read micros into NAME` -/
def readClock : Shape String := do
  keyword "read"
  either (nextKeyword "time") (nextKeyword "micros")
  intoName

/-- `read ANYTHING into NAME` -/
def readInto : Shape String := do
  keyword "read"
  let r ← longTextBefore intoName
  return r.2

/-- `set NAME to VALUE` -/
def set : Shape (String × List Char) := do
  keyword "set"
  gap
  let n ← name
  nextKeyword "to"
  return (n, ← value)

/-- A value that begins with the word `pwm`. -/
def pwmWord : Shape Unit := do
  keyword "pwm"
  wordEnd

/-- What a line that declares nothing says about the type of a variable. -/
def hint (code : List Char) : OutlineLine :=
  match readClock.first? code with
  | some n => .writes n .unsignedLong
  | none =>
    match readInto.first? code with
    | some n => .writes n .int
    | none =>
      match set.first? code with
      | some (n, value) =>
        if pwmWord.fits value then .other else .writes n (ValueType.ofText value)
      | none => .other

/-- Sorts the code of a line. A line that ends in `do:` is a control opener or nothing. -/
def ofCode (code : List Char) : OutlineLine :=
  if isWord "setup:" code || isWord "loop:" code then .opener
  else if isWord "end" code then .closer
  else if isOtherwise code then .neutral
  else if endsWithWord "do:" code then
    if (Opener.ofCode? code).isSome then .opener else .neutral
  else
    match functionShape.first? code with
    | some n => .function n
    | none =>
      if pinWord.fits code then .pin (pinShape.first? code)
      else
        match pinAssignmentShape.first? code with
        | some (n, value) => .pinAssignment n value
        | none => hint code

end OutlineLine

namespace Build

/-- Gives a variable its first type. Names that are taken are left to the second pass. -/
def seed (name : String) (type : ValueType) (line : Int) : Build Unit := do
  let t ← table
  if t.isReserved name || t.isPin name || t.isFunction name then return ()
  else let _ ← observeVariable name type line

/-- Takes one line at the given depth and answers the depth after it. -/
def outlineLine (depth : Nat) (line : Int) : OutlineLine → Build Nat
  | .opener => return depth + 1
  | .closer => return depth - 1
  | .neutral | .other => return depth
  | .function name => do
    if depth == 0 then let _ ← defineFunction name line
    return depth + 1
  | .pin parts => do
    if depth != 0 then report line .pinInsideBlock
    else
      match parts with
      | none => report line .malformedPin
      | some (name, value) => let _ ← definePin name value line
    return depth
  | .pinAssignment name value => do
    if depth != 0 then report line .pinAssignmentInsideBlock
    else let _ ← definePin name value line
    return depth
  | .writes name type => do
    seed name type line
    return depth

/-- Takes the numbered lines of a script one after the other, from the given depth. -/
def outlineFrom : Nat → List (Int × List Char) → Build Nat
  | depth, [] => return depth
  | depth, (line, code) :: ls => do
    let depth ← outlineLine depth line (OutlineLine.ofCode code)
    outlineFrom depth ls

/-- The first pass over the lines of a script. -/
def outline (lines : List (List Char)) : Build Unit := do
  let _ ← outlineFrom 0 (Line.numbered lines)
  let t ← table
  log (.scanned t.pins.length t.vars.length t.functions.length)

end Build
end PlainSketch
