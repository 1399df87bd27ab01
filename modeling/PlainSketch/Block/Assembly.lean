import PlainSketch.Block.Frame
import PlainSketch.Declaration
import PlainSketch.Line.Numbered
import PlainSketch.Sketch.Basic
import PlainSketch.Statement.Compile

/-!
# The second pass

The second pass follows the blocks of a script on a stack and writes the sketch. A structural opener
selects the body that code goes to; only one is open at a time. A control opener writes a header
into that body and `end` its closing brace. An opener that is refused is pushed all the same, as
unopened, so that its `end` closes it and nothing else.
-/
namespace PlainSketch

/-- Where code goes. The body of a function that was refused is compiled too, and dropped. -/
inductive Body where
  | setup
  | loop
  | function (name : String)
  | detached (lines : List Instr)
deriving DecidableEq, Repr

/-- The state of the second pass. -/
structure Assembly where
  session : Session
  sketch : Sketch Instr := {}
  /-- Open blocks, the innermost first. -/
  stack : List Frame := []
  /-- The open body. -/
  body : Option Body := none
  sawSetup : Bool := false
  sawLoop : Bool := false
  /-- How many numbers for helper variables are used up. -/
  ids : Nat := 0
deriving DecidableEq, Repr

abbrev Assemble := EStateM Fault Assembly

/-- What the second pass sees in a line. -/
inductive BlockLine where
  | setup
  | loop
  | function (name : String)
  /-- A line about a pin, dealt with by the first pass. -/
  | pin
  | control (opener : Opener)
  | otherwise
  | endBlock
  /-- Ends in `do:` and is no opener. -/
  | unknown
  | command
deriving DecidableEq, Repr

namespace BlockLine
open Text Declaration

/-- Sorts the code of a line. -/
def ofCode (code : List Char) : BlockLine :=
  if isWord "setup:" code then .setup
  else if isWord "loop:" code then .loop
  else
    match functionShape.first? code with
    | some n => .function n
    | none =>
      if isPinLine code then .pin
      else
        match Opener.ofCode? code with
        | some o => .control o
        | none =>
          if isOtherwise code then .otherwise
          else if isWord "end" code then .endBlock
          else if endsWithWord "do:" code then .unknown
          else .command

end BlockLine

namespace Assembly

/-- Adds lines to the open body `b`. -/
def write (a : Assembly) (b : Body) (is : List Instr) : Assembly :=
  match b with
  | .setup => { a with sketch := a.sketch.addSetup is }
  | .loop => { a with sketch := a.sketch.addLoop is }
  | .function name => { a with sketch := a.sketch.addFunction name is }
  | .detached ls => { a with body := some (.detached (ls ++ is)) }

end Assembly

namespace Assemble

/-- A step on the session alone. -/
def build {α : Type} (m : Build α) : Assemble α := fun a =>
  match m a.session with
  | .ok x s => .ok x { a with session := s }
  | .error f s => .error f { a with session := s }

instance : MonadLift Build Assemble := ⟨build⟩

def report (line : Int) (p : Problem) : Assemble Unit := build (Build.report line p)

/-- Puts a block on the stack. -/
def push (f : Frame) : Assemble Unit := do
  let a ← get
  build (Build.log (.blockOpened f.line f.label (a.stack.length + 1)))
  modify fun a => { a with stack := f :: a.stack }

/-- Writes lines to the open body and answers them. -/
def emit (is : List Instr) : Assemble (List Instr) := do
  let a ← get
  match a.body with
  | none => throw .noOpenBody
  | some b =>
    set (a.write b is)
    return is

/-- A number for the helper variables of one block. -/
def freshId : Assemble Nat := do
  let a ← get
  set { a with ids := a.ids + 1 }
  return a.ids + 1

/-- Why a structural block cannot open inside another. -/
def nestedProblem : BlockKind → Problem
  | .function => .nestedFunction
  | kind => .nestedStructure kind.name

/-- Opens a structural block, or refuses it inside another; answers whether it opened. -/
def openStructure (f : Frame) (b : Body) : Assemble Bool := do
  let a ← get
  if a.body.isSome then
    report f.line (nestedProblem f.kind)
    push { f with opened := false }
    return false
  else
    set { a with body := some b }
    push f
    return true

/-- The body of a function that is declared on this very line, and otherwise a detached one. -/
def functionBody (name : String) (line : Int) : Assemble Body := do
  let a ← get
  match a.body, a.session.table.findFunction? name with
  | none, some f =>
    if f.line == line then
      set { a with sketch := a.sketch.withFunction name }
      return .function name
    else return .detached []
  | _, _ => return .detached []

/-- Reports a line that needs a structural block around it, unless there is one. -/
def requireBody (line : Int) : Assemble Bool := do
  if (← get).body.isSome then return true
  else
    report line .controlOutsideBlock
    return false

/-- Opens an `if` or a `while`, unopened when the condition is missing. -/
def openConditional (kind : BlockKind) (header : List Char → Instr) (condition : List Char)
    (line : Int) : Assemble (List Instr) := do
  match ← build (Build.condition condition line) with
  | some test =>
    let is ← emit [header test]
    push { kind, line }
    return is
  | none =>
    push { kind, line, opened := false }
    return []

def openRepeat (count : List Char) (line : Int) : Assemble (List Instr) := do
  let n ← build (Build.ofExcept (Text.readInteger count))
  if n < 0 then
    report line .negativeRepeat
    push { kind := .repeatTimes, line, opened := false }
    return []
  else
    let is ← emit [.openRepeat (← freshId) n]
    push { kind := .repeatTimes, line }
    return is

/-- The milliseconds of a timer, short enough to be written. -/
def timerInterval (amount unit : List Char) : Except Fault Int := do
  Text.writable (← timerMillis amount unit)

/-- Opens a recurring timer. Its mark moves on by exactly one interval each time it runs. -/
def openEvery (amount unit : List Char) (line : Int) : Assemble (List Instr) := do
  let interval ← build (Build.ofExcept (timerInterval amount unit))
  let id ← freshId
  let is ← emit [.everyLast id, .openEvery id interval, .everyAdvance id interval]
  push { kind := .every, line }
  return is

/-- Opens a timer that runs once. -/
def openAfter (amount unit : List Char) (line : Int) : Assemble (List Instr) := do
  let delay ← build (Build.ofExcept (timerInterval amount unit))
  let id ← freshId
  let is ← emit [.afterDone id, .afterStart id, .openAfter id delay, .afterFinish id]
  push { kind := .after, line }
  return is

/-- The kind of block that a control opener opens. -/
def kindOf : Opener → BlockKind
  | .ifDo _ => .ifDo
  | .repeatTimes _ => .repeatTimes
  | .forever => .forever
  | .whileDo _ => .whileDo
  | .every _ _ => .every
  | .after _ _ => .after

/-- Opens a control block; outside a body it is refused. -/
def openControl (o : Opener) (line : Int) : Assemble (List Instr) := do
  if ← requireBody line then
    match o with
    | .ifDo condition => openConditional .ifDo .openIf condition line
    | .repeatTimes count => openRepeat count line
    | .forever =>
      let is ← emit [.openForever]
      push { kind := .forever, line }
      return is
    | .whileDo condition => openConditional .whileDo .openWhile condition line
    | .every amount unit => openEvery amount unit line
    | .after amount unit => openAfter amount unit line
  else
    push { kind := kindOf o, line, opened := false }
    return []

/-- Starts the other branch of the innermost `if`. -/
def alternate (line : Int) : Assemble (List Instr) := do
  if ← requireBody line then
    match (← get).stack with
    | [] =>
      report line .otherwiseOutsideIf
      return []
    | top :: below =>
      if top.kind ≠ .ifDo then
        report line .otherwiseOutsideIf
        return []
      else if top.hasAlternate then
        report line .otherwiseRepeated
        return []
      else
        let is ← if top.opened then emit [.elseBranch] else pure []
        modify fun a => { a with stack := { top with hasAlternate := true } :: below }
        return is
  else return []

/-- Closes the innermost block. -/
def closeBlock (line : Int) : Assemble (List Instr) := do
  match (← get).stack with
  | [] =>
    report line .endWithoutBlock
    return []
  | top :: below =>
    modify fun a => { a with stack := below }
    build (Build.log (.blockClosed line top.label))
    if !top.opened then return []
    else if top.isStructural then
      modify fun a => { a with body := none }
      return []
    else emit [.close]

/-- Compiles a statement into the open body. -/
def command (code : List Char) (line : Int) : Assemble (List Instr) := do
  if (← get).body.isSome then
    match Statement.ofCode? code with
    | some s => emit (← build (Build.statement line s))
    | none =>
      report line (.unknownCommand (String.ofList code))
      return []
  else
    report line .commandOutsideBlock
    return []

/-- Takes one line and answers what it wrote. -/
def takeLine (line : Int) (code : List Char) : Assemble (List Instr) := do
  match BlockLine.ofCode code with
  | .setup =>
    if ← openStructure { kind := .setup, line } .setup then
      modify fun a => { a with sawSetup := true }
    return []
  | .loop =>
    if ← openStructure { kind := .loop, line } .loop then
      modify fun a => { a with sawLoop := true }
    return []
  | .function name =>
    let body ← functionBody name line
    let _ ← openStructure { kind := .function, line, name := some name } body
    return []
  | .pin => return []
  | .control o => openControl o line
  | .otherwise => alternate line
  | .endBlock => closeBlock line
  | .unknown =>
    report line (.unknownBlock (String.ofList code))
    return []
  | .command => command code line

/-- Takes the numbered lines of a script one after the other. -/
def takeLines : List (Int × List Char) → Assemble Unit
  | [] => return ()
  | (line, code) :: ls => do
    let _ ← takeLine line code
    takeLines ls

/-- What there is to say at the end of a script of so many lines. -/
def finish (lineCount : Nat) : Assemble Unit := do
  let a ← get
  match a.stack with
  | top :: _ => report (max lineCount 1) (.unclosedBlock top.label top.line)
  | [] => pure ()
  if !a.sawSetup then report 1 .setupMissing
  if !a.sawLoop then report 1 .loopMissing

/-- The second pass over the lines of a script. -/
def run (lines : List (List Char)) : Assemble Unit := do
  takeLines (Line.numbered lines)
  finish lines.length

end Assemble
end PlainSketch
