import PlainSketch.Json
import PlainSketch.Layout
import PlainSketch.Tool.Command
import PlainSketch.Tool.Failure

/-!
# Running the tool

What a command line does to the files, what it prints and how it ends. What the tool says goes
without control sequences; the log and the files keep them.
-/
namespace PlainSketch

inductive Outcome where
  | done (exitCode : Nat) (out err : String)
  /-- The arguments are not in order, or name no usable file. -/
  | usage
  /-- A failure that the command does not report itself. -/
  | uncaught (failure : Failure)
deriving DecidableEq, Repr

namespace Outcome

/-- Ends with a text on standard output, after the log and what was said besides. -/
def said (exitCode : Nat) (out log notes : String) : Outcome :=
  .done exitCode (Text.plain out) (log ++ Text.plain notes)

/-- Ends with a failure, after what stands on standard error already. -/
def failed (f : Failure) (err : String) : Outcome :=
  .done f.blame.exitCode "" (err ++ f.blame.notice f.message)

/-- Ends without a start. -/
def refused : Refusal → Outcome
  | .usage => .usage
  | .nullByte path => .uncaught (.file ⟨.nullByte, path⟩)

end Outcome

namespace Command

/-- Text filled up with spaces on the right. -/
def padRight (width : Nat) (s : String) : String :=
  s ++ String.ofList (List.replicate (width - s.length) ' ')

/-- Text filled up with spaces on the left. -/
def padLeft (width : Nat) (s : String) : String :=
  String.ofList (List.replicate (width - s.length) ' ') ++ s

/-- The line under the head of a table. -/
def rule : String := String.ofList (List.replicate 50 '-') ++ "\n"

/-- The log, if it is asked for. -/
def logText (verbose : Bool) (log : List Event) : String :=
  if verbose then String.join (log.map Event.render) else ""

def countsLine (t : SymbolTable) : String :=
  s!"Symbols: {t.pins.length} pins, {t.vars.length} variables, " ++
    s!"{t.functions.length} functions\n"

/-- Writes the sketch of a script without errors. -/
def writeSketch (s : Files) (verbose : Bool) (input output : Path) (board : Board)
    (c : Compilation) (log : String) : Outcome × Files :=
  let notes := if c.warnings == 0 then "" else c.report ++ "\n"
  match s.write output c.code with
  | .error f => (.failed (.file f) (log ++ Text.plain notes), s)
  | .ok s =>
    let details := if verbose then s!"Board: {board.displayName}\n" ++ countsLine c.table else ""
    (.said 0 (details ++ s!"Compiled {input.render} -> {output.render}\n") log notes, s)

def runCompile (s : Files) (verbose : Bool) (input : Path) (output? : Option Path)
    (board : Board) (json : Bool) : Outcome × Files :=
  let output := output?.getD (input.withExtension ".ino")
  match s.readText input with
  | .error f => (.failed f "", s)
  | .ok text =>
    let run := PlainSketch.compile { board } text input.render
    let log := logText verbose run.log
    match run.result with
    | .error f => (.failed (.fault f) log, s)
    | .ok c =>
      if json then
        (.said (if c.success then 0 else 1) ((Json.ofCompilation c).render ++ "\n") log "", s)
      else if !c.success then (.failed (.errors c.report) log, s)
      else writeSketch s verbose input output board c log

def runFormat (s : Files) (input : Path) (write check : Bool) : Outcome × Files :=
  match s.readText input with
  | .error f => (.uncaught f, s)
  | .ok text =>
    let tidy := String.ofList (Layout.reformat text.toList)
    if check then
      if tidy == text then (.said 0 s!"{input.render} is formatted\n" "" "", s)
      else (.said 1 "" "" s!"{input.render} would be reformatted\n", s)
    else if write then
      if tidy == text then (.said 0 s!"{input.render} unchanged\n" "" "", s)
      else
        match s.write input tidy with
        | .error f => (.uncaught (.file f), s)
        | .ok s => (.said 0 s!"Reformatted {input.render}\n" "" "", s)
    else (.said 0 tidy "" "", s)

/-- A row of the table of symbols. -/
def symbolRow (name kind detail line : String) : String :=
  s!"{padRight 16 name} {padRight 10 kind} {padRight 16 detail} {padLeft 5 line}\n"

/-- The table of symbols. -/
def symbolRows (t : SymbolTable) : String :=
  symbolRow "Name" "Kind" "Detail" "Line" ++ rule
    ++ String.join (t.pins.map fun p => symbolRow p.name "pin" p.target.text (toString p.line))
    ++ String.join
      (t.vars.map fun v => symbolRow v.name "variable" v.type.cName (toString v.line))
    ++ String.join
      (t.functions.map fun f => symbolRow f.name "function" "void()" (toString f.line))

def runSymbols (s : Files) (verbose : Bool) (input : Path) (board : Board) (json : Bool) :
    Outcome :=
  match s.readText input with
  | .error f => .failed f ""
  | .ok text =>
    let run := analyze { board } text
    let log := logText verbose run.log
    match run.result with
    | .error f => .failed (.fault f) log
    | .ok session =>
      if json then .said 0 ((Json.ofAnalysis session).render ++ "\n") log ""
      else
        let notes := session.diagnostics.map fun d => d.render input.render none ++ "\n"
        .said 0 (symbolRows session.table) log (String.join notes)

/-- A row of the table of boards. -/
def boardRow (name digital analog pwm : String) : String :=
  s!"{padRight 8 name} {padRight 10 digital} {padRight 10 analog} {pwm}\n"

/-- The table of boards. -/
def boardRows : String :=
  boardRow "Board" "Digital" "Analog" "PWM" ++ rule
    ++ String.join (Board.all.map fun b =>
      boardRow b.name b.digitalRange (b.analogRange?.getD "-") (b.pwmText?.getD "-"))

/-- Runs a command. -/
def run (s : Files) : Command → Outcome × Files
  | .version => (.said 0 s!"aesc, version {PlainSketch.version}\n" "" "", s)
  | .compile verbose input output board json =>
    runCompile s verbose (.ofString input) (output.map .ofString) board json
  | .format input write check => runFormat s (.ofString input) write check
  | .symbols verbose input board json =>
    (runSymbols s verbose (.ofString input) board json, s)
  | .boards => (.said 0 boardRows "" "", s)

end Command

/-- Carries out a request, if nothing speaks against it. -/
def Request.run (s : Files) (r : Request) : Outcome × Files :=
  match Command.ofRequest s r with
  | .ok c => c.run s
  | .error refusal => (.refused refusal, s)

/-- Runs a command line. -/
def runTool (s : Files) (args : List String) : Outcome × Files :=
  match Request.ofArgs? args with
  | some r => r.run s
  | none => (.usage, s)

end PlainSketch
