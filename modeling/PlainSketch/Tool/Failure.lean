import PlainSketch.Program
import PlainSketch.Text.ControlSequence
import PlainSketch.Tool.Files

/-!
# Failures

Why a request to the tool came to nothing, and how the command line tells it.
-/
namespace PlainSketch

inductive Failure where
  | unknownBoard (name : String)
  /-- The script has errors; holds the report. -/
  | errors (report : String)
  | sourceMissing (path : String)
  | file (fault : FileFault)
  | undecodable (fault : Text.Utf8Fault)
  | fault (fault : Fault)
deriving DecidableEq, Repr

/-- Where the cause of a failure is looked for. -/
inductive Blame where
  /-- In the script, and the report says it all. -/
  | report
  /-- In the script. -/
  | script
  /-- In the arguments or the files they name. -/
  | arguments
  /-- In the tool. -/
  | tool
deriving DecidableEq, Repr

namespace Blame

def exitCode : Blame → Nat
  | report | script => 1
  | arguments => 2
  | tool => 3

/-- What stands in front of the message. -/
def label : Blame → String
  | report => ""
  | script | arguments => "Error: "
  | tool => "Internal error: "

/-- What is said on standard error. -/
def notice (message : String) (b : Blame) : String := Text.plain (b.label ++ message ++ "\n")

end Blame

namespace Failure

def message : Failure → String
  | unknownBoard name => Board.unknownMessage name (Board.all.map (·.name))
  | errors report => report
  | sourceMissing path => s!"Source file not found: {path}"
  | file f => f.message
  | undecodable f => f.message
  | fault f => f.message

def blame : Failure → Blame
  | unknownBoard _ | sourceMissing _ => .arguments
  | errors _ => .report
  | file f => if f.reason == .noSuchFile then .arguments else .tool
  | undecodable _ | fault _ => .tool

end Failure

namespace Files

/-- The text of a file. -/
def readText (s : Files) (p : Path) : Except Failure String :=
  match s.read p with
  | .error f => .error (.file f)
  | .ok bytes =>
    match Text.readText bytes with
    | .error f => .error (.undecodable f)
    | .ok text => .ok text

end Files

/-- Nothing is at the path. A path that is too long is no such case: it cannot be looked at. -/
def Files.isMissing (s : Files) (p : Path) : Bool :=
  match s.find p with
  | .file .. | .directory | .unreachable .nameTooLong => false
  | _ => true

/-- Compiles a file, which must exist, under the name it was given by. -/
def compileFile (s : Files) (o : Options) (path : String) : Except Failure Compilation := do
  if s.isMissing (.ofString path) then throw (.sourceMissing path)
  let text ← s.readText (.ofString path)
  match (compile o text path).result with
  | .ok c => return c
  | .error f => throw (.fault f)

/-- Compiles a file and writes the sketch to another, also if there were errors. An empty name for
the sketch writes none. Failing to write leaves the files as they were. -/
def compileFileTo (s : Files) (o : Options) (path output : String) :
    Except Failure (Compilation × Files) := do
  let c ← compileFile s o path
  if output.isEmpty then return (c, s)
  else
    match s.write (.ofString output) c.code with
    | .ok s => return (c, s)
    | .error f => throw (.file f)

end PlainSketch
