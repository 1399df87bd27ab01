import PlainSketch.Tool.Arguments
import PlainSketch.Tool.Files

/-!
# Commands

A command is a request whose arguments have been checked against the files. Options are checked in
the order in which they were given, then the input, and what is wrong first is what counts.
-/
namespace PlainSketch

/-- A request that can be carried out. Files are named as written. -/
inductive Command where
  | version
  | compile (verbose : Bool) (input : String) (output : Option String) (board : Board)
      (json : Bool)
  | format (input : String) (write check : Bool)
  | symbols (verbose : Bool) (input : String) (board : Board) (json : Bool)
  | boards
deriving DecidableEq, Repr

/-- Why a request cannot be carried out. -/
inductive Refusal where
  /-- The arguments are not in order, or name no usable file. -/
  | usage
  /-- The path has a null character. -/
  | nullByte (path : String)
deriving DecidableEq, Repr

namespace Command

/-- An input must be a file. -/
def checkInput (s : Files) (path : String) : Except Refusal Unit :=
  match s.findWritten path with
  | .file .. => .ok ()
  | .unreachable .nullByte => .error (.nullByte path)
  | _ => .error .usage

/-- An output must not be a directory. -/
def checkOutput (s : Files) (path : String) : Except Refusal Unit :=
  match s.findWritten path with
  | .directory => .error .usage
  | .unreachable .nullByte => .error (.nullByte path)
  | _ => .ok ()

/-- The board that was chosen, in any case, or the default. -/
def board (p : ParsedArgs) : Except Refusal Board :=
  match p.value? .board with
  | none => .ok .uno
  | some name =>
    match Board.all.find? fun b => Text.isWord b.name name.toList with
    | some b => .ok b
    | none => .error .usage

/-- Checks the value of an option. -/
def checkOption (s : Files) (p : ParsedArgs) (name : OptionName) : Except Refusal Unit :=
  match name, p.value? name with
  | .output, some path => checkOutput s path
  | .board, _ => (board p).map fun _ => ()
  | _, _ => .ok ()

/-- The one argument besides options. -/
def input (s : Files) (p : ParsedArgs) : Except Refusal String :=
  match p.rest with
  | [] => .error .usage
  | path :: more => do
    checkInput s path
    if more.isEmpty then return path else throw .usage

/-- Checks a request. -/
def ofRequest (s : Files) : Request → Except Refusal Command
  | .version => .ok .version
  | .command verbose name p => do
    p.options.forM fun o => checkOption s p o.1
    match name with
    | .compile =>
      return .compile verbose (← input s p) (p.value? .output) (← board p) (p.has .json)
    | .format => return .format (← input s p) (p.has .write) (p.has .check)
    | .symbols => return .symbols verbose (← input s p) (← board p) (p.has .json)
    | .boards => if p.rest.isEmpty then return .boards else throw .usage

end Command
end PlainSketch
