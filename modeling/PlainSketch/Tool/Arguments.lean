import PlainSketch.Board

/-!
# Arguments of the command line

Options come before or after the other arguments of a command, long ones as `--board=uno` or
`--board uno`, short ones in clusters and with their value attached or after them. A value is taken
as it is, whatever it looks like. `--` ends the options, and a repeated option counts the last time.
Help pages are left out: `--help` is refused here as an unknown option is, and so is a command line
without a command.
-/
namespace PlainSketch

inductive OptionName where
  | verbose
  | version
  | output
  | board
  | json
  | write
  | check
deriving DecidableEq, Repr

namespace OptionName

/-- The name that two dashes go with. -/
def long : OptionName → String
  | verbose => "verbose"
  | version => "version"
  | output => "output"
  | board => "board"
  | json => "json"
  | write => "write"
  | check => "check"

/-- The letter that one dash goes with. -/
def short? : OptionName → Option Char
  | verbose => some 'v'
  | version => some 'V'
  | output => some 'o'
  | board => some 'b'
  | write => some 'w'
  | json | check => none

def takesValue : OptionName → Bool
  | output | board => true
  | _ => false

end OptionName

/-- Options found, with their values, and the other arguments. -/
structure ParsedArgs where
  options : List (OptionName × String) := []
  rest : List String := []
deriving DecidableEq, Repr

namespace ParsedArgs

def has (p : ParsedArgs) (name : OptionName) : Bool := p.options.any (·.1 == name)

/-- The value given last. -/
def value? (p : ParsedArgs) (name : OptionName) : Option String := p.options.reverse.lookup name

/-- Options in front of what follows them. -/
def push (options : List (OptionName × String)) (p : ParsedArgs) : ParsedArgs :=
  { p with options := options ++ p.options }

end ParsedArgs

/-- What a single argument is. -/
inductive Argument where
  /-- The end of the options. -/
  | terminator
  /-- No option. -/
  | plain
  /-- Options with all that belongs to them. -/
  | options (found : List (OptionName × String))
  /-- Options, the last of which takes the next argument for its value. -/
  | awaiting (found : List (OptionName × String)) (name : OptionName)
  /-- An unknown option, or a value for one that takes none. -/
  | invalid
deriving DecidableEq, Repr

namespace Argument

/-- Reads a cluster of short options. What follows an option that takes a value is that value. -/
def ofCluster (known : List OptionName) (found : List (OptionName × String)) :
    List Char → Argument
  | [] => .options found
  | c :: cs =>
    match known.find? (·.short? == some c) with
    | none => .invalid
    | some name =>
      if !name.takesValue then ofCluster known (found ++ [(name, "")]) cs
      else if cs.isEmpty then .awaiting found name
      else .options (found ++ [(name, String.ofList cs)])

/-- Reads a long option, which may have a value after its first `=`. -/
def ofLong (known : List OptionName) (cs : List Char) : Argument :=
  let text := String.ofList (cs.takeWhile (· != '='))
  match known.find? (·.long == text), cs.dropWhile (· != '=') with
  | none, _ => .invalid
  | some name, _ :: value =>
    if name.takesValue then .options [(name, String.ofList value)] else .invalid
  | some name, [] => if name.takesValue then .awaiting [] name else .options [(name, "")]

def ofString (known : List OptionName) (arg : String) : Argument :=
  match arg.toList with
  | ['-', '-'] => .terminator
  | '-' :: '-' :: long => ofLong known long
  | '-' :: c :: cs => ofCluster known [] (c :: cs)
  | _ => .plain

end Argument

/-- Reads arguments. If `mixed`, options may follow other arguments; otherwise the first other
argument ends them. Answers nothing if an option is unknown, lacks its value or has one too many. -/
def readArgs (known : List OptionName) (mixed : Bool) : List String → Option ParsedArgs
  | [] => some {}
  | arg :: args =>
    match Argument.ofString known arg with
    | .terminator => some { rest := args }
    | .plain =>
      if mixed then (readArgs known mixed args).map fun p => { p with rest := arg :: p.rest }
      else some { rest := arg :: args }
    | .options found => (readArgs known mixed args).map (.push found)
    | .awaiting found name =>
      match args with
      | [] => none
      | value :: args => (readArgs known mixed args).map (.push (found ++ [(name, value)]))
    | .invalid => none

inductive CommandName where
  | compile
  | format
  | symbols
  | boards
deriving DecidableEq, Repr

namespace CommandName

def ofString? : String → Option CommandName
  | "compile" => some compile
  | "format" => some format
  | "symbols" => some symbols
  | "boards" => some boards
  | _ => none

/-- The options that a command knows. -/
def options : CommandName → List OptionName
  | compile => [.output, .board, .json]
  | format => [.write, .check]
  | symbols => [.board, .json]
  | boards => []

end CommandName

/-- A request to the tool, with its arguments as written. -/
inductive Request where
  | version
  | command (verbose : Bool) (name : CommandName) (args : ParsedArgs)
deriving DecidableEq, Repr

namespace Request

/-- The options that stand before the command. -/
def toolOptions : List OptionName := [.verbose, .version]

/-- Reads the whole command line. Asking for the version leaves the command unread. What stands in
the place of a command and is none may still be options, after a `--` too many: it is read once more
for that question. -/
def ofArgs? (args : List String) : Option Request := do
  let p ← readArgs toolOptions false args
  if p.has .version then return .version
  else
    match p.rest with
    | [] => none
    | text :: args =>
      match CommandName.ofString? text with
      | some name => return .command (p.has .verbose) name (← readArgs name.options true args)
      | none =>
        let q ← readArgs toolOptions false (text :: args)
        if q.has .version then return .version else none

end Request
end PlainSketch
