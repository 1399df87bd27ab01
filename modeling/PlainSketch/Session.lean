import PlainSketch.Problem
import PlainSketch.Symbol.Table
import PlainSketch.Fault

/-!
# Sessions

A session is what both passes over a script share: the symbols so far, the findings and the log.
A `Build` step changes the session and may stop with a fault; what it did before the fault stays.
-/
namespace PlainSketch

/-- What the log tells about a step of the work. -/
inductive Event where
  | started (file : String) (lines : Nat) (board : String)
  | pinDeclared (line : Int) (name target kind : String)
  | functionDeclared (line : Int) (name : String)
  | variableDeclared (line : Int) (name : String) (type : ValueType)
  | variableWidened (line : Int) (name : String) (before after : ValueType)
  | scanned (pins vars functions : Nat)
  | blockOpened (line : Int) (label : String) (depth : Nat)
  | blockClosed (line : Int) (label : String)
  | finished (file : String) (errors warnings : Nat)
deriving DecidableEq, Repr

namespace Event

/-- The part of the work that an event comes from. -/
def channel : Event → String
  | started .. | finished .. => "easyscript.aes.compiler"
  | blockOpened .. | blockClosed .. => "easyscript.aes.blocks"
  | _ => "easyscript.aes.symbols"

def message : Event → String
  | started file lines board => s!"compiling {file}: {lines} lines, board {board}"
  | pinDeclared line name target kind => s!"line {line}: pin '{name}' -> {target} ({kind})"
  | functionDeclared line name => s!"line {line}: function '{name}'"
  | variableDeclared line name type => s!"line {line}: variable '{name}' as {type.cName}"
  | variableWidened line name before after =>
    s!"line {line}: variable '{name}' widened {before.cName} -> {after.cName}"
  | scanned pins vars functions =>
    s!"symbol pass: {pins} pins, {vars} variables, {functions} functions"
  | blockOpened line label depth => s!"line {line}: open {label} (depth {depth})"
  | blockClosed line label => s!"line {line}: close {label}"
  | finished file errors warnings => s!"compiled {file}: {errors} errors, {warnings} warnings"

/-- The event as a line of the log. -/
def render (e : Event) : String := s!"{e.channel}: {e.message}\n"

end Event

structure Session where
  table : SymbolTable
  findings : List Finding := []
  log : List Event := []
deriving DecidableEq, Repr

abbrev Build := EStateM Fault Session

namespace Session

/-- A session before its first line. -/
def start (board : Board) (reserved : List String) : Session := { table := { board, reserved } }

/-- The findings in words. -/
def diagnostics (s : Session) : List Diagnostic := s.findings.map (·.diagnostic s.table.board)

end Session

namespace Build

def table : Build SymbolTable := return (← get).table

def setTable (t : SymbolTable) : Build Unit := modify fun s => { s with table := t }

def report (line : Int) (p : Problem) : Build Unit :=
  modify fun s => { s with findings := s.findings ++ [⟨line, p⟩] }

def log (e : Event) : Build Unit := modify fun s => { s with log := s.log ++ [e] }

/-- Reports a problem and answers no. -/
def refuse (line : Int) (p : Problem) : Build Bool := do
  report line p
  return false

/-- A value, or the fault in place of it. -/
def ofExcept {α : Type} : Except Fault α → Build α
  | .ok a => pure a
  | .error f => throw f

end Build
end PlainSketch
