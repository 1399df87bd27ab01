import PlainSketch.Block.Assembly
import PlainSketch.Reserved
import PlainSketch.Symbol.Outline

/-!
# Compiling a script

A script goes through two passes over the same lines: the outline finds its symbols, the assembly
writes the sketch and adds to the symbols. There is a sketch whatever was found; only a fault leaves
none.
-/
namespace PlainSketch

/-- The version that a sketch names. -/
def version : String := "2.0.0"

structure Options where
  board : Board := .uno
  reserved : List String := reservedWords
  /-- One step of indentation in the sketch. -/
  indent : String := "  "
deriving DecidableEq, Repr

/-- The lines of a script. -/
def sourceLines (source : String) : List (List Char) :=
  Text.splitLines (Text.joinReturns source.toList)

/-- The result of compiling a script. -/
structure Compilation where
  code : String
  findings : List Finding
  table : SymbolTable
  file : String
  lines : List (List Char)
deriving DecidableEq, Repr

namespace Compilation

def diagnostics (c : Compilation) : List Diagnostic := c.findings.map (·.diagnostic c.table.board)

def errors (c : Compilation) : Nat := c.findings.countP (·.isError)

def warnings (c : Compilation) : Nat := c.findings.length - c.errors

/-- No errors; warnings may be. -/
def success (c : Compilation) : Bool := !c.findings.any (·.isError)

/-- All findings with the lines they are about. -/
def report (c : Compilation) : String :=
  Diagnostic.report c.diagnostics c.file (c.lines.map String.ofList)

end Compilation

/-- A result or a fault, and the log up to there. -/
structure Logged (α : Type) where
  log : List Event
  result : Except Fault α

/-- The first pass alone: the symbols and what was found. -/
def analyze (o : Options) (source : String) : Logged Session :=
  match Build.outline (sourceLines source) (.start o.board o.reserved) with
  | .ok _ s => ⟨s.log, .ok s⟩
  | .error f s => ⟨s.log, .error f⟩

/-- Both passes over the lines of a script. -/
def assemble (lines : List (List Char)) : Assemble Unit := do
  Assemble.build (Build.outline lines)
  Assemble.run lines

/-- The sketch that the second pass has come to. -/
def Assembly.code (a : Assembly) (indent : String) : String :=
  (a.sketch.map Instr.text).render a.session.table version indent

/-- Compiles a script. -/
def compile (o : Options) (source file : String) : Logged Compilation :=
  let lines := sourceLines source
  let started := Event.started file lines.length o.board.name
  match assemble lines { session := .start o.board o.reserved } with
  | .ok _ a =>
    let c : Compilation :=
      ⟨a.code o.indent, a.session.findings, a.session.table, file, lines⟩
    ⟨started :: a.session.log ++ [.finished file c.errors c.warnings], .ok c⟩
  | .error f a => ⟨started :: a.session.log, .error f⟩

end PlainSketch
