import PlainSketch.Sketch.Indent
import PlainSketch.Symbol.Table

/-!
# Sketches

A sketch is made of bodies: those of `setup`, `loop` and the script's functions. Together with the
symbols it is written out as one file.
-/
namespace PlainSketch

/-- The bodies of a sketch, functions in the order of their declaration. -/
structure Sketch (α : Type) where
  setup : List α := []
  loop : List α := []
  functions : List (String × List α) := []
deriving DecidableEq, Repr

namespace Sketch
variable {α β : Type}

def map (f : α → β) (s : Sketch α) : Sketch β :=
  ⟨s.setup.map f, s.loop.map f, s.functions.map fun b => (b.1, b.2.map f)⟩

def addSetup (s : Sketch α) (ls : List α) : Sketch α := { s with setup := s.setup ++ ls }

def addLoop (s : Sketch α) (ls : List α) : Sketch α := { s with loop := s.loop ++ ls }

/-- Adds an empty body for a function, unless it has one. -/
def withFunction (s : Sketch α) (name : String) : Sketch α :=
  if s.functions.any (·.1 == name) then s
  else { s with functions := s.functions ++ [(name, [])] }

/-- Adds lines to the body of a function. -/
def addFunction (s : Sketch α) (name : String) (ls : List α) : Sketch α :=
  { s with functions := s.functions.map fun b => if b.1 == name then (b.1, b.2 ++ ls) else b }

/-- A function of the sketch, with its body indented. -/
def renderFunction (name : String) (body : List String) (unit : String) : String :=
  if body.isEmpty then s!"void {name}() \x7b\n\x7d"
  else
    let lines := Indent.render body 1 unit
    s!"void {name}() \x7b\n{lines}\n\x7d"

/-- The lines at the top of a sketch. -/
def banner (board : Board) (version : String) : String :=
  s!"// Generated by Arduino EasyScript (AES) v{version}\n// Board: {board.displayName}\n" ++
    "// This file uses ONLY Arduino core functions (no external libraries)."

/-- Lines that belong together, unless there are none. -/
def paragraph (lines : List String) : List String :=
  if lines.isEmpty then [] else ["\n".intercalate lines]

/-- What follows the banner: prototypes, pins, variables, functions, `setup` and `loop`. -/
def sections (s : Sketch String) (t : SymbolTable) (unit : String) : List String :=
  paragraph (s.functions.map fun f => s!"void {f.1}();")
    ++ paragraph (t.pins.map fun p => s!"const int {p.name} = {p.target.text};")
    ++ paragraph (t.vars.map fun v => s!"{v.type.cName} {v.name} = {v.type.zero};")
    ++ s.functions.map (fun f => renderFunction f.1 f.2 unit)
    ++ [renderFunction "setup" s.setup unit, renderFunction "loop" s.loop unit]

/-- The whole file, with an empty line between its sections. -/
def render (s : Sketch String) (t : SymbolTable) (version unit : String) : String :=
  "\n\n".intercalate (banner t.board version :: s.sections t unit) ++ "\n"

end Sketch
end PlainSketch
