import PlainSketch.Text.Blank

/-!
# Diagnostics and reports

A diagnostic is what is told about a place of a script. Lines and columns are any integers: only
those inside the script get their source line shown.
-/
namespace PlainSketch

inductive Severity where
  | error
  | warning
deriving DecidableEq, Repr

def Severity.name : Severity → String
  | error => "error"
  | warning => "warning"

structure Diagnostic where
  severity : Severity
  line : Int
  message : String
  column : Int := 1
deriving DecidableEq, Repr

/-- A place, as `file:line:column`. -/
def location (file : String) (line column : Int) : String := s!"{file}:{line}:{column}"

namespace Diagnostic

def isError (d : Diagnostic) : Bool := d.severity == .error

/-- The diagnostic with its place, the source line if there is one, and a caret under the column if
that lies in the line. -/
def render (d : Diagnostic) (file : String) (source? : Option String) : String :=
  let place := location file d.line d.column
  let head := s!"{place}: {d.severity.name}: {d.message}"
  match source? with
  | none => head
  | some source =>
    let quoted := head ++ "\n    " ++ source
    if 0 < d.column then
      quoted ++ "\n" ++ String.ofList (List.replicate (3 + d.column.toNat) ' ') ++ "^"
    else quoted

/-- The line of the script that a diagnostic is about, without trailing blanks. -/
def sourceLine? (lines : List String) (line : Int) : Option String :=
  if line < 1 then none
  else (lines[line.toNat - 1]?).map fun l => String.ofList (Text.trimRight l.toList)

/-- Diagnostics in the order of their lines; those of one line keep their order. -/
def sorted (ds : List Diagnostic) : List Diagnostic := ds.mergeSort fun d e => d.line ≤ e.line

/-- A count with its noun. -/
def counted (n : Nat) (noun : String) : String :=
  if n == 1 then s!"{n} {noun}" else s!"{n} {noun}s"

/-- How many errors and warnings there are. -/
def summary (ds : List Diagnostic) : String :=
  let errors := ds.countP isError
  counted errors "error" ++ ", " ++ counted (ds.length - errors) "warning"

/-- All diagnostics by line, with the lines they are about, and the summary. -/
def report (ds : List Diagnostic) (file : String) (lines : List String) : String :=
  let entries := (sorted ds).map fun d => d.render file (sourceLine? lines d.line)
  "\n".intercalate (entries ++ [summary ds])

end Diagnostic
end PlainSketch
