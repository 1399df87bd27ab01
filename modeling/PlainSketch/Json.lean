import PlainSketch.Program

/-!
# JSON

Results as JSON for other tools: one member a line, two spaces a level, ASCII only.
-/
namespace PlainSketch

/-- The JSON values that results are made of. -/
inductive Json where
  | str (s : String)
  | int (n : Int)
  | arr (xs : List Json)
  | obj (members : List (String × Json))

namespace Json
open Text

/-- A character beyond the basic plane takes two escapes, one for each half. -/
def escapeCode (n : Nat) : String :=
  if n < 0x10000 then "\\u" ++ hex 4 n
  else
    let m := n - 0x10000
    "\\u" ++ hex 4 (0xD800 + m / 0x400) ++ "\\u" ++ hex 4 (0xDC00 + m % 0x400)

/-- A character inside a JSON string. -/
def escapeChar (c : Char) : String :=
  if c == '"' then "\\\""
  else if c == '\\' then "\\\\"
  else if c == '\n' then "\\n"
  else if c == '\r' then "\\r"
  else if c == '\t' then "\\t"
  else if c == '\x0c' then "\\f"
  else if c == '\x08' then "\\b"
  else if 0x20 ≤ c.toNat && c.toNat < 0x7F then c.toString
  else escapeCode c.toNat

/-- A JSON string. -/
def quote (s : String) : String := "\"" ++ String.join (s.toList.map escapeChar) ++ "\""

/-- The start of a line at a level. -/
def lineStart (level : Nat) : String := "\n" ++ String.ofList (List.replicate (2 * level) ' ')

/-- Items between brackets, each on a line of its own. -/
def enclose (left right : String) (level : Nat) (items : List String) : String :=
  if items.isEmpty then left ++ right
  else
    let start := lineStart (level + 1)
    left ++ start ++ ("," ++ start).intercalate items ++ lineStart level ++ right

mutual

/-- The text of a value that stands at a level. -/
def renderAt (level : Nat) : Json → String
  | str s => quote s
  | int n => toString n
  | arr xs => enclose "[" "]" level (renderItems (level + 1) xs)
  | obj members => enclose "\x7b" "\x7d" level (renderMembers (level + 1) members)

def renderItems (level : Nat) : List Json → List String
  | [] => []
  | x :: xs => renderAt level x :: renderItems level xs

def renderMembers (level : Nat) : List (String × Json) → List String
  | [] => []
  | (key, value) :: ms => (quote key ++ ": " ++ renderAt level value) :: renderMembers level ms

end

/-- The text of a value. -/
def render (j : Json) : String := j.renderAt 0

def ofDiagnostic (d : Diagnostic) : Json :=
  obj [("line", int d.line), ("column", int d.column), ("severity", str d.severity.name),
    ("message", str d.message)]

def ofPin (p : Pin) : Json :=
  obj [("cpp", str p.target.text), ("raw", str p.raw), ("kind", str p.kind.name),
    ("line", int p.line)]

def ofVariable (v : Variable) : Json := obj [("type", str v.type.cName), ("line", int v.line)]

def ofTable (t : SymbolTable) : Json :=
  obj [("pins", obj (t.pins.map fun p => (p.name, ofPin p))),
    ("vars", obj (t.vars.map fun v => (v.name, ofVariable v))),
    ("funcs", obj (t.functions.map fun f => (f.name, obj [("line", int f.line)])))]

def ofCompilation (c : Compilation) : Json :=
  obj [("code", str c.code), ("diagnostics", arr (c.diagnostics.map ofDiagnostic)),
    ("symbols", ofTable c.table)]

def ofAnalysis (s : Session) : Json :=
  obj [("symbols", ofTable s.table), ("diagnostics", arr (s.diagnostics.map ofDiagnostic))]

end Json
end PlainSketch
