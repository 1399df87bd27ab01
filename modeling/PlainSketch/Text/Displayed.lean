import PlainSketch.Text.Hex
import PlainSketch.Text.Printable

/-!
# Names shown inside messages

A name is shown between single quotes, or between double quotes when it holds a single quote and
no double one. What would break the line or has no visible form is written as an escape.
-/
namespace PlainSketch.Text

/-- One character of a name shown between the quotes `q`. -/
def displayChar (q c : Char) : String :=
  if c == q || c == '\\' then String.ofList ['\\', c]
  else if c == '\t' then "\\t"
  else if c == '\n' then "\\n"
  else if c == '\r' then "\\r"
  else if isPrintable c then c.toString
  else if c.toNat < 0x100 then "\\x" ++ hex 2 c.toNat
  else if c.toNat < 0x10000 then "\\u" ++ hex 4 c.toNat
  else "\\U" ++ hex 8 c.toNat

/-- The quotes a name is shown between. -/
def displayQuote (s : String) : Char :=
  if s.toList.contains '\x27' && !s.toList.contains '"' then '"' else '\x27'

/-- A name as messages show it. -/
def display (s : String) : String :=
  let q := displayQuote s
  q.toString ++ String.join (s.toList.map (displayChar q)) ++ q.toString

end PlainSketch.Text
