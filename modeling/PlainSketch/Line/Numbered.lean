import PlainSketch.Line.Comment
import PlainSketch.Text.Blank

/-!
# Numbered lines

What both passes read of a script: the lines with code, each with its number.
-/
namespace PlainSketch.Line
open Text

/-- The code of a line, trimmed. -/
def trimmedCode (line : List Char) : List Char := trim (code line)

/-- The lines that have code, trimmed and numbered, counting from `n`. -/
def numberedFrom (n : Int) : List (List Char) → List (Int × List Char)
  | [] => []
  | l :: ls =>
    match trimmedCode l with
    | [] => numberedFrom (n + 1) ls
    | c :: cs => (n, c :: cs) :: numberedFrom (n + 1) ls

/-- The lines that have code, trimmed and numbered from one. -/
def numbered (lines : List (List Char)) : List (Int × List Char) := numberedFrom 1 lines

end PlainSketch.Line
