import PlainSketch.Text.Blank
import PlainSketch.Text.Lines

/-!
# Indentation of a sketch

Lines are indented by the depth of the braces around them. A line that begins with a closing brace
already stands outside; a line that ends in an opening brace moves those after it inside.
-/
namespace PlainSketch.Indent
open Text

/-- A unit of indentation repeated; a depth below zero gives none. -/
def margin (unit : List Char) (depth : Int) : List Char :=
  (List.replicate depth.toNat unit).flatten

/-- The depth at which a line stands, given the depth it comes at. -/
def depthOf (line : List Char) (depth : Int) : Int :=
  if line.head? == some '\x7d' then max 0 (depth - 1) else depth

/-- The depth at which the next line comes, given the depth a line stands at. -/
def depthAfter (line : List Char) (depth : Int) : Int :=
  if line.getLast? == some '\x7b' then depth + 1 else depth

/-- Indents lines anew, whatever blanks they had around them. Empty lines stay empty. -/
def indentFrom (unit : List Char) (depth : Int) : List (List Char) → List (List Char)
  | [] => []
  | raw :: ls =>
    match trim raw with
    | [] => [] :: indentFrom unit depth ls
    | c :: cs =>
      let here := depthOf (c :: cs) depth
      (margin unit here ++ c :: cs) :: indentFrom unit (depthAfter (c :: cs) here) ls

/-- The indented lines as one text. -/
def render (lines : List String) (level : Int) (unit : String) : String :=
  String.ofList (joinLines (indentFrom unit.toList level (lines.map String.toList)))

end PlainSketch.Indent
