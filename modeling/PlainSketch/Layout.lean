import PlainSketch.Declaration
import PlainSketch.Line.Comment
import PlainSketch.Line.Words
import PlainSketch.Text.Lines

/-!
# Layout of a script

Re-indents a script without judging it: two spaces for each open block, single spaces outside
strings, comments two spaces after their code, and one line feed at the end.
-/
namespace PlainSketch.Layout
open Text Line Declaration

/-- The line opens a block. -/
def opensBlock (code : List Char) : Bool := (trim code).getLast? == some ':'

/-- The line stands one step outside the block it is in. -/
def standsOutside (code : List Char) : Bool :=
  isWord "end" (trim code) || isOtherwise (trim code)

/-- The depth at which a line of code stands. -/
def levelOf (code : List Char) (depth : Nat) : Nat := if standsOutside code then depth - 1 else depth

/-- The depth after a line of code. -/
def depthAfter (code : List Char) (depth : Nat) : Nat :=
  if isWord "end" code then depth - 1
  else if isOtherwise code then depth - 1 + 1
  else if opensBlock code then depth + 1
  else depth

/-- A line laid out at its level. -/
def layLine (level : Nat) (code comment : List Char) : List Char :=
  let margin := List.replicate (2 * level) ' '
  match code, comment with
  | [], [] => []
  | [], comment => margin ++ comment
  | code, [] => margin ++ code
  | code, comment => margin ++ code ++ ' ' :: ' ' :: comment

/-- Lays out the lines of a script, the first one coming at the given depth. -/
def layLines (depth : Nat) : List (List Char) → List (List Char)
  | [] => []
  | raw :: ls =>
    let parts := splitComment raw
    let code := collapse parts.1
    let comment := trim parts.2
    layLine (levelOf code depth) code comment :: layLines (depthAfter code depth) ls

/-- Lays out a script. -/
def reformat (source : List Char) : List Char :=
  trimRight (joinLines (layLines 0 (splitLines (joinReturns source)))) ++ ['\n']

end PlainSketch.Layout
