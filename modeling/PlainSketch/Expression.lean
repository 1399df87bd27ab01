import PlainSketch.Line.Words
import PlainSketch.Phrase
import PlainSketch.Symbol.Declare

/-!
# Expressions

Values and conditions go into the sketch as they are written, conditions with their phrases
replaced. All that is looked at is the names they use: each becomes known to the symbol table.
-/
namespace PlainSketch

namespace Expression
open Line Text

/-- The names in a text: ASCII words that do not go on another word. `inWord` says that the text
goes on a word. -/
def namesFrom (inWord : Bool) : List Char → List (List Char)
  | [] => []
  | c :: cs =>
    if !inWord && isNameHead c then
      (c :: cs.takeWhile isNameChar) :: namesFrom (isWordChar c) cs
    else namesFrom (isWordChar c) cs

/-- The names that an expression uses, once each and in order. What stands in quotes, reserved words
and analog labels are no names. -/
def names (reserved : List String) (cs : List Char) : List String :=
  ((namesFrom false (hollow cs)).filterMap fun w =>
    if reserved.contains (String.ofList w) || isAnalogLiteral w then none
    else some (String.ofList w)).eraseDups

end Expression

namespace Build
open Text

/-- Records a plain mention of each name. -/
def mentionAll (line : Int) : List String → Build Unit
  | [] => return ()
  | n :: ns => do
    let _ ← mention n line
    mentionAll line ns

/-- Records the names that a text uses. -/
def useNames (cs : List Char) (line : Int) : Build Unit := do
  let t ← table
  mentionAll line (Expression.names t.reserved cs)

/-- Takes a value: answers its text for the sketch, unless it is missing. -/
def expression (cs : List Char) (line : Int) : Build (Option (List Char)) := do
  match trim cs with
  | [] =>
    report line .expressionMissing
    return none
  | c :: r =>
    useNames (c :: r) line
    return some (c :: r)

/-- Takes a condition: answers the test for the sketch, unless it is missing. -/
def condition (cs : List Char) (line : Int) : Build (Option (List Char)) := do
  match trim cs with
  | [] =>
    report line .conditionMissing
    return none
  | c :: r =>
    let test := Phrase.replaceAll (c :: r)
    useNames test line
    return some test

end Build
end PlainSketch
