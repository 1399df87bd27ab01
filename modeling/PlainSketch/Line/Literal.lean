import PlainSketch.Text.Blank
import PlainSketch.Text.Numeral
import PlainSketch.Text.Quoted

/-!
# Literals

What a piece of a line is: a name, a number, an analog label, a string, a range. All but the test
for a name disregard blanks around the piece.
-/
namespace PlainSketch.Line
open Text

/-- May begin a declared name. -/
def isNameHead (c : Char) : Bool := c.isAlpha || c == '_'

/-- May go on in a declared name. -/
def isNameChar (c : Char) : Bool := c.isAlphanum || c == '_'

/-- An ASCII letter or underscore, then letters, digits and underscores; one final line feed is
allowed. -/
def isIdentifier : List Char → Bool
  | [] => false
  | c :: cs =>
    let after := cs.dropWhile isNameChar
    isNameHead c && (after == [] || after == ['\n'])

/-- A whole number such as `13` or `-1`. -/
def isIntLiteral (cs : List Char) : Bool := isInteger (trim cs)

/-- The text splits at its first point into what `p` and `q` accept. -/
def splitsAtPoint (p q : List Char → Bool) (cs : List Char) : Bool :=
  match cs.dropWhile (· != '.') with
  | _ :: r => p (cs.takeWhile (· != '.')) && q r
  | [] => false

/-- A number with a point, such as `1.5`, with digits on both sides. -/
def isFloatLiteral (cs : List Char) : Bool := splitsAtPoint isInteger isNatural (trim cs)

/-- The upper-case form of an analog label such as `A0` or `a5`, of whatever number. -/
def analogLabel? (cs : List Char) : Option (List Char) :=
  match trim cs with
  | c :: ds => if (c == 'A' || c == 'a') && isNatural ds then some ('A' :: ds) else none
  | [] => none

/-- An analog label. -/
def isAnalogLiteral (cs : List Char) : Bool := (analogLabel? cs).isSome

/-- One quoted literal and nothing else. -/
def isStringLiteral (cs : List Char) : Bool :=
  match quoted? (trim cs) with
  | some r => r.2.isEmpty
  | none => false

/-- The two numerals of an inclusive range such as `0..1023`. -/
def rangeParts? (cs : List Char) : Option (List Char × List Char) :=
  let low := (trim cs).takeWhile (· != '.')
  match (trim cs).dropWhile (· != '.') with
  | '.' :: '.' :: high => if isInteger low && isInteger high then some (low, high) else none
  | _ => none

/-- Reads an inclusive range, low bound first. -/
def readRange (cs : List Char) : Except Fault (Option (Int × Int)) :=
  match rangeParts? cs with
  | none => .ok none
  | some (low, high) => do
    let l ← readInteger low
    let h ← readInteger high
    return some (l, h)

end PlainSketch.Line
