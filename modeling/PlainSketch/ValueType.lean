import PlainSketch.Line.Literal
import PlainSketch.Text.Letter

/-!
# Types of variables

A script never spells out types. A variable gets the type of its first use and is widened along
`bool < int < long < unsigned long < float < String`.
-/
namespace PlainSketch

inductive ValueType where
  | bool
  | int
  | long
  | unsignedLong
  | float
  | string
deriving DecidableEq, Repr

namespace ValueType
open Line Text

/-- The place in the order of widening. -/
def rank : ValueType → Nat
  | bool => 1
  | int => 2
  | long => 3
  | unsignedLong => 4
  | float => 5
  | string => 6

/-- The type's name in a sketch. -/
def cName : ValueType → String
  | bool => "bool"
  | int => "int"
  | long => "long"
  | unsignedLong => "unsigned long"
  | float => "float"
  | string => "String"

/-- What a variable of the type is initialised to. -/
def zero : ValueType → String
  | bool => "false"
  | int => "0"
  | long => "0"
  | unsignedLong => "0UL"
  | float => "0.0"
  | string => "\"\""

def isString : ValueType → Bool
  | string => true
  | _ => false

/-- The wider of two types. -/
def widen (t u : ValueType) : ValueType := if t.rank < u.rank then u else t

/-- The type of a value, judged by its text alone. -/
def ofText (cs : List Char) : ValueType :=
  let value := trim cs
  if isStringLiteral value then string
  else if isWord "true" value || isWord "false" value then bool
  else if isFloatLiteral value then float
  else long

end ValueType
end PlainSketch
