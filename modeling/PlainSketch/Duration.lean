import PlainSketch.Text.Letter
import PlainSketch.Text.Numeral

/-!
# Durations

Amounts of time as scripts write them. A pause knows its unit by the whole word; a timer only looks
at the first letter and takes everything but seconds for milliseconds.
-/
namespace PlainSketch

inductive TimeUnit where
  | micro
  | milli
  | second
deriving DecidableEq, Repr

namespace TimeUnit
open Text

/-- The unit with the given name, in any ASCII case. -/
def ofName? (cs : List Char) : Option TimeUnit :=
  if ["us", "microsecond", "microseconds"].any (isWord · cs) then some micro
  else if ["ms", "millisecond", "milliseconds"].any (isWord · cs) then some milli
  else if ["s", "second", "seconds"].any (isWord · cs) then some second
  else none

/-- The unit of a pause. A spelling that matches a keyword only through a letter outside ASCII has
no unit. -/
def read (cs : List Char) : Except Fault TimeUnit :=
  match ofName? cs with
  | some u => .ok u
  | none => .error (.unknownUnit (String.ofList (cs.flatMap lowerLetter)))

end TimeUnit

open Text in
/-- The milliseconds of a timer. -/
def timerMillis (amount unit : List Char) : Except Fault Int := do
  let n ← readNatural amount
  match unit with
  | c :: _ => if c.toLower == 's' then return n * 1000 else return n
  | [] => return n

end PlainSketch
