import PlainSketch.Text.Blank
import PlainSketch.Text.Letter
import PlainSketch.Text.UpperCase

/-!
# Boards

What a board has to say on pins: which digital numbers exist, which analog labels, and which pins
can do PWM. A board never decides how a script is compiled, only what is reported about it.
-/
namespace PlainSketch

structure Board where
  name : String
  digitalMin : Int
  digitalMax : Int
  /-- Labels of the analog inputs, in order. -/
  analogPins : List String
  /-- Digital pins that support PWM, in any order. -/
  pwmPins : List Int
deriving DecidableEq, Repr

namespace Board
open Text

/-- The board's name in messages. -/
def displayName (b : Board) : String := String.ofList (upper b.name.toList)

/-- The digital pin exists. -/
def hasDigital (b : Board) (n : Int) : Bool := b.digitalMin ≤ n && n ≤ b.digitalMax

/-- The analog label, in any case, exists. -/
def hasAnalog (b : Board) (label : String) : Bool :=
  b.analogPins.contains (String.ofList (upper label.toList))

/-- The digital pin supports PWM. -/
def hasPwm (b : Board) (n : Int) : Bool := b.pwmPins.contains n

/-- The digital pins, as `0..13`. -/
def digitalRange (b : Board) : String := s!"{b.digitalMin}..{b.digitalMax}"

/-- The analog labels, as `A0..A5`. -/
def analogRange? (b : Board) : Option String :=
  match b.analogPins.head?, b.analogPins.getLast? with
  | some lo, some hi => some s!"{lo}..{hi}"
  | _, _ => none

/-- The PWM pins once each, in increasing order. -/
def sortedPwm (b : Board) : List Int := b.pwmPins.eraseDups.mergeSort fun m n => m ≤ n

/-- The PWM pins as a list in words. -/
def pwmText? (b : Board) : Option String :=
  if b.pwmPins.isEmpty then none else some (", ".intercalate (b.sortedPwm.map toString))

/-- The labels `A0`, `A1`, …, as many as there are inputs. -/
def analogLabels (count : Nat) : List String := (List.range count).map fun i => s!"A{i}"

def uno : Board := ⟨"uno", 0, 13, analogLabels 6, [3, 5, 6, 9, 10, 11]⟩

def nano : Board := ⟨"nano", 0, 13, analogLabels 8, [3, 5, 6, 9, 10, 11]⟩

def mega : Board :=
  ⟨"mega", 0, 53, analogLabels 16, [2, 3, 4, 5, 6, 7, 8, 9, 10, 11, 12, 13, 44, 45, 46]⟩

/-- The known boards, by name. -/
def all : List Board := [mega, nano, uno]

/-- Looks a board up by its name, in any case and disregarding blanks around it. -/
def find? (name : String) : Option Board :=
  all.find? fun b => isWord b.name (trim name.toList)

/-- What is said of a name that no board has. -/
def unknownMessage (name : String) (available : List String) : String :=
  if available.isEmpty then s!"unknown board '{name}'"
  else
    let names := ", ".intercalate available
    s!"unknown board '{name}' (choose from: {names})"

end Board
end PlainSketch
