/-!
# Open blocks
-/
namespace PlainSketch

inductive BlockKind where
  | setup
  | loop
  | function
  | ifDo
  | repeatTimes
  | forever
  | whileDo
  | every
  | after
deriving DecidableEq, Repr

namespace BlockKind

def name : BlockKind → String
  | setup => "setup"
  | loop => "loop"
  | function => "function"
  | ifDo => "if"
  | repeatTimes => "repeat"
  | forever => "forever"
  | whileDo => "while"
  | every => "every"
  | after => "after"

/-- Selects the body that code goes to. -/
def isStructural : BlockKind → Bool
  | setup | loop | function => true
  | _ => false

end BlockKind

/-- A block whose `end` has not come yet. -/
structure Frame where
  kind : BlockKind
  line : Int
  /-- The name of a function. -/
  name : Option String := none
  /-- False if the line that opened it was refused and wrote nothing. -/
  opened : Bool := true
  /-- An `if` that has its `otherwise`. -/
  hasAlternate : Bool := false
deriving DecidableEq, Repr

namespace Frame

/-- What messages call the block. -/
def label (f : Frame) : String :=
  match f.kind, f.name with
  | .function, some name => if name.isEmpty then "function" else s!"function {name}"
  | kind, _ => kind.name

def isStructural (f : Frame) : Bool := f.kind.isStructural

end Frame
end PlainSketch
