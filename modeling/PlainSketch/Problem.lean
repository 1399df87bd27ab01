import PlainSketch.Board
import PlainSketch.Diagnostic
import PlainSketch.ValueType

/-!
# Problems

Everything that can be wrong or doubtful in a script, by cause, and the words it is reported in.
The words may depend on the board; which problems are errors does not.
-/
namespace PlainSketch

inductive Problem where
  -- names of pins
  | invalidPinName
  | reservedPin (name : String)
  | pinIsVariable (name : String)
  | pinIsFunction (name : String)
  | pinRepeated (name : String)
  -- names of functions
  | invalidFunctionName
  | reservedFunction (name : String)
  | functionIsPin (name : String)
  | functionIsVariable (name : String)
  | functionRepeated (name : String)
  -- names of variables
  | reservedVariable (name : String)
  | variableIsPin (name : String)
  | variableIsFunction (name : String)
  | typeChanged (name : String) (before after : ValueType)
  -- pin operands
  | pinMissing
  | pinMissingAfterKeyword
  | unknownPin (text : String)
  | unresolvedPin (text : String)
  | unlistedAnalog (label : String)
  | pinOutOfRange (number : Int)
  -- pin declarations
  | pinInsideBlock
  | pinAssignmentInsideBlock
  | malformedPin
  -- statements
  | expressionMissing
  | conditionMissing
  | modeMissing
  | stateMissing
  | notAnalog
  | analogPwm (target : String)
  | pwmUnsupported (number : Int)
  | badRange (sample : String)
  | undefinedFunction (name : String)
  | unknownCommand (code : String)
  | commandOutsideBlock
  -- blocks
  | nestedFunction
  | nestedStructure (keyword : String)
  | controlOutsideBlock
  | negativeRepeat
  | otherwiseOutsideIf
  | otherwiseRepeated
  | endWithoutBlock
  | unknownBlock (code : String)
  | unclosedBlock (label : String) (line : Int)
  | setupMissing
  | loopMissing
deriving DecidableEq, Repr

namespace Problem

def severity : Problem → Severity
  | typeChanged .. | unlistedAnalog .. | pinOutOfRange .. | analogPwm .. | pwmUnsupported ..
  | undefinedFunction .. => .warning
  | _ => .error

/-- What may stand where a pin is expected. -/
def pinHint (b : Board) : String :=
  let analog := b.analogRange?.getD "an analog label"
  s!"Use {b.digitalRange} or {analog} (or a pin name)."

def message (b : Board) : Problem → String
  | invalidPinName => "Pin name must be a valid identifier (letters, numbers, underscore)."
  | reservedPin name => s!"\"{name}\" is reserved. Pick a different pin name."
  | pinIsVariable name =>
    s!"\"{name}\" is already a variable. Pins and variables need different names."
  | pinIsFunction name =>
    s!"\"{name}\" is already a function. Pins and functions need different names."
  | pinRepeated name => s!"Pin \"{name}\" is already defined."
  | invalidFunctionName => "Function name must be a valid identifier."
  | reservedFunction name => s!"\"{name}\" is reserved. Pick a different function name."
  | functionIsPin name => s!"\"{name}\" is a pin name. Use a different function name."
  | functionIsVariable name => s!"\"{name}\" is a variable name. Use a different function name."
  | functionRepeated name => s!"Function \"{name}\" already exists."
  | reservedVariable name => s!"\"{name}\" is reserved. Pick a different name."
  | variableIsPin name => s!"\"{name}\" is a pin name. Use a different variable name."
  | variableIsFunction name => s!"\"{name}\" is a function name. Use a different variable name."
  | typeChanged name before after =>
    s!"Variable \"{name}\" changes type ({before.cName} ↔ {after.cName}). " ++
      "Arduino C++ might not like that."
  | pinMissing => s!"Expected a pin here. {pinHint b}"
  | pinMissingAfterKeyword => "Expected a pin after \"pin\". Example: pin 13"
  | unknownPin text => s!"I don't recognize pin \"{text}\". {pinHint b}"
  | unresolvedPin text =>
    s!"\"{text}\" is an unresolved pin reference. " ++
      "Expected a pin (a number, an analog label, or a declared pin name)."
  | unlistedAnalog label => s!"{label} isn't in the default {b.displayName} analog list."
  | pinOutOfRange number =>
    s!"Pin {number} is outside the default {b.displayName} range ({b.digitalRange})."
  | pinInsideBlock => "Pin declarations must be outside setup:/loop:/function blocks."
  | pinAssignmentInsideBlock =>
    "Pin assignments must be outside setup:/loop:/function blocks. Use pin NAME is VALUE."
  | malformedPin => "Pin declarations look like \"pin NAME is VALUE\". Example: pin led is 13"
  | expressionMissing => "Expression is missing."
  | conditionMissing => "Condition is missing. Example: if button is 0 do:"
  | modeMissing => "make needs a mode: output, input, or input pullup."
  | stateMissing => "turn needs \"on\" or \"off\"."
  | notAnalog =>
    match b.analogRange? with
    | some range => s!"read analog expects {range} (or a pin name set to one of them)."
    | none => s!"read analog needs an analog pin, and the {b.displayName} profile has none."
  | analogPwm target =>
    s!"{target} can't do PWM on the {b.displayName}; use a PWM-capable digital pin."
  | pwmUnsupported number =>
    let pins := b.pwmText?.getD "none"
    s!"Pin {number} can't do PWM on the {b.displayName} (PWM pins: {pins}). " ++
      "It will only switch fully on or off."
  | badRange sample => s!"Bad range. Use like {sample}"
  | undefinedFunction name =>
    s!"Function \"{name}\" isn't defined (yet). Did you mean to write \"function {name}:\"?"
  | unknownCommand code => s!"Unknown command: \"{code}\""
  | commandOutsideBlock => "Commands must be inside setup:, loop:, or function blocks."
  | nestedFunction => "Functions must be top-level (not inside setup/loop)."
  | nestedStructure keyword => s!"{keyword}: can't be inside another block."
  | controlOutsideBlock => "Start with setup: and loop: blocks."
  | negativeRepeat => "repeat count must be a non-negative number."
  | otherwiseOutsideIf => "otherwise do: must be inside an if block."
  | otherwiseRepeated => "This if already has an otherwise block."
  | endWithoutBlock => "Found \"end\" but there is no open block."
  | unknownBlock code =>
    s!"\"{code}\" is not a block I know. Blocks look like " ++
      "\"if CONDITION do:\", \"repeat N times do:\" or \"every N ms do:\"."
  | unclosedBlock label line =>
    s!"Unclosed block \"{label}\" (opened on line {line}). Add an \"end\"."
  | setupMissing => "Missing \"setup:\" block."
  | loopMissing => "Missing \"loop:\" block."

end Problem

/-- A problem found on a line. -/
structure Finding where
  line : Int
  problem : Problem
deriving DecidableEq, Repr

namespace Finding

def isError (f : Finding) : Bool := f.problem.severity == .error

/-- The finding in words. -/
def diagnostic (b : Board) (f : Finding) : Diagnostic :=
  ⟨f.problem.severity, f.line, f.problem.message b, 1⟩

end Finding
end PlainSketch
