import PlainSketch.Duration
import PlainSketch.Expression
import PlainSketch.Sketch.Instr
import PlainSketch.Statement.Basic

/-!
# Compiling statements

What a statement becomes in the sketch. A statement whose operands are not in order becomes nothing
and is reported instead.
-/
namespace PlainSketch.Build
open Line Text

/-- The pin at the start of a text, and the words after it. -/
def pinOperand (cs : List Char) (line : Int) : Build (Option (PinRef × List (List Char))) := do
  let ws := words cs
  match ← resolvePin ws line with
  | none => return none
  | some ref => return some (ref, ws.drop ref.consumed)

/-- Takes the variable that a line writes to. A variable known already keeps its type. -/
def writeTarget (name : String) (type : ValueType) (line : Int) : Build Bool := do
  if (← table).isVariable name then return true
  else observeVariable name type line

/-- Words with single spaces between them. -/
def joinWords (ws : List (List Char)) : List Char := [' '].intercalate ws

/-- The mode that some words name. -/
def pinMode? (ws : List (List Char)) : Option PinMode :=
  let text := joinWords ws
  if isWord "output" text then some .output
  else if isWord "input" text then some .input
  else if ["input pullup", "input_pullup", "input with pullup"].any (isWord · text) then
    some .inputPullup
  else none

/-- The level that some words name. -/
def level? (ws : List (List Char)) : Option Bool :=
  let text := joinWords ws
  if isWord "on" text then some true else if isWord "off" text then some false else none

def compilePinMode (operands : List Char) (line : Int) : Build (List Instr) := do
  let some (ref, ws) ← pinOperand operands line | return []
  match pinMode? ws with
  | some mode => return [.pinMode ref.target mode]
  | none =>
    report line .modeMissing
    return []

def compileDigitalWrite (operands : List Char) (line : Int) : Build (List Instr) := do
  let some (ref, ws) ← pinOperand operands line | return []
  match level? ws with
  | some high => return [.digitalWrite ref.target high]
  | none =>
    report line .stateMissing
    return []

/-- Warns of a pin that cannot do PWM. -/
def checkPwm (ref : PinRef) (line : Int) : Build Unit := do
  match ref.kind, ref.number with
  | .analog, _ => report line (.analogPwm ref.target.text)
  | .digital, some n =>
    if !(← table).board.hasPwm n then report line (.pwmUnsupported n)
  | .digital, none => return ()

def compilePwmWrite (pin value : List Char) (line : Int) : Build (List Instr) := do
  let some (ref, _) ← pinOperand pin line | return []
  let some value ← expression value line | return []
  checkPwm ref line
  return [.analogWrite ref.target value]

def compileReadAnalog (pin : List Char) (name : String) (line : Int) : Build (List Instr) := do
  if !(← writeTarget name .int line) then return []
  else
    let some (ref, _) ← pinOperand pin line | return []
    match ref.kind with
    | .analog => return [.readAnalog name ref.target]
    | .digital =>
      report line .notAnalog
      return []

def compileReadDigital (pin : List Char) (name : String) (line : Int) : Build (List Instr) := do
  if !(← writeTarget name .int line) then return []
  else
    let some (ref, _) ← pinOperand pin line | return []
    return [.readDigital name ref.target]

/-- A pause. The amount is read before the unit is looked up. -/
def compileWait (amount unit : List Char) : Build (List Instr) := do
  let n ← ofExcept (readNatural amount)
  match ← ofExcept (TimeUnit.read unit) with
  | .micro => return [.delayMicros n]
  | .milli => return [.delay n]
  | .second => return [.delay (← ofExcept (writable (n * 1000)))]

def compileAssign (name : String) (value : List Char) (line : Int) : Build (List Instr) := do
  let value := trim value
  if !(← writeTarget name (.ofText value) line) then return []
  else if isStringLiteral value then return [.assign name value]
  else
    let some value ← expression value line | return []
    return [.assign name value]

def compileChange (name : String) (value : List Char) (line : Int) : Build (List Instr) := do
  let some value ← expression value line | return []
  if ← observeVariable name .long line then return [.increase name value] else return []

def compileMap (source : String) (fromRange toRange : List Char) (name : String) (line : Int) :
    Build (List Instr) := do
  let from? ← ofExcept (readRange fromRange)
  let to? ← ofExcept (readRange toRange)
  match from?, to? with
  | some (fromLow, fromHigh), some (toLow, toHigh) =>
    let sourceOk ← observeVariable source .long line
    let nameOk ← observeVariable name .long line
    if sourceOk && nameOk then
      return [.rescale name source fromLow fromHigh toLow toHigh]
    else return []
  | _, _ =>
    report line (.badRange "0..1023")
    return []

def compileLimit (name : String) (range : List Char) (line : Int) : Build (List Instr) := do
  match ← ofExcept (readRange range) with
  | none =>
    report line (.badRange "0..255")
    return []
  | some (low, high) =>
    if ← observeVariable name .long line then
      return [.clampLow name low, .clampHigh name high]
    else return []

/-- A random number of a range, whose bounds may come in either order. The sketch excludes the upper
bound it is given. -/
def compileRandom (range : List Char) (name : String) (line : Int) : Build (List Instr) := do
  match ← ofExcept (readRange range) with
  | none =>
    report line (.badRange "1..6")
    return []
  | some (a, b) =>
    if ← observeVariable name .long line then
      return [.random name (min a b) (← ofExcept (writable (max a b + 1)))]
    else return []

def compileTone (frequency pin : List Char) (line : Int) : Build (List Instr) := do
  let some frequency ← expression frequency line | return []
  let some (ref, _) ← pinOperand pin line | return []
  return [.tone ref.target frequency]

def compileCall (name : String) (line : Int) : Build (List Instr) := do
  if !(← table).isFunction name then report line (.undefinedFunction name)
  return [.call name]

/-- The lines of the sketch that a statement becomes. -/
def statement (line : Int) : Statement → Build (List Instr)
  | .pinMode operands => compilePinMode operands line
  | .digitalWrite operands => compileDigitalWrite operands line
  | .toggle operands => do
    let some (ref, _) ← pinOperand operands line | return []
    return [.toggle ref.target]
  | .pwmWrite pin value => compilePwmWrite pin value line
  | .readAnalog pin name => compileReadAnalog pin name line
  | .readTime name => do
    if ← writeTarget name .unsignedLong line then return [.readMillis name] else return []
  | .readMicros name => do
    if ← writeTarget name .unsignedLong line then return [.readMicros name] else return []
  | .readDigital pin name => compileReadDigital pin name line
  | .wait amount unit => compileWait amount unit
  | .serialBegin rate => return [.serialBegin (← ofExcept (readNatural rate))]
  | .printText text => return [.printlnText text]
  | .printTextValue text value => do
    let some value ← expression value line | return []
    return [.printText text, .println value]
  | .printValue value => do
    let some value ← expression value line | return []
    return [.println value]
  | .assign name value => compileAssign name value line
  | .change name value => compileChange name value line
  | .map source fromRange toRange name => compileMap source fromRange toRange name line
  | .limit name range => compileLimit name range line
  | .random range name => compileRandom range name line
  | .randomSeed value => do
    let some value ← expression value line | return []
    return [.randomSeed value]
  | .tone frequency pin => compileTone frequency pin line
  | .noTone pin => do
    let some (ref, _) ← pinOperand pin line | return []
    return [.noTone ref.target]
  | .call name => compileCall name line

end PlainSketch.Build
