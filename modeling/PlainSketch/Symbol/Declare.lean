import PlainSketch.Session

/-!
# Declaring symbols

A name may live in one of the three kinds only and may not be reserved. The first declaration wins;
a refused one is reported and leaves the table as it was.
-/
namespace PlainSketch.Build
open Line Text

/-- Where a pin operand leads. -/
structure PinRef where
  target : PinTarget
  kind : PinKind
  /-- How many words the operand took. -/
  consumed : Nat := 1
  /-- The digital pin number, when known. -/
  number : Option Int := none
deriving DecidableEq, Repr

/-- Reads one word as a pin: an analog label, a number or the name of a declared pin. Labels and
numbers that the board lacks are accepted with a warning. -/
def pinOfWord (token : List Char) (line : Int) : Build (Option PinRef) := do
  let t ← table
  match analogLabel? token with
  | some label =>
    let label := String.ofList label
    if !t.board.hasAnalog label then report line (.unlistedAnalog label)
    return some { target := .label label, kind := .analog }
  | none =>
    if isIntLiteral token then
      let n ← ofExcept (readInteger (trim token))
      if !t.board.hasDigital n then report line (.pinOutOfRange n)
      return some { target := .number n, kind := .digital, number := some n }
    else
      return (t.findPin? (String.ofList (trim token))).map fun p =>
        { target := .named p.name, kind := p.kind, number := p.number }

/-- Declares a pin; answers whether it was recorded. -/
def definePin (name : String) (literal : List Char) (line : Int) : Build Bool := do
  let t ← table
  if !isIdentifier name.toList then refuse line .invalidPinName
  else if t.isReserved name then refuse line (.reservedPin name)
  else if t.isVariable name then refuse line (.pinIsVariable name)
  else if t.isFunction name then refuse line (.pinIsFunction name)
  else if t.isPin name then refuse line (.pinRepeated name)
  else
    match ← pinOfWord literal line with
    | none => refuse line (.unknownPin (String.ofList literal))
    | some ref =>
      setTable (t.addPin
        ⟨name, ref.target, ref.kind, String.ofList literal, line, ref.number⟩)
      log (.pinDeclared line name ref.target.text ref.kind.name)
      return true

/-- Declares a function; answers whether it was recorded. -/
def defineFunction (name : String) (line : Int) : Build Bool := do
  let t ← table
  if !isIdentifier name.toList then refuse line .invalidFunctionName
  else if t.isReserved name then refuse line (.reservedFunction name)
  else if t.isPin name then refuse line (.functionIsPin name)
  else if t.isVariable name then refuse line (.functionIsVariable name)
  else if t.isFunction name then refuse line (.functionRepeated name)
  else
    setTable (t.addFunction ⟨name, line⟩)
    log (.functionDeclared line name)
    return true

/-- Widens a known variable to a type it is used at. A change between text and number is reported
whether or not it widens. -/
def widenVariable (v : Variable) (type : ValueType) (line : Int) : Build Unit := do
  if v.type.isString != type.isString then report line (.typeChanged v.name v.type type)
  let wide := v.type.widen type
  if wide ≠ v.type then
    log (.variableWidened line v.name v.type wide)
    setTable ((← table).retype v.name wide)

/-- Records the use of a variable at a type; answers whether the name is a variable now. What is not
a name at all is refused without a word. -/
def observeVariable (name : String) (type : ValueType) (line : Int) : Build Bool := do
  let t ← table
  if !isIdentifier name.toList then return false
  else if t.isReserved name then refuse line (.reservedVariable name)
  else if t.isPin name then refuse line (.variableIsPin name)
  else if t.isFunction name then refuse line (.variableIsFunction name)
  else
    match t.findVariable? name with
    | none =>
      setTable (t.addVariable ⟨name, type, line⟩)
      log (.variableDeclared line name type)
      return true
    | some v =>
      widenVariable v type line
      return true

/-- Records a plain mention of a name. Pins and known variables are left as they are, and a new name
becomes a `long`. -/
def mention (name : String) (line : Int) : Build Bool := do
  let t ← table
  if t.isPin name || t.isVariable name then return true
  else observeVariable name .long line

/-- Reads the pin operand at the start of some words: `pin X`, or `X` alone. -/
def resolvePin (words : List (List Char)) (line : Int) : Build (Option PinRef) := do
  match words with
  | [] =>
    report line .pinMissing
    return none
  | w :: ws =>
    if isWord "pin" w then
      match ws with
      | [] =>
        report line .pinMissingAfterKeyword
        return none
      | x :: _ =>
        match ← pinOfWord x line with
        | none =>
          report line (.unknownPin (String.ofList x))
          return none
        | some ref => return some { ref with consumed := 2 }
    else
      match ← pinOfWord w line with
      | some ref => return some ref
      | none =>
        report line (.unresolvedPin (String.ofList w))
        return none

end PlainSketch.Build
