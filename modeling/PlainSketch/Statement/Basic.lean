import PlainSketch.Opener

/-!
# Statements

A statement is a line inside a body that is neither opener, `otherwise` nor `end`. The shapes are
tried in order and the first that fits owns the line: `set … to pwm` before `set … to`, the special
readings before reading a pin, and printed text before printed values.
-/
namespace PlainSketch

/-- A statement with its operands as written. -/
inductive Statement where
  | pinMode (operands : List Char)
  | digitalWrite (operands : List Char)
  | toggle (operands : List Char)
  | pwmWrite (pin value : List Char)
  | readAnalog (pin : List Char) (name : String)
  | readTime (name : String)
  | readMicros (name : String)
  | readDigital (pin : List Char) (name : String)
  | wait (amount unit : List Char)
  | serialBegin (rate : List Char)
  | printText (text : List Char)
  | printTextValue (text value : List Char)
  | printValue (value : List Char)
  | assign (name : String) (value : List Char)
  | change (name : String) (value : List Char)
  | map (source : String) (fromRange toRange : List Char) (name : String)
  | limit (name : String) (range : List Char)
  | random (range : List Char) (name : String)
  | randomSeed (value : List Char)
  | tone (frequency pin : List Char)
  | noTone (pin : List Char)
  | call (function : String)
deriving DecidableEq, Repr

namespace Statement
open Shape

/-- A keyword that ends as a word, and whatever follows it. -/
def command (w : String) : Shape (List Char) := do
  keyword w
  wordEnd
  optGap
  optRest

def pinModeShape : Shape Statement := return .pinMode (← command "make")

def digitalWriteShape : Shape Statement := return .digitalWrite (← command "turn")

def toggleShape : Shape Statement := return .toggle (← command "toggle")

def pwmWriteShape : Shape Statement := do
  keyword "set"
  let r ← textBefore do
    nextKeyword "to"
    nextKeyword "pwm"
    value
  return .pwmWrite r.1 r.2

def readAnalogShape : Shape Statement := do
  keyword "read"
  nextKeyword "analog"
  let r ← textBefore intoName
  return .readAnalog r.1 r.2

def readTimeShape : Shape Statement := do
  keyword "read"
  nextKeyword "time"
  return .readTime (← intoName)

def readMicrosShape : Shape Statement := do
  keyword "read"
  nextKeyword "micros"
  return .readMicros (← intoName)

def readDigitalShape : Shape Statement := do
  keyword "read"
  let r ← textBefore intoName
  return .readDigital r.1 r.2

/-- The units of a pause. -/
def pauseUnits : List String :=
  ["ms", "milliseconds", "millisecond", "us", "microseconds", "microsecond", "seconds", "second",
   "s"]

def waitShape : Shape Statement := do
  keyword "wait"
  gap
  let t ← Opener.interval pauseUnits
  lineEnd
  return .wait t.1 t.2

def serialBeginShape : Shape Statement := do
  keyword "start"
  nextKeyword "serial"
  nextKeyword "at"
  gap
  let rate ← digits
  lineEnd
  return .serialBegin rate

def printTextShape : Shape Statement := do
  keyword "print"
  gap
  let text ← betweenQuotes
  lineEnd
  return .printText text

def printTextValueShape : Shape Statement := do
  keyword "print"
  gap
  let text ← betweenQuotes
  nextKeyword "and"
  return .printTextValue text (← value)

def printValueShape : Shape Statement := do
  keyword "print"
  return .printValue (← value)

def assignShape : Shape Statement := do
  keyword "set"
  gap
  let n ← name
  nextKeyword "to"
  return .assign n (← value)

def changeShape : Shape Statement := do
  keyword "change"
  gap
  let n ← name
  nextKeyword "by"
  return .change n (← value)

def mapShape : Shape Statement := do
  keyword "map"
  gap
  let source ← name
  nextKeyword "from"
  gap
  let fromRange ← word
  nextKeyword "to"
  gap
  let toRange ← word
  return .map source fromRange toRange (← intoName)

def limitShape : Shape Statement := do
  keyword "limit"
  gap
  let n ← name
  nextKeyword "to"
  gap
  let range ← word
  lineEnd
  return .limit n range

/-- `random` or `a random number` -/
def randomWords : Shape Unit :=
  either (keyword "random") do
    keyword "a"
    nextKeyword "random"
    nextKeyword "number"

def randomShape : Shape Statement := do
  keyword "pick"
  gap
  randomWords
  nextKeyword "from"
  gap
  let range ← word
  return .random range (← intoName)

/-- `seed random with` or `random seed` -/
def seedWords : Shape Unit :=
  either
    (do
      keyword "seed"
      nextKeyword "random"
      nextKeyword "with")
    do
      keyword "random"
      nextKeyword "seed"

def randomSeedShape : Shape Statement := do
  seedWords
  return .randomSeed (← value)

def toneShape : Shape Statement := do
  keyword "play"
  nextKeyword "tone"
  let r ← textBefore do
    nextKeyword "on"
    value
  return .tone r.1 r.2

def noToneShape : Shape Statement := do
  keyword "stop"
  nextKeyword "tone"
  nextKeyword "on"
  return .noTone (← value)

def callShape : Shape Statement := do
  keyword "call"
  return .call (← lastName)

/-- The shapes of all statements, in the order in which they are tried. -/
def shapes : List (Shape Statement) :=
  [pinModeShape, digitalWriteShape, toggleShape, pwmWriteShape, readAnalogShape, readTimeShape,
   readMicrosShape, readDigitalShape, waitShape, serialBeginShape, printTextShape,
   printTextValueShape, printValueShape, assignShape, changeShape, mapShape, limitShape,
   randomShape, randomSeedShape, toneShape, noToneShape, callShape]

/-- Reads a line as a statement. -/
def ofCode? (code : List Char) : Option Statement := firstOf? shapes code

end Statement
end PlainSketch
