import PlainSketch.Symbol.Table
import PlainSketch.Text.Quoted

/-!
# Instructions

The lines that a sketch's bodies are made of, and their text.
-/
namespace PlainSketch

inductive PinMode where
  | output
  | input
  | inputPullup
deriving DecidableEq, Repr

def PinMode.text : PinMode → String
  | output => "OUTPUT"
  | input => "INPUT"
  | inputPullup => "INPUT_PULLUP"

/-- One line of a body. Values and tests are text of the script; the numbers `id` tell the helper
variables of the sketch apart. -/
inductive Instr where
  | pinMode (pin : PinTarget) (mode : PinMode)
  | digitalWrite (pin : PinTarget) (high : Bool)
  | toggle (pin : PinTarget)
  | analogWrite (pin : PinTarget) (value : List Char)
  | readAnalog (name : String) (pin : PinTarget)
  | readDigital (name : String) (pin : PinTarget)
  | readMillis (name : String)
  | readMicros (name : String)
  | delay (millis : Int)
  | delayMicros (micros : Int)
  | serialBegin (rate : Int)
  | printText (text : List Char)
  | printlnText (text : List Char)
  | println (value : List Char)
  | assign (name : String) (value : List Char)
  | increase (name : String) (value : List Char)
  | rescale (name source : String) (fromLow fromHigh toLow toHigh : Int)
  | clampLow (name : String) (bound : Int)
  | clampHigh (name : String) (bound : Int)
  | random (name : String) (low pastHigh : Int)
  | randomSeed (value : List Char)
  | tone (pin : PinTarget) (frequency : List Char)
  | noTone (pin : PinTarget)
  | call (function : String)
  | openIf (test : List Char)
  | openWhile (test : List Char)
  | openForever
  | openRepeat (id : Nat) (count : Int)
  | everyLast (id : Nat)
  | openEvery (id : Nat) (interval : Int)
  | everyAdvance (id : Nat) (interval : Int)
  | afterDone (id : Nat)
  | afterStart (id : Nat)
  | openAfter (id : Nat) (wait : Int)
  | afterFinish (id : Nat)
  | elseBranch
  | close
deriving DecidableEq, Repr

namespace Instr
open Text

/-- The counter of a repetition. -/
def counterName (id : Nat) : String := s!"__i{id}"

/-- The time at which a recurring timer last ran. -/
def lastName (id : Nat) : String := s!"__every_{id}_last"

/-- Whether a one-time timer has run. -/
def doneName (id : Nat) : String := s!"__after_{id}_done"

/-- The time at which a one-time timer was started. -/
def startName (id : Nat) : String := s!"__after_{id}_start"

/-- A text of the script as a literal of the sketch. -/
def literal (text : List Char) : String := "\"" ++ String.ofList (escape text) ++ "\""

/-- The text of a line. -/
def text : Instr → String
  | pinMode pin mode => s!"pinMode({pin.text}, {mode.text});"
  | digitalWrite pin true => s!"digitalWrite({pin.text}, HIGH);"
  | digitalWrite pin false => s!"digitalWrite({pin.text}, LOW);"
  | toggle pin => s!"digitalWrite({pin.text}, !digitalRead({pin.text}));"
  | analogWrite pin value => s!"analogWrite({pin.text}, {String.ofList value});"
  | readAnalog name pin => s!"{name} = analogRead({pin.text});"
  | readDigital name pin => s!"{name} = digitalRead({pin.text});"
  | readMillis name => s!"{name} = millis();"
  | readMicros name => s!"{name} = micros();"
  | delay millis => s!"delay({millis});"
  | delayMicros micros => s!"delayMicroseconds({micros});"
  | serialBegin rate => s!"Serial.begin({rate});"
  | printText text => s!"Serial.print({literal text});"
  | printlnText text => s!"Serial.println({literal text});"
  | println value => s!"Serial.println({String.ofList value});"
  | assign name value => s!"{name} = {String.ofList value};"
  | increase name value => s!"{name} += ({String.ofList value});"
  | rescale name source fromLow fromHigh toLow toHigh =>
    s!"{name} = map({source}, {fromLow}, {fromHigh}, {toLow}, {toHigh});"
  | clampLow name bound => s!"if ({name} < {bound}) {name} = {bound};"
  | clampHigh name bound => s!"if ({name} > {bound}) {name} = {bound};"
  | random name low pastHigh => s!"{name} = random({low}, {pastHigh});"
  | randomSeed value => s!"randomSeed({String.ofList value});"
  | tone pin frequency => s!"tone({pin.text}, {String.ofList frequency});"
  | noTone pin => s!"noTone({pin.text});"
  | call function => s!"{function}();"
  | openIf test => s!"if ({String.ofList test}) \x7b"
  | openWhile test => s!"while ({String.ofList test}) \x7b"
  | openForever => "while (true) \x7b"
  | openRepeat id count =>
    let i := counterName id
    s!"for (int {i} = 0; {i} < {count}; {i}++) \x7b"
  | everyLast id => s!"static unsigned long {lastName id} = 0;"
  | openEvery id interval => s!"if (millis() - {lastName id} >= {interval}UL) \x7b"
  | everyAdvance id interval => s!"{lastName id} += {interval}UL;"
  | afterDone id => s!"static bool {doneName id} = false;"
  | afterStart id => s!"static unsigned long {startName id} = millis();"
  | openAfter id wait =>
    s!"if (!{doneName id} && millis() - {startName id} >= {wait}UL) \x7b"
  | afterFinish id => s!"{doneName id} = true;"
  | elseBranch => "\x7d else \x7b"
  | close => "\x7d"

end Instr
end PlainSketch
