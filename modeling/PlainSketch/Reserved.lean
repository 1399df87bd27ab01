/-!
# Reserved words

Names that no pin, variable or function may take: what the sketch needs from the Arduino core and
from C, and the words of the language itself.
-/
namespace PlainSketch

def reservedWords : List String :=
  ["setup", "loop", "Serial", "delay", "delayMicroseconds", "millis", "micros",
   "pinMode", "digitalWrite", "digitalRead", "analogRead", "analogWrite",
   "tone", "noTone", "map", "random", "randomSeed",
   "HIGH", "LOW", "INPUT", "OUTPUT", "INPUT_PULLUP",
   "true", "false", "int", "long", "float", "double", "char", "bool", "void", "String",
   "pin", "make", "turn", "toggle", "read", "analog", "into", "set", "change",
   "by", "to", "wait", "ms", "second", "seconds",
   "start", "serial", "print", "call", "seed",
   "if", "otherwise", "do", "end", "repeat", "times", "forever", "while",
   "every", "after", "is"]

end PlainSketch
