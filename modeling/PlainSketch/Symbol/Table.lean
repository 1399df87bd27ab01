import PlainSketch.Board
import PlainSketch.ValueType

/-!
# Symbol tables

Pins, variables and functions of a script, each in the order of their first appearance. The three
kinds share one space of names, from which the reserved words are taken out.
-/
namespace PlainSketch

inductive PinKind where
  | digital
  | analog
deriving DecidableEq, Repr

def PinKind.name : PinKind → String
  | digital => "digital"
  | analog => "analog"

/-- What the sketch writes for a pin: a number, an analog label or the name of a declared pin. -/
inductive PinTarget where
  | number (n : Int)
  | label (text : String)
  | named (name : String)
deriving DecidableEq, Repr

def PinTarget.text : PinTarget → String
  | number n => toString n
  | label text => text
  | named name => name

/-- A declared pin. -/
structure Pin where
  name : String
  target : PinTarget
  kind : PinKind
  /-- What the script says the pin is, as written. -/
  raw : String
  line : Int
  /-- The digital pin number behind it, when known. -/
  number : Option Int := none
deriving DecidableEq, Repr

/-- A variable with the widest type it was used at. -/
structure Variable where
  name : String
  type : ValueType
  line : Int
deriving DecidableEq, Repr

structure Function where
  name : String
  line : Int
deriving DecidableEq, Repr

structure SymbolTable where
  board : Board
  reserved : List String
  pins : List Pin := []
  vars : List Variable := []
  functions : List Function := []
deriving DecidableEq, Repr

namespace SymbolTable

def isReserved (t : SymbolTable) (name : String) : Bool := t.reserved.contains name

def findPin? (t : SymbolTable) (name : String) : Option Pin := t.pins.find? (·.name == name)

def findVariable? (t : SymbolTable) (name : String) : Option Variable :=
  t.vars.find? (·.name == name)

def findFunction? (t : SymbolTable) (name : String) : Option Function :=
  t.functions.find? (·.name == name)

def isPin (t : SymbolTable) (name : String) : Bool := (t.findPin? name).isSome

def isVariable (t : SymbolTable) (name : String) : Bool := (t.findVariable? name).isSome

def isFunction (t : SymbolTable) (name : String) : Bool := (t.findFunction? name).isSome

def addPin (t : SymbolTable) (p : Pin) : SymbolTable := { t with pins := t.pins ++ [p] }

def addVariable (t : SymbolTable) (v : Variable) : SymbolTable :=
  { t with vars := t.vars ++ [v] }

def addFunction (t : SymbolTable) (f : Function) : SymbolTable :=
  { t with functions := t.functions ++ [f] }

/-- Gives a known variable a new type; its place in the table stays. -/
def retype (t : SymbolTable) (name : String) (type : ValueType) : SymbolTable :=
  { t with vars := t.vars.map fun v => if v.name == name then { v with type } else v }

end SymbolTable
end PlainSketch
