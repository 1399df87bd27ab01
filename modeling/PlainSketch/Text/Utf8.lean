import PlainSketch.Text.Hex
import PlainSketch.Text.Lines

/-!
# Reading text from bytes

Files hold UTF-8. A file that does not is refused with the place of its first wrong sequence and the
reason: a byte that starts no character, a byte that cannot go on the character begun, or the end
of the file inside a character.
-/
namespace PlainSketch.Text

inductive Utf8Reason where
  | badStart
  | badContinuation
  | endOfData
deriving DecidableEq, Repr

/-- The first sequence of bytes that is no character: where it starts, how many bytes belong to it,
and the first of them. -/
structure Utf8Fault where
  start : Nat
  length : Nat
  byte : UInt8
  reason : Utf8Reason
deriving DecidableEq, Repr

namespace Utf8

/-- The bounds of the bytes that follow a leading byte, unless it leads no character. -/
def tails? (lead : UInt8) : Option (List (UInt8 × UInt8)) :=
  let tail : UInt8 × UInt8 := (0x80, 0xBF)
  if lead < 0x80 then some []
  else if lead < 0xC2 then none
  else if lead < 0xE0 then some [tail]
  else if lead == 0xE0 then some [(0xA0, 0xBF), tail]
  else if lead == 0xED then some [(0x80, 0x9F), tail]
  else if lead < 0xF0 then some [tail, tail]
  else if lead == 0xF0 then some [(0x90, 0xBF), tail, tail]
  else if lead < 0xF4 then some [tail, tail, tail]
  else if lead == 0xF4 then some [(0x80, 0x8F), tail, tail]
  else none

/-- Looks for the first fault. `pending` bounds the bytes still owed to the character that `lead`
began at `start`; `pos` is the place of the next byte. -/
def faultFrom (pos start : Nat) (lead : UInt8) :
    List (UInt8 × UInt8) → List UInt8 → Option Utf8Fault
  | [], [] => none
  | _ :: _, [] => some ⟨start, pos - start, lead, .endOfData⟩
  | [], b :: bs =>
    match tails? b with
    | none => some ⟨pos, 1, b, .badStart⟩
    | some tails => faultFrom (pos + 1) pos b tails bs
  | (low, high) :: more, b :: bs =>
    if low ≤ b && b ≤ high then faultFrom (pos + 1) start lead more bs
    else some ⟨start, pos - start, lead, .badContinuation⟩

/-- The first fault of some bytes. -/
def fault? (bs : List UInt8) : Option Utf8Fault := faultFrom 0 0 0 [] bs

end Utf8

namespace Utf8Fault

def reasonText : Utf8Reason → String
  | .badStart => "invalid start byte"
  | .badContinuation => "invalid continuation byte"
  | .endOfData => "unexpected end of data"

def message (f : Utf8Fault) : String :=
  let reason := reasonText f.reason
  if f.length == 1 then
    let byte := hex 2 f.byte.toNat
    s!"'utf-8' codec can't decode byte 0x{byte} in position {f.start}: {reason}"
  else
    let last := f.start + f.length - 1
    s!"'utf-8' codec can't decode bytes in position {f.start}-{last}: {reason}"

end Utf8Fault

/-- The text that some bytes hold. -/
def decode (bytes : ByteArray) : Except Utf8Fault String :=
  match String.fromUTF8? bytes with
  | some s => .ok s
  | none => .error ((Utf8.fault? bytes.toList).getD ⟨0, 0, 0, .badStart⟩)

/-- The text of a file, every line ending being a line feed. -/
def readText (bytes : ByteArray) : Except Utf8Fault String :=
  (decode bytes).map fun s => String.ofList (unifyNewlines s.toList)

end PlainSketch.Text
