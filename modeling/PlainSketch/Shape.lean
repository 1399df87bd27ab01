import PlainSketch.Text.Blank
import PlainSketch.Text.Digit
import PlainSketch.Text.Letter
import PlainSketch.Text.WordChar

/-!
# Shapes of lines

A shape reads the beginning of a text and gives what it read and the text left, or nothing if the
text does not begin like that. Gaps, names, numerals and words are read as far as they go: what
follows them in a line can never start inside them.

Free text has no end of its own. It ends where the rest of the line fits, so the rest of the line is
part of its shape, and so is the gap in front of it: as long as anything else is left to be the
text, the gap takes all blanks.
-/
namespace PlainSketch

/-- What a text begins with, and the text left. -/
abbrev Shape (α : Type) := StateT (List Char) Option α

namespace Shape
open Text

variable {α : Type}

/-- What the shape reads at the start of the text. -/
def first? (s : Shape α) (cs : List Char) : Option α := (s cs).map Prod.fst

/-- The text begins like that. -/
def fits (s : Shape α) (cs : List Char) : Bool := (s cs).isSome

/-- What the first shape that fits reads. -/
def firstOf? (shapes : List (Shape α)) (cs : List Char) : Option α :=
  shapes.findSome? fun s => s.first? cs

/-- One shape, or another if it does not fit. -/
def either (s t : Shape α) : Shape α := fun cs => s cs <|> t cs

/-- The text after the keyword `w`, whatever the case of its letters. -/
def dropKeyword : List Char → List Char → Option (List Char)
  | [], cs => some cs
  | _ :: _, [] => none
  | w :: ws, c :: cs => if standsFor w c then dropKeyword ws cs else none

/-- A keyword, given in lower case and read in any case. -/
def keyword (w : String) : Shape Unit := fun cs =>
  (dropKeyword w.toList cs).map fun r => ((), r)

/-- A keyword, with the spelling that was found. -/
def spelling (w : String) : Shape (List Char) := fun cs =>
  (dropKeyword w.toList cs).map fun r => (cs.take (cs.length - r.length), r)

/-- The spelling of one of several keywords, earlier ones preferred. -/
def spellingOf : List String → Shape (List Char)
  | [] => fun _ => none
  | w :: ws => either (spelling w) (spellingOf ws)

/-- No word goes on here. Used after a keyword, it is the end of a word. -/
def wordEnd : Shape Unit := fun cs =>
  match cs with
  | c :: _ => if isWordChar c then none else some ((), cs)
  | [] => some ((), [])

/-- Any number of blanks. -/
def optGap : Shape Unit := fun cs => some ((), trimLeft cs)

/-- One blank or more. -/
def gap : Shape Unit := fun cs =>
  match cs with
  | c :: cs => if isBlank c then some ((), trimLeft cs) else none
  | [] => none

/-- A gap and a keyword. -/
def nextKeyword (w : String) : Shape Unit := do
  gap
  keyword w

/-- A name as statements write it. -/
def name : Shape String := fun cs =>
  match cs with
  | c :: cs =>
    if isNameStart c then
      some (String.ofList (c :: cs.takeWhile isWordChar), cs.dropWhile isWordChar)
    else none
  | [] => none

/-- A row of digits. -/
def digits : Shape (List Char) := fun cs =>
  match cs.takeWhile isDigit with
  | [] => none
  | d :: ds => some (d :: ds, cs.dropWhile isDigit)

/-- A row of digits, perhaps after a minus sign. -/
def signedDigits : Shape (List Char) := fun cs =>
  match cs with
  | '-' :: r => (digits r).map fun x => ('-' :: x.1, x.2)
  | _ => digits cs

/-- A run of characters without blanks. -/
def word : Shape (List Char) := fun cs =>
  match cs.takeWhile (!isBlank ·) with
  | [] => none
  | c :: w => some (c :: w, cs.dropWhile (!isBlank ·))

/-- The characters between two double quotes, of whatever kind but a quote. -/
def betweenQuotes : Shape (List Char) := fun cs =>
  match cs with
  | '"' :: r =>
    match r.dropWhile (· != '"') with
    | '"' :: rest => some (r.takeWhile (· != '"'), rest)
    | _ => none
  | _ => none

/-- Blanks to the end of the text. -/
def lineEnd : Shape Unit := fun cs => if allBlank cs then some ((), []) else none

/-- The variable that a line ends in. -/
def lastName : Shape String := do
  gap
  let n ← name
  lineEnd
  return n

/-- `into NAME` at the end of a line. -/
def intoName : Shape String := do
  nextKeyword "into"
  lastName

/-- The rest of the text without its trailing blanks, perhaps empty, all on one line. -/
def optRest : Shape (List Char) := fun cs =>
  if (trimRight cs).contains '\n' then none else some (trimRight cs, [])

/-- Text of one line and at least one character, up to the first place where `tail` fits. -/
def textUntil (tail : Shape α) : Shape (List Char × α)
  | [] => none
  | c :: cs =>
    if c == '\n' then none
    else
      ((tail cs).map fun r => (([c], r.1), r.2)) <|>
        (textUntil tail cs).map fun r => ((c :: r.1.1, r.1.2), r.2)

/-- Text of one line and at least one character, up to the last place where `tail` fits. -/
def longTextUntil (tail : Shape α) : Shape (List Char × α)
  | [] => none
  | c :: cs =>
    if c == '\n' then none
    else
      ((longTextUntil tail cs).map fun r => ((c :: r.1.1, r.1.2), r.2)) <|>
        (tail cs).map fun r => (([c], r.1), r.2)

/-- Text of one line and at least one character, up to the blanks at its end. -/
def textToEnd : Shape (List Char × Unit) := fun cs =>
  match cs with
  | c :: cs =>
    if (c :: trimRight cs).contains '\n' then none else some ((c :: trimRight cs, ()), [])
  | [] => none

/-- Goes on with a gap that has begun, and reads `text` after it. If that does not fit, the last
blank that has `tail` after it is the text. -/
def leaveGap (text : Shape (List Char × α)) (tail : Shape α) : Shape (List Char × α)
  | [] => none
  | c :: cs =>
    if isBlank c then
      leaveGap text tail cs <|>
        if c == '\n' then none else (tail cs).map fun r => (([c], r.1), r.2)
    else text (c :: cs)

/-- A gap and the text after it. -/
def gapThen (text : Shape (List Char × α)) (tail : Shape α) : Shape (List Char × α) := fun cs =>
  match cs with
  | c :: cs => if isBlank c then leaveGap text tail cs else none
  | [] => none

/-- A gap and text after it, up to the first place where `tail` fits. -/
def textBefore (tail : Shape α) : Shape (List Char × α) := gapThen (textUntil tail) tail

/-- A gap and text after it, up to the last place where `tail` fits. -/
def longTextBefore (tail : Shape α) : Shape (List Char × α) := gapThen (longTextUntil tail) tail

/-- A gap and the text after it, which goes on to the end of the line. -/
def value : Shape (List Char) := do
  let r ← gapThen textToEnd lineEnd
  return r.1

end Shape
end PlainSketch
