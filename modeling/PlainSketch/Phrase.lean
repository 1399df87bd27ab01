import PlainSketch.Shape

/-!
# Phrases of conditions

Conditions may compare and join values in English. Each phrase stands for an operator. The phrases
are replaced one after the other, longer ones before the shorter ones they begin with.
-/
namespace PlainSketch

/-- Words with gaps between them, and the operator they stand for. -/
structure Phrase where
  words : List String
  operator : String
deriving DecidableEq, Repr

namespace Phrase
open Text Shape

/-- A gap, with the number of its blanks. -/
def gapSize : Shape Nat := fun cs =>
  match cs.takeWhile isBlank with
  | [] => none
  | bs => some (bs.length, cs.dropWhile isBlank)

/-- The words one after the other, the last one ending there, with the number of characters that
they take. -/
def shapeOf : List String → Shape Nat
  | [] => do
    wordEnd
    return 0
  | [w] => do
    keyword w
    wordEnd
    return w.length
  | w :: ws => do
    keyword w
    let blanks ← gapSize
    return w.length + blanks + (← shapeOf ws)

/-- How many characters the phrase takes at the start of the text, if it stands there. -/
def length? (p : Phrase) (cs : List Char) : Option Nat := (shapeOf p.words).first? cs

/-- Puts the operator in place of the phrase wherever it stands as words of its own; `inWord` says
that the text goes on a word. -/
def replaceFrom (p : Phrase) (inWord : Bool) : List Char → List Char
  | [] => []
  | c :: cs =>
    match if inWord then none else p.length? (c :: cs) with
    | some n => p.operator.toList ++ replaceFrom p true (cs.drop (n - 1))
    | none => c :: replaceFrom p (isWordChar c) cs
termination_by cs => cs.length
decreasing_by all_goals simp only [List.length_drop, List.length_cons]; omega

/-- Puts the operator in place of the phrase throughout a text. -/
def replace (p : Phrase) (cs : List Char) : List Char := p.replaceFrom false cs

/-- All phrases, in the order in which they are replaced. -/
def all : List Phrase :=
  [⟨["is", "greater", "than"], ">"⟩, ⟨["is", "less", "than"], "<"⟩,
   ⟨["is", "at", "least"], ">="⟩, ⟨["is", "at", "most"], "<="⟩,
   ⟨["is", "not"], "!="⟩, ⟨["equals"], "=="⟩, ⟨["is"], "=="⟩,
   ⟨["and"], "&&"⟩, ⟨["or"], "||"⟩]

/-- Replaces every phrase of a text, one phrase after the other. -/
def replaceAll (cs : List Char) : List Char := all.foldl (fun t p => p.replace t) cs

end Phrase
end PlainSketch
