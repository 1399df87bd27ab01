import PlainSketch.Text.Blank
import PlainSketch.Text.Quoted

/-!
# Words and spacing of a line

A word is a run of characters without blanks, or a quoted literal that starts where a word may
start. Spacing is collapsed outside quoted literals only, and there a literal may start anywhere.
-/
namespace PlainSketch.Line
open Text

/-- The words of a text, a quoted literal being one word. -/
def words : List Char → List (List Char)
  | [] => []
  | c :: cs =>
    if isBlank c then words cs
    else match _h : quoted? (c :: cs) with
      | some r => r.1 :: words r.2
      | none => (c :: cs.takeWhile (!isBlank ·)) :: words (cs.dropWhile (!isBlank ·))
termination_by cs => cs.length
decreasing_by
  · simp
  · exact quoted?_length _h
  · exact Nat.lt_succ_of_le (List.dropWhile_sublist _).length_le

/-- Every run of blanks outside quoted literals becomes one space. -/
def squeeze : List Char → List Char
  | [] => []
  | c :: cs =>
    if isBlank c then ' ' :: squeeze (cs.dropWhile isBlank)
    else match _h : quoted? (c :: cs) with
      | some r => r.1 ++ squeeze r.2
      | none => c :: squeeze cs
termination_by cs => cs.length
decreasing_by
  · exact Nat.lt_succ_of_le (List.dropWhile_sublist _).length_le
  · exact quoted?_length _h
  · simp

/-- A line trimmed, with single spaces outside its quoted literals. -/
def collapse (cs : List Char) : List Char := trim (squeeze cs)

/-- Every quoted literal loses its contents. -/
def hollow : List Char → List Char
  | [] => []
  | c :: cs =>
    match _h : quoted? (c :: cs) with
    | some r => '"' :: '"' :: hollow r.2
    | none => c :: hollow cs
termination_by cs => cs.length
decreasing_by
  · exact quoted?_length _h
  · simp

end PlainSketch.Line
