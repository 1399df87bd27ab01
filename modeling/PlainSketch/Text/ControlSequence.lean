/-!
# Control sequences

A control sequence tells a terminal what to do and is not text to be read. It starts with an escape
character and `[`. Parameters, intermediates and one final character follow, each from a range of its
own. What begins like a sequence and has no final character is text.
-/
namespace PlainSketch.Text

/-- The digits and the characters up to the question mark. -/
def isParameter (c : Char) : Bool := '0' ≤ c && c ≤ '?'

/-- The characters from the space up to the slash. -/
def isIntermediate (c : Char) : Bool := ' ' ≤ c && c ≤ '/'

/-- The letters and the marks around them, up to the tilde. -/
def isFinal (c : Char) : Bool := '@' ≤ c && c ≤ '~'

/-- The text after the control sequence that it begins with. -/
def afterControl? : List Char → Option (List Char)
  | '\x1b' :: '[' :: cs =>
    match (cs.dropWhile isParameter).dropWhile isIntermediate with
    | c :: rest => if isFinal c then some rest else none
    | [] => none
  | _ => none

theorem afterControl?_length {cs rest : List Char} (h : afterControl? cs = some rest) :
    rest.length < cs.length := by
  unfold afterControl? at h
  split at h
  · rename_i cs
    split at h
    · rename_i c tail heq
      split at h
      · cases h
        have hp := (List.dropWhile_sublist isParameter (l := cs)).length_le
        have hi := (List.dropWhile_sublist isIntermediate
          (l := cs.dropWhile isParameter)).length_le
        rw [heq] at hi
        simp only [List.length_cons] at hi ⊢
        omega
      · simp at h
    · simp at h
  · simp at h

/-- The text without its control sequences. One that comes about by leaving out another stays. -/
def stripControls (cs : List Char) : List Char :=
  match _h : afterControl? cs with
  | some rest => stripControls rest
  | none =>
    match cs with
    | [] => []
    | c :: cs => c :: stripControls cs
termination_by cs.length
decreasing_by
  · exact afterControl?_length _h
  · simp

/-- The text as it is shown where no terminal reads it. -/
def plain (text : String) : String := String.ofList (stripControls text.toList)

end PlainSketch.Text
