/-!
# Quoted literals

A quoted literal runs from a double quote to the next one that no backslash precedes. A backslash
takes the character after it along, whatever it is but a line feed. A quote without its closing
partner opens no literal.
-/
namespace PlainSketch.Text

/-- Reads on after the opening quote: what belongs to the literal, closing quote included, and what
follows it. -/
def closeQuote? : List Char → Option (List Char × List Char)
  | [] => none
  | '"' :: cs => some (['"'], cs)
  | ['\\'] => none
  | '\\' :: c :: cs =>
    if c == '\n' then none else (closeQuote? cs).map fun r => ('\\' :: c :: r.1, r.2)
  | c :: cs => (closeQuote? cs).map fun r => (c :: r.1, r.2)

/-- The literal at the start of the text, and the text after it. -/
def quoted? : List Char → Option (List Char × List Char)
  | '"' :: cs => (closeQuote? cs).map fun r => ('"' :: r.1, r.2)
  | _ => none

/-- Backslashes and double quotes each get a backslash in front. -/
def escape (cs : List Char) : List Char :=
  cs.flatMap fun c => if c == '\\' || c == '"' then ['\\', c] else [c]

theorem closeQuote?_length {cs : List Char} {r : List Char × List Char}
    (h : closeQuote? cs = some r) : r.2.length < cs.length := by
  fun_induction closeQuote? cs generalizing r with
  | case1 => simp at h
  | case2 cs => simp at h; subst h; simp
  | case3 => simp at h
  | case4 => simp at h
  | case5 c cs _ ih =>
    obtain ⟨q, hq, rfl⟩ := Option.map_eq_some_iff.1 h
    have := ih hq
    simp only [List.length_cons]; omega
  | case6 c cs _ _ _ ih =>
    obtain ⟨q, hq, rfl⟩ := Option.map_eq_some_iff.1 h
    have := ih hq
    simp only [List.length_cons]; omega

theorem quoted?_length {cs : List Char} {r : List Char × List Char}
    (h : quoted? cs = some r) : r.2.length < cs.length := by
  unfold quoted? at h
  split at h
  · obtain ⟨q, hq, rfl⟩ := Option.map_eq_some_iff.1 h
    have := closeQuote?_length hq
    simp only [List.length_cons]; omega
  · simp at h

end PlainSketch.Text
