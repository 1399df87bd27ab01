/-!
# Lines of a text
-/
namespace PlainSketch.Text

/-- Each pair of carriage return and line feed becomes a line feed. -/
def joinReturns : List Char → List Char
  | '\r' :: '\n' :: cs => '\n' :: joinReturns cs
  | c :: cs => c :: joinReturns cs
  | [] => []

/-- Every line ending, also a lone carriage return, becomes a line feed. -/
def unifyNewlines (cs : List Char) : List Char :=
  (joinReturns cs).map fun c => if c == '\r' then '\n' else c

/-- The lines between the line feeds; always at least one. -/
def splitLines (cs : List Char) : List (List Char) := cs.splitOn '\n'

/-- Lines with a line feed between each two. -/
def joinLines (ls : List (List Char)) : List Char := ['\n'].intercalate ls

theorem not_mem_of_mem_splitOn {sep : Char} {cs l : List Char} (h : l ∈ cs.splitOn sep) :
    sep ∉ l := by
  induction cs generalizing l with
  | nil =>
    rw [List.splitOn_nil, List.mem_singleton] at h
    rw [h]
    exact List.not_mem_nil
  | cons c cs ih =>
    rw [List.splitOn_cons_eq_if_modifyHead] at h
    split at h
    · rcases List.mem_cons.mp h with rfl | h
      · exact List.not_mem_nil
      · exact ih h
    · next hc =>
      have hne : sep ≠ c := fun he => hc (beq_iff_eq.mpr he.symm)
      obtain ⟨m, ms, hm⟩ := List.exists_cons_of_ne_nil (List.splitOn_ne_nil sep cs)
      rw [hm] at h ih
      rcases List.mem_cons.mp h with rfl | h
      · exact List.not_mem_cons_of_ne_of_not_mem hne (ih List.mem_cons_self)
      · exact ih (List.mem_cons_of_mem m h)

section
variable {c : Char} {cs l m : List Char} {ls : List (List Char)}

theorem newline_not_mem_splitLines (h : l ∈ splitLines cs) : '\n' ∉ l := not_mem_of_mem_splitOn h

theorem splitLines_ne_nil (cs : List Char) : splitLines cs ≠ [] := List.splitOn_ne_nil _ _

theorem splitLines_of_not_mem (h : '\n' ∉ l) : splitLines l = [l] := List.splitOn_eq_singleton h

theorem splitLines_append_newline (cs ds : List Char) :
    splitLines (cs ++ '\n' :: ds) = splitLines cs ++ splitLines ds :=
  List.splitOn_append_cons_self cs ds

theorem splitLines_newline (cs : List Char) : splitLines ('\n' :: cs) = [] :: splitLines cs :=
  splitLines_append_newline [] cs

theorem splitLines_cons (hc : c ≠ '\n') (h : splitLines cs = l :: ls) :
    splitLines (c :: cs) = (c :: l) :: ls := by
  rw [splitLines] at h ⊢
  rw [List.splitOn_cons_eq_if_modifyHead, if_neg (by simpa using hc), h]
  rfl

/-- A text without line feeds goes in front of the first line. -/
theorem splitLines_append_left (hm : '\n' ∉ m) (h : splitLines cs = l :: ls) :
    splitLines (m ++ cs) = (m ++ l) :: ls := by
  induction m with
  | nil => exact h
  | cons c m ih =>
    have hc : c ≠ '\n' := fun he => hm (he ▸ List.mem_cons_self)
    exact splitLines_cons hc (ih fun hmem => hm (List.mem_cons_of_mem c hmem))

theorem joinLines_singleton (l : List Char) : joinLines [l] = l := List.intercalate_singleton

theorem joinLines_cons_cons (l m : List Char) (ls : List (List Char)) :
    joinLines (l :: m :: ls) = l ++ '\n' :: joinLines (m :: ls) := by
  rw [joinLines, List.intercalate_cons_cons, List.append_assoc]
  rfl

theorem splitLines_joinLines (hne : ls ≠ []) (h : ∀ l ∈ ls, '\n' ∉ l) :
    splitLines (joinLines ls) = ls := List.splitOn_intercalate '\n' h hne

end

end PlainSketch.Text
