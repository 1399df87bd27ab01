import PlainSketch.Proofs.LaidLines

/-!
# What laying out keeps

A line is laid out as an empty one only if it is blank. So the lines that are kept when a script is
laid out stand for those up to the last one that is not blank, one for one, and each splits into the
code, but for spacing, and the comment of the line it stands for.
-/
namespace PlainSketch

namespace Text

theorem trim_eq_nil_iff {cs : List Char} : trim cs = [] ↔ ∀ c ∈ cs, isBlank c = true := by
  constructor
  · intro h
    obtain ⟨bs, es, hsplit, hbs, hes⟩ := exists_trim cs
    rw [h, List.nil_append] at hsplit
    rw [hsplit]
    intro c hc
    rcases List.mem_append.mp hc with hc | hc
    · exact hbs c hc
    · exact hes c hc
  · intro h
    rw [trim, trimRight_eq_nil_iff]
    exact fun c hc => h c ((List.dropWhile_suffix _).subset hc)

end Text

theorem Line.collapse_eq_nil_iff {cs : List Char} :
    Line.collapse cs = [] ↔ ∀ c ∈ cs, Text.isBlank c = true := by
  rw [Line.collapse_eq, ← Text.trim_eq_nil_iff, ← Text.flat_eq_nil_iff, Line.flat_squeeze,
    Text.flat_eq_nil_iff]

namespace Layout
open Text Line

/-- The second line has the code of the first one, but for spacing, and its comment. -/
structure SameContent (raw laid : List Char) : Prop where
  code : collapse (splitComment laid).1 = collapse (splitComment raw).1
  comment : (splitComment laid).2 = trim (splitComment raw).2

section
variable {raw : List Char}

theorem parts_eq_nil_iff (raw : List Char) :
    (parts raw).1 = [] ∧ (parts raw).2 = [] ↔ allBlank raw = true := by
  obtain ⟨happend, -, -⟩ := Scan.cut_spec {} raw
  rw [← Scan.splitComment_eq] at happend
  rw [parts, collapse_eq_nil_iff, trim_eq_nil_iff, ← List.forall_mem_append, happend, allBlank,
    List.all_eq_true]

theorem layLine_eq_nil_iff (level : Nat) (code comment : List Char) :
    layLine level code comment = [] ↔ code = [] ∧ comment = [] := by
  cases code with
  | nil =>
    cases comment with
    | nil => simp [layLine]
    | cons d ds => simp [layLine]
  | cons c cs =>
    cases comment with
    | nil => simp [layLine]
    | cons d ds => simp [layLine]

/-- Exactly the blank lines are laid out as empty ones. -/
theorem isEmpty_layLine (level : Nat) (raw : List Char) :
    (layLine level (parts raw).1 (parts raw).2).isEmpty = allBlank raw := by
  rw [Bool.eq_iff_iff, List.isEmpty_iff, layLine_eq_nil_iff, parts_eq_nil_iff]

theorem sameContent_layLine (h : '\n' ∉ raw) (level : Nat) :
    SameContent raw (layLine level (parts raw).1 (parts raw).2) := by
  obtain ⟨code, hsplit, -⟩ := splitComment_layLine level raw
  refine ⟨congrArg Prod.fst (parts_layLine h level), ?_⟩
  rw [hsplit]
  rfl

end

/-- The last line is laid out at some level, whatever stands before it. -/
theorem layLines_concat (depth : Nat) (lines : List (List Char)) (raw : List Char) :
    ∃ level, layLines depth (lines ++ [raw]) =
      layLines depth lines ++ [layLine level (parts raw).1 (parts raw).2] := by
  induction lines generalizing depth with
  | nil => exact ⟨levelOf (parts raw).1 depth, rfl⟩
  | cons l lines ih =>
    obtain ⟨level, hlast⟩ := ih (depthAfter (parts l).1 depth)
    exact ⟨level, by rw [List.cons_append, layLines_cons, hlast, layLines_cons, List.cons_append]⟩

/-- The lines that are kept are those up to the last one that is not blank. -/
theorem kept_eq (lines : List (List Char)) :
    kept lines = layLines 0 (lines.rdropWhile allBlank) := by
  induction lines using List.reverseRecOn with
  | nil => rfl
  | append_singleton lines raw ih =>
    obtain ⟨level, hlast⟩ := layLines_concat 0 lines raw
    -- The last line goes on both sides or on neither.
    rw [kept, hlast, List.rdropWhile_concat, List.rdropWhile_concat, isEmpty_layLine]
    split
    · exact ih
    · exact hlast.symm

theorem sameContent_layLines {lines : List (List Char)} (h : ∀ l ∈ lines, '\n' ∉ l)
    (depth : Nat) : List.Forall₂ SameContent lines (layLines depth lines) := by
  induction lines generalizing depth with
  | nil => exact .nil
  | cons raw lines ih =>
    obtain ⟨hraw, hrest⟩ := List.forall_mem_cons.mp h
    rw [layLines_cons]
    exact .cons (sameContent_layLine hraw _) (ih hrest _)

/-- **Laying out loses nothing.** The lines of a script up to the last one that is not blank are
laid out one for one, each with its code and its comment, and these are the lines of the result,
which ends in a single line feed. Of a script with blank lines only, a line feed is left. -/
theorem reformat_keeps_content (source : List Char) : ∃ laid,
    List.Forall₂ SameContent ((splitLines (joinReturns source)).rdropWhile allBlank) laid ∧
      reformat source = joinLines laid ++ ['\n'] ∧
      (joinLines laid).getLast? ≠ some '\n' ∧
      (laid ≠ [] → splitLines (reformat source) = laid ++ [[]]) ∧
      ((∀ l ∈ splitLines (joinReturns source), allBlank l = true) → reformat source = ['\n']) := by
  have hlines : ∀ l ∈ splitLines (joinReturns source), '\n' ∉ l :=
    fun l hl => newline_not_mem_splitLines hl
  refine ⟨kept (splitLines (joinReturns source)), ?_, reformat_eq source, ?_, ?_, ?_⟩
  · have hshown := List.rdropWhile_prefix allBlank (splitLines (joinReturns source))
    rw [kept_eq]
    exact sameContent_layLines (fun l hl => hlines l (hshown.subset hl)) 0
  · have hbody := List.append_cancel_right (reformat_eq source)
    rw [← hbody]
    exact fun hlast => absurd (endsTight_trimRight _ _ hlast) (by decide)
  · intro hne
    rw [reformat_eq]
    exact splitLines_joinLines_concat hne fun l hl => (mem_kept hlines hl).2
  · intro hblank
    rw [reformat_eq, kept_eq, List.rdropWhile_eq_nil_iff.mpr hblank]
    rfl

end Layout
end PlainSketch
