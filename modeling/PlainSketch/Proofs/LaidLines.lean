import PlainSketch.Layout
import PlainSketch.Proofs.LineSorts
import PlainSketch.Proofs.Spacing

/-!
# Lines laid out

A line that is laid out splits into the same code and the same comment as before, but for spacing.
The splitter knows strings by their quotes and by the character before a quote, and neither changes
with the length of a run of blanks. So laying out lines twice is laying them out once, and since no
line ends in a blank and only empty lines are dropped at the end, the same goes for whole scripts.
-/
namespace PlainSketch

/-! ## Where a comment starts -/

namespace Line
open Text

/-- What the splitter keeps in mind: whether the last character was a backslash, and whether it is
inside a string. -/
structure Scan where
  escaped : Bool := false
  inString : Bool := false
deriving DecidableEq

namespace Scan

/-- The splitter goes on by one character. -/
def step (s : Scan) (c : Char) : Scan :=
  ⟨c == '\\', if c == '"' && !s.escaped then !s.inString else s.inString⟩

/-- The splitter goes on by a text. -/
def steps (s : Scan) (cs : List Char) : Scan := cs.foldl step s

/-- No comment starts in the text, which `next` follows. -/
def Quiet (next : Option Char) : Scan → List Char → Prop
  | _, [] => True
  | s, c :: cs =>
    ((s.step c).inString = true ∨ c ≠ '#' ∧ (c = '/' → cs.head?.or next ≠ some '/')) ∧
      Quiet next (s.step c) cs

section
variable {s : Scan} {next : Option Char} {c : Char} {cs ds : List Char}

theorem step_blank (hc : isBlank c = true) (s : Scan) : s.step c = { s with escaped := false } := by
  simp [step, ne_of_isBlank (d := '"') hc rfl, ne_of_isBlank (d := '\\') hc rfl]

theorem steps_append (s : Scan) (cs ds : List Char) :
    s.steps (cs ++ ds) = (s.steps cs).steps ds := List.foldl_append

theorem inString_steps_blank (h : ∀ c ∈ cs, isBlank c = true) (s : Scan) :
    (s.steps cs).inString = s.inString := by
  induction cs generalizing s with
  | nil => rfl
  | cons c cs ih =>
    show ((s.step c).steps cs).inString = s.inString
    rw [ih fun d hd => h d (List.mem_cons_of_mem c hd), step_blank (h c List.mem_cons_self)]

theorem steps_blank (h : ∀ c ∈ cs, isBlank c = true) : steps {} cs = {} := by
  induction cs with
  | nil => rfl
  | cons c cs ih =>
    show (step {} c).steps cs = {}
    rw [step_blank (h c List.mem_cons_self)]
    exact ih fun d hd => h d (List.mem_cons_of_mem c hd)

theorem quiet_append :
    Quiet next s (cs ++ ds) ↔ Quiet (ds.head?.or next) s cs ∧ Quiet next (s.steps cs) ds := by
  induction cs generalizing s with
  | nil => simp [Quiet, steps]
  | cons c cs ih =>
    simp only [List.cons_append, Quiet, List.head?_append, Option.or_assoc, ih, and_assoc]
    rfl

theorem quiet_of_all_blank (h : ∀ c ∈ cs, isBlank c = true) : Quiet next s cs := by
  induction cs generalizing s with
  | nil => trivial
  | cons c cs ih =>
    have hc := h c List.mem_cons_self
    have hrest := ih (s := s.step c) fun d hd => h d (List.mem_cons_of_mem c hd)
    exact ⟨.inr ⟨ne_of_isBlank hc rfl, fun hs => absurd hs (ne_of_isBlank hc rfl)⟩, hrest⟩

/-- All that matters of what follows is whether it is a slash. -/
theorem Quiet.before {next' : Option Char} (h : Quiet next s cs) (hn : next' ≠ some '/') :
    Quiet next' s cs := by
  induction cs generalizing s with
  | nil => trivial
  | cons c cs ih =>
    refine ⟨h.1.imp_right fun hc => ⟨hc.1, fun he => ?_⟩, ih h.2⟩
    cases cs with
    | nil => exact hn
    | cons d ds => exact hc.2 he

theorem steps_flat (s : Scan) (cs : List Char) : s.steps (flat cs) = s.steps cs := by
  induction cs generalizing s with
  | nil => rfl
  | cons c cs ih =>
    by_cases hc : isBlank c = true
    · rw [flat, if_pos hc]
      split
      · next hd =>
        -- the blanks that follow lead to the same state with this one and without it
        cases cs with
        | nil => cases hd
        | cons d ds =>
          have hd' : isBlank d = true := hd
          rw [ih]
          simp only [steps, List.foldl_cons, step_blank hc, step_blank hd']
      · show ((s.step ' ').steps (flat cs)) = (s.step c).steps cs
        rw [ih, step_blank hc, step_blank (by decide)]
    · rw [flat_cons (by simpa using hc)]
      exact ih (s.step c)

/-- Where no comment starts, none starts with other spacing. -/
theorem quiet_flat : Quiet next s (flat cs) ↔ Quiet next s cs := by
  induction cs generalizing s with
  | nil => rfl
  | cons c cs ih =>
    -- A blank starts no comment, and all it changes is to end an escape.
    have blank : ∀ {d : Char} {ds : List Char} {s : Scan}, isBlank d = true →
        (Quiet next s (d :: ds) ↔ Quiet next { s with escaped := false } ds) := by
      intro d ds s hd
      rw [Quiet, step_blank hd]
      refine and_iff_right (.inr ⟨ne_of_isBlank hd rfl, fun hs => ?_⟩)
      exact absurd hs (ne_of_isBlank hd rfl)
    by_cases hc : isBlank c = true
    · rw [flat, if_pos hc, blank hc]
      split
      · next hd =>
        cases cs with
        | nil => cases hd
        | cons d ds =>
          have hd' : isBlank d = true := hd
          rw [ih, blank hd', blank hd']
      · rw [blank (by decide), ih]
    · have hhead : ((flat cs).head?.or next = some '/') ↔ (cs.head?.or next = some '/') := by
        cases cs with
        | nil => rfl
        | cons d ds =>
          by_cases hd : isBlank d = true
          · rw [flat_cons_blank hd]
            simp [ne_of_isBlank (d := '/') hd rfl]
          · rw [flat_cons (by simpa using hd)]
            rfl
      rw [flat_cons (by simpa using hc), Quiet, Quiet, ih, ne_eq, ne_eq, hhead]

theorem quiet_squeeze : Quiet next s (squeeze cs) ↔ Quiet next s cs := by
  rw [← quiet_flat, flat_squeeze, quiet_flat]

theorem steps_squeeze (s : Scan) (cs : List Char) : s.steps (squeeze cs) = s.steps cs := by
  rw [← steps_flat, flat_squeeze, steps_flat]

end
end Scan

/-- The text starts a comment. -/
def StartsComment (cs : List Char) : Prop := cs.head? = some '#' ∨ ['/', '/'] <+: cs

namespace Scan

/-- Code and comment of a text, by the state in front of it. -/
def cut (s : Scan) : List Char → List Char × List Char
  | [] => ([], [])
  | c :: cs =>
    if !(s.step c).inString && (c == '#' || (c == '/' && cs.head? == some '/')) then ([], c :: cs)
    else (c :: ((s.step c).cut cs).1, ((s.step c).cut cs).2)

section
variable {s : Scan} {cs ds : List Char}

theorem splitCommentFrom_eq (before : Option Char) (inString : Bool) (cs : List Char) :
    splitCommentFrom before inString cs = cut ⟨before == some '\\', inString⟩ cs := by
  induction cs generalizing before inString with
  | nil => rfl
  | cons c cs ih =>
    simp only [splitCommentFrom, cut, ih]
    rfl

theorem splitComment_eq (line : List Char) : splitComment line = cut {} line :=
  splitCommentFrom_eq none false line

/-- Code in which no comment starts stays code. -/
theorem cut_append (h : s.Quiet ds.head? cs) :
    s.cut (cs ++ ds) = (cs ++ ((s.steps cs).cut ds).1, ((s.steps cs).cut ds).2) := by
  induction cs generalizing s with
  | nil => rfl
  | cons c cs ih =>
    have hquiet : (!(s.step c).inString &&
        (c == '#' || (c == '/' && (cs ++ ds).head? == some '/'))) = false := by
      rcases h.1 with hin | ⟨hhash, hslash⟩
      · simp [hin]
      · rw [List.head?_append]
        by_cases hc : c = '/'
        · simp [hc, hslash hc]
        · simp [hc, hhash]
    rw [List.cons_append, cut, hquiet, ih h.2]
    rfl

/-- What the splitter takes for code and comment. -/
theorem cut_spec (s : Scan) (cs : List Char) :
    (s.cut cs).1 ++ (s.cut cs).2 = cs ∧ s.Quiet (s.cut cs).2.head? (s.cut cs).1 ∧
      ((s.cut cs).2 = [] ∨
        StartsComment (s.cut cs).2 ∧ (s.steps (s.cut cs).1).inString = false) := by
  induction cs generalizing s with
  | nil => exact ⟨rfl, trivial, .inl rfl⟩
  | cons c cs ih =>
    rw [cut]
    split
    · next hstart =>
      simp only [Bool.and_eq_true, Bool.not_eq_true', Bool.or_eq_true, beq_iff_eq] at hstart
      obtain ⟨hout, hstart⟩ := hstart
      refine ⟨rfl, trivial, .inr ⟨?_, ?_⟩⟩
      · rcases hstart with rfl | ⟨rfl, hnext⟩
        · exact .inl rfl
        · cases cs with
          | nil => cases hnext
          | cons d ds =>
            cases hnext
            exact .inr ⟨ds, rfl⟩
      · rcases hstart with rfl | ⟨rfl, -⟩
        · exact hout
        · exact hout
    · next hstart =>
      -- `c` stays with the code: it starts no comment, or it stands in a string
      obtain ⟨happend, hquiet, hend⟩ := ih (s.step c)
      have hhead : ((s.step c).cut cs).1.head?.or ((s.step c).cut cs).2.head? = cs.head? := by
        rw [← List.head?_append, happend]
      refine ⟨by rw [List.cons_append, happend], ⟨?_, hquiet⟩, hend⟩
      rw [hhead]
      by_cases hin : (s.step c).inString = true
      · exact .inl hin
      · simp only [hin, Bool.not_false, Bool.true_and, Bool.or_eq_true, beq_iff_eq, not_or,
          Bool.and_eq_true, not_and] at hstart
        exact .inr hstart

theorem cut_of_startsComment (h : StartsComment cs) (hs : s.inString = false) :
    s.cut cs = ([], cs) := by
  rcases h with h | ⟨ds, rfl⟩
  · cases cs with
    | nil => cases h
    | cons c cs =>
      cases h
      simp [cut, step, hs]
  · simp [cut, step, hs]

/-- Code with blanks around it, and a comment behind it. -/
theorem cut_between {margin pad : List Char} (hm : ∀ c ∈ margin, isBlank c = true)
    (hp : ∀ c ∈ pad, isBlank c = true) (hq : Quiet (pad ++ ds).head? {} cs)
    (hd : ds = [] ∨ StartsComment ds ∧ (steps {} cs).inString = false) :
    cut {} (margin ++ (cs ++ (pad ++ ds))) = (margin ++ (cs ++ pad), ds) := by
  have hrest : ((steps {} cs).steps pad).cut ds = ([], ds) := by
    rcases hd with rfl | ⟨hstart, hout⟩
    · rfl
    · exact cut_of_startsComment hstart (by rw [inString_steps_blank hp, hout])
  rw [cut_append (quiet_of_all_blank hm), steps_blank hm, cut_append hq,
    cut_append (quiet_of_all_blank hp), hrest]
  simp

theorem quiet_trim {next next' : Option Char} (h : Quiet next {} cs) (hn : next' ≠ some '/') :
    Quiet next' {} (trim cs) := by
  obtain ⟨bs, es, hsplit, hbs, hes⟩ := exists_trim cs
  rw [hsplit, quiet_append, quiet_append, steps_blank hbs] at h
  exact h.2.1.before hn

theorem inString_steps_trim (cs : List Char) :
    (steps {} (trim cs)).inString = (steps {} cs).inString := by
  obtain ⟨bs, es, hsplit, hbs, hes⟩ := exists_trim cs
  conv_rhs => rw [hsplit, steps_append, steps_append, steps_blank hbs, inString_steps_blank hes]

end
end Scan

/-! ## A line laid out -/

section
variable {cs raw : List Char}

theorem StartsComment.trim (h : StartsComment cs) : StartsComment (trim cs) := by
  rcases h with h | ⟨ds, rfl⟩
  · cases cs with
    | nil => cases h
    | cons c cs =>
      cases h
      rw [trim_cons (by decide)]
      exact .inl rfl
  · rw [List.cons_append, trim_cons (by decide), List.singleton_append,
      trimRight_cons_of_not_blank (by decide)]
    exact .inr ⟨trimRight ds, rfl⟩

end
end Line

namespace Layout
open Text Line

/-- What a line has besides blanks, once its code is squeezed. -/
def parts (raw : List Char) : List Char × List Char :=
  (collapse (splitComment raw).1, trim (splitComment raw).2)

/-- A laid out line has spaces around its code, and some between code and comment. -/
theorem layLine_eq (level : Nat) (code comment : List Char) : ∃ margin pad,
    layLine level code comment = margin ++ (code ++ (pad ++ comment)) ∧
      (∀ c ∈ margin, c = ' ') ∧ (∀ c ∈ pad, c = ' ') ∧
      (code ≠ [] → margin = List.replicate (2 * level) ' ' ∧
        (pad ++ comment).head? ≠ some '/') := by
  have hmargin : ∀ c ∈ List.replicate (2 * level) ' ', c = ' ' :=
    fun c hc => List.eq_of_mem_replicate hc
  cases code with
  | nil =>
    cases comment with
    | nil => exact ⟨[], [], rfl, nofun, nofun, fun h => absurd rfl h⟩
    | cons d ds => exact ⟨_, [], rfl, hmargin, nofun, fun h => absurd rfl h⟩
  | cons c cs =>
    cases comment with
    | nil => exact ⟨_, [], by simp [layLine], hmargin, nofun, fun _ => ⟨rfl, by simp⟩⟩
    | cons d ds =>
      exact ⟨_, [' ', ' '], by simp [layLine], hmargin, by simp, fun _ => ⟨rfl, by simp⟩⟩

theorem newline_not_mem_layLine {code comment : List Char} (hcode : '\n' ∉ code)
    (hcomment : '\n' ∉ comment) (level : Nat) : '\n' ∉ layLine level code comment := by
  obtain ⟨margin, pad, hlay, hm, hp, -⟩ := layLine_eq level code comment
  have hspaces : '\n' ∉ margin ∧ '\n' ∉ pad := by
    constructor
    · intro hmem
      exact absurd (hm _ hmem) (by decide)
    · intro hmem
      exact absurd (hp _ hmem) (by decide)
  simp [hlay, hspaces, hcode, hcomment]

theorem endsTight_layLine {code comment : List Char} (hcode : EndsTight code)
    (hcomment : EndsTight comment) (level : Nat) : EndsTight (layLine level code comment) := by
  cases code with
  | nil =>
    cases comment with
    | nil => exact endsTight_nil
    | cons d ds => exact hcomment.append (by simp) _
  | cons c cs =>
    cases comment with
    | nil => exact hcode.append (by simp) _
    | cons d ds =>
      have hrest := hcomment.append (by simp) [' ', ' ']
      exact hrest.append (by simp) _

section
variable {raw : List Char}

/-- A line that is laid out has the same code and comment. -/
theorem splitComment_layLine (level : Nat) (raw : List Char) :
    ∃ code, splitComment (layLine level (parts raw).1 (parts raw).2) = (code, (parts raw).2) ∧
      trim code = (parts raw).1 := by
  obtain ⟨margin, pad, hlay, hm, hp, hcode⟩ := layLine_eq level (parts raw).1 (parts raw).2
  obtain ⟨-, hquiet, hend⟩ := Scan.cut_spec {} raw
  rw [← Scan.splitComment_eq] at hquiet hend
  have hspace : ∀ {cs : List Char}, (∀ c ∈ cs, c = ' ') → ∀ c ∈ cs, isBlank c = true := by
    intro cs hcs c hc
    rw [hcs c hc]
    decide
  have hq : Scan.Quiet (pad ++ (parts raw).2).head? {} (parts raw).1 := by
    by_cases hnil : (parts raw).1 = []
    · rw [hnil]
      trivial
    · rw [parts, collapse_eq, Scan.quiet_squeeze]
      exact Scan.quiet_trim hquiet (hcode hnil).2
  have hd : (parts raw).2 = [] ∨
      StartsComment (parts raw).2 ∧ (Scan.steps {} (parts raw).1).inString = false := by
    rcases hend with hnil | ⟨hstart, hout⟩
    · exact .inl (by rw [parts, hnil]; rfl)
    · refine .inr ⟨hstart.trim, ?_⟩
      rw [parts, collapse_eq, Scan.steps_squeeze, Scan.inString_steps_trim, hout]
  refine ⟨margin ++ ((parts raw).1 ++ pad), ?_, ?_⟩
  · rw [hlay, Scan.splitComment_eq, Scan.cut_between (hspace hm) (hspace hp) hq hd]
  · rw [trim_between (hspace hm) (hspace hp)]
    exact trim_trim _

theorem newline_not_mem_splitComment (h : '\n' ∉ raw) :
    '\n' ∉ (splitComment raw).1 ∧ '\n' ∉ (splitComment raw).2 := by
  obtain ⟨happend, -, -⟩ := Scan.cut_spec {} raw
  rw [← Scan.splitComment_eq] at happend
  rwa [← happend, List.mem_append, not_or] at h

/-- Laying out a line that is laid out finds what it found before. -/
theorem parts_layLine (h : '\n' ∉ raw) (level : Nat) :
    parts (layLine level (parts raw).1 (parts raw).2) = parts raw := by
  obtain ⟨code, hsplit, htrim⟩ := splitComment_layLine level raw
  have hcode : collapse code = (parts raw).1 := by
    rw [collapse_eq, htrim]
    exact squeeze_collapse (newline_not_mem_splitComment h).1
  rw [parts, hsplit, hcode]
  exact Prod.ext rfl (trim_trim _)

end
/-! ## Scripts -/

theorem layLines_cons (depth : Nat) (raw : List Char) (ls : List (List Char)) :
    layLines depth (raw :: ls) =
      layLine (levelOf (parts raw).1 depth) (parts raw).1 (parts raw).2 ::
        layLines (depthAfter (parts raw).1 depth) ls := rfl

/-- Laying out lines twice is laying them out once. -/
theorem layLines_layLines {ls : List (List Char)} (h : ∀ l ∈ ls, '\n' ∉ l) (depth : Nat) :
    layLines depth (layLines depth ls) = layLines depth ls := by
  induction ls generalizing depth with
  | nil => rfl
  | cons raw ls ih =>
    rw [layLines_cons, layLines_cons, parts_layLine (h raw List.mem_cons_self),
      ih fun l hl => h l (List.mem_cons_of_mem raw hl)]

theorem take_layLines (k depth : Nat) (ls : List (List Char)) :
    (layLines depth ls).take k = layLines depth (ls.take k) := by
  induction ls generalizing k depth with
  | nil => simp [layLines]
  | cons raw ls ih =>
    cases k with
    | zero => rfl
    | succ k => rw [layLines_cons, List.take_succ_cons, ih, List.take_succ_cons, layLines_cons]

/-- An empty line stays empty, whatever stands before it. -/
theorem layLines_concat_nil (depth : Nat) (ls : List (List Char)) :
    layLines depth (ls ++ [[]]) = layLines depth ls ++ [[]] := by
  induction ls generalizing depth with
  | nil =>
    simp [layLines, splitComment, splitCommentFrom, collapse, trim, trimLeft, trimRight, layLine]
  | cons raw ls ih => rw [List.cons_append, layLines_cons, ih, layLines_cons, List.cons_append]

theorem mem_layLines {ls : List (List Char)} {depth : Nat} {l : List Char}
    (h : l ∈ layLines depth ls) :
    ∃ raw ∈ ls, ∃ level, l = layLine level (parts raw).1 (parts raw).2 := by
  induction ls generalizing depth with
  | nil => cases h
  | cons raw ls ih =>
    rw [layLines_cons] at h
    rcases List.mem_cons.mp h with rfl | h
    · exact ⟨raw, List.mem_cons_self, _, rfl⟩
    · obtain ⟨raw', hraw, level, he⟩ := ih h
      exact ⟨raw', List.mem_cons_of_mem raw hraw, level, he⟩

end Layout

/-! ## Lines of a text -/

namespace Text

theorem joinLines_concat {ls : List (List Char)} (h : ls ≠ []) (l : List Char) :
    joinLines (ls ++ [l]) = joinLines ls ++ '\n' :: l := by
  induction ls with
  | nil => exact absurd rfl h
  | cons m ls ih =>
    cases ls with
    | nil =>
      rw [joinLines_singleton, List.singleton_append, joinLines_cons_cons, joinLines_singleton]
    | cons n ls =>
      have hrest := ih (by simp)
      rw [List.cons_append] at hrest ⊢
      rw [List.cons_append, joinLines_cons_cons, ← List.cons_append, List.cons_append, hrest,
        joinLines_cons_cons, List.append_assoc, List.cons_append]

/-- Of lines that do not end in blanks, only empty ones at the end are trimmed away. -/
theorem trimRight_joinLines {ls : List (List Char)} (h : ∀ l ∈ ls, EndsTight l) :
    trimRight (joinLines ls) = joinLines (ls.rdropWhile List.isEmpty) := by
  induction ls using List.reverseRecOn with
  | nil => rfl
  | append_singleton ls l ih =>
    have hinit := ih fun m hm => h m (List.mem_append_left _ hm)
    have hl : EndsTight l := h l (by simp)
    rw [List.rdropWhile_concat]
    by_cases hne : l = []
    · subst hne
      rw [List.isEmpty_nil, if_pos rfl, ← hinit]
      by_cases hls : ls = []
      · rw [hls]
        rfl
      · have hblank : isBlank '\n' = true := by decide
        rw [joinLines_concat hls, trimRight_append_of_all_blank (by simp [hblank])]
    · rw [if_neg (by simpa using hne)]
      refine trimRight_eq_self ?_
      by_cases hls : ls = []
      · rw [hls, List.nil_append, joinLines_singleton]
        exact hl
      · rw [joinLines_concat hls, List.append_cons]
        exact hl.append hne _

/-- A line that does not end in a return is not changed by joining returns to line feeds. -/
theorem joinReturns_append {l : List Char} (hl : EndsTight l) (hn : '\n' ∉ l) (cs : List Char) :
    joinReturns (l ++ '\n' :: cs) = l ++ '\n' :: joinReturns cs := by
  induction l with
  | nil => rfl
  | cons c l ih =>
    have hrest := ih (hl.of_suffix (List.suffix_cons c l)) (List.not_mem_of_not_mem_cons hn)
    rw [List.cons_append, joinReturns, hrest, List.cons_append]
    intro ds hc hds
    subst hc
    cases l with
    | nil => exact absurd (hl _ rfl) (by decide)
    | cons d l =>
      cases hds
      exact hn (by simp)

/-- Lines that do not end in returns are joined to a text without returns before line feeds. -/
theorem joinReturns_joinLines {ls : List (List Char)} (h : ∀ l ∈ ls, EndsTight l ∧ '\n' ∉ l) :
    joinReturns (joinLines ls ++ ['\n']) = joinLines ls ++ ['\n'] := by
  induction ls with
  | nil => rfl
  | cons l ls ih =>
    obtain ⟨⟨hl, hn⟩, hls⟩ := List.forall_mem_cons.mp h
    cases ls with
    | nil =>
      rw [joinLines_singleton]
      exact joinReturns_append hl hn []
    | cons m ls =>
      rw [joinLines_cons_cons, List.append_assoc, List.cons_append, joinReturns_append hl hn,
        ih hls]

/-- Lines that end in a line feed each, and the empty rest behind the last one. -/
theorem splitLines_joinLines_concat {ls : List (List Char)} (hne : ls ≠ [])
    (h : ∀ l ∈ ls, '\n' ∉ l) : splitLines (joinLines ls ++ ['\n']) = ls ++ [[]] := by
  rw [splitLines_append_newline, splitLines_joinLines hne h]
  rfl

end Text

/-! ## Laying out twice -/

namespace Layout
open Text Line

/-- The lines of a script when it is laid out, without empty ones at the end. -/
def kept (lines : List (List Char)) : List (List Char) :=
  (layLines 0 lines).rdropWhile List.isEmpty

section
variable {lines : List (List Char)} {source : List Char}

theorem kept_isPrefix (lines : List (List Char)) : kept lines <+: layLines 0 lines :=
  List.rdropWhile_prefix _ _

theorem kept_eq_layLines (lines : List (List Char)) :
    kept lines = layLines 0 (lines.take (kept lines).length) := by
  rw [← take_layLines]
  exact List.prefix_iff_eq_take.mp (kept_isPrefix lines)

theorem mem_kept (h : ∀ l ∈ lines, '\n' ∉ l) {l : List Char} (hl : l ∈ kept lines) :
    EndsTight l ∧ '\n' ∉ l := by
  obtain ⟨raw, hraw, level, rfl⟩ := mem_layLines ((kept_isPrefix lines).subset hl)
  have hn := newline_not_mem_splitComment (h raw hraw)
  refine ⟨endsTight_layLine (endsTight_trimRight _) (endsTight_trimRight _) level,
    newline_not_mem_layLine ?_ ?_ level⟩
  · exact fun hmem => newline_not_mem_squeeze hn.1 ((trim_isInfix _).subset hmem)
  · exact fun hmem => hn.2 ((trim_isInfix _).subset hmem)

theorem reformat_eq (source : List Char) :
    reformat source = joinLines (kept (splitLines (joinReturns source))) ++ ['\n'] := by
  rw [reformat, trimRight_joinLines, kept]
  intro l hl
  obtain ⟨raw, -, level, rfl⟩ := mem_layLines hl
  exact endsTight_layLine (endsTight_trimRight _) (endsTight_trimRight _) level

/-- The lines that a laid out script is read back as. -/
theorem splitLines_reformat (source : List Char) :
    splitLines (joinReturns (reformat source)) =
      match kept (splitLines (joinReturns source)) with
      | [] => [[], []]
      | l :: ls => l :: ls ++ [[]] := by
  have hlines : ∀ l ∈ splitLines (joinReturns source), '\n' ∉ l :=
    fun l hl => newline_not_mem_splitLines hl
  rw [reformat_eq]
  split
  · next hnil => rw [hnil]; rfl
  · next l ls hcons =>
    rw [← hcons]
    have hkept := fun m hm => mem_kept hlines (l := m) hm
    rw [joinReturns_joinLines hkept,
      splitLines_joinLines_concat (by simp [hcons]) fun m hm => (hkept m hm).2]

/-- **Laying out a script that is laid out changes nothing.** -/
theorem reformat_reformat (source : List Char) : reformat (reformat source) = reformat source := by
  have hlines : ∀ l ∈ splitLines (joinReturns source), '\n' ∉ l :=
    fun l hl => newline_not_mem_splitLines hl
  have hkept : kept (splitLines (joinReturns (reformat source))) =
      kept (splitLines (joinReturns source)) := by
    rw [splitLines_reformat]
    split
    · next hnil =>
      rw [hnil, kept, show [([] : List Char), []] = [[]] ++ [[]] from rfl, layLines_concat_nil,
        show [([] : List Char)] = [] ++ [[]] from rfl, layLines_concat_nil]
      rfl
    · next l ls hcons =>
      have hself : layLines 0 (l :: ls) = l :: ls := by
        rw [← hcons, kept_eq_layLines]
        exact layLines_layLines (fun m hm => hlines m (List.mem_of_mem_take hm)) 0
      rw [kept, layLines_concat_nil, hself, List.rdropWhile_concat_pos _ _ _ rfl, ← hcons]
      exact List.rdropWhile_idempotent _ _
  rw [reformat_eq, hkept, ← reformat_eq]

end
end Layout
end PlainSketch
