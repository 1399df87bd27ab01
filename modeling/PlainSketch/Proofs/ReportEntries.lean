import PlainSketch.Proofs.BoardSwap
import PlainSketch.Proofs.PinLines
import PlainSketch.Proofs.SketchSpacing

/-!
# What a report shows

Everything that is found in a script is found on one of its lines: both passes report about the line
that they are at, and the end of the script is reported on its first or last line, which is there
even if the script is empty. So a report has the line of every diagnostic to show. It has one entry
for each of them, by line and otherwise in the order in which they were found, and the two counts at
its end are those of the errors and of the warnings.
-/
namespace PlainSketch
open Text

/-! ## Lines that are reported about -/

namespace Build

/-- Whatever a run reports, it reports about lines in `L`. -/
def ReportsWithin (L : Int → Prop) {α : Type} (m : Build α) : Prop :=
  ∀ s a t, m s = .ok a t → ∀ f ∈ t.findings, f ∈ s.findings ∨ L f.line

section
variable {α β : Type} {L : Int → Prop} {line : Int} {m : Build α} {f : α → Build β}

theorem ReportsOn.within (h : ReportsOn line m) (hl : L line) : ReportsWithin L m :=
  fun s a t hm f hf => (h s a t hm f hf).imp_right fun (he : f.line = line) => he ▸ hl

theorem reportsWithin_of_quiet (h : ∀ s a t, m s = .ok a t → t.findings = s.findings) :
    ReportsWithin L m := fun s a t hm _ hf => .inl (h s a t hm ▸ hf)

theorem ReportsWithin.bind (hm : ReportsWithin L m) (hf : ∀ a, ReportsWithin L (f a)) :
    ReportsWithin L (m >>= f) := by
  intro s b u h g hg
  obtain ⟨a, t, ha, hb⟩ := bind_eq_ok.mp h
  exact (hf a t b u hb g hg).elim (hm s a t ha g) .inr

end

section
variable (line : Int)

theorem mention_reportsOn (name : String) : ReportsOn line (mention name line) := by
  refine table_reportsOn.bind fun t => ?_
  split
  · exact reportsOn_pure true
  · exact observeVariable_reportsOn line name .long

theorem mentionAll_reportsOn (names : List String) : ReportsOn line (mentionAll line names) := by
  induction names with
  | nil => exact reportsOn_pure ()
  | cons n ns ih => exact (mention_reportsOn line n).bind fun _ => ih

theorem writeTarget_reportsOn (name : String) (type : ValueType) :
    ReportsOn line (writeTarget name type line) := by
  refine table_reportsOn.bind fun t => ?_
  split
  · exact reportsOn_pure true
  · exact observeVariable_reportsOn line name type

theorem checkPwm_reportsOn (ref : PinRef) : ReportsOn line (checkPwm ref line) := by
  unfold checkPwm
  split
  · exact report_reportsOn line _
  · refine table_reportsOn.bind fun t => ?_
    split
    · exact report_reportsOn line _
    · exact reportsOn_pure ()
  · exact reportsOn_pure ()

end

/-- A statement or a condition is reported about on its own line. -/
theorem compositional_reportsOn :
    Compositional (fun _ _ m => ∀ line, ReportsOn line (m line)) fun _ _ => True where
  pure _ := fun _ => reportsOn_pure _
  bind hm hf := fun line => (hm line).bind fun a => hf a line
  ofExcept x := fun _ => ofExcept_reportsOn x
  report p := fun line => report_reportsOn line p
  useNames _ := fun line => table_reportsOn.bind fun _ => mentionAll_reportsOn line _
  observe name := fun line => observeVariable_reportsOn line name .long
  writeTarget {name type} _ := fun line => writeTarget_reportsOn line name type
  pinOfWord token := fun line => pinOfWord_reportsOn line token
  checkPwm ref := fun line => checkPwm_reportsOn line ref
  isFunction _ := fun _ => table_reportsOn.bind fun _ => reportsOn_pure _

/-- Reporting within bounds passes to the steps of the second pass. -/
theorem closed_reportsWithin (L : Int → Prop) : Closed L fun _ m => ReportsWithin L m where
  pure _ := reportsWithin_of_quiet fun _ _ _ h => by cases h; rfl
  throw _ := fun _ _ _ h => by cases h
  bind hm hf := hm.bind hf
  report hl p := (report_reportsOn _ p).within hl
  log _ := reportsWithin_of_quiet fun _ _ _ h => by cases h; rfl
  findFunction _ := reportsWithin_of_quiet fun _ _ _ h => by cases h; rfl

theorem outlineFrom_reportsWithin {L : Int → Prop} {ls : List (Int × List Char)}
    (h : ∀ l ∈ ls, L l.1) (depth : Nat) : ReportsWithin L (outlineFrom depth ls) := by
  induction ls generalizing depth with
  | nil => exact reportsWithin_of_quiet fun _ _ _ h => by cases h; rfl
  | cons l ls ih =>
    obtain ⟨hl, hls⟩ := List.forall_mem_cons.mp h
    exact ((outlineLine_reportsOn l.1 depth _).within hl).bind fun d => ih hls d

end Build

/-- The numbers of the lines of a text. -/
def IsLineOf (lines : List (List Char)) (n : Int) : Prop := 1 ≤ n ∧ n ≤ lines.length

open Assemble in
theorem everywhere_assemble_reportsWithin {lines : List (List Char)} (hne : lines ≠ []) :
    Everywhere (fun _ m => Build.ReportsWithin (IsLineOf lines) m) (assemble lines) := by
  have hP := Build.closed_reportsWithin (IsLineOf lines)
  have hcomp := Build.compositional_reportsOn
  have hlength : 0 < lines.length := List.length_pos_of_ne_nil hne
  have hnumbered : ∀ l ∈ Line.numbered lines, IsLineOf lines l.1 := by
    intro l hl
    obtain ⟨hfirst, hlast⟩ := Line.bounds_of_mem_numberedFrom hl
    exact ⟨hfirst, by omega⟩
  have houtline : Build.ReportsWithin (IsLineOf lines) (Build.outline lines) :=
    (Build.outlineFrom_reportsWithin hnumbered 0).bind fun _ =>
      Build.reportsWithin_of_quiet fun _ _ _ h => by cases h; rfl
  refine (everywhere_build hP houtline).bind hP fun _ => ?_
  refine (everywhere_takeLines hP fun l hl => ?_).bind hP fun _ =>
    everywhere_finish hP ⟨by omega, by omega⟩ ⟨by omega, by omega⟩
  exact everywhere_takeLine hP (hnumbered l hl)
    (fun cs => (hcomp.condition cs l.1).within (hnumbered l hl))
    fun st _ _ => (hcomp.statement (fun _ _ _ => trivial) l.1).within (hnumbered l hl)

section
variable {o : Options} {source file : String} {c : Compilation}

theorem isLineOf_of_mem_findings (h : (compile o source file).result = .ok c) :
    ∀ f ∈ c.findings, IsLineOf (sourceLines source) f.line := by
  obtain ⟨a, ha, rfl⟩ := exists_assembly h
  intro f hf
  have hreports := everywhere_assemble_reportsWithin (splitLines_ne_nil _) _ _ _ _
    (Assemble.onSession_of_ok ha) f hf
  exact hreports.resolve_left List.not_mem_nil

end

/-! ## Entries -/

namespace Diagnostic

/-- The line at the end of a report: both counts in decimal, each with its noun, which is in the
plural unless the count is one. -/
def tally (errors warnings : Nat) : String :=
  toString errors ++ " error" ++ (if errors = 1 then "" else "s") ++ ", " ++
    toString warnings ++ " warning" ++ if warnings = 1 then "" else "s"

theorem counted_eq (n : Nat) (noun : String) :
    counted n noun = toString n ++ (" " ++ noun) ++ if n = 1 then "" else "s" := by
  rw [← String.append_assoc]
  by_cases hn : n = 1
  · rw [counted, if_pos (by simpa using hn), if_pos hn, String.append_empty]
    rfl
  · rw [counted, if_neg (by simpa using hn), if_neg hn]
    rfl

section
variable (ds : List Diagnostic)

theorem sorted_perm : (sorted ds).Perm ds := List.mergeSort_perm ds _

theorem line_le_trans (d e f : Diagnostic) (h : decide (d.line ≤ e.line) = true)
    (h' : decide (e.line ≤ f.line) = true) : decide (d.line ≤ f.line) = true := by
  simp only [decide_eq_true_eq] at *
  omega

theorem line_le_total (d e : Diagnostic) :
    (decide (d.line ≤ e.line) || decide (e.line ≤ d.line)) = true := by
  simp only [Bool.or_eq_true, decide_eq_true_eq]
  omega

theorem sorted_pairwise : (sorted ds).Pairwise fun d e => d.line ≤ e.line := by
  have h := List.pairwise_mergeSort line_le_trans line_le_total ds
  exact h.imp of_decide_eq_true

/-- Diagnostics of one line keep their order. -/
theorem filter_sorted (n : Int) :
    (sorted ds).filter (·.line == n) = ds.filter (·.line == n) := by
  have hsame : (ds.filter (·.line == n)).Pairwise fun d e => decide (d.line ≤ e.line) = true := by
    refine List.pairwise_of_forall_mem_list fun d hd e he => ?_
    have hdn := beq_iff_eq.mp (List.mem_filter.mp hd).2
    have hen := beq_iff_eq.mp (List.mem_filter.mp he).2
    simp [hdn, hen]
  have hsub : (ds.filter (·.line == n)).Sublist (sorted ds) :=
    List.sublist_mergeSort line_le_trans line_le_total hsame List.filter_sublist
  have hfilter := hsub.filter (·.line == n)
  rw [List.filter_filter] at hfilter
  simp only [Bool.and_self] at hfilter
  exact (hfilter.eq_of_length ((sorted_perm ds).filter _).length_eq.symm).symm

/-- What is no error is a warning. -/
theorem length_sub_countP_isError :
    ds.length - ds.countP isError = ds.countP (·.severity == .warning) := by
  have hwarning : ds.countP (fun d => decide ¬ d.isError = true) =
      ds.countP (·.severity == .warning) := by
    refine List.countP_congr fun d _ => ?_
    cases h : d.severity <;> simp [isError, h]
  have hlength := List.length_eq_countP_add_countP isError (l := ds)
  omega

theorem summary_eq : summary ds =
    tally (ds.countP (·.severity == .error)) (ds.countP (·.severity == .warning)) := by
  have hsummary : summary ds = counted (ds.countP (·.severity == .error)) "error" ++ ", " ++
      counted (ds.countP (·.severity == .warning)) "warning" := by
    rw [summary, length_sub_countP_isError]
    rfl
  have herror : " " ++ "error" = " error" := by decide
  have hwarning : " " ++ "warning" = " warning" := by decide
  rw [hsummary, counted_eq, counted_eq, herror, hwarning, tally]
  simp only [String.append_assoc]

end

/-- The entry for a diagnostic about a line of a file: place, severity and message, then what is
shown of the line, then a caret under the first column. -/
def entry (file : String) (d : Diagnostic) (shown : String) : String :=
  file ++ ":" ++ toString d.line ++ ":1: " ++
    (match d.severity with
      | .error => "error: "
      | .warning => "warning: ") ++
    d.message ++ "\n    " ++ shown ++ "\n    ^"

/-- The text is the entry for a diagnostic, with the line that it is about but for the blanks at the
end of the line. -/
def IsEntry (file : String) (lines : List (List Char)) (d : Diagnostic) (text : String) : Prop :=
  ∃ shown blanks, lines[(d.line - 1).toNat]? = some (shown ++ blanks) ∧
    (∀ c ∈ blanks, isBlank c = true) ∧ (∀ c, shown.getLast? = some c → isBlank c = false) ∧
    text = d.entry file (String.ofList shown)

theorem render_some {d : Diagnostic} (hc : d.column = 1) (file source : String) :
    d.render file (some source) = d.entry file source := by
  have hplace : location file d.line 1 ++ ": " = file ++ ":" ++ toString d.line ++ ":1: " := by
    rw [show ":1: " = ":" ++ (toString (1 : Int) ++ ": ") from by decide]
    simp only [← String.append_assoc]
    rfl
  have hseverity : d.severity.name ++ ": " =
      match d.severity with
        | .error => "error: "
        | .warning => "warning: " := by
    cases d.severity <;> decide
  have hcaret : "\n" ++ String.ofList (List.replicate (3 + (1 : Int).toNat) ' ') ++ "^" =
      "\n    ^" := by decide
  rw [entry, ← hplace, ← hseverity, ← hcaret]
  simp only [← String.append_assoc, render, hc]
  rfl

/-- A diagnostic about a line that is there is shown with this line. -/
theorem isEntry_render {lines : List (List Char)} {d : Diagnostic} (hl : IsLineOf lines d.line)
    (hc : d.column = 1) (file : String) :
    IsEntry file lines d (d.render file (sourceLine? (lines.map String.ofList) d.line)) := by
  obtain ⟨hfirst, hlast⟩ := hl
  have hindex : d.line.toNat - 1 = (d.line - 1).toNat := by omega
  obtain ⟨l, hl⟩ : ∃ l, lines[(d.line - 1).toNat]? = some l :=
    ⟨_, List.getElem?_eq_getElem (by omega)⟩
  have hsource : sourceLine? (lines.map String.ofList) d.line =
      some (String.ofList (trimRight l)) := by
    rw [sourceLine?, if_neg (by omega), hindex, List.getElem?_map, hl]
    simp
  refine ⟨trimRight l, l.rtakeWhile isBlank, ?_, fun c => List.mem_rtakeWhile_imp,
    fun c => getLast?_trimRight, ?_⟩
  · rw [trimRight_eq_rdropWhile, List.rdropWhile_append_rtakeWhile, hl]
  · rw [hsource, render_some hc]

end Diagnostic

/-- The report has an entry for each diagnostic and then a line that counts the errors and the
warnings. The entries are in the order of the lines, and those of one line in the order in which the
diagnostics were found. -/
def Compilation.ShowsAll (c : Compilation) (file : String) (lines : List (List Char)) : Prop :=
  ∃ ds entries, ds.Perm c.diagnostics ∧ ds.Pairwise (fun d e => d.line ≤ e.line) ∧
    (∀ n, ds.filter (·.line == n) = c.diagnostics.filter (·.line == n)) ∧
    List.Forall₂ (Diagnostic.IsEntry file lines) ds entries ∧
    c.report = "\n".intercalate (entries ++
      [Diagnostic.tally (c.diagnostics.countP (·.severity == .error))
        (c.diagnostics.countP (·.severity == .warning))])

theorem Compilation.showsAll {c : Compilation}
    (h : ∀ d ∈ c.diagnostics, IsLineOf c.lines d.line) : c.ShowsAll c.file c.lines := by
  refine ⟨Diagnostic.sorted c.diagnostics, (Diagnostic.sorted c.diagnostics).map fun d =>
      d.render c.file (Diagnostic.sourceLine? (c.lines.map String.ofList) d.line),
    Diagnostic.sorted_perm _, Diagnostic.sorted_pairwise _, Diagnostic.filter_sorted _, ?_, ?_⟩
  · rw [List.forall₂_map_right_iff, List.forall₂_same]
    intro d hd
    have hmem := (Diagnostic.sorted_perm _).subset hd
    obtain ⟨f, -, rfl⟩ := List.mem_map.mp hmem
    exact Diagnostic.isEntry_render (h _ hmem) rfl c.file
  · rw [← Diagnostic.summary_eq]
    rfl

/-- **A report shows every diagnostic once, with its line.** Whatever is found in a script is found
on one of its lines, and the report shows all of it. -/
theorem report_shows_every_diagnostic {o : Options} {source file : String} {c : Compilation}
    (h : (compile o source file).result = .ok c) :
    (∀ d ∈ c.diagnostics, 1 ≤ d.line ∧ d.line ≤ (sourceLines source).length) ∧
      c.ShowsAll file (sourceLines source) := by
  have hlines : ∀ d ∈ c.diagnostics, IsLineOf (sourceLines source) d.line := by
    intro d hd
    obtain ⟨f, hf, rfl⟩ := List.mem_map.mp hd
    exact isLineOf_of_mem_findings h f hf
  obtain ⟨a, -, rfl⟩ := exists_assembly h
  exact ⟨hlines, Compilation.showsAll hlines⟩

/-- Errors of both passes and a warning, found in another order than that of their lines. -/
theorem report_shows_every_diagnostic_stray :
    let source := "setup:\nturn 20 on\nblink led\npin led is 13\nend\nend  "
    ∃ c, (compile {} source "stray.aes").result = .ok c ∧
      c.diagnostics.map (fun d => (d.line, d.severity)) =
        [(4, .error), (2, .warning), (3, .error), (6, .error), (1, .error)] ∧
      (∀ d ∈ c.diagnostics, 1 ≤ d.line ∧ d.line ≤ (sourceLines source).length) ∧
      c.ShowsAll "stray.aes" (sourceLines source) := by
  intro source
  have hrun : (compile {} source "stray.aes").result.toOption.any
      (fun c => c.diagnostics.map (fun d => (d.line, d.severity)) ==
        [(4, .error), (2, .warning), (3, .error), (6, .error), (1, .error)]) = true := by
    decide +kernel
  obtain ⟨c, hc, hfound⟩ := exists_ok_iff.mpr hrun
  exact ⟨c, hc, beq_iff_eq.mp hfound, report_shows_every_diagnostic hc⟩

end PlainSketch
