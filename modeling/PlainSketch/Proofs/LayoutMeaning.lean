import PlainSketch.Proofs.BoardSwap
import PlainSketch.Proofs.LayoutDepth
import PlainSketch.Proofs.RespacedRuns

/-!
# What layout keeps of a script

Laid out lines carry the code of the lines they stem from, squeezed, under the same numbers. So a
script without errors compiles again when it is laid out: to the same symbols, the same findings,
and a sketch that is the same but for blanks outside its literals. Squeezing finds literals by their
quotes alone, though, and a statement may find them elsewhere. `Line.isSettled` leaves out the lines
where the two differ: a printed text whose last quote looks escaped, a literal that begins in the
pin of an output and ends in its value, and a reading without a pin.
-/
namespace PlainSketch
open Text Line

namespace Layout

theorem numberedFrom_layLines (depth : Nat) (n : Int) (lines : List (List Char)) :
    numberedFrom n (layLines depth lines) = squeezeAll (numberedFrom n lines) := by
  induction lines generalizing depth n with
  | nil => rfl
  | cons raw lines ih =>
    have hlaid := trimmedCode_layLine (levelOf (parts raw).1 depth) raw
    rw [layLines_cons]
    by_cases hnil : trimmedCode raw = []
    · rw [hnil, squeeze_nil] at hlaid
      rw [numberedFrom_cons_of_nil hlaid, numberedFrom_cons_of_nil hnil, ih]
    · have hcode : squeeze (trimmedCode raw) ≠ [] := by
        intro hsqueezed
        have hhead := head?_squeeze (head?_trimmedCode raw)
        rw [hsqueezed] at hhead
        exact hnil (List.head?_eq_none_iff.mp hhead.symm)
      rw [numberedFrom_cons (hlaid ▸ hcode), numberedFrom_cons hnil, hlaid, ih]
      rfl

theorem numberedFrom_of_isEmpty {ls : List (List Char)} (h : ∀ l ∈ ls, l.isEmpty = true) (n : Int) :
    numberedFrom n ls = [] := by
  induction ls generalizing n with
  | nil => rfl
  | cons l ls ih =>
    obtain ⟨hl, hls⟩ := List.forall_mem_cons.mp h
    rw [List.isEmpty_iff.mp hl, numberedFrom_cons_of_nil rfl, ih hls]

/-- The empty lines that layout drops carry no code. -/
theorem numbered_kept (lines : List (List Char)) :
    numbered (kept lines) = squeezeAll (numbered lines) := by
  have hdropped : ∀ l ∈ (layLines 0 lines).rtakeWhile List.isEmpty, l.isEmpty = true :=
    fun l hl => List.mem_rtakeWhile_imp hl
  calc numbered (kept lines)
      = numbered (kept lines ++ (layLines 0 lines).rtakeWhile List.isEmpty) := by
        rw [numbered, numbered, numberedFrom_append, numberedFrom_of_isEmpty hdropped,
          List.append_nil]
    _ = numbered (layLines 0 lines) := by rw [kept, List.rdropWhile_append_rtakeWhile]
    _ = squeezeAll (numbered lines) := numberedFrom_layLines 0 1 lines

/-- Laying out a script squeezes its code and keeps the number of each line. -/
theorem numbered_reformat (source : String) :
    numbered (sourceLines (String.ofList (reformat source.toList))) =
      squeezeAll (numbered (sourceLines source)) := by
  rw [← numbered_kept, sourceLines, String.toList_ofList, splitLines_reformat, ← sourceLines]
  split
  · next hnil => rw [hnil]; rfl
  · next l ls hcons =>
    rw [hcons, numbered, numberedFrom_append]
    exact List.append_nil _

end Layout

theorem Assembly.isTidy_of_assemble {lines : List (List Char)} {s : Session} {a : Assembly}
    (h : assemble lines { session := s } = .ok () a) : a.sketch.IsTidy := by
  obtain ⟨t, b, -, hb, rfl⟩ := assemble_ok h
  have htidy := (nested_of_takeLines hb).2.tidy
  exact ⟨htidy _ b.setup_mem_buffers, htidy _ b.loop_mem_buffers,
    fun f hf => htidy _ (function_mem_buffers hf)⟩

/-- Assemblies alike are written as sketches that agree but for blanks. -/
theorem Assembly.Alike.bareText_code {a a' : Assembly} (h : a.Alike a') (ha : a.sketch.IsTidy)
    (ha' : a'.sketch.IsTidy) {unit : String} (hunit : '"' ∉ unit.toList) :
    bareText (a'.code unit) = bareText (a.code unit) := by
  rw [Assembly.code, Assembly.code, h.session]
  exact Sketch.bareText_render hunit h.sketch ha ha' _ _

/-- **Laying out a script keeps its meaning.** It compiles again without errors, to the same symbols
and with the same findings, and the lines of the sketch differ in nothing but the blanks outside
their literals. -/
theorem compile_reformat {o : Options} {source file : String} {c : Compilation}
    (hunit : '"' ∉ o.indent.toList)
    (hsettled : ∀ raw ∈ sourceLines source, isSettled (trimmedCode raw) = true)
    (h : (compile o source file).result = .ok c) (hc : c.success = true) :
    ∃ c', (compile o (String.ofList (Layout.reformat source.toList)) file).result = .ok c' ∧
      c'.success = true ∧ c'.table = c.table ∧ c'.findings = c.findings ∧
      bareText c'.code = bareText c.code := by
  have hcode : ∀ l ∈ numbered (sourceLines source),
      IsCode l.2 ∧ ∀ d, l.2.head? = some d → isBlank d = false := by
    intro l hl
    refine ⟨isCode_of_mem_numbered hl, ?_⟩
    obtain ⟨raw, -, hraw⟩ := mem_numberedFrom hl
    rw [hraw]
    exact head?_trimmedCode raw
  have hlines : ∀ l ∈ numbered (sourceLines source), isSettled l.2 = true := by
    intro l hl
    obtain ⟨raw, hmem, hraw⟩ := mem_numberedFrom hl
    rw [hraw]
    exact hsettled raw hmem
  rw [compile_result] at h
  cases ha : assemble (sourceLines source) { session := .start o.board o.reserved } with
  | error f a =>
    rw [ha] at h
    cases h
  | ok u a =>
    rw [ha] at h
    cases h
    have hacc : a.session.Accepted := by simpa [Compilation.success, Session.Accepted] using hc
    obtain ⟨a', ha', halike⟩ := assemble_alike (Layout.numbered_reformat source) hcode hlines
      (SymbolTable.exclusive_start o.board o.reserved) ha hacc
    rw [compile_result, ha']
    refine ⟨_, rfl, ?_, congrArg (·.table) halike.session, congrArg (·.findings) halike.session, ?_⟩
    · rw [Compilation.success, halike.session]
      exact hc
    · exact halike.bareText_code (Assembly.isTidy_of_assemble ha)
        (Assembly.isTidy_of_assemble ha') hunit

/-- Blanks between words, inside and outside of literals, and before a comment. -/
theorem compile_reformat_spaced :
    let o : Options := {}
    let source := "setup:\nset  n  to   \"a  b\" +   1   # n\nend\nloop:\nif  n   is  2  do:\n" ++
      "print  \"e  \\\\\"  and   n\nend\nend"
    '"' ∉ o.indent.toList ∧ (∀ raw ∈ sourceLines source, isSettled (trimmedCode raw) = true) ∧
      ∃ c, (compile o source "a.aes").result = .ok c ∧ c.success = true ∧
        ∃ c', (compile o (String.ofList (Layout.reformat source.toList)) "a.aes").result = .ok c' ∧
          c'.success = true ∧ c'.table = c.table ∧ c'.findings = c.findings ∧
          bareText c'.code = bareText c.code := by
  intro o source
  have hunit : '"' ∉ o.indent.toList := by decide +kernel
  have hsettled : ∀ raw ∈ sourceLines source, isSettled (trimmedCode raw) = true := by
    decide +kernel
  obtain ⟨c, h, hc⟩ := exists_ok_iff.mpr
    (show (compile o source "a.aes").result.toOption.any (·.success) = true by decide +kernel)
  exact ⟨hunit, hsettled, c, h, hc, compile_reformat hunit hsettled h hc⟩

/-- The last quote of the printed text looks escaped, so that layout finds no literal to spare. The
text is printed with one blank less. -/
theorem reformat_changes_printed_text :
    let source := "setup:\nprint \"a  b\\\"\nend\nloop:\nend"
    ∃ c c', (compile {} source "a.aes").result = .ok c ∧ c.success = true ∧
      (compile {} (String.ofList (Layout.reformat source.toList)) "a.aes").result = .ok c' ∧
      bareText c'.code ≠ bareText c.code := by
  intro source
  have hrun : (compile {} source "a.aes").result.toOption.any (fun c => c.success &&
      (compile {} (String.ofList (Layout.reformat source.toList)) "a.aes").result.toOption.any
        fun c' => bareText c'.code != bareText c.code) = true := by
    decide +kernel
  obtain ⟨c, h, hc⟩ := exists_ok_iff.mpr hrun
  obtain ⟨hsuccess, hother⟩ := (Bool.and_eq_true _ _).mp hc
  obtain ⟨c', h', hne⟩ := exists_ok_iff.mpr hother
  exact ⟨c, c', h, hsuccess, h', bne_iff_ne.mp hne⟩

/-- A reading for which layout leaves no room for the pin. -/
example :
    let source := "setup:\nread   into xé\nend\nloop:\nend"
    (compile {} source "a.aes").result.toOption.any (·.success) = true ∧
      (compile {} (String.ofList (Layout.reformat source.toList)) "a.aes").result.toOption.any
        (·.success) = false := by
  decide +kernel

end PlainSketch
