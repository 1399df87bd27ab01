import PlainSketch.Proofs.FileEffects
import PlainSketch.Proofs.LaidLines
import PlainSketch.Proofs.PinAliases
import PlainSketch.Proofs.WholeBlocks

/-!
# What compiling does to the script

Unless another file is named, the sketch goes to a file beside the script that has the script's name
with the extension `.ino`. A path is shown with the parts that it is followed by, so the two paths
lead to the same file exactly if the script has that extension itself. Then a run that ends well has
put the sketch in place of the script, and the script is lost: no script is its own sketch, since
the line that opens `setup` in a sketch is an error in a script, wherever it stands.
-/
namespace PlainSketch
open Text

/-! ## A sketch is no script -/

namespace Text

/-- What is known of the first line and of the others, put together. -/
theorem mem_cons_of_kept {k l m : List Char} {ls ms : List (List Char)} (hfirst : '\r' ∉ l → m = l)
    (hrest : ∀ k ∈ ls, '\r' ∉ k → k ∈ ms) (hk : k ∈ l :: ls) (hr : '\r' ∉ k) : k ∈ m :: ms := by
  rcases List.mem_cons.mp hk with rfl | hk
  · rw [hfirst hr]
    exact List.mem_cons_self
  · exact .tail _ (hrest k hk hr)

/-- Lines without returns stay when all line endings become line feeds. The first line is told apart
from the others, since it may go on to the left. -/
theorem splitLines_unifyNewlines {cs l : List Char} {ls : List (List Char)}
    (h : splitLines cs = l :: ls) :
    ∃ m ms, splitLines (unifyNewlines cs) = m :: ms ∧ ('\r' ∉ l → m = l) ∧
      ∀ k ∈ ls, '\r' ∉ k → k ∈ ms := by
  unfold unifyNewlines
  fun_induction joinReturns cs generalizing l ls with
  | case1 cs ih =>
    obtain ⟨l', ls', hls⟩ := List.exists_cons_of_ne_nil (splitLines_ne_nil cs)
    obtain ⟨m, ms, hms, hfirst, hrest⟩ := ih hls
    rw [splitLines_cons (by decide) (splitLines_newline cs), hls] at h
    cases h
    exact ⟨[], m :: ms, congrArg ([] :: ·) hms, by simp, fun k => mem_cons_of_kept hfirst hrest⟩
  | case2 c cs hne ih =>
    obtain ⟨l', ls', hls⟩ := List.exists_cons_of_ne_nil (splitLines_ne_nil cs)
    obtain ⟨m, ms, hms, hfirst, hrest⟩ := ih hls
    by_cases hfeed : c = '\n'
    · subst hfeed
      rw [splitLines_newline, hls] at h
      cases h
      exact ⟨[], m :: ms, congrArg ([] :: ·) hms, fun _ => rfl,
        fun k => mem_cons_of_kept hfirst hrest⟩
    rw [splitLines_cons hfeed hls] at h
    cases h
    by_cases hreturn : c = '\r'
    · -- a lone return splits the line that held it, and of that line nothing is claimed
      subst hreturn
      exact ⟨[], m :: ms, congrArg ([] :: ·) hms, by simp, fun k hk hr => .tail _ (hrest k hk hr)⟩
    · refine ⟨c :: m, ms, ?_, fun hl => ?_, hrest⟩
      · rw [List.map_cons, if_neg (by simpa using hreturn)]
        exact splitLines_cons hfeed hms
      · rw [hfirst (List.not_mem_of_not_mem_cons hl)]
  | case3 =>
    cases h
    exact ⟨[], [], rfl, fun _ => rfl, by simp⟩

theorem mem_splitLines_unifyNewlines {cs l : List Char} (h : l ∈ splitLines cs) (hr : '\r' ∉ l) :
    l ∈ splitLines (unifyNewlines cs) := by
  obtain ⟨k, ks, hks⟩ := List.exists_cons_of_ne_nil (splitLines_ne_nil cs)
  obtain ⟨m, ms, hms, hfirst, hrest⟩ := splitLines_unifyNewlines hks
  rw [hms]
  exact mem_cons_of_kept hfirst hrest (hks ▸ h) hr

theorem joinReturns_of_not_mem {cs : List Char} (h : '\r' ∉ cs) : joinReturns cs = cs := by
  fun_induction joinReturns cs with
  | case1 cs ih => simp at h
  | case2 c cs hne ih => rw [ih (List.not_mem_of_not_mem_cons h)]
  | case3 => rfl

theorem return_not_mem_unifyNewlines (cs : List Char) : '\r' ∉ unifyNewlines cs := by
  intro h
  obtain ⟨c, -, hc⟩ := List.mem_map.mp h
  split at hc
  · cases hc
  · next hne => exact hne (by simp [hc])

/-- A text that was written is read back with its line endings unified. -/
theorem readText_toUTF8 (s : String) :
    readText s.toUTF8 = .ok (String.ofList (unifyNewlines s.toList)) := by
  have hdecode : String.fromUTF8? s.toUTF8 = some s := by
    rw [String.fromUTF8?, dif_pos (show s.toUTF8.IsValidUTF8 from s.isValidUTF8)]
    rfl
  simp only [readText, decode, hdecode]
  rfl

end Text

/-- The line that opens the body of `setup` in a sketch. -/
def setupHeader : List Char := "void setup() \x7b".toList

theorem Sketch.setupHeader_mem_render (s : Sketch String) (t : SymbolTable)
    (version unit : String) : setupHeader ∈ splitLines (s.render t version unit).toList := by
  have hsection : renderFunction "setup" s.setup unit ∈
      banner t.board version :: s.sections t unit := by
    simp [sections]
  obtain ⟨above, below, hlines⟩ := s.exists_splitLines_render hsection
  obtain ⟨rest, hrest⟩ := exists_renderFunction "setup" s.setup unit
  have hheader : (renderFunction "setup" s.setup unit).toList = setupHeader ++ '\n' :: rest := hrest
  rw [hlines, hheader, splitLines_append_newline, splitLines_of_not_mem (by decide)]
  simp

namespace Assemble

/-- The header is an error in a script, inside a body and outside. -/
theorem takeLine_setupHeader (line : Int) (a : Assembly) :
    ∃ p : Problem, p.severity = .error ∧ takeLine line setupHeader a =
      .ok [] { a with session := a.session.reported line p } := by
  have hsort : BlockLine.ofCode setupHeader = .command := by decide +kernel
  have hnone : Statement.ofCode? setupHeader = none := by decide +kernel
  obtain ⟨session, sketch, stack, body, sawSetup, sawLoop, ids⟩ := a
  unfold takeLine command
  rw [hsort]
  cases body with
  | none => exact ⟨.commandOutsideBlock, rfl, rfl⟩
  | some b => exact ⟨.unknownCommand (String.ofList setupHeader), rfl, by rw [hnone]; rfl⟩

/-- A run over the header has found an error. -/
theorem not_accepted_of_mem {ls : List (Int × List Char)} {n : Int} (h : (n, setupHeader) ∈ ls)
    {a b : Assembly} (hrun : takeLines ls a = .ok () b) : ¬ b.session.Accepted := by
  obtain ⟨before, after, rfl⟩ := List.append_of_mem h
  obtain ⟨c, -, hrest⟩ := takeLines_append.mp hrun
  obtain ⟨is, d, hline, hafter⟩ := bind_eq_ok.mp hrest
  obtain ⟨p, hp, hheader⟩ := takeLine_setupHeader n c
  rw [hheader] at hline
  cases hline
  intro hacc
  have hmem : (⟨n, p⟩ : Finding) ∈ b.session.findings :=
    (takeLines_isPrefix hafter).subset (by simp [Session.reported])
  exact hacc.severity hmem hp

end Assemble

/-- A script with the header among its lines has errors. -/
theorem not_success_of_setupHeader {o : Options} {source file : String} {c : Compilation}
    (hmem : setupHeader ∈ sourceLines source) (h : (compile o source file).result = .ok c) :
    c.success = false := by
  obtain ⟨a, ha, rfl⟩ := exists_assembly h
  obtain ⟨t, b, -, hb, rfl⟩ := assemble_ok ha
  have hcode : setupHeader ∈ (Line.numbered (sourceLines source)).map Prod.snd := by
    rw [Line.numbered, Line.numberedFrom_codes]
    have hkept : Line.trimmedCode setupHeader = setupHeader := by decide +kernel
    exact List.mem_filter.mpr ⟨hkept ▸ List.mem_map_of_mem hmem, rfl⟩
  obtain ⟨⟨n, code⟩, hn, rfl⟩ := List.mem_map.mp hcode
  rw [← Bool.not_eq_true]
  intro hsuccess
  have hnone : ∀ f ∈ b.session.findings ++ Assemble.lastFindings (sourceLines source).length b,
      f.isError = false := by
    simpa only [Compilation.success, Bool.not_eq_true', List.any_eq_false, Bool.not_eq_true] using
      hsuccess
  exact Assemble.not_accepted_of_mem hn hb fun f hf => hnone f (List.mem_append_left _ hf)

/-- **No script is its own sketch.** What a script without errors is compiled to has errors when it
is read as a script. -/
theorem code_ne_source {o : Options} {text file : String} {c : Compilation} {bytes : ByteArray}
    (htext : readText bytes = .ok text) (h : (compile o text file).result = .ok c)
    (hsuccess : c.success = true) : c.code.toUTF8 ≠ bytes := by
  rintro rfl
  rw [readText_toUTF8] at htext
  cases htext
  have hmem : setupHeader ∈ sourceLines (String.ofList (unifyNewlines c.code.toList)) := by
    obtain ⟨a, -, hc⟩ := exists_assembly h
    rw [sourceLines, String.toList_ofList,
      joinReturns_of_not_mem (return_not_mem_unifyNewlines _), congrArg Compilation.code hc]
    exact mem_splitLines_unifyNewlines (Sketch.setupHeader_mem_render _ _ _ _) (by decide)
  rw [not_success_of_setupHeader hmem h] at hsuccess
  cases hsuccess

/-! ## The name of the sketch -/

namespace Path

/-- Parts with slashes between them are read back as they are. -/
theorem rawParts_intercalate {parts : List String} (hne : parts ≠ [])
    (h : ∀ part ∈ parts, '/' ∉ part.toList) : rawParts ("/".intercalate parts) = parts := by
  have hpieces : ("/".intercalate parts).toList.splitOn '/' = parts.map String.toList := by
    rw [String.toList_intercalate]
    refine List.splitOn_intercalate '/' (fun l hl => ?_) (by simpa using hne)
    obtain ⟨part, hpart, rfl⟩ := List.mem_map.mp hl
    exact h part hpart
  rw [rawParts, hpieces, List.map_map]
  exact List.map_id'' (fun _ => String.ofList_toList) parts

/-- Paths as they are made from a text: each part is read as one part, and leads somewhere. -/
structure IsProper (p : Path) : Prop where
  root : p.root = "" ∨ p.root = "/" ∨ p.root = "//"
  parts : ∀ part ∈ p.parts, isIdle part = false ∧ '/' ∉ part.toList

theorem isProper_ofString (text : String) : (ofString text).IsProper := by
  refine ⟨?_, fun part hpart => ?_⟩
  · simp only [ofString]
    split
    · exact .inl rfl
    · split
      · exact .inr (.inr rfl)
      · exact .inr (.inl rfl)
  · obtain ⟨hraw, hidle⟩ := List.mem_filter.mp hpart
    obtain ⟨l, hl, rfl⟩ := List.mem_map.mp hraw
    refine ⟨by simpa using hidle, ?_⟩
    rw [String.toList_ofList]
    exact not_mem_of_mem_splitOn hl

theorem rawParts_append_slash (root rest : String) (h : root = "" ∨ root = "/" ∨ root = "//") :
    (rawParts (root ++ rest)).filter (!isIdle ·) = (rawParts rest).filter (!isIdle ·) := by
  rcases h with rfl | rfl | rfl
  · rw [String.empty_append]
  · simp [rawParts, List.splitOn_cons_eq_if_modifyHead, isIdle]
  · simp [rawParts, List.splitOn_cons_eq_if_modifyHead, isIdle]

/-- A path that was shown is read back with the same parts, but for idle ones. -/
theorem filter_rawParts_render {p : Path} (h : p.IsProper) :
    (rawParts p.render).filter (!isIdle ·) = p.parts := by
  obtain ⟨root, parts⟩ := p
  obtain ⟨hroot, hparts⟩ := h
  cases parts with
  | nil => rcases hroot with rfl | rfl | rfl <;> decide
  | cons part parts =>
    have hraw := rawParts_intercalate (List.cons_ne_nil part parts) fun q hq => (hparts q hq).2
    have htext : ¬ (root ++ "/".intercalate (part :: parts)).isEmpty = true := by
      intro hempty
      rw [String.isEmpty_iff, String.append_eq_empty_iff] at hempty
      rw [hempty.2] at hraw
      have hidle := (hparts "" (hraw ▸ List.mem_singleton.mpr rfl)).1
      cases hidle
    rw [render, if_neg htext, rawParts_append_slash _ _ hroot, hraw, List.filter_eq_self]
    intro q hq
    rw [(hparts q hq).1]
    rfl

/-- The file's name ends in an extension, and something stands in front of it. -/
def HasExtension (p : Path) (ext : String) : Prop :=
  ∃ base, base ≠ "" ∧ p.parts.getLast? = some (base ++ ext)

theorem stem_append_ino {base : List Char} (h : base ≠ []) :
    stem (base ++ ".ino".toList) = base := by
  have hext : ((base ++ ".ino".toList).reverse.takeWhile (· != '.')) = ['o', 'n', 'i'] := by
    simp
  unfold stem
  rw [hext]
  simp [h]

theorem stem_ne_nil {name : List Char} (h : name ≠ []) : stem name ≠ [] := by
  unfold stem
  dsimp only
  split
  · split
    · exact h
    · next hbase => simp_all
  · exact h

theorem isIdle_append_ino (base : String) : isIdle (base ++ ".ino") = false := by
  have hlength : (base ++ ".ino").length = base.length + 4 := String.length_append _ _
  rw [isIdle, Bool.or_eq_false_iff, beq_eq_false_iff_ne, beq_eq_false_iff_ne]
  constructor
  · intro h
    rw [h] at hlength
    exact absurd hlength (by simp)
  · intro h
    rw [h] at hlength
    have hone : ".".length = 1 := rfl
    omega

/-- The extension is put over another one, and over itself it changes nothing. -/
theorem withExtension_ino_of_hasExtension {p : Path} (h : p.HasExtension ".ino") :
    p.withExtension ".ino" = p := by
  obtain ⟨base, hbase, hlast⟩ := h
  have hstem : stem (base ++ ".ino").toList = base.toList := by
    rw [String.toList_append, stem_append_ino (by simpa using hbase)]
  unfold withExtension
  rw [hlast]
  dsimp only
  rw [hstem, String.ofList_toList, List.dropLast_append_getLast? _ hlast]

section
variable {p : Path} {name : String}

theorem getLast?_withExtension (h : p.parts.getLast? = some name) (ext : String) :
    (p.withExtension ext).parts.getLast? = some (String.ofList (stem name.toList) ++ ext) := by
  unfold withExtension
  rw [h]
  exact List.getLast?_concat

theorem slash_not_mem_stem {name : List Char} (h : '/' ∉ name) : '/' ∉ stem name := by
  unfold stem
  dsimp only
  split
  · next base hbase =>
    split
    · exact h
    · intro hmem
      have hname := List.mem_of_mem_drop (hbase ▸ List.mem_cons_of_mem _ (List.mem_reverse.mp hmem))
      exact h (List.mem_reverse.mp hname)
  · exact h

theorem IsProper.withExtension_ino (h : p.IsProper) : (p.withExtension ".ino").IsProper := by
  unfold withExtension
  split
  · exact h
  · next name hname =>
    refine ⟨h.root, fun part hpart => ?_⟩
    rcases List.mem_append.mp hpart with hpart | hpart
    · exact h.parts part (List.mem_of_mem_dropLast hpart)
    · rw [List.mem_singleton.mp hpart]
      refine ⟨isIdle_append_ino _, ?_⟩
      have hname := (h.parts name (List.mem_of_getLast? hname)).2
      simpa using slash_not_mem_stem hname

end
end Path

/-! ## Two paths -/

namespace Files

section
variable {s t : Files} {place q : Place} {bytes : ByteArray} {p : Path} {text : String}

/-- A file is found under the last name of the path. -/
theorem exists_name_of_follow {here : Place} {parts : List String}
    (h : (s.follow here parts).place? = some place) :
    ∃ name, place.getLast? = some name ∧
      (parts.filter (!Path.isIdle ·)).getLast? = some name := by
  induction parts generalizing here with
  | nil => cases h
  | cons part parts ih =>
    rcases follow_cons_cases h with ⟨there, hthere⟩ | ⟨hidle, rfl, rfl, -⟩
    · rw [hthere s (.refl s)] at h
      obtain ⟨name, hplace, hname⟩ := ih h
      refine ⟨name, hplace, ?_⟩
      rw [List.filter_cons]
      split
      · rw [List.getLast?_cons, hname]
        rfl
      · exact hname
    · exact ⟨part, List.getLast?_concat, by simp [hidle]⟩

theorem get?_of_follow {here : Place} {parts : List String}
    (h : s.follow here parts = .file place bytes) : s.get? place = some bytes := by
  induction parts generalizing here with
  | nil => cases h
  | cons part parts ih =>
    rcases follow_cons_cases (congrArg Node.place? h) with ⟨there, hthere⟩ | ⟨-, -, -, -, hfile⟩
    · exact ih (hthere s (.refl s) ▸ h)
    · exact (hfile s bytes).mp h

theorem exists_name_of_find (hp : p.IsProper) (h : (s.find p).place? = some place) :
    ∃ name, place.getLast? = some name ∧ p.parts.getLast? = some name := by
  obtain ⟨here, hfind⟩ := exists_find_eq_follow h
  rw [hfind] at h
  simpa only [Path.filter_rawParts_render hp] using exists_name_of_follow h

/-- Writing through one path leaves the file that another one leads to, unless both lead to the same
place. -/
theorem Rewrites.find_eq {output : Path} (h : s.Rewrites output text t)
    (hp : s.find p = .file place bytes) (hne : (s.find output).place? ≠ some place) :
    t.find p = .file place bytes := by
  obtain ⟨q, hq, hwritten, hget, hdirs⟩ := h
  have hplace : place ≠ q := by
    rintro rfl
    exact hne hq
  obtain ⟨there, hthere⟩ := exists_find_eq_follow hq
  obtain ⟨here, hhere⟩ := exists_find_eq_follow (congrArg Node.place? hp)
  rw [hthere] at hq hwritten
  rw [hhere] at hp ⊢
  have hfiles : ∀ r, (s.get? r).isSome = true → (t.get? r).isSome = true := by
    intro r hr
    by_cases hrq : r = q
    · rw [hrq, get?_of_follow hwritten]
      rfl
    · rwa [hget r hrq]
  have hkeeps : s.KeepsDirectories t :=
    keepsDirectories_of_get? (isDirectory_of_get? hdirs hfiles) hget (not_isDirectory_of_follow hq)
  refine follow_of_get? hkeeps (congrArg Node.place? hp) ?_
  rw [hget place hplace, get?_of_follow hp]

theorem readText_of_find (hp : s.find p = .file place bytes) (h : s.readText p = .ok text) :
    Text.readText bytes = .ok text := by
  rw [readText, read, hp] at h
  dsimp only at h
  split at h
  · cases h
  · next found hfound =>
    cases h
    exact hfound

end
end Files

/-! ## Compiling beside the source -/

/-- The arguments ask to compile a script, and name no path for its sketch. -/
def AsksToCompile (args : List String) (file : String) (json : Bool) : Prop :=
  ∃ verbose p, Request.ofArgs? args = some (.command verbose .compile p) ∧ p.rest = [file] ∧
    p.value? .output = none ∧ p.has .json = json

section
variable {s : Files} {args : List String} {file : String} {json : Bool} {place : Place}
  {bytes : ByteArray}

theorem AsksToCompile.of_asksForSketch {input output : Path} {board : Board}
    (h : AsksToCompile args file json) (hasks : AsksForSketch args input output board) :
    json = false ∧ output = (Path.ofString file).withExtension ".ino" := by
  obtain ⟨verbose, p, hargs, hrest, houtput, rfl⟩ := h
  obtain ⟨verbose', p', file', hargs', hjson, hrest', -, rfl, rfl⟩ := hasks
  cases hargs.symm.trans hargs'
  cases hrest.symm.trans hrest'
  rw [houtput]
  exact ⟨hjson, rfl⟩

theorem AsksToCompile.not_asksForLayout {input : Path} (h : AsksToCompile args file json) :
    ¬ AsksForLayout args input := by
  obtain ⟨verbose, p, hargs, -⟩ := h
  rintro ⟨verbose', p', file', hargs', -⟩
  cases hargs.symm.trans hargs'

theorem AsksToCompile.asksForSketch (h : AsksToCompile args file false)
    (hends : (runTool s args).1.Succeeds) : ∃ board, AsksForSketch args (.ofString file)
      ((Path.ofString file).withExtension ".ino") board := by
  obtain ⟨verbose, p, hargs, hrest, houtput, hjson⟩ := h
  unfold runTool at hends
  rw [hargs] at hends
  dsimp only [Request.run] at hends
  cases hcommand : Command.ofRequest s (.command verbose .compile p) with
  | error refusal =>
    rw [hcommand] at hends
    exact absurd hends (Outcome.not_succeeds_refused refusal)
  | ok command =>
    obtain ⟨file', board, hrest', hboard, -⟩ := Command.ofRequest_compile hcommand
    exact ⟨board, verbose, p, file, hargs, hjson, hrest, hboard, rfl, by rw [houtput]; rfl⟩

/-- The path of the sketch leads elsewhere if the source is named otherwise. -/
theorem place?_withExtension_ne {p : Path} (hp : p.IsProper) (hext : ¬ p.HasExtension ".ino")
    (h : s.find p = .file place bytes) :
    (s.find (p.withExtension ".ino")).place? ≠ some place := by
  intro hsame
  obtain ⟨name, hplace, hname⟩ := Files.exists_name_of_find hp (congrArg Files.Node.place? h)
  obtain ⟨name', hplace', hname'⟩ := Files.exists_name_of_find hp.withExtension_ino hsame
  rw [Path.getLast?_withExtension hname] at hname'
  cases hplace.symm.trans hplace'
  have hstem : Path.stem name.toList ≠ [] := by
    refine Path.stem_ne_nil fun hnil => ?_
    have hidle := (hp.parts name (List.mem_of_getLast? hname)).1
    rw [String.toList_eq_nil_iff.mp hnil] at hidle
    cases hidle
  refine hext ⟨String.ofList (Path.stem name.toList), by simpa using hstem, ?_⟩
  rw [hname, hname']

/-- **Compiling keeps its source, unless the sketch takes its name.** A script compiled without a
path for the sketch is as it was before, except after one kind of run: it ends well, is not for
`--json`, and the source is itself named as a sketch is, by something and `.ino`. Then the sketch
stands in its place, and no script is its own sketch. -/
theorem source_kept_iff (hasks : AsksToCompile args file json)
    (hfile : s.find (.ofString file) = .file place bytes) :
    (runTool s args).2.find (.ofString file) = .file place bytes ↔
      ¬ ((runTool s args).1.Succeeds ∧ json = false ∧
        (Path.ofString file).HasExtension ".ino") := by
  constructor
  · rintro hkept ⟨hends, rfl, hext⟩
    obtain ⟨board, hsketch⟩ := hasks.asksForSketch hends
    obtain ⟨c, ⟨text, htext, hrun, hsuccess⟩, q, -, hwritten, -⟩ := runTool_sketch hsketch hends
    rw [Path.withExtension_ino_of_hasExtension hext, hkept] at hwritten
    have hbytes : bytes = c.code.toUTF8 := (Files.Node.file.inj hwritten).2
    exact code_ne_source (Files.readText_of_find hfile htext) hrun hsuccess hbytes.symm
  · intro hno
    by_cases hsame : (runTool s args).2 = s
    · rw [hsame, hfile]
    · obtain ⟨hends, ⟨input, output, board, hsketch⟩ | ⟨input, hlayout⟩⟩ := runTool_changes hsame
      · obtain ⟨c, -, hwritten⟩ := runTool_sketch hsketch hends
        obtain ⟨rfl, rfl⟩ := hasks.of_asksForSketch hsketch
        have hext : ¬ (Path.ofString file).HasExtension ".ino" := fun hext => hno ⟨hends, rfl, hext⟩
        exact hwritten.find_eq hfile
          (place?_withExtension_ne (Path.isProper_ofString file) hext hfile)
      · exact absurd hlayout hasks.not_asksForLayout

/-- A script is kept beside the sketch, and lost under the name of the sketch. -/
theorem source_kept_iff_blink :
    let source := "setup:\nmake 13 output\nend\nloop:\nend".toUTF8
    let s : Files := ⟨[(["blink.aes"], source), (["blink.ino"], source)], []⟩
    (runTool s ["compile", "blink.aes"]).2.find (.ofString "blink.aes") =
        .file ["blink.aes"] source ∧
      (runTool s ["compile", "blink.ino"]).2.find (.ofString "blink.ino") ≠
        .file ["blink.ino"] source := by
  intro source s
  constructor
  · have hasks : AsksToCompile ["compile", "blink.aes"] "blink.aes" false :=
      ⟨false, ⟨[], ["blink.aes"]⟩, by decide +kernel, rfl, rfl, rfl⟩
    refine (source_kept_iff hasks (by rfl)).mpr ?_
    rintro ⟨-, -, base, -, hlast⟩
    have hname : some "blink.aes" = some (base ++ ".ino") := hlast
    have hends := congrArg (fun name : Option String => (name.getD "").toList.getLast?) hname
    simp at hends
  · have hasks : AsksToCompile ["compile", "blink.ino"] "blink.ino" false :=
      ⟨false, ⟨[], ["blink.ino"]⟩, by decide +kernel, rfl, rfl, rfl⟩
    have hends : (runTool s ["compile", "blink.ino"]).1 =
        .done 0 "Compiled blink.ino -> blink.ino\n" "" := by decide +kernel
    refine fun hkept => (source_kept_iff hasks (by rfl)).mp hkept ⟨⟨_, _, hends⟩, rfl, "blink", ?_⟩
    exact ⟨by decide, by decide +kernel⟩

/-- Two blocks with nothing in them are compiled, and the sketch stands in their place. -/
theorem source_lost_under_its_name :
    let source := "setup:\nend\nloop:\nend\n".toUTF8
    let s : Files := ⟨[(["a.ino"], source)], []⟩
    s.find (.ofString "a.ino") = .file ["a.ino"] source ∧
      AsksToCompile ["compile", "a.ino"] "a.ino" false ∧
      (runTool s ["compile", "a.ino"]).2.find (.ofString "a.ino") ≠ .file ["a.ino"] source := by
  intro source s
  refine ⟨by rfl, ⟨false, ⟨[], ["a.ino"]⟩, by decide +kernel, rfl, rfl, rfl⟩, fun hkept => ?_⟩
  have hsize : ((runTool s ["compile", "a.ino"]).2.get? ["a.ino"]).map ByteArray.size ≠
      some source.size := by decide +kernel
  obtain ⟨here, hfind⟩ := Files.exists_find_eq_follow (congrArg Files.Node.place? hkept)
  rw [hfind] at hkept
  rw [Files.get?_of_follow hkept] at hsize
  exact hsize rfl

end
end PlainSketch
