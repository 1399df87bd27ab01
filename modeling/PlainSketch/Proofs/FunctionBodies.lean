import PlainSketch.Proofs.BlockGrammar
import PlainSketch.Proofs.Namespaces
import PlainSketch.Proofs.NestingDepth
import PlainSketch.Proofs.SketchText

/-!
# Functions of a sketch

The first pass declares functions, the second defines them. Whatever the script, a sketch defines
only functions of the table, each once, and a definition that stands is never replaced by a later
one. In a script without errors the two passes agree: every line that declares a function also opens
its body, so that the sketch defines exactly the functions of the table, in their order, and its
text has one prototype and one definition for each. A function opener that ends in `do:` is no
declaration for the first pass; its body is compiled and dropped.
-/
namespace PlainSketch
open Text Declaration Session
open Script (advance follow)
open Assemble (sorts)

/-! ## Scripts without errors -/

/-- No error was found; warnings may be. -/
def Session.Accepted (s : Session) : Prop := ∀ f ∈ s.findings, f.isError = false

instance (s : Session) : Decidable s.Accepted :=
  inferInstanceAs (Decidable (∀ f ∈ s.findings, f.isError = false))

theorem Problem.severity_of_isStructural {p : Problem} (h : p.isStructural = true) :
    p.severity = .error := by
  cases p with
  | nestedFunction | nestedStructure | controlOutsideBlock | otherwiseOutsideIf
  | otherwiseRepeated | endWithoutBlock | commandOutsideBlock | unknownBlock | unclosedBlock
  | setupMissing | loopMissing => rfl
  | _ => cases h

section
variable {s t : Session}

theorem Session.Accepted.of_isPrefix (h : t.Accepted) (hp : s.findings <+: t.findings) :
    s.Accepted := fun f hf => h f (hp.subset hf)

theorem Session.Accepted.severity (h : t.Accepted) {line : Int} {p : Problem}
    (hp : (⟨line, p⟩ : Finding) ∈ t.findings) : p.severity ≠ .error := by
  intro he
  have hno := h _ hp
  simp [Finding.isError, he] at hno

theorem Session.Accepted.not_refused (h : t.Accepted) {line : Int} :
    ¬ Build.Refused line s t := by
  rintro ⟨-, p, hp, hmem⟩
  exact h.severity hmem hp

/-- Every problem of the block structure is an error. -/
theorem Session.Accepted.cleanSince (h : t.Accepted) : CleanSince s t := by
  intro f hf
  rw [Bool.eq_false_iff]
  intro hp
  exact h.severity (List.mem_of_mem_drop hf) (Problem.severity_of_isStructural hp)

end

/-! ## Lines that declare a function -/

/-- The function that a line declares in the first pass. -/
def OutlineLine.function? (line : Int) : OutlineLine → Option Function
  | .function name => some ⟨name, line⟩
  | _ => none

/-- The functions that some lines declare. -/
def declaredFunctions (ls : List (Int × List Char)) : List Function :=
  ls.filterMap fun l => (OutlineLine.ofCode l.2).function? l.1

theorem declaredFunctions_append (ls ls' : List (Int × List Char)) :
    declaredFunctions (ls ++ ls') = declaredFunctions ls ++ declaredFunctions ls' :=
  List.filterMap_append

theorem declaredFunctions_cons (l : Int × List Char) (ls : List (Int × List Char)) :
    declaredFunctions (l :: ls) =
      ((OutlineLine.ofCode l.2).function? l.1).toList ++ declaredFunctions ls := by
  rw [declaredFunctions, List.filterMap_cons]
  cases (OutlineLine.ofCode l.2).function? l.1 <;> rfl

theorem OutlineLine.function?_eq_some {line : Int} {c : OutlineLine} {f : Function} :
    c.function? line = some f ↔ c = .function f.name ∧ f.line = line := by
  obtain ⟨name, n⟩ := f
  cases c <;> simp [function?, eq_comm]

/-- What declares a function in the first pass opens it in the second. -/
theorem block_of_outline {code : List Char} {name : String}
    (h : OutlineLine.ofCode code = .function name) : BlockLine.ofCode code = .function name := by
  have hsort := OutlineLine.isSort_ofCode code
  rw [h] at hsort
  cases hsort with
  | function hshape => exact block_of_function hshape

theorem block_of_hidesFunction {code : List Char} (h : hidesFunction code = true) :
    ∃ name, BlockLine.ofCode code = .function name := by
  obtain ⟨hfits, -⟩ := (Bool.and_eq_true _ _).mp h
  obtain ⟨⟨n, r⟩, hr⟩ := Option.isSome_iff_exists.mp hfits
  exact ⟨n, block_of_function (by rw [Shape.first?, hr]; rfl)⟩

/-! ## Depths -/

/-- The depth of the first pass beside the open blocks of the machine. Inside a function that the
first pass does not see, it is one level behind. -/
def Levels (depth : Nat) (st : List Bool) : Prop := depth = st.length ∨ depth + 1 = st.length

section
variable {st st' : List Bool} {c : BlockLine}

theorem nil_of_advance_function {name : String} (h : advance st (.function name) = some st') :
    st = [] := by
  cases st with
  | nil => rfl
  | cons m st => cases h

theorem length_of_advance (h : advance st c = some st') :
    st'.length = c.depthAfter st.length := by
  cases st with
  | nil =>
    cases c with
    | setup | loop | function | pin => cases h; rfl
    | _ => cases h
  | cons m st =>
    cases c with
    | control o => cases o <;> (cases h; rfl)
    | otherwise =>
      cases m with
      | true => cases h; rfl
      | false => cases h
    | pin | endBlock | command => cases h; rfl
    | setup | loop | function | unknown => cases h

theorem BlockLine.depthAfter_succ (c : BlockLine) (depth : Nat) :
    c.depthAfter depth = c.depthAfter (depth + 1) ∨
      c.depthAfter depth + 1 = c.depthAfter (depth + 1) := by
  cases c with
  | endBlock =>
    simp only [depthAfter]
    omega
  | _ => exact .inr rfl

theorem Levels.advance {depth : Nat} (h : Levels depth st) {code : List Char}
    (hlast : ∀ c, code.getLast? = some c → isBlank c = false)
    (hadv : advance st (BlockLine.ofCode code) = some st') :
    Levels ((OutlineLine.ofCode code).depthAfter depth) st' := by
  unfold Levels at h ⊢
  cases hhides : hidesFunction code with
  | true =>
    -- functions open outside all blocks, where the two depths agree
    obtain ⟨name, hname⟩ := block_of_hidesFunction hhides
    rw [hname] at hadv
    have hnil := nil_of_advance_function hadv
    subst hnil
    rw [length_of_advance hadv, (depthAfter_of_hidesFunction hhides depth).1]
    simp only [List.length_nil] at h
    exact .inr (by simp only [List.length_nil, BlockLine.depthAfter]; omega)
  | false =>
    rw [length_of_advance hadv, depthAfter_eq hlast hhides]
    rcases h with h | h
    · exact .inl (by rw [h])
    · rw [← h]
      exact (BlockLine.ofCode code).depthAfter_succ depth

end

/-! ## The first pass -/

namespace Build

theorem functions_of_definePin {name : String} {literal : List Char} {line : Int} {b : Bool}
    {s t : Session} (h : definePin name literal line s = .ok b t) :
    t.table.functions = s.table.functions := by
  rcases definePin_ok h with ⟨-, hrefused, -⟩ | ⟨-, -, ref, -, htable⟩
  · rw [hrefused]
  · rw [htable]
    rfl

theorem pins_of_defineFunction {name : String} {line : Int} {b : Bool} {s t : Session}
    (h : defineFunction name line s = .ok b t) : t.table.pins = s.table.pins := by
  rcases defineFunction_ok h with ⟨-, hrefused, -⟩ | ⟨-, -, htable⟩
  · rw [hrefused]
  · rw [htable]
    rfl

/-- In a script without errors, a line adds to the table the function that it declares. -/
theorem outlineLine_functions {depth d : Nat} {line : Int} {c : OutlineLine} {s t : Session}
    (hd : ∀ name, c = .function name → depth = 0) (h : outlineLine depth line c s = .ok d t)
    (ha : t.Accepted) : t.table.functions = s.table.functions ++ (c.function? line).toList := by
  have same : t.table.functions = s.table.functions →
      t.table.functions = s.table.functions ++ (none : Option Function).toList := by simp
  obtain ⟨m, hact, hm⟩ := outlineLine_ok h
  cases hact with
  | opener | closer | neutral | other | pinRefused | assignmentRefused =>
    cases hm
    exact same rfl
  | function name =>
    obtain ⟨b, u, hdef, hpure⟩ := bind_eq_ok.mp hm
    cases hpure
    rcases defineFunction_ok hdef with ⟨-, hrefused⟩ | ⟨-, -, htable⟩
    · exact absurd hrefused ha.not_refused
    · rw [htable]
      rfl
  | innerFunction name hne => exact absurd (hd name rfl) hne
  | pin name value | pinAssignment name value =>
    obtain ⟨b, u, hdef, hpure⟩ := bind_eq_ok.mp hm
    cases hpure
    exact same (functions_of_definePin hdef)
  | writes name type => exact same ((seed_elementary name type line s).ok hm).fixed.2

/-- A function stands outside all blocks, for both passes. -/
theorem depth_of_function {depth : Nat} {st st' : List Bool} {code : List Char} {name : String}
    (hlevels : Levels depth st) (hadv : advance st (BlockLine.ofCode code) = some st')
    (hc : OutlineLine.ofCode code = .function name) : depth = 0 := by
  rw [block_of_outline hc] at hadv
  rw [nil_of_advance_function hadv] at hlevels
  simp only [Levels, List.length_nil] at hlevels
  omega

/-- In a script without errors, the first pass declares the functions of all lines. -/
theorem outlineFrom_functions {ls : List (Int × List Char)} {depth d : Nat} {st st' : List Bool}
    {s t : Session} (hlast : ∀ l ∈ ls, ∀ c, l.2.getLast? = some c → isBlank c = false)
    (hlevels : Levels depth st) (hfollow : follow st (sorts ls) = some st')
    (h : outlineFrom depth ls s = .ok d t) (ha : t.Accepted) :
    t.table.functions = s.table.functions ++ declaredFunctions ls := by
  induction ls generalizing depth st s with
  | nil =>
    cases h
    simp [declaredFunctions]
  | cons l ls ih =>
    obtain ⟨n, code⟩ := l
    obtain ⟨e, u, hline, h⟩ := bind_eq_ok.mp h
    rw [sorts, List.map_cons, Script.follow_cons] at hfollow
    obtain ⟨st₁, hadv, hfollow⟩ := Option.bind_eq_some_iff.mp hfollow
    have hu : u.Accepted := ha.of_isPrefix ((outlineFrom_extending e ls).ok h).findings
    have hd : ∀ name, OutlineLine.ofCode code = .function name → depth = 0 :=
      fun _ hname => depth_of_function hlevels hadv hname
    have hdepth := outlineLine_depth hline
    subst hdepth
    rw [ih (fun l hl => hlast l (List.mem_cons_of_mem _ hl))
      (hlevels.advance (hlast (n, code) List.mem_cons_self) hadv) hfollow h,
      outlineLine_functions hd hline hu, declaredFunctions_cons, List.append_assoc]

end Build

/-! ## The second pass -/

theorem Line.getLast?_of_mem_numberedFrom {n : Int} {lines : List (List Char)}
    {l : Int × List Char} (h : l ∈ numberedFrom n lines) :
    ∀ c, l.2.getLast? = some c → isBlank c = false := by
  intro c hc
  obtain ⟨raw, -, he⟩ := Line.mem_numberedFrom h
  rw [he] at hc
  exact getLast?_trimRight hc

/-- Lines are numbered from the first to the last. -/
theorem Line.bounds_of_mem_numberedFrom {n : Int} {lines : List (List Char)}
    {l : Int × List Char} (h : l ∈ numberedFrom n lines) : n ≤ l.1 ∧ l.1 < n + lines.length := by
  induction lines generalizing n with
  | nil => cases h
  | cons raw lines ih =>
    simp only [numberedFrom] at h
    rw [List.length_cons]
    split at h
    · have := ih h
      omega
    · rcases List.mem_cons.mp h with rfl | h
      · simp only
        omega
      · have := ih h
        omega

/-- No two lines have the same number. -/
theorem Line.numberedFrom_nodup (n : Int) (lines : List (List Char)) :
    ((numberedFrom n lines).map Prod.fst).Nodup := by
  induction lines generalizing n with
  | nil => exact List.nodup_nil
  | cons raw lines ih =>
    simp only [numberedFrom]
    split
    · exact ih (n + 1)
    · rw [List.map_cons, List.nodup_cons]
      refine ⟨?_, ih (n + 1)⟩
      intro hmem
      obtain ⟨l, hl, he⟩ := List.mem_map.mp hmem
      have := (bounds_of_mem_numberedFrom hl).1
      simp only at he
      omega

theorem mem_declaredFunctions {ls : List (Int × List Char)} {f : Function} :
    f ∈ declaredFunctions ls ↔
      ∃ code, (f.line, code) ∈ ls ∧ OutlineLine.ofCode code = .function f.name := by
  simp only [declaredFunctions, List.mem_filterMap, OutlineLine.function?_eq_some]
  constructor
  · rintro ⟨⟨n, code⟩, hl, hc, hn⟩
    exact ⟨code, by rwa [hn], hc⟩
  · rintro ⟨code, hl, hc⟩
    exact ⟨_, hl, hc, rfl⟩

theorem Sketch.withFunction_names {s : Sketch Instr} {name : String}
    (h : name ∉ s.functions.map Prod.fst) :
    (s.withFunction name).functions.map Prod.fst = s.functions.map Prod.fst ++ [name] := by
  rw [withFunction_of_notMem h, List.map_append]
  rfl

namespace Assembly

/-- The functions that the sketch defines so far. -/
def functionNames (a : Assembly) : List String := a.sketch.functions.map Prod.fst

section
variable {a a' : Assembly} {line : Int} {code : List Char} {c : BlockLine} {is : List Instr}

theorem write_functionNames (a : Assembly) (b : Body) (is : List Instr) :
    (a.write b is).functionNames = a.functionNames := by
  cases b with
  | function name => exact a.sketch.addFunction_names name is
  | setup | loop | detached => rfl

/-- Only the line that the table has for a function can add it to the sketch. -/
theorem Step.functionNames (step : a.Step line code c is a') :
    a'.functionNames = a.functionNames ∨ ∃ f : Function, c = .function f.name ∧
      f ∈ a.session.table.functions ∧ f.line = line := by
  cases step with
  | function f name hb hf hl =>
    have hname := SymbolTable.findFunction?_name hf
    exact .inr ⟨f, by rw [hname], List.mem_of_find?_eq_some hf, hl⟩
  | control | otherwise | endControl | statement => exact .inl (write_functionNames a _ _)
  | _ => exact .inl rfl

/-- The line that the table has for a function adds it, outside all blocks. -/
theorem Step.functionNames_of_declared {f : Function}
    (step : a.Step line code (.function f.name) is a') (hb : a.body = none)
    (hf : a.session.table.findFunction? f.name = some f) (hl : f.line = line)
    (hfresh : f.name ∉ a.functionNames) : a'.functionNames = a.functionNames ++ [f.name] := by
  cases step with
  | function => exact Sketch.withFunction_names hfresh
  | detached _ _ hne => exact absurd hl (hne f hf)
  | nested hc hbody =>
    rw [hb] at hbody
    cases hbody
  | rejected hr => cases hr

/-- In a place where the machine takes it, a line adds to the sketch the function that it declared
in the first pass. -/
theorem Step.functionNames_eq {all : List (Int × List Char)} {st st' : List Bool}
    (step : a.Step line code (BlockLine.ofCode code) is a') (hfits : a.Fits st)
    (hadv : advance st (BlockLine.ofCode code) = some st') (hmem : (line, code) ∈ all)
    (hlines : (all.map Prod.fst).Nodup) (htable : a.session.table.functions = declaredFunctions all)
    (hnames : ((declaredFunctions all).map (·.name)).Nodup)
    (hfresh : ∀ f, (OutlineLine.ofCode code).function? line = some f → f.name ∉ a.functionNames) :
    a'.functionNames = a.functionNames ++
      ((OutlineLine.ofCode code).function? line).toList.map (·.name) := by
  cases hf : (OutlineLine.ofCode code).function? line with
  | some f =>
    obtain ⟨hc, hl⟩ := OutlineLine.function?_eq_some.mp hf
    rw [block_of_outline hc] at step hadv
    have hnone : a.body = none := by
      cases hb : a.body with
      | none => rfl
      | some b =>
        obtain ⟨m, st₁, he⟩ := hfits.cons_of_some (by rw [hb]; rfl)
        rw [nil_of_advance_function hadv] at he
        cases he
    have hfind : a.session.table.findFunction? f.name = some f := by
      refine (SymbolTable.find?_key_eq_some_iff (htable ▸ hnames)).mpr ⟨?_, rfl⟩
      rw [htable]
      exact mem_declaredFunctions.mpr ⟨code, hl ▸ hmem, hc⟩
    exact step.functionNames_of_declared hnone hfind hl (hfresh f hf)
  | none =>
    rcases step.functionNames with h | ⟨f, -, hmemf, hl⟩
    · simpa using h
    · -- the table has a function for this line, so the line declares it
      rw [htable] at hmemf
      obtain ⟨code', hmem', hc⟩ := mem_declaredFunctions.mp hmemf
      rw [hl] at hmem'
      have he := List.inj_on_of_nodup_map hlines hmem hmem' rfl
      cases he
      rw [OutlineLine.function?_eq_some.mpr ⟨hc, hl⟩] at hf
      cases hf

/-- A run that stays in place defines the functions that its lines declare. -/
theorem functionNames_of_takeLines {all before ls : List (Int × List Char)} {st st' : List Bool}
    (hall : all = before ++ ls) (hlines : (all.map Prod.fst).Nodup)
    (hnames : ((declaredFunctions all).map (·.name)).Nodup)
    (htable : a.session.table.functions = declaredFunctions all)
    (hbefore : a.functionNames = (declaredFunctions before).map (·.name)) (hfits : a.Fits st)
    (hfollow : follow st (sorts ls) = some st') (hr : Assemble.takeLines ls a = .ok () a') :
    a'.functionNames = (declaredFunctions all).map (·.name) := by
  -- on the lines still to come; the functions defined so far are those declared `before`
  induction ls generalizing a before st with
  | nil =>
    cases hr
    rw [hbefore, hall, List.append_nil]
  | cons l ls ih =>
    obtain ⟨n, code⟩ := l
    obtain ⟨is, b, hl, hr⟩ := bind_eq_ok.mp hr
    have step := Assemble.takeLine_outcome n code a
    rw [hl] at step
    rw [sorts, List.map_cons, Script.follow_cons] at hfollow
    obtain ⟨st₁, hadv, hfollow⟩ := Option.bind_eq_some_iff.mp hfollow
    have hfits' : b.Fits st₁ := by
      rcases hfits.step step with ⟨st₂, hadv', acc⟩ | ⟨hnone, -⟩
      · rw [hadv'] at hadv
        cases hadv
        exact acc.fits
      · rw [hnone] at hadv
        cases hadv
    have hsplit : all = (before ++ [(n, code)]) ++ ls := by rw [hall, List.append_cons]
    have hdeclared : declaredFunctions (before ++ [(n, code)]) =
        declaredFunctions before ++ ((OutlineLine.ofCode code).function? n).toList := by
      rw [declaredFunctions_append, declaredFunctions_cons]
      simp [declaredFunctions]
    have hfresh : ∀ f, (OutlineLine.ofCode code).function? n = some f →
        f.name ∉ a.functionNames := by
      intro f hf hmem
      rw [hsplit, declaredFunctions_append, hdeclared, hf, List.map_append, List.map_append]
        at hnames
      rw [hbefore] at hmem
      exact (List.nodup_append.mp hnames.of_append_left).2.2 _ hmem _ (by simp) rfl
    have hstep := step.functionNames_eq hfits hadv (by simp [hall]) hlines htable hnames hfresh
    refine ih hsplit ?_ ?_ hfits' hfollow hr
    · rw [step.functions, htable]
    · rw [hstep, hbefore, hdeclared, List.map_append]

end
end Assembly

/-- The second pass declares no functions. -/
theorem Assemble.functions_of_takeLines {a a' : Assembly} {ls : List (Int × List Char)}
    (h : takeLines ls a = .ok () a') : a'.session.table.functions = a.session.table.functions :=
  takeLines_invariant (P := fun b => b.session.table.functions = a.session.table.functions)
    (fun _ _ _ _ _ hb step => step.functions.trans hb) rfl h

/-! ## Whole scripts -/

/-- In a script without errors the functions of the table are those that its lines declare, and the
sketch defines exactly these, in their order. -/
theorem functions_of_accepted {board : Board} {reserved : List String}
    {lines : List (List Char)} {a : Assembly}
    (h : assemble lines { session := .start board reserved } = .ok () a)
    (ha : a.session.Accepted) :
    a.session.table.functions = declaredFunctions (Line.numbered lines) ∧
      a.functionNames = a.session.table.functions.map (·.name) := by
  have hexcl := (SymbolTable.exclusive_start board reserved).grows (extends_of_assemble h).table
  obtain ⟨t, b, hs, hb, rfl⟩ := assemble_ok h
  have hbacc : b.session.Accepted := ha.of_isPrefix ⟨_, rfl⟩
  obtain ⟨st, hfollow⟩ : ∃ st, follow [] (sorts (Line.numbered lines)) = some st :=
    Option.isSome_iff_exists.mp ((Assemble.takeLines_clean_iff hb).mp hbacc.cleanSince)
  have hext := extends_of_takeLines hb
  have hfirst : t.table.functions = declaredFunctions (Line.numbered lines) := by
    obtain ⟨d, u, hout, hlog⟩ := bind_eq_ok.mp hs
    cases hlog
    exact Build.outlineFrom_functions (fun l hl => Line.getLast?_of_mem_numberedFrom hl) (.inl rfl)
      hfollow hout (hbacc.of_isPrefix hext.findings)
  have hall : b.session.table.functions = declaredFunctions (Line.numbered lines) :=
    (Assemble.functions_of_takeLines hb).trans hfirst
  have hsplit : Line.numbered lines = [] ++ Line.numbered lines := rfl
  have hnames := Assembly.functionNames_of_takeLines hsplit (Line.numberedFrom_nodup 1 lines)
    (hall ▸ hexcl.functions) hfirst rfl (.start t) hfollow hb
  exact ⟨hall, hnames.trans (by rw [hall])⟩

/-- The name of a function is made of the characters that words are made of. -/
theorem isWordChar_of_mem_declaredFunctions {ls : List (Int × List Char)} {f : Function}
    (h : f ∈ declaredFunctions ls) {c : Char} (hc : c ∈ f.name.toList) :
    isNameStart c = true ∨ isWordChar c = true := by
  have hname : Shape.Yields (fun n => ∀ c ∈ n.toList, isNameStart c = true ∨ isWordChar c = true)
      Shape.name := by
    intro cs n r hn c hc
    obtain ⟨d, ds, -, hd, hlist, -⟩ := Shape.name_eq_some hn
    rw [hlist] at hc
    rcases List.mem_cons.mp hc with rfl | hc
    · exact .inl hd
    · exact .inr (List.mem_takeWhile_imp hc)
  have hshape : Shape.Yields (fun n => ∀ c ∈ n.toList, isNameStart c = true ∨ isWordChar c = true)
      functionShape :=
    Shape.yields_bind fun _ => Shape.yields_bind fun _ => hname.bind fun _ hn =>
      Shape.yields_bind fun _ => Shape.yields_bind fun _ => Shape.yields_bind fun _ =>
        Shape.yields_pure hn
  obtain ⟨code, -, hcode⟩ := mem_declaredFunctions.mp h
  have hsort := OutlineLine.isSort_ofCode code
  rw [hcode] at hsort
  cases hsort with
  | function hfirst =>
    obtain ⟨x, hx, hn⟩ := Option.map_eq_some_iff.mp hfirst
    exact hshape code x.1 x.2 hx c (hn ▸ hc)

/-- The text of a sketch without errors declares and defines each function of the table once. -/
theorem definesOnce_of_accepted {board : Board} {reserved : List String}
    {lines : List (List Char)} {a : Assembly}
    (h : assemble lines { session := .start board reserved } = .ok () a)
    (ha : a.session.Accepted) (unit : String) :
    Sketch.DefinesOnce (a.session.table.functions.map (·.name))
      ((a.sketch.map Instr.text).sections a.session.table unit) := by
  obtain ⟨hdeclared, hnames⟩ := functions_of_accepted h ha
  have hexcl := (SymbolTable.exclusive_start board reserved).grows (extends_of_assemble h).table
  have hbodies : (a.sketch.map Instr.text).functions.map Prod.fst =
      a.session.table.functions.map (·.name) := by
    rw [← hnames, Sketch.map, List.map_map]
    rfl
  have hchars : ∀ n ∈ a.session.table.functions.map (·.name),
      '(' ∉ n.toList ∧ '\n' ∉ n.toList := by
    intro n hn
    obtain ⟨f, hf, rfl⟩ := List.mem_map.mp hn
    rw [hdeclared] at hf
    constructor
    · exact fun hmem => absurd (isWordChar_of_mem_declaredFunctions hf hmem) (by decide)
    · exact fun hmem => absurd (isWordChar_of_mem_declaredFunctions hf hmem) (by decide)
  have hnodup := hexcl.functions
  rw [← hbodies] at hchars hnodup ⊢
  exact Sketch.definesOnce_sections hnodup hchars _ unit

theorem SymbolTable.Grows.findFunction? {t u : SymbolTable} (h : t.Grows u) {name : String}
    {f : Function} (hf : t.findFunction? name = some f) : u.findFunction? name = some f := by
  obtain ⟨fs, hfs⟩ := h.keeps.functions
  unfold SymbolTable.findFunction? at hf ⊢
  rw [← hfs, List.find?_append, hf]
  rfl

/-- What is declared in the first lines of a script is still so at its end. -/
theorem extends_of_outlineFrom {board : Board} {reserved : List String} {lines : List (List Char)}
    {a : Assembly} (h : assemble lines { session := .start board reserved } = .ok () a) {k d : Nat}
    {s : Session} (hs : Build.outlineFrom 0 (Line.numbered (lines.take k)) (.start board reserved) =
      .ok d s) : s.Extends a.session := by
  obtain ⟨t, b, ht, hb, rfl⟩ := assemble_ok h
  obtain ⟨e, u, hout, hlog⟩ := bind_eq_ok.mp ht
  cases hlog
  have hsplit : Line.numbered lines = Line.numbered (lines.take k) ++
      Line.numberedFrom (1 + (lines.take k).length) (lines.drop k) := by
    rw [Line.numbered, Line.numbered, ← Line.numberedFrom_append, List.take_append_drop]
  rw [hsplit, outlineFrom_append] at hout
  obtain ⟨d', s', hs', hrest⟩ := hout
  rw [hs] at hs'
  cases hs'
  have hfirst := (Build.outlineFrom_extending d _).ok hrest
  have hsecond := extends_of_takeLines hb
  exact ⟨hfirst.table.trans hsecond.table,
    (hfirst.findings.trans hsecond.findings).trans ⟨_, rfl⟩⟩

/-- The sketch of a script defines only functions of the table, each once, and the body of each
holds what was written under the block that opens on the line where the table has the function. The
first definition stands: later ones do not replace it. If the script has no errors, the functions of
the table are those that its lines declare, the sketch defines every one of them, in the order of
the table, and its text has one prototype and one definition for each. -/
theorem functions_defined_once (o : Options) (source : String) :
    match assemble (sourceLines source) { session := .start o.board o.reserved } with
    | .ok _ a =>
      (a.sketch.functions.map Prod.fst).Nodup ∧
      (∀ b ∈ a.sketch.functions, ∃ f, a.session.table.findFunction? b.1 = some f ∧
        b.2 = Written.under? f.frame (scriptTrace o source)) ∧
      (∀ k d s name f, Build.outlineFrom 0 (Line.numbered ((sourceLines source).take k))
          (.start o.board o.reserved) = .ok d s → s.table.findFunction? name = some f →
        a.session.table.findFunction? name = some f) ∧
      (a.session.Accepted →
        a.session.table.functions = declaredFunctions (Line.numbered (sourceLines source)) ∧
        a.sketch.functions.map Prod.fst = a.session.table.functions.map (·.name) ∧
        (∀ f ∈ a.session.table.functions, (a.sketch.functions.map Prod.fst).count f.name = 1) ∧
        ∃ sections, a.code o.indent = "\n\n".intercalate
            (Sketch.banner a.session.table.board version :: sections) ++ "\n" ∧
          Sketch.DefinesOnce (a.session.table.functions.map (·.name)) sections)
    | .error _ _ => True := by
  split
  · next a h =>
    have hbodies := bodies_of_assemble h
    refine ⟨hbodies.nodup, hbodies.declared, ?_, ?_⟩
    · intro k d s name f hs hf
      exact (extends_of_outlineFrom h hs).table.findFunction? hf
    · intro ha
      obtain ⟨hdeclared, hnames⟩ := functions_of_accepted h ha
      refine ⟨hdeclared, hnames, fun f hf => ?_, _, rfl, definesOnce_of_accepted h ha o.indent⟩
      refine List.count_eq_one_of_mem hbodies.nodup ?_
      show f.name ∈ a.functionNames
      rw [hnames]
      exact List.mem_map.mpr ⟨f, hf, rfl⟩
  · trivial

example :
    (match assemble (sourceLines "function blip:\ntoggle 13\nend\nsetup:\nend\nloop:\nend")
        { session := .start .uno reservedWords } with
      | .ok _ a => a.session.findings.isEmpty && a.functionNames == ["blip"]
      | .error _ _ => false) = true := by
  decide +kernel

end PlainSketch
