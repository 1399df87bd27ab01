import PlainSketch.Proofs.BlockRuns

/-!
# Whole blocks as parts of a sketch

A `setup`, `loop` or function block that was taken once without errors is a part of the sketch that
can be put anywhere among other blocks (`Assemble.exists_playsAs`). A run over several blocks writes
their parts one after the other (`Assemble.takeLines_blocks`).
-/
namespace PlainSketch
open Session SymbolTable

namespace Line

/-- What is on the lines of a script that have code. -/
def codes (lines : List (List Char)) : List (List Char) :=
  (lines.map trimmedCode).filter fun c => !c.isEmpty

theorem numberedFrom_codes (n : Int) (lines : List (List Char)) :
    (numberedFrom n lines).map Prod.snd = codes lines := by
  induction lines generalizing n with
  | nil => rfl
  | cons l ls ih =>
    unfold numberedFrom
    cases h : trimmedCode l with
    | nil => simpa [codes, h] using ih (n + 1)
    | cons c cs => simpa [codes, h] using ih (n + 1)

theorem codes_flatten (parts : List (List (List Char))) :
    codes parts.flatten = (parts.map codes).flatten := by
  rw [codes, List.map_flatten, List.filter_flatten, List.map_map]
  rfl

/-- What the second pass sees in the lines that have code. -/
def blockLines (lines : List (List Char)) : List BlockLine := (codes lines).map BlockLine.ofCode

end Line

/-! ## Opening and closing a block -/

/-- The part of the sketch that a block with this first line is for. A function that the first pass
does not see has none. -/
def targetOf (code : List Char) : Option BlockLine :=
  match BlockLine.ofCode code with
  | .function name =>
    if OutlineLine.ofCode code = .function name then some (.function name) else none
  | c => some c

theorem block_of_targetOf {code : List Char} {c : BlockLine} (h : targetOf code = some c) :
    BlockLine.ofCode code = c := by
  unfold targetOf at h
  cases hc : BlockLine.ofCode code with
  | function name =>
    simp only [hc, Option.ite_none_right_eq_some] at h
    exact Option.some.inj h.2
  | _ =>
    rw [hc] at h
    exact Option.some.inj h

/-- The table has a function for the line exactly if the first pass sees one there. -/
def SymbolTable.Lists (t : SymbolTable) (l : Int × List Char) : Prop :=
  ∀ name, BlockLine.ofCode l.2 = .function name →
    ((∃ f, t.findFunction? name = some f ∧ f.line = l.1) ↔
      OutlineLine.ofCode l.2 = .function name)

theorem SymbolTable.Lists.congr {t u : SymbolTable} {l : Int × List Char} (h : t.Lists l)
    (hu : u.functions = t.functions) : u.Lists l := by
  intro name hc
  rw [findFunction?_congr hu]
  exact h name hc

/-- In the table of a script without errors. -/
theorem SymbolTable.lists_of_declared {t : SymbolTable} {all : List (Int × List Char)}
    (hlines : (all.map Prod.fst).Nodup) (ht : t.functions = declaredFunctions all)
    (hnames : (t.functions.map (·.name)).Nodup) {l : Int × List Char} (hl : l ∈ all) :
    t.Lists l := by
  obtain ⟨line, code⟩ := l
  intro name hc
  constructor
  · rintro ⟨f, hf, hline⟩
    obtain ⟨hmem, rfl⟩ := (find?_key_eq_some_iff hnames).mp hf
    rw [ht] at hmem
    obtain ⟨code', hcode, hdecl⟩ := mem_declaredFunctions.mp hmem
    rw [hline] at hcode
    cases List.inj_on_of_nodup_map hlines hl hcode rfl
    exact hdecl
  · intro hdecl
    refine ⟨⟨name, line⟩, (find?_key_eq_some_iff hnames).mpr ⟨?_, rfl⟩, rfl⟩
    rw [ht]
    exact mem_declaredFunctions.mpr ⟨code, hl, hdecl⟩

/-- The body that is opened for a target. -/
def Body.ofTarget : Option BlockLine → Body
  | some .setup => .setup
  | some .loop => .loop
  | some (.function name) => .function name
  | _ => .detached []

/-- A function has a body from its first line on. -/
def Sketch.openFor (s : Sketch Instr) : Option BlockLine → Sketch Instr
  | some (.function name) => s.withFunction name
  | _ => s

namespace Assembly

/-- The state inside a block. -/
def entered (a : Assembly) (head : List Char) (f : Frame) (u : Session) : Assembly :=
  { a with
    session := u
    sketch := a.sketch.openFor (targetOf head)
    body := some (.ofTarget (targetOf head))
    stack := f :: a.stack
    sawSetup := a.sawSetup || BlockLine.ofCode head == .setup
    sawLoop := a.sawLoop || BlockLine.ofCode head == .loop }

/-- The state after a block. -/
def withBlock (a : Assembly) (head : List Char) (w : Fragment) (u : Session) : Assembly :=
  { a with
    session := u
    sketch := a.sketch.add (targetOf head, Instr.shift a.ids w.lines)
    sawSetup := a.sawSetup || BlockLine.ofCode head == .setup
    sawLoop := a.sawLoop || BlockLine.ofCode head == .loop
    ids := a.ids + w.count }

/-- What is written between the first and the last line of a block is a part of the sketch. -/
theorem withBlock_eq {a : Assembly} (hs : a.stack = []) (hb : a.body = none) (head : List Char)
    (f : Frame) (w : Fragment) (u u' v : Session) (st : List Frame) :
    { (a.entered head f u).after (.ofTarget (targetOf head)) w u' st with
      session := v, stack := [], body := none } = a.withBlock head w v := by
  obtain ⟨session, sketch, stack, body, sawSetup, sawLoop, ids⟩ := a
  cases hs
  cases hb
  simp only [entered, after, withBlock]
  cases targetOf head with
  | none => rfl
  | some c => cases c <;> rfl

end Assembly

namespace Assemble
open Assembly

section
variable {a : Assembly} {line : Int} {code : List Char} {f : Frame}

theorem functionBody_eq {name : String} (hc : BlockLine.ofCode code = .function name)
    (hb : a.body = none) (hl : a.session.table.Lists (line, code)) :
    functionBody name line a =
      .ok (.ofTarget (targetOf code)) { a with sketch := a.sketch.openFor (targetOf code) } := by
  have hlists := hl name hc
  obtain ⟨session, sketch, stack, body, sawSetup, sawLoop, ids⟩ := a
  cases hb
  unfold functionBody
  simp only [bind, EStateM.bind, get_eq]
  by_cases hseen : OutlineLine.ofCode code = .function name
  · obtain ⟨g, hg, hgline⟩ := hlists.mpr hseen
    simp only [targetOf, hc, hseen, if_true, hg, hgline, beq_self_eq_true]
    rfl
  · simp only [targetOf, hc, if_neg hseen]
    cases hg : session.table.findFunction? name with
    | none => rfl
    | some g =>
      have hgline : (g.line == line) = false :=
        beq_eq_false_iff_ne.mpr fun h => hseen (hlists.mp ⟨g, hg, h⟩)
      simp only [hgline, Bool.false_eq_true, if_false]
      rfl

/-- The first line of a block. -/
theorem takeLine_opener (hf : (BlockLine.ofCode code).structure? line = some f)
    (hb : a.body = none) (hl : a.session.table.Lists (line, code)) :
    ∃ log, takeLine line code a = .ok [] (a.entered code f { a.session with log }) := by
  refine ⟨a.session.log ++ [.blockOpened line f.label (a.stack.length + 1)], ?_⟩
  unfold takeLine
  obtain ⟨session, sketch, stack, body, sawSetup, sawLoop, ids⟩ := a
  cases hb
  cases hc : BlockLine.ofCode code with
  | setup =>
    rw [hc] at hf
    cases hf
    have hne : (BlockLine.setup == BlockLine.loop) = false := rfl
    simp only [entered, targetOf, hc, hne, beq_self_eq_true, Bool.or_true, Bool.or_false]
    rfl
  | loop =>
    rw [hc] at hf
    cases hf
    have hne : (BlockLine.loop == BlockLine.setup) = false := rfl
    simp only [entered, targetOf, hc, hne, beq_self_eq_true, Bool.or_true, Bool.or_false]
    rfl
  | function name =>
    rw [hc] at hf
    cases hf
    have hne : (BlockLine.function name == BlockLine.setup) = false := rfl
    have hne' : (BlockLine.function name == BlockLine.loop) = false := rfl
    simp only [bind, EStateM.bind, functionBody_eq hc rfl hl, entered, hc, hne, hne', Bool.or_false]
    rfl
  | _ =>
    rw [hc] at hf
    cases hf

/-- The last line of a block. -/
theorem takeLine_closer (line : Int) (hc : BlockLine.ofCode code = .endBlock) (hs : a.stack = [f])
    (hopened : f.opened = true) (hkind : f.isStructural = true) :
    ∃ log, takeLine line code a =
      .ok [] { a with session := { a.session with log }, stack := [], body := none } := by
  refine ⟨a.session.log ++ [.blockClosed line f.label], ?_⟩
  rw [takeLine_end hc]
  unfold closeBlock
  simp only [bind, EStateM.bind, get_eq, hs, hopened, hkind]
  rfl

end

/-! ## Blocks -/

/-- The block with these lines is a part of the sketch wherever it stands. -/
def PlaysAs (t : SymbolTable) (codes : List (List Char)) (e : Effect) : Prop :=
  ∀ ls : List (Int × List Char), ls.map Prod.snd = codes →
    ∀ b : Assembly, b.stack = [] → b.body = none → t.Follows b.session.table →
      (∀ l ∈ ls, b.session.table.Lists l) →
      ∃ u, takeLines ls b = .ok () (b.withBlock (codes.headD []) e.toFragment u) ∧
        Build.Ends t e.uses b.session u

section
variable {t : SymbolTable} {a a' : Assembly}

theorem bare_of_structure? {c : BlockLine} {line line' : Int} {f f' : Frame}
    (h : c.structure? line = some f) (h' : c.structure? line' = some f') : f'.bare = f.bare := by
  cases c <;> cases h <;> cases h' <;> rfl

theorem isStructural_of_structure? {c : BlockLine} {line : Int} {f : Frame}
    (h : c.structure? line = some f) :
    f.isStructural = true ∧ f.opened = true ∧ f.mayBranch = false := by
  cases c <;> cases h <;> exact ⟨rfl, rfl, rfl⟩

theorem exists_structure? {c : BlockLine} (h : c.opensStructure = true) (line : Int) :
    ∃ f, c.structure? line = some f := by
  cases c <;> first | exact ⟨_, rfl⟩ | cases h

theorem playsAs_of_repeats {head last : List Char} {inner : List (List Char)} {e : Effect}
    {f : Frame} (ho : (BlockLine.ofCode head).opensStructure = true)
    (hlast : BlockLine.ofCode last = .endBlock) (hf : f.isStructural = true)
    (hopened : f.opened = true)
    (h : ∀ g line, (BlockLine.ofCode head).structure? line = some g →
      Repeats t inner [g.bare] [f.bare] e) :
    PlaysAs t (head :: inner ++ [last]) e := by
  intro ls hls b hstack hbody hs hlists
  obtain ⟨l, rest, rfl, rfl, hrest⟩ := List.map_eq_cons_iff.mp hls
  obtain ⟨ls', ends, rfl, hinner, hends⟩ := List.map_eq_append_iff.mp hrest
  obtain ⟨l', rfl, rfl⟩ := List.map_eq_singleton_iff.mp hends
  obtain ⟨g, hg⟩ := exists_structure? ho l.1
  obtain ⟨log₁, hopen⟩ := takeLine_opener hg hbody (hlists l (by simp))
  have hv := (Build.Ends.refl hs).log log₁
  obtain ⟨u, st, hrun, hst, hends⟩ := h g l.1 hg ls' hinner (b.entered l.2 g _)
    (.ofTarget (targetOf l.2)) (by simp [entered, hstack]) rfl hv.follows
  replace hst : st.map Frame.bare = [f].map Frame.bare := hst
  obtain ⟨opening, below, rfl, hbelow⟩ := exists_top hst
  cases List.map_eq_nil_iff.mp hbelow
  generalize hb' : (b.entered l.2 g _).after _ e.toFragment u _ = b' at hrun
  have hsame : b'.stack = [{ f with line := opening }] ∧ b'.session = u := by
    rw [← hb']
    exact ⟨rfl, rfl⟩
  obtain ⟨log, hclose⟩ := takeLine_closer l'.1 hlast hsame.1 hopened hf
  refine ⟨{ u with log }, ?_, hv.trans (hends.log log)⟩
  refine bind_eq_ok.mpr ⟨[], _, hopen, takeLines_append.mpr ⟨b', hrun, ?_⟩⟩
  refine bind_eq_ok.mpr ⟨[], _, hclose, ?_⟩
  rw [hsame.2, ← hb', withBlock_eq hstack hbody]
  rfl

/-- Outside every block. -/
theorem outside_of_fits (h : a.Fits []) : a.stack = [] ∧ a.body = none := by
  rcases h.shape with hout | ⟨fs, f, hs, -⟩
  · exact hout
  · rw [fits_stack h |>.mpr rfl] at hs
    simp at hs

/-- Inside a structural block and no other. -/
theorem singleton_of_fits (h : a.Fits [false]) :
    ∃ f, a.stack = [f] ∧ f.isStructural = true ∧ f.opened = true := by
  have hlength := congrArg List.length h.blocks
  rcases h.shape with ⟨hs, -⟩ | ⟨fs, f, hs, hkind, hopened, -⟩
  · simp [hs] at hlength
  · simp only [hs, List.map_append, List.length_append, List.length_map, List.length_cons,
      List.length_nil, Nat.add_eq_right, List.length_eq_zero_iff] at hlength
    cases hlength
    exact ⟨f, hs, hkind, hopened⟩

theorem exists_playsAs {ls : List (Int × List Char)} {o : BlockLine}
    (hstruct : Script.IsStructure o (sorts ls)) (hfits : a.Fits [])
    (hs : t.Follows a.session.table) (hlists : ∀ l ∈ ls, a.session.table.Lists l)
    (htake : ∀ l ∈ ls, MayTake t l.2) (h : takeLines ls a = .ok () a')
    (hacc : a'.session.Accepted) : ∃ e, PlaysAs t (ls.map Prod.snd) e := by
  obtain ⟨ho, w, hw, hsorts⟩ := hstruct
  obtain ⟨l, rest, rfl, rfl, hrest⟩ := List.map_eq_cons_iff.mp hsorts
  obtain ⟨inner, ends, rfl, rfl, hends⟩ := List.map_eq_append_iff.mp hrest
  obtain ⟨last, rfl, hlast⟩ := List.map_eq_singleton_iff.mp hends
  -- the lines are the opener `l`, the lines inside of it and the one that ends it
  obtain ⟨hstack, hbody⟩ := outside_of_fits hfits
  obtain ⟨g, hg⟩ := exists_structure? ho l.1
  obtain ⟨hkind, hopened, hbranch⟩ := isStructural_of_structure? hg
  obtain ⟨is, a₁, hl, hr⟩ := bind_eq_ok.mp h
  obtain ⟨log, hopen⟩ := takeLine_opener hg hbody (hlists l (by simp))
  rw [hopen] at hl
  cases hl
  obtain ⟨a₂, hinner, hclose⟩ := takeLines_append.mp hr
  have hfits₁ : (a.entered l.2 g { a.session with log }).Fits ([] ++ [false]) :=
    hfits.push_structure hbody hkind hopened hbranch rfl rfl
  have hs₁ : t.Follows (a.entered l.2 g { a.session with log }).session.table := hs
  obtain ⟨sh, e, hrepeats⟩ := exists_repeats_lines (fun l' hl' => htake l' (by simp [hl'])) hs₁
    hfits₁ (Nesting.follow_wellNested hw []) hinner
    (hacc.of_isPrefix (takeLines_isPrefix hclose))
  have hfits₂ : a₂.Fits [false] :=
    fits_of_follow hfits₁ (Script.follow_inside (Nesting.follow_wellNested hw [])) hinner
  obtain ⟨f, hf, hkind', hopened'⟩ := singleton_of_fits hfits₂
  -- Played back on its own lines, the repetition leaves the stack of the run itself.
  obtain ⟨u, st, hrun, hst, -⟩ := hrepeats inner rfl _ _ rfl rfl hs₁
  rw [hinner] at hrun
  cases hrun
  obtain rfl : st = [f] := hf
  rw [← hst] at hrepeats
  have hbare : (a.entered l.2 g { a.session with log }).stack.map Frame.bare = [g.bare] := by
    simp [entered, hstack]
  rw [hbare] at hrepeats
  rw [List.map_cons, List.map_append]
  refine ⟨e, playsAs_of_repeats ho hlast hkind' hopened' fun g' line hg' => ?_⟩
  rw [bare_of_structure? hg hg']
  exact hrepeats

end

/-! ## Runs over several blocks -/

section
variable {t : SymbolTable} {a a' : Assembly} {n : Int} {blocks : List (List (List Char))}

theorem sorts_numberedFrom (n : Int) (lines : List (List Char)) :
    sorts (Line.numberedFrom n lines) = Line.blockLines lines := by
  rw [sorts, Line.blockLines, ← Line.numberedFrom_codes n, List.map_map]
  rfl

/-- The blocks of a run without errors are parts of a sketch. -/
theorem exists_playsAs_of_run
    (hstruct : ∀ B ∈ blocks, ∃ o, Script.IsStructure o (Line.blockLines B))
    (hfits : a.Fits []) (hs : t.Follows a.session.table)
    (hlists : ∀ l ∈ Line.numberedFrom n blocks.flatten, a.session.table.Lists l)
    (htake : ∀ l ∈ Line.numberedFrom n blocks.flatten, MayTake t l.2)
    (h : takeLines (Line.numberedFrom n blocks.flatten) a = .ok () a')
    (hacc : a'.session.Accepted) : ∀ B ∈ blocks, ∃ e, PlaysAs t (Line.codes B) e := by
  induction blocks generalizing n a with
  | nil => exact nofun
  | cons B blocks ih =>
    rw [List.flatten_cons, Line.numberedFrom_append] at h hlists htake
    obtain ⟨b, hB, hrest⟩ := takeLines_append.mp h
    obtain ⟨o, ho⟩ := hstruct B (by simp)
    rw [← sorts_numberedFrom n] at ho
    obtain ⟨e, he⟩ := exists_playsAs ho hfits hs (fun l hl => hlists l (by simp [hl]))
      (fun l hl => htake l (by simp [hl])) hB (hacc.of_isPrefix (takeLines_isPrefix hrest))
    rw [Line.numberedFrom_codes] at he
    intro C hC
    rcases List.mem_cons.mp hC with rfl | hC
    · exact ⟨e, he⟩
    · obtain ⟨hstack, hbody⟩ := outside_of_fits hfits
      obtain ⟨u, hrun, hends⟩ := he _ (Line.numberedFrom_codes n B) a hstack hbody hs
        fun l hl => hlists l (by simp [hl])
      rw [hB] at hrun
      cases hrun
      exact ih (fun D hD => hstruct D (by simp [hD]))
        (fits_of_follow hfits (Script.follow_structure ho) hB) hends.follows
        (fun l hl => (hlists l (by simp [hl])).congr (functions_of_takeLines hB))
        (fun l hl => htake l (by simp [hl])) hrest C hC

/-- What a block adds to the sketch, given what it comes to. -/
def partOf (effect : List (List Char) → Effect) (B : List (List Char)) : Part :=
  ⟨(effect B).toFragment, targetOf ((Line.codes B).headD [])⟩

/-- A run over blocks that are parts of a sketch. -/
theorem takeLines_blocks {effect : List (List Char) → Effect}
    (hplays : ∀ B ∈ blocks, PlaysAs t (Line.codes B) (effect B))
    (hstack : a.stack = []) (hbody : a.body = none) (hs : t.Follows a.session.table)
    (hlists : ∀ l ∈ Line.numberedFrom n blocks.flatten, a.session.table.Lists l) :
    ∃ b, takeLines (Line.numberedFrom n blocks.flatten) a = .ok () b ∧
      b.stack = [] ∧ b.sketch = a.sketch.addAll (Part.place a.ids (blocks.map (partOf effect))) ∧
      Build.Ends t (blocks.flatMap fun B => (effect B).uses) a.session b.session := by
  induction blocks generalizing n a with
  | nil => exact ⟨a, rfl, hstack, rfl, .refl hs⟩
  | cons B blocks ih =>
    rw [List.flatten_cons, Line.numberedFrom_append] at hlists
    obtain ⟨u, hrun, hends⟩ := hplays B (by simp) _ (Line.numberedFrom_codes n B) a hstack hbody hs
      fun l hl => hlists l (by simp [hl])
    have hfun := functions_of_takeLines hrun
    obtain ⟨b, hrest, hstack', hsketch, hends'⟩ := ih (n := n + B.length) (a := a.withBlock _ _ u)
      (fun C hC => hplays C (by simp [hC])) hstack hbody hends.follows
      fun l hl => (hlists l (by simp [hl])).congr hfun
    refine ⟨b, ?_, hstack', hsketch, hends.trans hends'⟩
    rw [List.flatten_cons, Line.numberedFrom_append]
    exact takeLines_append.mpr ⟨_, hrun, hrest⟩

end

end Assemble
end PlainSketch
