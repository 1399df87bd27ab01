import PlainSketch.Program
import PlainSketch.Proofs.BraceNesting
import PlainSketch.Proofs.TableSteps

/-!
# Where the lines of a sketch come from

The trace of the second pass tells for every line of a script what it wrote and which structural
block was open then. The body of a function holds exactly what was written under the block that
opens on the line where the table has the function; whatever is written under another block of the
same name goes to a detached body.
-/
namespace PlainSketch

/-- The open block of a function. -/
def Function.frame (f : Function) : Frame :=
  { kind := .function, line := f.line, name := some f.name }

/-- What a line of a script wrote, and the structural block that was open when the line came. -/
structure Written where
  line : Int
  under : Option Frame
  instrs : List Instr
deriving DecidableEq, Repr

/-- What was written under a block. -/
def Written.under? (f : Frame) (ws : List Written) : List Instr :=
  (ws.filter fun w => w.under == some f).flatMap (·.instrs)

/-- The structural block that is open: the one that selects the open body. -/
def Assembly.structure? (a : Assembly) : Option Frame :=
  a.stack.find? fun f => f.isStructural && f.opened

/-- What each of the lines writes, from the given state on. -/
def Assemble.trace : List (Int × List Char) → Assembly → List Written
  | [], _ => []
  | (line, code) :: ls, a =>
    match takeLine line code a with
    | .ok is b => ⟨line, a.structure?, is⟩ :: trace ls b
    | .error _ _ => []

/-- What each line of a script writes. -/
def scriptTrace (o : Options) (source : String) : List Written :=
  match Build.outline (sourceLines source) (.start o.board o.reserved) with
  | .ok _ s => Assemble.trace (Line.numbered (sourceLines source)) { session := s }
  | .error _ _ => []

theorem Function.frame_inj {f g : Function} (h : f.frame = g.frame) : f = g := by
  obtain ⟨name, line⟩ := f
  obtain ⟨name', line'⟩ := g
  simp only [Function.frame, Frame.mk.injEq, Option.some.injEq] at h
  rw [h.2.1, h.2.2.1]

theorem SymbolTable.findFunction?_name {t : SymbolTable} {name : String} {f : Function}
    (h : t.findFunction? name = some f) : f.name = name := by
  simpa using List.find?_some h

theorem SymbolTable.findFunction?_congr {t u : SymbolTable} (h : u.functions = t.functions) :
    u.findFunction? = t.findFunction? := by
  funext name
  simp only [findFunction?, h]

theorem Sketch.addFunction_names (s : Sketch Instr) (name : String) (ls : List Instr) :
    (s.addFunction name ls).functions.map Prod.fst = s.functions.map Prod.fst := by
  rw [addFunction, List.map_map]
  refine List.map_congr_left fun b _ => ?_
  simp only [Function.comp_apply]
  split <;> rfl

theorem Sketch.withFunction_of_mem {s : Sketch Instr} {name : String}
    (h : name ∈ s.functions.map Prod.fst) : s.withFunction name = s := by
  obtain ⟨b, hb, he⟩ := List.mem_map.mp h
  rw [withFunction, if_pos (List.any_eq_true.mpr ⟨b, hb, by simpa using he⟩)]

theorem Sketch.withFunction_of_notMem {s : Sketch Instr} {name : String}
    (h : name ∉ s.functions.map Prod.fst) :
    (s.withFunction name).functions = s.functions ++ [(name, [])] := by
  rw [withFunction, if_neg]
  intro hany
  obtain ⟨b, hb, he⟩ := List.any_eq_true.mp hany
  exact h (List.mem_map.mpr ⟨b, hb, by simpa using he⟩)

theorem Written.under?_append (f : Frame) (ws : List Written) (w : Written) :
    under? f (ws ++ [w]) = under? f ws ++ if w.under = some f then w.instrs else [] := by
  by_cases h : w.under = some f <;> simp [under?, h]

namespace Assembly
open SymbolTable (findFunction?_name findFunction?_congr)

/-- The open body is the one that the open structural block selects. -/
inductive Selects (t : SymbolTable) : Option Frame → Option Body → Prop
  | none : Selects t none none
  | setup (line : Int) : Selects t (some { kind := .setup, line }) (some .setup)
  | loop (line : Int) : Selects t (some { kind := .loop, line }) (some .loop)
  | function {f : Function} (hf : t.findFunction? f.name = some f) :
      Selects t (some f.frame) (some (.function f.name))
  | detached {f : Function} (ls : List Instr) (hf : t.findFunction? f.name ≠ some f) :
      Selects t (some f.frame) (some (.detached ls))

/-- The bodies of functions, after the lines that the trace tells of. -/
structure Bodies (a : Assembly) (ws : List Written) : Prop where
  selects : Selects a.session.table a.structure? a.body
  nodup : (a.sketch.functions.map Prod.fst).Nodup
  declared : ∀ b ∈ a.sketch.functions, ∃ f, a.session.table.findFunction? b.1 = some f ∧
    b.2 = Written.under? f.frame ws
  opened : ∀ name, a.body = some (.function name) → name ∈ a.sketch.functions.map Prod.fst
  fresh : ∀ name f, a.session.table.findFunction? name = some f →
    name ∉ a.sketch.functions.map Prod.fst → Written.under? f.frame ws = []

section
variable {a a' : Assembly} {ws : List Written} {line : Int} {is : List Instr}

/-! ## The open structural block -/

theorem structure?_push {f : Frame} (hs : a'.stack = f :: a.stack)
    (hf : (f.isStructural && f.opened) = false) : a'.structure? = a.structure? := by
  rw [structure?, hs, List.find?_cons_of_neg (by simp [hf]), structure?]

theorem structure?_open {f : Frame} (hs : a'.stack = f :: a.stack)
    (hf : (f.isStructural && f.opened) = true) : a'.structure? = some f := by
  simp [structure?, hs, hf]

/-- With no body open there are refused control blocks only. -/
theorem StackShape.structure?_eq_none (h : a.StackShape) (hb : a.body = none) :
    a.structure? = none := by
  refine List.find?_eq_none.mpr fun f hf => ?_
  simp [(h.closed hb f hf).1]

/-- The second pass declares no pin and no function. -/
theorem Step.fixed {code : List Char} {c : BlockLine} (step : a.Step line code c is a') :
    a'.session.table.pins = a.session.table.pins ∧
      a'.session.table.functions = a.session.table.functions := by
  obtain hm | ⟨p, hm⟩ := Assemble.step_moves step
  · exact hm.fixed
  · exact hm.fixed

theorem Step.functions {code : List Char} {c : BlockLine} (step : a.Step line code c is a') :
    a'.session.table.functions = a.session.table.functions := step.fixed.2

/-- Lines of the second pass extend the session. -/
theorem Step.extends {code : List Char} {c : BlockLine} (step : a.Step line code c is a') :
    a.session.Extends a'.session := by
  obtain hm | ⟨p, hm⟩ := Assemble.step_moves step
  · exact hm.extends
  · have hreport : a.session.Extends (a.session.reported line p) := ⟨.refl _, ⟨_, rfl⟩⟩
    exact hreport.trans hm.extends

/-! ## Bodies of functions -/

theorem Selects.congr {t u : SymbolTable} {f : Option Frame} {b : Option Body}
    (h : Selects t f b) (hu : u.functions = t.functions) : Selects u f b := by
  have hfind := findFunction?_congr hu
  cases h with
  | none => exact .none
  | setup line => exact .setup line
  | loop line => exact .loop line
  | function hf => exact .function (hfind ▸ hf)
  | detached ls hf => exact .detached ls (hfind ▸ hf)

theorem Bodies.start (s : Session) : Bodies { session := s } [] :=
  ⟨.none, List.nodup_nil, nofun, nofun, fun _ _ _ _ => rfl⟩

/-- A line that leaves the bodies of functions alone. -/
theorem Bodies.aside (h : a.Bodies ws) {ws' : List Written}
    (hws : ∀ f : Function, a.session.table.findFunction? f.name = some f →
      Written.under? f.frame ws' = Written.under? f.frame ws)
    (hsketch : a'.sketch.functions = a.sketch.functions)
    (hfun : a'.session.table.functions = a.session.table.functions)
    (hsel : Selects a'.session.table a'.structure? a'.body)
    (hbody : ∀ name, a'.body = some (.function name) → a.body = some (.function name)) :
    a'.Bodies ws' := by
  have hfind := findFunction?_congr hfun
  refine ⟨hsel, hsketch ▸ h.nodup, ?_, ?_, ?_⟩
  · intro b hb
    rw [hsketch] at hb
    obtain ⟨f, hf, he⟩ := h.declared b hb
    have hname := findFunction?_name hf
    exact ⟨f, hfind ▸ hf, by rw [he, hws f (hname ▸ hf)]⟩
  · intro name hb
    rw [hsketch]
    exact h.opened name (hbody name hb)
  · intro name f hf hn
    rw [hfind] at hf
    rw [hsketch] at hn
    have hname := findFunction?_name hf
    rw [hws f (hname ▸ hf)]
    exact h.fresh name f hf hn

/-- A line that writes nothing and opens no body of a function. -/
theorem Bodies.quiet (h : a.Bodies ws) {u : Option Frame} (hsketch : a'.sketch = a.sketch)
    (hfun : a'.session.table.functions = a.session.table.functions)
    (hsel : Selects a'.session.table a'.structure? a'.body)
    (hbody : ∀ name, a'.body = some (.function name) → a.body = some (.function name)) :
    a'.Bodies (ws ++ [⟨line, u, []⟩]) := by
  refine h.aside ?_ (by rw [hsketch]) hfun hsel hbody
  intro f _
  simp [Written.under?_append]

/-- Lines for a block that is not that of a declared function do not count for any function. -/
theorem under?_of_ne {f : Frame} {g : Function} (h : g.frame ≠ f) :
    Written.under? g.frame (ws ++ [⟨line, some f, is⟩]) = Written.under? g.frame ws := by
  rw [Written.under?_append, if_neg (fun he => h (Option.some.inj he).symm), List.append_nil]

/-- A line that writes to the body of a function. -/
theorem Bodies.write_function (h : a.Bodies ws) {name : String}
    (hb : a.body = some (.function name)) (hsketch : a'.sketch = a.sketch.addFunction name is)
    (hbody : a'.body = a.body) (hstruct : a'.structure? = a.structure?)
    (hfun : a'.session.table.functions = a.session.table.functions) :
    a'.Bodies (ws ++ [⟨line, a.structure?, is⟩]) := by
  have hfind := findFunction?_congr hfun
  obtain ⟨g, hg, hname, hu⟩ : ∃ g : Function, a.session.table.findFunction? g.name = some g ∧
      g.name = name ∧ a.structure? = some g.frame := by
    have hsel := h.selects
    rw [hb] at hsel
    generalize a.structure? = u at hsel
    cases hsel with
    | function hf => exact ⟨_, hf, rfl, rfl⟩
  -- a frame has one function, so the line counts for no other
  have hother : ∀ f : Function, f.name ≠ name →
      Written.under? f.frame (ws ++ [⟨line, a.structure?, is⟩]) = Written.under? f.frame ws := by
    intro f hf
    rw [hu]
    refine under?_of_ne fun he => hf ?_
    rw [Function.frame_inj he, hname]
  refine ⟨?_, ?_, ?_, ?_, ?_⟩
  · rw [hstruct, hbody]
    exact h.selects.congr hfun
  · rw [hsketch, Sketch.addFunction_names]
    exact h.nodup
  · intro b' hb'
    rw [hsketch] at hb'
    obtain ⟨b, hmem, rfl⟩ := List.mem_map.mp hb'
    obtain ⟨f, hf, he⟩ := h.declared b hmem
    rw [hfind]
    by_cases hn : b.1 = name
    · have hfg : f = g := by
        rw [hn, ← hname, hg] at hf
        exact (Option.some.inj hf).symm
      subst hfg
      rw [if_pos (by simpa using hn)]
      refine ⟨f, hf, ?_⟩
      rw [Written.under?_append, if_pos hu, ← he]
    · rw [if_neg (by simpa using hn)]
      refine ⟨f, hf, ?_⟩
      rw [he, hother f (fun hfn => hn ((findFunction?_name hf).symm.trans hfn))]
  · intro n hn
    rw [hsketch, Sketch.addFunction_names]
    exact h.opened n (hbody ▸ hn)
  · intro n f hf hn
    rw [hsketch, Sketch.addFunction_names] at hn
    rw [hfind] at hf
    have hne : f.name ≠ name := by
      intro hfn
      rw [← findFunction?_name hf, hfn] at hn
      exact hn (h.opened name hb)
    rw [hother f hne]
    exact h.fresh n f hf hn

/-- A line that writes to the open body. -/
theorem Bodies.write (h : a.Bodies ws) {b : Body} (hb : a.body = some b)
    (hsketch : a'.sketch = (a.write b is).sketch) (hbody : a'.body = (a.write b is).body)
    (hstruct : a'.structure? = a.structure?)
    (hfun : a'.session.table.functions = a.session.table.functions) :
    a'.Bodies (ws ++ [⟨line, a.structure?, is⟩]) := by
  have hsel := h.selects
  rw [hb] at hsel
  cases b with
  | setup | loop =>
    have hbody' : a'.body = a.body := hbody
    have hsel' : Selects a'.session.table a'.structure? a'.body := by
      rw [hstruct, hbody']
      exact h.selects.congr hfun
    refine h.aside ?_ (by rw [hsketch]; rfl) hfun hsel' fun name hn => hbody' ▸ hn
    intro g _
    generalize a.structure? = u at hsel
    cases hsel
    exact under?_of_ne nofun
  | detached ls =>
    have hsel' : Selects a'.session.table a'.structure? a'.body := by
      rw [hstruct, hbody]
      generalize a.structure? = u at hsel
      cases hsel with
      | detached ls hf => exact (Selects.detached (ls ++ is) hf).congr hfun
    refine h.aside ?_ (by rw [hsketch]; rfl) hfun hsel' fun name hn => by rw [hbody] at hn; cases hn
    intro g hg
    generalize a.structure? = u at hsel
    cases hsel with
    | detached ls hf =>
      refine under?_of_ne fun he => hf ?_
      rw [← Function.frame_inj he]
      exact hg
  | function name => exact h.write_function hb hsketch hbody hstruct hfun

/-- The body of a declared function opens. -/
theorem Bodies.open_function (h : a.Bodies ws) {f : Function} {u : Option Frame}
    (hf : a.session.table.findFunction? f.name = some f)
    (hsketch : a'.sketch = a.sketch.withFunction f.name)
    (hbody : a'.body = some (.function f.name)) (hstruct : a'.structure? = some f.frame)
    (hfun : a'.session.table.functions = a.session.table.functions) :
    a'.Bodies (ws ++ [⟨line, u, []⟩]) := by
  have hfind := findFunction?_congr hfun
  have hws : ∀ g, Written.under? g (ws ++ [⟨line, u, []⟩]) = Written.under? g ws := by
    intro g
    simp [Written.under?_append]
  have hsel : Selects a'.session.table a'.structure? a'.body := by
    rw [hstruct, hbody]
    exact .function (hfind ▸ hf)
  by_cases hmem : f.name ∈ a.sketch.functions.map Prod.fst
  · have hsame : a'.sketch = a.sketch := hsketch.trans (Sketch.withFunction_of_mem hmem)
    refine ⟨hsel, hsame ▸ h.nodup, ?_, ?_, ?_⟩
    · simpa only [hsame, hfind, hws] using h.declared
    · intro n hn
      rw [hbody] at hn
      cases hn
      exact hsame ▸ hmem
    · simpa only [hsame, hfind, hws] using h.fresh
  · have hnew : a'.sketch.functions = a.sketch.functions ++ [(f.name, [])] := by
      rw [hsketch, Sketch.withFunction_of_notMem hmem]
    refine ⟨hsel, ?_, ?_, ?_, ?_⟩
    · rw [hnew, List.map_append, List.nodup_append]
      refine ⟨h.nodup, by simp, ?_⟩
      intro n hn m hm he
      simp only [List.map_cons, List.map_nil, List.mem_singleton] at hm
      exact hmem (hm ▸ he ▸ hn)
    · intro b hb
      rw [hnew] at hb
      rw [hfind]
      rcases List.mem_append.mp hb with hb | hb
      · simpa only [hws] using h.declared b hb
      · -- the new body is empty, and nothing was written under the frame of `f` before
        rw [List.mem_singleton.mp hb]
        exact ⟨f, hf, by rw [hws, h.fresh f.name f hf hmem]⟩
    · intro n hn
      rw [hbody] at hn
      cases hn
      simp [hnew]
    · intro n g hg hn
      rw [hnew, List.map_append, List.mem_append, not_or] at hn
      rw [hws]
      exact h.fresh n g (hfind ▸ hg) hn.1

/-- Every line keeps account. -/
theorem Bodies.step {code : List Char} {c : BlockLine} (h : a.Bodies ws) (hshape : a.StackShape)
    (step : a.Step line code c is a') : a'.Bodies (ws ++ [⟨line, a.structure?, is⟩]) := by
  have hfun := step.functions
  have hshape' := hshape.step step
  have same : ∀ {b : Assembly}, b.session.table.functions = a.session.table.functions →
      b.structure? = a.structure? → b.body = a.body →
      Selects b.session.table b.structure? b.body := by
    intro b hf hs hb
    rw [hs, hb]
    exact h.selects.congr hf
  cases step with
  | setup hb =>
    refine h.quiet rfl hfun ?_ fun _ hn => by cases hn
    rw [structure?_open rfl rfl]
    exact .setup line
  | loop hb =>
    refine h.quiet rfl hfun ?_ fun _ hn => by cases hn
    rw [structure?_open rfl rfl]
    exact .loop line
  | function f name hb hf hl =>
    have hname := findFunction?_name hf
    subst hname hl
    exact h.open_function hf rfl rfl (structure?_open rfl rfl) hfun
  | detached name hb hf =>
    refine h.quiet rfl hfun ?_ fun _ hn => by cases hn
    rw [structure?_open (f := Function.frame ⟨name, line⟩) rfl rfl]
    refine (Selects.detached (t := a.session.table) [] ?_).congr hfun
    exact fun he => hf _ he rfl
  | nested hc hb =>
    exact h.quiet rfl hfun (same hfun (structure?_push rfl (by simp)) rfl) fun _ hn => hn
  | pin => exact h.quiet rfl rfl h.selects fun _ hn => hn
  | stray o | refused o =>
    exact h.quiet rfl hfun (same hfun (structure?_push rfl (by simp)) rfl) fun _ hn => hn
  | @control t o b is ids hb =>
    refine h.write hb rfl rfl (structure?_push rfl ?_) hfun
    rw [Frame.control_isStructural, Bool.false_and]
  | @otherwise b top below hb hs hk =>
    refine h.write hb rfl rfl ?_ hfun
    simp [structure?, hs, Frame.isStructural, hk, BlockKind.isStructural]
  | @endRefused t top below hs ho =>
    have hpop : a.structure? = below.find? fun f => f.isStructural && f.opened := by
      simp [structure?, hs, ho]
    exact h.quiet rfl hfun (same hfun hpop.symm rfl) fun _ hn => hn
  | endStructure =>
    refine h.quiet rfl hfun ?_ fun _ hn => by cases hn
    -- structural blocks do not nest, so none is open below this one
    rw [hshape'.structure?_eq_none rfl]
    exact .none
  | @endControl t b top below hs ho hk hb =>
    refine h.write hb rfl rfl ?_ hfun
    simp [structure?, hs, hk]
  | statement hb =>
    refine h.write hb rfl rfl ?_ hfun
    simp only [structure?, write_stack]
  | unknownCommand | rejected => exact h.quiet rfl hfun (same hfun rfl rfl) fun _ hn => hn

/-- What holds of the trace so far holds of the trace of a whole run. -/
theorem Bodies.takeLines {ls : List (Int × List Char)} (h : a.Bodies ws) (hshape : a.StackShape)
    (hr : Assemble.takeLines ls a = .ok () a') : a'.Bodies (ws ++ Assemble.trace ls a) := by
  induction ls generalizing a ws with
  | nil =>
    cases hr
    rw [Assemble.trace, List.append_nil]
    exact h
  | cons l ls ih =>
    obtain ⟨n, code⟩ := l
    obtain ⟨is, b, hl, hr⟩ := bind_eq_ok.mp hr
    have step := Assemble.takeLine_outcome n code a
    rw [hl] at step
    have hrest := ih (h.step hshape step) (hshape.step step) hr
    rw [Assemble.trace, hl]
    simpa using hrest

/-- A line adds to a body what it writes, and nothing else. -/
theorem Step.mem_buffers {code : List Char} {c : BlockLine} (step : a.Step line code c is a')
    {p : Body × List Instr} (hp : p ∈ a'.buffers) {i : Instr} (hi : i ∈ p.2) :
    (∃ q ∈ a.buffers, i ∈ q.2) ∨ i ∈ is := by
  have quiet : p ∈ a.buffers ∨ p.2 = [] → (∃ q ∈ a.buffers, i ∈ q.2) ∨ i ∈ is := by
    rintro (h | h)
    · exact .inl ⟨p, h, hi⟩
    · rw [h] at hi
      cases hi
  have wrote : ∀ {b : Body}, a.body = some b → p ∈ (a.write b is).buffers →
      (∃ q ∈ a.buffers, i ∈ q.2) ∨ i ∈ is := by
    intro b hb h
    rcases mem_buffers_write hb h with ⟨ls, hls, rfl⟩ | ⟨hmem, -, -⟩
    · exact (List.mem_append.mp hi).imp_left fun hi => ⟨_, hls, hi⟩
    · exact .inl ⟨p, hmem, hi⟩
  cases step with
  | setup | loop | endStructure => exact quiet (.inl (mem_buffers_of_sketch hp rfl nofun))
  | function => exact quiet (mem_buffers_withFunction hp rfl rfl)
  | detached =>
    rcases Assembly.mem_buffers.mp hp with rfl | rfl | ⟨f, hf, rfl⟩ | ⟨ls, hls, rfl⟩
    · exact quiet (.inl a.setup_mem_buffers)
    · exact quiet (.inl a.loop_mem_buffers)
    · exact quiet (.inl (function_mem_buffers hf))
    · cases hls
      exact quiet (.inr rfl)
  | nested | pin | stray | refused | endRefused | unknownCommand | rejected => exact quiet (.inl hp)
  | control hb | otherwise hb | statement hb => exact wrote hb hp
  | endControl hs ho hk hb => exact wrote hb hp

/-- Every line of a body was written by a line of the script. -/
theorem mem_trace {ls : List (Int × List Char)} (hr : Assemble.takeLines ls a = .ok () a')
    {p : Body × List Instr} (hp : p ∈ a'.buffers) {i : Instr} (hi : i ∈ p.2) :
    (∃ q ∈ a.buffers, i ∈ q.2) ∨ ∃ w ∈ Assemble.trace ls a, i ∈ w.instrs := by
  induction ls generalizing a with
  | nil =>
    cases hr
    exact .inl ⟨p, hp, hi⟩
  | cons l ls ih =>
    obtain ⟨n, code⟩ := l
    obtain ⟨is, b, hl, hr⟩ := bind_eq_ok.mp hr
    have step := Assemble.takeLine_outcome n code a
    rw [hl] at step
    rw [Assemble.trace, hl]
    rcases ih hr with ⟨q, hq, hi⟩ | ⟨w, hw, hi⟩
    · refine (step.mem_buffers hq hi).imp_right fun hi => ?_
      exact ⟨_, List.mem_cons_self, hi⟩
    · exact .inr ⟨w, List.mem_cons_of_mem _ hw, hi⟩

end

end Assembly

/-! ## Whole scripts -/

theorem assemble_ok {lines : List (List Char)} {s : Session} {a : Assembly}
    (h : assemble lines { session := s } = .ok () a) :
    ∃ t b, Build.outline lines s = .ok () t ∧
      Assemble.takeLines (Line.numbered lines) { session := t } = .ok () b ∧
      a = { b with session := { b.session with
        findings := b.session.findings ++ Assemble.lastFindings lines.length b } } := by
  obtain ⟨_, a₁, h₁, h⟩ := bind_eq_ok.mp h
  obtain ⟨_, b, h₂, h⟩ := bind_eq_ok.mp h
  rw [Assemble.finish_eq] at h
  cases h
  simp only [Assemble.build] at h₁
  cases hs : Build.outline lines s with
  | error f t =>
    rw [hs] at h₁
    cases h₁
  | ok u t =>
    rw [hs] at h₁
    cases h₁
    exact ⟨t, b, rfl, h₂, rfl⟩

theorem extends_of_takeLines {ls : List (Int × List Char)} {a b : Assembly}
    (h : Assemble.takeLines ls a = .ok () b) : a.session.Extends b.session :=
  Assemble.takeLines_invariant (P := fun b => a.session.Extends b.session)
    (fun _ _ _ _ _ hb step => hb.trans step.extends) (.refl _) h

theorem extends_of_assemble {lines : List (List Char)} {s : Session} {a : Assembly}
    (h : assemble lines { session := s } = .ok () a) : s.Extends a.session := by
  obtain ⟨t, b, hs, hb, rfl⟩ := assemble_ok h
  have hfirst := (Build.outline_extending lines).ok hs
  have hsecond := extends_of_takeLines hb
  exact (hfirst.trans hsecond).trans ⟨.refl _, ⟨_, rfl⟩⟩

/-- The trace of a script accounts for the functions of its sketch. -/
theorem bodies_of_assemble {o : Options} {source : String} {a : Assembly}
    (h : assemble (sourceLines source) { session := .start o.board o.reserved } = .ok () a) :
    a.Bodies (scriptTrace o source) := by
  obtain ⟨t, b, hs, hb, rfl⟩ := assemble_ok h
  have hbodies := (Assembly.Bodies.start t).takeLines (.start t) hb
  rw [scriptTrace, hs]
  exact ⟨hbodies.selects, hbodies.nodup, hbodies.declared, hbodies.opened, hbodies.fresh⟩

end PlainSketch
