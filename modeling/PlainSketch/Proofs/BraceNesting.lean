import PlainSketch.Proofs.Indentation
import PlainSketch.Proofs.StackShape

/-!
# Nesting of the bodies of a sketch

The lines that go to a body are well nested at every moment: what has been written so far is the
beginning of a well-nested sequence of lines. The blocks still open in the open body are the opened
control blocks on the stack, innermost first, and every other body has none. So at the end of
a script that leaves nothing open the bodies are well nested, and the indentation comes back to
where it began.
-/
namespace PlainSketch

/-- An opened control block: its header stands in the open body. -/
def Frame.hasHeader (f : Frame) : Bool := f.opened && !f.isStructural

open Nesting Instr in
/-- The lines of an accepted control opener open one block. -/
theorem Opener.Writes.follow {o : Opener} {ids ids' : Nat} {is : List Instr}
    (h : o.Writes ids is ids') (line : Int) (st : List Bool) :
    Nesting.follow Instr.mark st is =
      some (({ kind := Assemble.kindOf o, line } : Frame).mayBranch :: st) := by
  cases h with
  | ifDo | repeatTimes | forever | whileDo => rw [follow_cons_opens st (mark_header rfl)]; rfl
  | every =>
    rw [follow_cons_plain st (mark_simple (.of_none rfl) rfl),
      follow_cons_opens st (mark_header rfl),
      follow_cons_plain _ (mark_simple (.of_none rfl) rfl)]
    rfl
  | after =>
    rw [follow_cons_plain st (mark_simple (.of_none rfl) rfl),
      follow_cons_plain st (mark_simple (.of_none rfl) rfl),
      follow_cons_opens st (mark_header rfl),
      follow_cons_plain _ (mark_simple (.of_none rfl) rfl)]
    rfl

theorem Opener.Writes.tidy {o : Opener} {ids ids' : Nat} {is : List Instr}
    (h : o.Writes ids is ids') : ∀ i ∈ is, i.IsTidy := by
  have hnone : ∀ i ∈ is, i.lead? = none := by cases h <;> simp [Instr.lead?]
  exact fun i hi => .of_none (hnone i hi)

namespace Assembly

/-- All bodies with the lines written to them: those of the sketch, and a detached one while it is
open. -/
def buffers (a : Assembly) : List (Body × List Instr) :=
  (.setup, a.sketch.setup) :: (.loop, a.sketch.loop) ::
    ((a.sketch.functions.map fun f => (.function f.1, f.2)) ++
      match a.body with
      | some (.detached ls) => [(.detached ls, ls)]
      | _ => [])

theorem mem_buffers {a : Assembly} {p : Body × List Instr} :
    p ∈ a.buffers ↔ p = (.setup, a.sketch.setup) ∨ p = (.loop, a.sketch.loop) ∨
      (∃ f ∈ a.sketch.functions, p = (.function f.1, f.2)) ∨
        ∃ ls, a.body = some (.detached ls) ∧ p = (.detached ls, ls) := by
  have hdetached : p ∈ (match a.body with
      | some (.detached ls) => [(Body.detached ls, ls)]
      | _ => []) ↔ ∃ ls, a.body = some (.detached ls) ∧ p = (.detached ls, ls) := by
    rcases a.body with _ | _ | _ | name | ls <;> simp
  simp only [buffers, List.mem_cons, List.mem_append, List.mem_map, hdetached, eq_comm]

section Mem
variable (a : Assembly)

theorem setup_mem_buffers : (.setup, a.sketch.setup) ∈ a.buffers := mem_buffers.mpr (.inl rfl)

theorem loop_mem_buffers : (.loop, a.sketch.loop) ∈ a.buffers := mem_buffers.mpr (.inr (.inl rfl))

variable {a}

theorem function_mem_buffers {name : String} {ls : List Instr}
    (hf : (name, ls) ∈ a.sketch.functions) : (.function name, ls) ∈ a.buffers :=
  mem_buffers.mpr (.inr (.inr (.inl ⟨(name, ls), hf, rfl⟩)))

theorem detached_mem_buffers {ls : List Instr} (hb : a.body = some (.detached ls)) :
    (.detached ls, ls) ∈ a.buffers := mem_buffers.mpr (.inr (.inr (.inr ⟨ls, hb, rfl⟩)))

end Mem

/-- The open body after some lines were written to it. -/
def Body.extend (is : List Instr) : Body → Body
  | .detached ls => .detached (ls ++ is)
  | b => b

variable {a a' : Assembly} {b : Body} {is : List Instr}

theorem write_body_eq (hb : a.body = some b) : (a.write b is).body = some (Body.extend is b) := by
  cases b with
  | detached ls => rfl
  | _ => exact hb

/-- Writing adds the lines to the open body and leaves the others alone. -/
theorem mem_buffers_write (hb : a.body = some b) {p : Body × List Instr}
    (hp : p ∈ (a.write b is).buffers) :
    (∃ ls, (b, ls) ∈ a.buffers ∧ p = (Body.extend is b, ls ++ is)) ∨
      p ∈ a.buffers ∧ p.1 ≠ b ∧ p.1 ≠ Body.extend is b := by
  rw [mem_buffers, write_body_eq hb] at hp
  -- One buffer grows, the one of `b`; the others are the ones there were.
  cases b with
  | setup =>
    rcases hp with rfl | rfl | ⟨f, hf, rfl⟩ | ⟨ls, hls, -⟩
    · exact .inl ⟨a.sketch.setup, a.setup_mem_buffers, rfl⟩
    · exact .inr ⟨a.loop_mem_buffers, nofun, nofun⟩
    · exact .inr ⟨function_mem_buffers hf, nofun, nofun⟩
    · cases hls
  | loop =>
    rcases hp with rfl | rfl | ⟨f, hf, rfl⟩ | ⟨ls, hls, -⟩
    · exact .inr ⟨a.setup_mem_buffers, nofun, nofun⟩
    · exact .inl ⟨a.sketch.loop, a.loop_mem_buffers, rfl⟩
    · exact .inr ⟨function_mem_buffers hf, nofun, nofun⟩
    · cases hls
  | function name =>
    rcases hp with rfl | rfl | ⟨f, hf, rfl⟩ | ⟨ls, hls, -⟩
    · exact .inr ⟨a.setup_mem_buffers, nofun, nofun⟩
    · exact .inr ⟨a.loop_mem_buffers, nofun, nofun⟩
    · obtain ⟨g, hg, rfl⟩ := List.mem_map.mp hf
      by_cases hname : g.1 = name
      · subst hname
        exact .inl ⟨g.2, function_mem_buffers hg, by simp [Body.extend]⟩
      · rw [if_neg (by simpa using hname)]
        have hne : Body.function g.1 ≠ .function name := fun h => hname (Body.function.inj h)
        exact .inr ⟨function_mem_buffers hg, hne, hne⟩
    · cases hls
  | detached ls =>
    rcases hp with rfl | rfl | ⟨f, hf, rfl⟩ | ⟨ls', hls, rfl⟩
    · exact .inr ⟨a.setup_mem_buffers, nofun, nofun⟩
    · exact .inr ⟨a.loop_mem_buffers, nofun, nofun⟩
    · exact .inr ⟨function_mem_buffers hf, nofun, nofun⟩
    · cases hls
      exact .inl ⟨ls, detached_mem_buffers hb, rfl⟩

/-- Every line that was in the open body is there still. -/
theorem extend_mem_buffers (hb : a.body = some b) {ls : List Instr} (h : (b, ls) ∈ a.buffers) :
    (Body.extend is b, ls ++ is) ∈ (a.write b is).buffers := by
  rcases mem_buffers.mp h with h | h | ⟨f, hf, h⟩ | ⟨ls', -, h⟩
  · cases h
    exact setup_mem_buffers _
  · cases h
    exact loop_mem_buffers _
  · cases h
    have hmem : (f.1, f.2 ++ is) ∈ (a.sketch.addFunction f.1 is).functions :=
      List.mem_map.mpr ⟨f, hf, by simp⟩
    exact function_mem_buffers (a := a.write (.function f.1) is) hmem
  · cases h
    exact detached_mem_buffers rfl

/-! ## Open blocks -/

/-- The blocks that are open in the open body, the innermost first. -/
def openBlocks (a : Assembly) : List Bool :=
  (a.stack.filter Frame.hasHeader).map Frame.mayBranch

/-- What has been written is well nested up to here. -/
structure Nested (a : Assembly) : Prop where
  follows : ∀ p ∈ a.buffers, Nesting.follow Instr.mark [] p.2 =
    some (if a.body = some p.1 then a.openBlocks else [])
  tidy : ∀ p ∈ a.buffers, ∀ i ∈ p.2, i.IsTidy
  /-- The open body is one of the bodies. -/
  found : ∀ b, a.body = some b → ∃ ls, (b, ls) ∈ a.buffers

namespace Nested

theorem start (t : Session) : Nested { session := t } := by
  refine ⟨?_, ?_, nofun⟩
  · intro p hp
    rcases mem_buffers.mp hp with rfl | rfl | ⟨f, hf, -⟩ | ⟨ls, hls, -⟩
    · rfl
    · rfl
    · cases hf
    · cases hls
  · intro p hp i hi
    rcases mem_buffers.mp hp with rfl | rfl | ⟨f, hf, -⟩ | ⟨ls, hls, -⟩
    · cases hi
    · cases hi
    · cases hf
    · cases hls

/-- Nothing is written and the same blocks are open. -/
theorem congr (h : a.Nested) (hs : a'.sketch = a.sketch) (hb : a'.body = a.body)
    (ho : a'.openBlocks = a.openBlocks) : a'.Nested := by
  have hbuf : a'.buffers = a.buffers := by rw [buffers, buffers, hs, hb]
  refine ⟨?_, ?_, ?_⟩
  · rw [hbuf, hb, ho]
    exact h.follows
  · rw [hbuf]
    exact h.tidy
  · rw [hbuf, hb]
    exact h.found

/-- Lines are written that lead from the open blocks before to those after. -/
theorem write (h : a.Nested) (hb : a.body = some b)
    (hf : Nesting.follow Instr.mark a.openBlocks is = some a'.openBlocks)
    (ht : ∀ i ∈ is, i.IsTidy) (hs : a'.sketch = (a.write b is).sketch)
    (hb' : a'.body = (a.write b is).body) : a'.Nested := by
  have hbuf : a'.buffers = (a.write b is).buffers := by rw [buffers, buffers, hs, hb']
  rw [write_body_eq hb] at hb'
  refine ⟨?_, ?_, ?_⟩
  · intro p hp
    rw [hbuf] at hp
    rcases mem_buffers_write hb hp with ⟨ls, hls, rfl⟩ | ⟨hmem, hne, hne'⟩
    · have hbefore := h.follows _ hls
      rw [if_pos hb] at hbefore
      rw [if_pos hb', Nesting.follow_append, hbefore]
      exact hf
    · rw [hb', if_neg fun he => hne' (Option.some.inj he).symm]
      have hbefore := h.follows p hmem
      rwa [hb, if_neg fun he => hne (Option.some.inj he).symm] at hbefore
  · intro p hp i hi
    rw [hbuf] at hp
    rcases mem_buffers_write hb hp with ⟨ls, hls, rfl⟩ | ⟨hmem, -, -⟩
    · rcases List.mem_append.mp hi with hi | hi
      · exact h.tidy _ hls i hi
      · exact ht i hi
    · exact h.tidy p hmem i hi
  · intro c hc
    obtain ⟨ls, hls⟩ := h.found b hb
    rw [hb'] at hc
    cases hc
    rw [hbuf]
    exact ⟨ls ++ is, extend_mem_buffers hb hls⟩

/-- A structural block begins or ends while no control block is open. -/
theorem switch (h : a.Nested) (ho : a.openBlocks = []) (ho' : a'.openBlocks = [])
    (hbuf : ∀ p ∈ a'.buffers, p ∈ a.buffers ∨ p.2 = [])
    (hfound : ∀ b, a'.body = some b → ∃ ls, (b, ls) ∈ a'.buffers) : a'.Nested := by
  refine ⟨?_, ?_, hfound⟩
  · intro p hp
    rw [ho', ite_self]
    rcases hbuf p hp with hp | hp
    · have hbefore := h.follows p hp
      rwa [ho, ite_self] at hbefore
    · rw [hp]
      rfl
  · intro p hp i hi
    rcases hbuf p hp with hp | hp
    · exact h.tidy p hp i hi
    · rw [hp] at hi
      cases hi

end Nested

/-! ## Steps -/

theorem filter_hasHeader_of_refused {fs : List Frame} (h : ∀ f ∈ fs, f.IsRefusedControl) :
    fs.filter Frame.hasHeader = [] := by
  rw [List.filter_eq_nil_iff]
  intro f hf
  simp [Frame.hasHeader, (h f hf).2]

/-- Without an open body, no control block is open. -/
theorem StackShape.openBlocks (h : a.StackShape) (hb : a.body = none) : a.openBlocks = [] := by
  rw [Assembly.openBlocks, filter_hasHeader_of_refused (h.closed hb)]
  rfl

theorem openBlocks_cons {f : Frame} {fs : List Frame} (hs : a.stack = f :: fs)
    (hf : f.hasHeader = false) :
    a.openBlocks = (fs.filter Frame.hasHeader).map Frame.mayBranch := by
  rw [openBlocks, hs, List.filter_cons_of_neg (by simp [hf])]

theorem openBlocks_cons_header {f : Frame} {fs : List Frame} (hs : a.stack = f :: fs)
    (hf : f.hasHeader = true) :
    a.openBlocks = f.mayBranch :: (fs.filter Frame.hasHeader).map Frame.mayBranch := by
  rw [openBlocks, hs, List.filter_cons_of_pos hf, List.map_cons]

/-- Without a detached body the bodies are those of the sketch. -/
theorem mem_buffers_of_sketch {p : Body × List Instr} (hp : p ∈ a'.buffers)
    (hs : a'.sketch = a.sketch) (hb : ∀ ls, a'.body ≠ some (.detached ls)) : p ∈ a.buffers := by
  rw [mem_buffers, hs] at hp
  rcases hp with rfl | rfl | ⟨f, hf, rfl⟩ | ⟨ls, hls, -⟩
  · exact a.setup_mem_buffers
  · exact a.loop_mem_buffers
  · exact function_mem_buffers hf
  · exact absurd hls (hb ls)

theorem withFunction_setup (s : Sketch Instr) (name : String) :
    (s.withFunction name).setup = s.setup := by
  unfold Sketch.withFunction
  split <;> rfl

theorem withFunction_loop (s : Sketch Instr) (name : String) :
    (s.withFunction name).loop = s.loop := by
  unfold Sketch.withFunction
  split <;> rfl

theorem mem_withFunction {s : Sketch Instr} {name : String} {g : String × List Instr}
    (h : g ∈ (s.withFunction name).functions) : g ∈ s.functions ∨ g.2 = [] := by
  unfold Sketch.withFunction at h
  split at h
  · exact .inl h
  · rcases List.mem_append.mp h with h | h
    · exact .inl h
    · rw [List.mem_singleton.mp h]
      exact .inr rfl

theorem exists_mem_withFunction (s : Sketch Instr) (name : String) :
    ∃ ls, (name, ls) ∈ (s.withFunction name).functions := by
  unfold Sketch.withFunction
  split
  · next h =>
    obtain ⟨⟨n, ls⟩, hg, hn⟩ := List.any_eq_true.mp h
    have hname : n = name := by simpa using hn
    subst hname
    exact ⟨ls, hg⟩
  · exact ⟨[], by simp⟩

theorem mem_buffers_withFunction {name : String} {p : Body × List Instr} (hp : p ∈ a'.buffers)
    (hs : a'.sketch = a.sketch.withFunction name) (hb : a'.body = some (.function name)) :
    p ∈ a.buffers ∨ p.2 = [] := by
  rw [mem_buffers, hs, hb, withFunction_setup, withFunction_loop] at hp
  rcases hp with rfl | rfl | ⟨g, hg, rfl⟩ | ⟨ls, hls, -⟩
  · exact .inl a.setup_mem_buffers
  · exact .inl a.loop_mem_buffers
  · rcases mem_withFunction hg with hg | hg
    · exact .inl (function_mem_buffers hg)
    · exact .inr hg
  · cases hls

/-- A structural block opens. -/
theorem Nested.open (h : a.Nested) (hshape : a.StackShape) (hb : a.body = none) {f : Frame}
    (hf : f.isStructural = true) (hs : a'.stack = f :: a.stack) (hb' : a'.body = some b)
    (hbuf : ∀ p ∈ a'.buffers, p ∈ a.buffers ∨ p.2 = []) (hfound : ∃ ls, (b, ls) ∈ a'.buffers) :
    a'.Nested := by
  have ho := hshape.openBlocks hb
  have ho' : a'.openBlocks = a.openBlocks := openBlocks_cons hs (by simp [Frame.hasHeader, hf])
  refine h.switch ho (ho'.trans ho) hbuf ?_
  intro c hc
  rw [hb'] at hc
  cases hc
  exact hfound

/-- The second branch of an `if` begins, of an opened one or of a refused one. -/
theorem openBlocks_alternate {top : Frame} {below : List Frame} (hs : a.stack = top :: below)
    (hk : top.kind = .ifDo) (ha : top.hasAlternate = false)
    (hs' : a'.stack = { top with hasAlternate := true } :: below) :
    Nesting.follow Instr.mark a.openBlocks (if top.opened then [.elseBranch] else []) =
      some a'.openBlocks := by
  have hkind : top.isStructural = false := by simp [Frame.isStructural, hk, BlockKind.isStructural]
  cases ho : top.opened with
  | true =>
    have hbefore : top.mayBranch = true := by simp [Frame.mayBranch, hk, ha]
    have hafter : ({ top with hasAlternate := true } : Frame).mayBranch = false := by
      simp [Frame.mayBranch]
    have hheader : ({ top with hasAlternate := true } : Frame).hasHeader = top.hasHeader := rfl
    have htop : top.hasHeader = true := by simp [Frame.hasHeader, ho, hkind]
    rw [openBlocks_cons_header hs htop, openBlocks_cons_header hs' (hheader.trans htop), hbefore,
      hafter]
    exact Nesting.follow_cons_alternates _ Instr.mark_elseBranch []
  | false =>
    have htop : top.hasHeader = false := by simp [Frame.hasHeader, ho]
    have htop' : ({ top with hasAlternate := true } : Frame).hasHeader = false := htop
    rw [openBlocks_cons hs htop, openBlocks_cons hs' htop']
    rfl

/-- Every step keeps the bodies well nested. -/
theorem Nested.step {line : Int} {code : List Char} {c : BlockLine} (h : a.Nested)
    (hshape : a.StackShape) (step : a.Step line code c is a') : a'.Nested := by
  have hshape' := hshape.step step
  cases step with
  | setup hb =>
    refine h.open hshape hb rfl rfl rfl ?_ ⟨a.sketch.setup, setup_mem_buffers _⟩
    exact fun p hp => .inl (mem_buffers_of_sketch hp rfl nofun)
  | loop hb =>
    refine h.open hshape hb rfl rfl rfl ?_ ⟨a.sketch.loop, loop_mem_buffers _⟩
    exact fun p hp => .inl (mem_buffers_of_sketch hp rfl nofun)
  | function f name hb =>
    obtain ⟨ls, hls⟩ := exists_mem_withFunction a.sketch name
    refine h.open hshape hb rfl rfl rfl ?_ ⟨ls, function_mem_buffers hls⟩
    exact fun p hp => mem_buffers_withFunction hp rfl rfl
  | detached name hb =>
    refine h.open hshape hb rfl rfl rfl ?_ ⟨[], detached_mem_buffers rfl⟩
    intro p hp
    rcases mem_buffers.mp hp with rfl | rfl | ⟨f, hf, rfl⟩ | ⟨ls, hls, rfl⟩
    · exact .inl a.setup_mem_buffers
    · exact .inl a.loop_mem_buffers
    · exact .inl (function_mem_buffers hf)
    · cases hls
      exact .inr rfl
  | nested hc hb => exact h.congr rfl rfl (openBlocks_cons rfl rfl)
  | pin => exact h
  | stray o hb | refused o hb => exact h.congr rfl rfl (openBlocks_cons rfl rfl)
  | @control t o b is ids hb hw ht =>
    refine h.write hb ?_ hw.tidy rfl rfl
    rw [hw.follow line]
    exact congrArg some (openBlocks_cons_header rfl
      (by simp [Frame.hasHeader, Frame.control_isStructural])).symm
  | @otherwise b top below hb hs hk ha =>
    refine h.write hb (openBlocks_alternate hs hk ha rfl) ?_ rfl rfl
    split <;> simp [Instr.IsTidy, Instr.lead?]
  | @endRefused t top below hs ho =>
    have hheader : top.hasHeader = false := by simp [Frame.hasHeader, ho]
    exact h.congr rfl rfl (openBlocks_cons hs hheader).symm
  | @endStructure t top below hs ho hk =>
    -- no structural block lies below another, so outside of it no brace is open
    have hnil := hshape'.openBlocks rfl
    have hheader : top.hasHeader = false := by simp [Frame.hasHeader, hk]
    refine h.switch ((openBlocks_cons hs hheader).trans hnil) hnil ?_ nofun
    exact fun p hp => .inl (mem_buffers_of_sketch hp rfl nofun)
  | @endControl t b top below hs ho hk hb =>
    have hheader : top.hasHeader = true := by simp [Frame.hasHeader, ho, hk]
    refine h.write hb ?_ (by simp [Instr.IsTidy, Instr.lead?]) rfl rfl
    rw [openBlocks_cons_header hs hheader, Nesting.follow_cons_closes _ Instr.mark_close]
    rfl
  | @statement t b st is hb hst ht =>
    have hsimple := (Build.statement_answers line st).2 _ _ _ ht
    have hname := Statement.ofCode?_hasName hst
    refine h.write hb ?_ (hsimple.tidy hname) rfl rfl
    rw [Nesting.follow_wellNested (hsimple.wellNested hname)]
    exact congrArg (fun fs => some ((fs.filter Frame.hasHeader).map Frame.mayBranch))
      (write_stack a b is).symm
  | unknownCommand | rejected => exact h.congr rfl rfl rfl

/-! ## Runs -/

theorem nested_of_takeLines {t : Session} {ls : List (Int × List Char)}
    (h : Assemble.takeLines ls { session := t } = .ok () a) : a.StackShape ∧ a.Nested :=
  Assemble.takeLines_invariant (P := fun a => a.StackShape ∧ a.Nested)
    (fun _ _ _ _ _ ha step => ⟨ha.1.step step, ha.2.step ha.1 step⟩) ⟨.start t, .start t⟩ h

theorem Nested.unclosed (h : a.Nested) {p : Body × List Instr} (hp : p ∈ a.buffers) :
    Nesting.unclosed Instr.mark p.2 =
      if a.body = some p.1 then (a.stack.countP Frame.hasHeader : Int) else 0 := by
  have hlen := Nesting.length_of_follow (h.follows p hp)
  rw [List.length_nil] at hlen
  split
  · next hb =>
    rw [if_pos hb, openBlocks, List.length_map, ← List.countP_eq_length_filter] at hlen
    omega
  · next hb =>
    rw [if_neg hb, List.length_nil] at hlen
    omega

/-- With no block open, every body is well nested. -/
theorem Nested.wellNested (h : a.Nested) (hs : a.stack = []) {p : Body × List Instr}
    (hp : p ∈ a.buffers) : WellNested Instr.mark p.2 := by
  have hf := h.follows p hp
  rw [openBlocks, hs, List.filter_nil, List.map_nil, ite_self] at hf
  exact Nesting.follow_eq_nil_iff.mp hf

/-- The header of an `if` is written by a line `if … do:` only. -/
theorem Step.control_of_openIf {line : Int} {code : List Char} {c : BlockLine} {test : List Char}
    (step : a.Step line code c is a') (hm : .openIf test ∈ is) :
    ∃ condition, c = .control (.ifDo condition) := by
  cases step with
  | @control t o b is ids hb hw ht =>
    cases hw with
    | ifDo condition => exact ⟨condition, rfl⟩
    | repeatTimes | forever | whileDo | every | after => simp at hm
  | @otherwise b top below => cases ho : top.opened <;> simp [ho] at hm
  | endControl => simp at hm
  | @statement t b st is hb hst ht =>
    cases ((Build.statement_answers line st).2 _ _ _ ht _ hm).1
  | _ => cases hm

/-- If no block is reported as unclosed at the end, none is open. -/
theorem stack_of_finish {lineCount : Nat} {s : Session} (hpre : s.findings <+: a.session.findings)
    (h : Assemble.finish lineCount a = .ok () a')
    (hclosed : ∀ f ∈ a'.session.findings.drop s.findings.length, ∀ label line,
      f.problem ≠ .unclosedBlock label line) : a.stack = [] := by
  rw [Assemble.finish_eq] at h
  cases h
  obtain ⟨fs, hfs⟩ := hpre
  cases hs : a.stack with
  | nil => rfl
  | cons top below =>
    refine absurd rfl (hclosed ⟨max lineCount 1, .unclosedBlock top.label top.line⟩ ?_
      top.label top.line)
    show _ ∈ List.drop _ (a.session.findings ++ Assemble.lastFindings lineCount a)
    rw [← hfs, List.append_assoc, List.drop_left]
    simp [Assemble.lastFindings, hs]

/-- After any number of lines every body is the beginning of a well-nested one. The headers that are
unclosed in the open body are as many as the opened control blocks on the stack, and other bodies
have none; headers that can have a second branch come from lines `if … do:` only. At the end of
a script that is not reported to leave a block open, indenting a body from depth one stays at depth
one or more and ends at depth one. -/
theorem wellNested_bodies (t : Session) (lines : List (List Char)) (k : Nat) :
    (match Assemble.takeLines (Line.numbered (lines.take k)) { session := t } with
      | .ok _ a =>
        (∀ p ∈ a.buffers, (∃ rest, WellNested Instr.mark (p.2 ++ rest)) ∧
          Nesting.unclosed Instr.mark p.2 =
            if a.body = some p.1 then (a.stack.countP Frame.hasHeader : Int) else 0) ∧
        ∀ b, a.body = some b → ∃ ls, (b, ls) ∈ a.buffers
      | .error _ _ => True) ∧
    (∀ line code a is a' test, Assemble.takeLine line code a = .ok is a' → .openIf test ∈ is →
      ∃ condition, BlockLine.ofCode code = .control (.ifDo condition)) ∧
    match Assemble.run lines { session := t } with
      | .ok _ a =>
        (∀ f ∈ a.session.findings.drop t.findings.length, ∀ label line,
          f.problem ≠ .unclosedBlock label line) →
        ∀ p ∈ a.buffers, Indent.Walks 1 1 1 (p.2.map fun i => i.text.toList)
      | .error _ _ => True := by
  refine ⟨?_, ?_, ?_⟩
  · split
    · next a h =>
      obtain ⟨-, hnested⟩ := nested_of_takeLines h
      refine ⟨?_, hnested.found⟩
      intro p hp
      exact ⟨Nesting.exists_wellNested_of_follow Instr.mark_close (hnested.follows p hp),
        hnested.unclosed hp⟩
    · trivial
  · intro line code a is a' test h hm
    have step := Assemble.takeLine_outcome line code a
    rw [h] at step
    exact step.control_of_openIf hm
  · split
    · next u a h =>
      intro hclosed p hp
      obtain ⟨_, b, htake, hfin⟩ := bind_eq_ok.mp h
      obtain ⟨-, hnested⟩ := nested_of_takeLines htake
      have hstack := stack_of_finish (Assemble.takeLines_isPrefix htake) hfin hclosed
      rw [Assemble.finish_eq] at hfin
      cases hfin
      have hb : p ∈ b.buffers := hp
      exact Instr.walks_of_wellNested (hnested.wellNested hstack hb) (hnested.tidy p hb) (by decide)
    · trivial

end Assembly
end PlainSketch
