import PlainSketch.Proofs.AssemblySteps
import PlainSketch.Proofs.WellNested

/-!
# The grammar of blocks

A script is a sequence of pin lines and structural blocks, among them a `setup` and a `loop`. Inside
a structural block stand statements, pin lines and control blocks, well nested. The second pass
decides this grammar on the sorts of the lines alone: it reports a problem of the block structure
exactly if the script is not of this form. What is wrong with a condition or a count does not matter
here, and neither does what the pass goes on to do after the first such report.
-/
namespace PlainSketch

namespace BlockLine

/-- What a line does to the nesting inside a structural block. -/
def mark : BlockLine → Mark
  | command | pin => .plain
  | control (.ifDo _) => .opens true
  | control _ => .opens false
  | otherwise => .alternates
  | endBlock => .closes
  | setup | loop | function _ | unknown => .foreign

def opensStructure : BlockLine → Bool
  | setup | loop | function _ => true
  | _ => false

theorem mark_of_opensStructure {c : BlockLine} (h : c.opensStructure = true) :
    c.mark = .foreign := by
  cases c with
  | setup | loop | function name => rfl
  | _ => cases h

theorem eq_endBlock_of_mark {c : BlockLine} (h : c.mark = .closes) : c = .endBlock := by
  cases c with
  | control o => cases o <;> cases h
  | endBlock => rfl
  | _ => cases h

end BlockLine

namespace Script

/-- A structural block: its opener, a body and `end`. -/
def IsStructure (o : BlockLine) (w : List BlockLine) : Prop :=
  o.opensStructure = true ∧ ∃ b, WellNested BlockLine.mark b ∧ w = o :: b ++ [.endBlock]

/-- Pin lines and structural blocks. -/
def IsOutline (parts : List (List BlockLine)) : Prop :=
  ∀ p ∈ parts, p = [.pin] ∨ ∃ o, IsStructure o p

/-- Pin lines and structural blocks, at least one of these for `setup` and one for `loop`. -/
def IsProgram (w : List BlockLine) : Prop :=
  ∃ parts, w = parts.flatten ∧ IsOutline parts ∧ (∃ p ∈ parts, IsStructure .setup p) ∧
    ∃ p ∈ parts, IsStructure .loop p

/-- A structural opener in an outline opens one of its blocks. -/
theorem exists_structure_of_mem {parts : List (List BlockLine)} (h : IsOutline parts)
    {o : BlockLine} (ho : o.opensStructure = true) (hm : o ∈ parts.flatten) :
    ∃ p ∈ parts, IsStructure o p := by
  obtain ⟨p, hp, hop⟩ := List.mem_flatten.mp hm
  refine ⟨p, hp, ?_⟩
  rcases h p hp with rfl | ⟨o', ho', b, hb, rfl⟩
  · rw [List.mem_singleton.mp hop] at ho
    cases ho
  · rcases List.mem_cons.mp hop with rfl | hmem
    · exact ⟨ho, b, hb, rfl⟩
    · rcases List.mem_append.mp hmem with hmem | hmem
      · exact absurd (BlockLine.mark_of_opensStructure ho) (hb.ne_foreign o hmem)
      · rw [List.mem_singleton.mp hmem] at ho
        cases ho

theorem isProgram_iff {w : List BlockLine} :
    IsProgram w ↔ (∃ parts, w = parts.flatten ∧ IsOutline parts) ∧ .setup ∈ w ∧ .loop ∈ w := by
  constructor
  · rintro ⟨parts, rfl, hparts, ⟨p, hp, -, b, -, rfl⟩, ⟨q, hq, -, c, -, rfl⟩⟩
    refine ⟨⟨parts, rfl, hparts⟩, ?_, ?_⟩
    · exact List.mem_flatten.mpr ⟨_, hp, by simp⟩
    · exact List.mem_flatten.mpr ⟨_, hq, by simp⟩
  · rintro ⟨⟨parts, rfl, hparts⟩, hs, hl⟩
    exact ⟨parts, rfl, hparts, exists_structure_of_mem hparts rfl hs,
      exists_structure_of_mem hparts rfl hl⟩

/-! ## A machine for the grammar -/

/-- The open blocks after one more line. Outside every block only structural openers and pin lines
are in place. -/
def advance (st : List Bool) (c : BlockLine) : Option (List Bool) :=
  match st with
  | [] => if c.opensStructure then some [false] else if c = .pin then some [] else none
  | m :: st => Nesting.advance BlockLine.mark (m :: st) c

/-- The open blocks after some lines. -/
def follow (st : List Bool) (w : List BlockLine) : Option (List Bool) := w.foldlM advance st

@[simp] theorem follow_nil (st : List Bool) : follow st [] = some st := rfl

@[simp] theorem follow_cons (st : List Bool) (c : BlockLine) (w : List BlockLine) :
    follow st (c :: w) = (advance st c).bind fun st' => follow st' w := by
  rw [follow, List.foldlM_cons]
  rfl

theorem follow_append (st : List Bool) (v w : List BlockLine) :
    follow st (v ++ w) = (follow st v).bind fun st' => follow st' w := by
  rw [follow, List.foldlM_append]
  rfl

/-- Inside a structural block the machine follows the nesting alone. -/
theorem follow_inside {st st' : List Bool} {b : List BlockLine}
    (h : Nesting.follow BlockLine.mark st b = some st') :
    follow (st ++ [false]) b = some (st' ++ [false]) := by
  induction b generalizing st with
  | nil =>
    cases h
    rfl
  | cons c b ih =>
    rw [Nesting.follow_cons] at h
    obtain ⟨u, hu, hb⟩ := Option.bind_eq_some_iff.mp h
    have hc : advance (st ++ [false]) c = some (u ++ [false]) := by
      have := Nesting.advance_append hu [false]
      cases st <;> exact this
    rw [follow_cons, hc]
    exact ih hb

theorem follow_structure {o : BlockLine} {w : List BlockLine} (h : IsStructure o w) :
    follow [] w = some [] := by
  obtain ⟨ho, b, hb, rfl⟩ := h
  have hin := follow_inside (Nesting.follow_wellNested hb [])
  rw [List.nil_append] at hin
  have hopen : advance [] o = some [false] := by simp [advance, ho]
  rw [List.cons_append, follow_cons, hopen, Option.bind_some, follow_append, hin]
  rfl

theorem follow_outline {parts : List (List BlockLine)} (h : IsOutline parts) :
    follow [] parts.flatten = some [] := by
  induction parts with
  | nil => rfl
  | cons p ps ih =>
    have hp : follow [] p = some [] := by
      rcases h p (by simp) with rfl | ⟨o, ho⟩
      · rfl
      · exact follow_structure ho
    rw [List.flatten_cons, follow_append, hp]
    exact ih fun q hq => h q (List.mem_cons_of_mem p hq)

/-- The lines read so far: an outline, and perhaps a structural block that is still open. -/
inductive Partial : List Bool → List BlockLine → Prop
  | outside {parts : List (List BlockLine)} (hp : IsOutline parts) : Partial [] parts.flatten
  | inside {parts : List (List BlockLine)} {o : BlockLine} {st : List Bool} {b : List BlockLine}
      (hp : IsOutline parts) (ho : o.opensStructure = true)
      (hb : Nesting.Pending BlockLine.mark st b) :
      Partial (st ++ [false]) (parts.flatten ++ o :: b)

theorem IsOutline.append {parts : List (List BlockLine)} (h : IsOutline parts)
    {p : List BlockLine} (hp : p = [.pin] ∨ ∃ o, IsStructure o p) : IsOutline (parts ++ [p]) := by
  intro q hq
  rcases List.mem_append.mp hq with hq | hq
  · exact h q hq
  · rw [List.mem_singleton.mp hq]
    exact hp

theorem Partial.advance {st st' : List Bool} {w : List BlockLine} {c : BlockLine}
    (h : Partial st w) (hc : Script.advance st c = some st') : Partial st' (w ++ [c]) := by
  cases h with
  | @outside parts hp =>
    simp only [Script.advance] at hc
    split at hc
    · cases hc
      rename_i ho
      have hb : Nesting.Pending BlockLine.mark [] [] := .closed .nil
      exact .inside hp ho hb
    · split at hc
      · cases hc
        rename_i hpin
        subst hpin
        have := Partial.outside (hp.append (.inl rfl))
        rwa [List.flatten_append] at this
      · cases hc
  | @inside parts o st b hp ho hb =>
    have hn : Nesting.advance BlockLine.mark (st ++ [false]) c = some st' := by
      cases st <;> exact hc
    rw [List.append_assoc, List.cons_append]
    rcases Nesting.advance_append_cases hn with ⟨u, hu, rfl⟩ | ⟨rfl, hm | hm⟩
    · exact .inside hp ho (hb.advance hu)
    · simp [Nesting.advance, hm] at hn
    · -- the structural block itself ends here
      rw [List.nil_append, Nesting.advance_closes [] hm] at hn
      cases hn
      cases hb with
      | closed hb =>
        rw [BlockLine.eq_endBlock_of_mark hm]
        have hout := Partial.outside (hp.append (.inr ⟨o, ho, b, hb, rfl⟩))
        rwa [List.flatten_append, List.flatten_singleton] at hout

theorem partial_of_follow {st : List Bool} {w : List BlockLine} (h : follow [] w = some st) :
    Partial st w := by
  induction w using List.reverseRecOn generalizing st with
  | nil =>
    cases h
    have hp : IsOutline [] := by simp [IsOutline]
    exact .outside hp
  | append_singleton w c ih =>
    rw [follow_append] at h
    obtain ⟨u, hu, hc⟩ := Option.bind_eq_some_iff.mp h
    rw [follow_cons] at hc
    obtain ⟨v, hv, hn⟩ := Option.bind_eq_some_iff.mp hc
    cases hn
    exact (ih hu).advance hv

theorem Partial.outline {st : List Bool} {w : List BlockLine} (h : Partial st w) (hst : st = []) :
    ∃ parts, w = parts.flatten ∧ IsOutline parts := by
  cases h with
  | @outside parts hp => exact ⟨parts, rfl, hp⟩
  | inside => simp at hst

/-- The machine accepts exactly the outlines. -/
theorem follow_eq_nil_iff {w : List BlockLine} :
    follow [] w = some [] ↔ ∃ parts, w = parts.flatten ∧ IsOutline parts := by
  constructor
  · intro h
    exact (partial_of_follow h).outline rfl
  · rintro ⟨parts, rfl, hparts⟩
    exact follow_outline hparts

theorem isProgram_iff_follow {w : List BlockLine} :
    IsProgram w ↔ follow [] w = some [] ∧ .setup ∈ w ∧ .loop ∈ w := by
  rw [isProgram_iff, follow_eq_nil_iff]

theorem follow_ends (st : List Bool) :
    follow st (List.replicate st.length .endBlock) = some [] := by
  induction st with
  | nil => rfl
  | cons m st ih =>
    rw [List.length_cons, List.replicate_succ, follow_cons]
    exact ih

/-- The lines that the machine has taken are the beginning of a program, and no others are. -/
theorem exists_isProgram_iff {w : List BlockLine} :
    (∃ v, IsProgram (w ++ v)) ↔ (follow [] w).isSome = true := by
  constructor
  · rintro ⟨v, hv⟩
    have h := (isProgram_iff_follow.mp hv).1
    rw [follow_append] at h
    obtain ⟨st, hst, -⟩ := Option.bind_eq_some_iff.mp h
    rw [hst]
    rfl
  · intro h
    obtain ⟨st, hst⟩ := Option.isSome_iff_exists.mp h
    refine ⟨List.replicate st.length .endBlock ++ [.setup, .endBlock, .loop, .endBlock], ?_⟩
    refine isProgram_iff_follow.mpr ⟨?_, by simp, by simp⟩
    rw [follow_append, hst, Option.bind_some, follow_append, follow_ends]
    rfl

end Script

/-! ## The second pass follows the machine -/

/-- A state of the second pass in which nothing was out of place so far, with the open blocks of the
machine: one structural block around control blocks, or none at all. -/
structure Assembly.Fits (a : Assembly) (st : List Bool) : Prop where
  blocks : a.stack.map Frame.mayBranch = st
  shape : a.stack = [] ∧ a.body = none ∨ ∃ fs f, a.stack = fs ++ [f] ∧ f.isStructural = true ∧
    f.opened = true ∧ (∀ g ∈ fs, g.isStructural = false) ∧ a.body.isSome = true

namespace Assembly.Fits
variable {a a' : Assembly} {st : List Bool}

theorem start (t : Session) : Fits { session := t } [] := ⟨rfl, .inl ⟨rfl, rfl⟩⟩

theorem nil_of_none (h : a.Fits st) (hb : a.body = none) : a.stack = [] ∧ st = [] := by
  rcases h.shape with ⟨hs, -⟩ | ⟨fs, f, -, -, -, -, hsome⟩
  · exact ⟨hs, by rw [← h.blocks, hs]; rfl⟩
  · rw [hb] at hsome
    cases hsome

theorem cons_of_some (h : a.Fits st) (hb : a.body.isSome = true) : ∃ m st', st = m :: st' := by
  rcases h.shape with ⟨-, hn⟩ | ⟨fs, f, hs, -⟩
  · rw [hn] at hb
    cases hb
  · have hne : st ≠ [] := by rw [← h.blocks, hs]; simp
    exact List.exists_cons_of_ne_nil hne

/-- Nothing but the stack and the presence of a body matters. -/
theorem congr (h : a.Fits st) (hb : a'.body.isSome = a.body.isSome) (hs : a'.stack = a.stack) :
    a'.Fits st := by
  refine ⟨by rw [hs, h.blocks], ?_⟩
  rcases h.shape with ⟨hnil, hn⟩ | ⟨fs, f, he, hf, ho, hfs, hsome⟩
  · rw [hn] at hb
    exact .inl ⟨by rw [hs, hnil], by simpa using hb⟩
  · exact .inr ⟨fs, f, by rw [hs, he], hf, ho, hfs, hb.trans hsome⟩

/-- A structural block opens outside all others. -/
theorem push_structure {f : Frame} (h : a.Fits st) (hb : a.body = none)
    (hf : f.isStructural = true) (ho : f.opened = true) (hm : f.mayBranch = false)
    (hb' : a'.body.isSome = true) (hs : a'.stack = f :: a.stack) : a'.Fits [false] := by
  obtain ⟨hnil, -⟩ := h.nil_of_none hb
  rw [hnil] at hs
  refine ⟨by rw [hs, List.map_singleton, hm], .inr ⟨[], f, hs, hf, ho, by simp, hb'⟩⟩

/-- A control block comes inside a structural one. -/
theorem push_control {f : Frame} (h : a.Fits st) (hb : a.body.isSome = true)
    (hf : f.isStructural = false) (hb' : a'.body.isSome = true) (hs : a'.stack = f :: a.stack) :
    a'.Fits (f.mayBranch :: st) := by
  refine ⟨by rw [hs, List.map_cons, h.blocks], ?_⟩
  rcases h.shape with ⟨-, hn⟩ | ⟨fs, e, he, hes, heo, hfs, -⟩
  · rw [hn] at hb
    cases hb
  · refine .inr ⟨f :: fs, e, by rw [hs, he]; rfl, hes, heo, ?_, hb'⟩
    intro g hg
    rcases List.mem_cons.mp hg with rfl | hg
    · exact hf
    · exact hfs g hg

/-- A control block ends. -/
theorem pop_control {f : Frame} {fs : List Frame} (h : a.Fits st) (hs : a.stack = f :: fs)
    (hf : f.isStructural = false ∨ f.opened = false) (hb : a'.body.isSome = a.body.isSome)
    (hs' : a'.stack = fs) : a'.Fits st.tail := by
  refine ⟨by rw [← h.blocks, hs, hs']; rfl, ?_⟩
  rcases h.shape with ⟨hnil, -⟩ | ⟨gs, e, he, hes, heo, hgs, hsome⟩
  · rw [hnil] at hs
    cases hs
  · rw [hs] at he
    cases gs with
    | nil =>
      cases he
      rcases hf with hf | hf
      · rw [hes] at hf; cases hf
      · rw [heo] at hf; cases hf
    | cons g gs =>
      cases he
      exact .inr ⟨gs, e, hs', hes, heo, fun g hg => hgs g (List.mem_cons_of_mem _ hg),
        hb.trans hsome⟩

/-- The structural block ends. -/
theorem pop_structure {f : Frame} {fs : List Frame} (h : a.Fits st) (hs : a.stack = f :: fs)
    (hf : f.isStructural = true) (hb : a'.body = none) (hs' : a'.stack = fs) :
    a'.Fits st.tail := by
  refine ⟨by rw [← h.blocks, hs, hs']; rfl, .inl ⟨?_, hb⟩⟩
  rcases h.shape with ⟨hnil, -⟩ | ⟨gs, e, he, -, -, hgs, -⟩
  · rw [hnil] at hs
    cases hs
  · rw [hs] at he
    cases gs with
    | nil => cases he; exact hs'
    | cons g gs =>
      cases he
      have hfc := hgs f (by simp)
      rw [hf] at hfc
      cases hfc

/-- What the second pass does with a line that the machine takes to `st'`. -/
structure Accepts (a : Assembly) (c : BlockLine) (st' : List Bool) (a' : Assembly) : Prop where
  fits : a'.Fits st'
  moves : Session.Moves a.session a'.session
  setup : a'.sawSetup = (a.sawSetup || c == .setup)
  loop : a'.sawLoop = (a.sawLoop || c == .loop)

theorem control_mayBranch (o : Opener) (line : Int) (opened : Bool) :
    (BlockLine.control o).mark =
      .opens ({ kind := Assemble.kindOf o, line, opened } : Frame).mayBranch := by
  cases o <;> rfl

/-- A control opener comes inside a structural block, accepted or refused. -/
theorem accepts_control {o : Opener} {line : Int} {opened : Bool} (h : a.Fits st)
    (hb : a.body.isSome = true) (ht : Session.Moves a.session a'.session)
    (hb' : a'.body.isSome = true)
    (hs : a'.stack = { kind := Assemble.kindOf o, line, opened } :: a.stack)
    (hsetup : a'.sawSetup = a.sawSetup) (hloop : a'.sawLoop = a.sawLoop) :
    ∃ st', Script.advance st (.control o) = some st' ∧ Accepts a (.control o) st' a' := by
  obtain ⟨m, st, rfl⟩ := h.cons_of_some hb
  have hf := Frame.control_isStructural o line opened
  refine ⟨_, Nesting.advance_opens _ (control_mayBranch o line opened), ?_⟩
  exact ⟨h.push_control hb hf hb' hs, ht, by simp [hsetup], by simp [hloop]⟩

/-- A line out of place is one that the machine does not take. -/
theorem advance_eq_none_of_rejects {code : List Char} {c : BlockLine} {p : Problem}
    (h : a.Fits st) (hr : a.Rejects code c p) :
    Script.advance st c = none ∧ p.isStructural = true := by
  cases hr with
  | otherwiseOutsideBody hb | strayCommand hb =>
    obtain ⟨-, rfl⟩ := h.nil_of_none hb
    exact ⟨rfl, rfl⟩
  | otherwiseOutsideIf hb hk =>
    refine ⟨?_, rfl⟩
    rw [← h.blocks]
    cases hs : a.stack with
    | nil => rfl
    | cons top below =>
      simp [Frame.mayBranch, hk top below hs, Script.advance, Nesting.advance, BlockLine.mark]
  | otherwiseRepeated top below hb hs hk ha =>
    refine ⟨?_, rfl⟩
    rw [← h.blocks, hs]
    simp [Frame.mayBranch, ha, Script.advance, Nesting.advance, BlockLine.mark]
  | strayEnd hs =>
    refine ⟨?_, rfl⟩
    rw [← h.blocks, hs]
    rfl
  | unknownBlock => cases st <;> exact ⟨rfl, rfl⟩

theorem advance_end {f : Frame} {fs : List Frame} (h : a.Fits st) (hs : a.stack = f :: fs) :
    Script.advance st .endBlock = some st.tail := by
  rw [← h.blocks, hs]
  rfl

theorem advance_command (h : a.Fits st) (hb : a.body.isSome = true) :
    Script.advance st .command = some st := by
  obtain ⟨m, st, rfl⟩ := h.cons_of_some hb
  rfl

/-- Structural openers nest in nothing. -/
theorem advance_eq_none_of_structure {c : BlockLine} {line : Int} {f : Frame} (h : a.Fits st)
    (hc : c.structure? line = some f) (hb : a.body.isSome = true) :
    Script.advance st c = none ∧ (Assemble.nestedProblem f.kind).isStructural = true := by
  obtain ⟨m, st, rfl⟩ := h.cons_of_some hb
  cases c with
  | setup | loop | function name =>
    cases hc
    exact ⟨rfl, rfl⟩
  | _ => cases hc

/-- Every line is either taken by both, or the machine does not take it and the second pass reports
it. -/
theorem step {line : Int} {code : List Char} {c : BlockLine} {is : List Instr} (h : a.Fits st)
    (step : a.Step line code c is a') :
    (∃ st', Script.advance st c = some st' ∧ Accepts a c st' a') ∨
      Script.advance st c = none ∧ ∃ p, p.isStructural = true ∧
        Session.Moves (a.session.reported line p) a'.session := by
  cases step with
  | setup hb ht | loop hb ht | function f name hb hf hl ht | detached name hb hf ht =>
    obtain ⟨-, rfl⟩ := h.nil_of_none hb
    refine .inl ⟨[false], rfl, h.push_structure hb rfl rfl rfl rfl rfl, ht, ?_, ?_⟩ <;> simp
  | nested hc hb ht =>
    obtain ⟨hn, hp⟩ := h.advance_eq_none_of_structure hc hb
    exact .inr ⟨hn, _, hp, ht⟩
  | pin =>
    refine .inl ⟨st, by cases st <;> rfl, h, .refl _, ?_, ?_⟩ <;> simp
  | stray o hb ht =>
    obtain ⟨-, rfl⟩ := h.nil_of_none hb
    exact .inr ⟨rfl, _, rfl, ht⟩
  | refused o hb ht => exact .inl (h.accepts_control hb ht hb rfl rfl rfl)
  | control hb hw ht =>
    have hsome : a.body.isSome = true := by rw [hb]; rfl
    exact .inl (h.accepts_control hsome ht (write_body _ hb) rfl (write_sawSetup _ _ _)
      (write_sawLoop _ _ _))
  | @otherwise b top below hb hs hk ha =>
    have hsome : a.body.isSome = true := by rw [hb]; rfl
    have htop : top.isStructural = false := by simp [Frame.isStructural, hk, BlockKind.isStructural]
    have hpop : Fits { a with stack := below } st.tail := h.pop_control hs (.inl htop) rfl rfl
    refine .inl ⟨_, ?_, hpop.push_control (f := { top with hasAlternate := true }) hsome htop
      (write_body _ hb) rfl, ?_, ?_, ?_⟩
    · rw [← h.blocks, hs]
      simp [Frame.mayBranch, hk, ha, Script.advance, Nesting.advance, BlockLine.mark]
    · rw [write_session]
      exact .refl _
    · simp
    · simp
  | endRefused hs ho ht =>
    refine .inl ⟨_, h.advance_end hs, h.pop_control hs (.inr ho) rfl rfl, ht, ?_, ?_⟩ <;> simp
  | endStructure hs ho hk ht =>
    refine .inl ⟨_, h.advance_end hs, h.pop_structure hs hk rfl rfl, ht, ?_, ?_⟩ <;> simp
  | endControl hs ho hk hb ht =>
    have hbody := (write_body [.close] hb).trans (by rw [hb]; rfl : true = a.body.isSome)
    refine .inl ⟨_, h.advance_end hs, h.pop_control hs (.inl hk) hbody rfl, ht, ?_, ?_⟩ <;> simp
  | @statement t b st' is hb hst ht =>
    have hbody := (write_body is hb).trans (by rw [hb]; rfl : true = a.body.isSome)
    have hmoves := (Build.statement_elementary line st' a.session).ok ht
    refine .inl ⟨st, h.advance_command (by rw [hb]; rfl), h.congr hbody (write_stack _ _ _),
      hmoves, ?_, ?_⟩ <;> simp
  | unknownCommand hb ht =>
    refine .inl ⟨st, h.advance_command hb, h.congr rfl rfl, ht, ?_, ?_⟩ <;> simp
  | rejected hr ht =>
    obtain ⟨hn, hp⟩ := h.advance_eq_none_of_rejects hr
    exact .inr ⟨hn, _, hp, ht⟩

end Assembly.Fits

/-! ## Reports of a run -/

namespace Session

/-- What holds of all that was found since holds of what was found up to some time and of what was
found from then on. -/
theorem forall_since_iff {P : Finding → Prop} {fs gs hs : List Finding} (hfg : fs <+: gs)
    (hgh : gs <+: hs) : (∀ f ∈ hs.drop fs.length, P f) ↔
      (∀ f ∈ gs.drop fs.length, P f) ∧ ∀ f ∈ hs.drop gs.length, P f := by
  obtain ⟨as, rfl⟩ := hfg
  obtain ⟨bs, rfl⟩ := hgh
  rw [List.drop_left, List.drop_left, List.append_assoc, List.drop_left]
  simp only [List.mem_append, or_imp, forall_and]

/-- Since `s`, nothing was reported about the block structure. -/
def CleanSince (s t : Session) : Prop :=
  ∀ f ∈ t.findings.drop s.findings.length, f.problem.isStructural = false

theorem cleanSince_iff {s t : Session} {fs : List Finding} (h : t.findings = s.findings ++ fs) :
    CleanSince s t ↔ ∀ f ∈ fs, f.problem.isStructural = false := by
  rw [CleanSince, h, List.drop_left]

theorem cleanSince_trans {s t u : Session} (ht : s.findings <+: t.findings)
    (hu : t.findings <+: u.findings) : CleanSince s u ↔ CleanSince s t ∧ CleanSince t u :=
  forall_since_iff ht hu

theorem Moves.cleanSince {s t : Session} (h : Moves s t) : CleanSince s t := by
  obtain ⟨fs, hfs, hn⟩ := h.findings
  exact (cleanSince_iff hfs).mpr hn

theorem not_cleanSince_reported {s t : Session} {line : Int} {p : Problem}
    (hp : p.isStructural = true) (h : Moves (s.reported line p) t) : ¬ CleanSince s t := by
  intro hc
  have hr := ((cleanSince_trans (s.reported_isPrefix line p) h.isPrefix).mp hc).1
  have hlast := (cleanSince_iff (t := s.reported line p) rfl).mp hr ⟨line, p⟩ (by simp)
  rw [hp] at hlast
  cases hlast

end Session

namespace Assemble
open Session Assembly Script

/-- The sorts of some lines. -/
def sorts (ls : List (Int × List Char)) : List BlockLine := ls.map fun l => BlockLine.ofCode l.2

/-- A run in which everything is in place follows the machine; from the first line that the machine
does not take on, it has a report about the block structure. -/
theorem takeLines_follow {ls : List (Int × List Char)} {a a' : Assembly} {st : List Bool}
    (h : a.Fits st) (hr : takeLines ls a = .ok () a') :
    (∃ st', follow st (sorts ls) = some st' ∧ a'.Fits st' ∧ CleanSince a.session a'.session ∧
        a'.sawSetup = (a.sawSetup || (sorts ls).contains .setup) ∧
        a'.sawLoop = (a.sawLoop || (sorts ls).contains .loop)) ∨
      follow st (sorts ls) = none ∧ ¬ CleanSince a.session a'.session := by
  induction ls generalizing a st with
  | nil =>
    cases hr
    exact .inl ⟨st, rfl, h, (Moves.refl _).cleanSince, by simp [sorts], by simp [sorts]⟩
  | cons l ls ih =>
    obtain ⟨n, code⟩ := l
    obtain ⟨is, b, hl, hr⟩ := bind_eq_ok.mp hr
    have step := takeLine_outcome n code a
    rw [hl] at step
    have htrans := cleanSince_trans (step_isPrefix step) (takeLines_isPrefix hr)
    rcases h.step step with ⟨st₁, hadv, acc⟩ | ⟨hnone, p, hp, hmoves⟩
    · have hfollow : follow st (sorts ((n, code) :: ls)) = follow st₁ (sorts ls) := by
        rw [sorts, List.map_cons, follow_cons, hadv]
        rfl
      rw [hfollow, htrans]
      rcases ih acc.fits hr with ⟨st', hf, hfits, hclean, hsetup, hloop⟩ | ⟨hf, hclean⟩
      · refine .inl ⟨st', hf, hfits, ⟨acc.moves.cleanSince, hclean⟩, ?_, ?_⟩
        · rw [hsetup, acc.setup, Bool.or_assoc, sorts, sorts, List.map_cons, List.contains_cons,
            BEq.comm]
        · rw [hloop, acc.loop, Bool.or_assoc, sorts, sorts, List.map_cons, List.contains_cons,
            BEq.comm]
      · exact .inr ⟨hf, fun hc => hclean hc.2⟩
    · refine .inr ⟨?_, ?_⟩
      · rw [sorts, List.map_cons, follow_cons, hnone]
        rfl
      · rw [htrans]
        exact fun hc => not_cleanSince_reported hp hmoves hc.1

/-- A script that ends well has closed all its blocks and has both bodies. -/
theorem cleanSince_finish {lineCount : Nat} {a a' : Assembly}
    (h : finish lineCount a = .ok () a') :
    a.session.findings <+: a'.session.findings ∧ (CleanSince a.session a'.session ↔
      a.stack = [] ∧ a.sawSetup = true ∧ a.sawLoop = true) := by
  rw [finish_eq] at h
  cases h
  refine ⟨⟨_, rfl⟩, ?_⟩
  rw [cleanSince_iff rfl, lastFindings]
  cases a.stack <;> cases a.sawSetup <;> cases a.sawLoop <;> simp [Problem.isStructural]

theorem fits_stack {a : Assembly} {st : List Bool} (h : a.Fits st) : a.stack = [] ↔ st = [] := by
  rw [← h.blocks, List.map_eq_nil_iff]

/-- A run over some lines stays clean exactly if the machine takes them. -/
theorem takeLines_clean_iff {t : Session} {ls : List (Int × List Char)} {a : Assembly}
    (h : takeLines ls { session := t } = .ok () a) :
    CleanSince t a.session ↔ (follow [] (sorts ls)).isSome = true := by
  rcases takeLines_follow (Fits.start t) h with ⟨st, hf, -, hc, -⟩ | ⟨hf, hc⟩
  · rw [hf]
    exact ⟨fun _ => rfl, fun _ => hc⟩
  · rw [hf]
    exact ⟨fun hclean => absurd hclean hc, fun hsome => by cases hsome⟩

/-- The second pass reports a problem of the block structure exactly if the sorts of the lines do
not make up a program. If it stops at a fault, it has by then reported one exactly if the lines
before the fault are not the beginning of any program. -/
theorem run_clean_iff_isProgram (t : Session) (lines : List (List Char)) :
    match run lines { session := t } with
    | .ok _ a => CleanSince t a.session ↔ IsProgram (sorts (Line.numbered lines))
    | .error _ a => ∃ taken rest, Line.numbered lines = taken ++ rest ∧ rest ≠ [] ∧
        (CleanSince t a.session ↔ ∃ w, IsProgram (sorts taken ++ w)) := by
  cases hrun : run lines { session := t } with
  | ok u a =>
    obtain ⟨_, b, htake, hfin⟩ := bind_eq_ok.mp hrun
    obtain ⟨hpre, hend⟩ := cleanSince_finish hfin
    show CleanSince t a.session ↔ _
    rw [cleanSince_trans (takeLines_isPrefix htake) hpre, hend, isProgram_iff_follow]
    rcases takeLines_follow (Fits.start t) htake with ⟨st, hf, hfits, hc, hs, hl⟩ | ⟨hf, hc⟩
    · rw [hf, fits_stack hfits, hs, hl]
      simp [hc]
    · rw [hf]
      exact ⟨fun h => absurd h.1 hc, fun h => by cases h.1⟩
  | error f a =>
    rcases bind_eq_error.mp hrun with herr | ⟨_, b, -, hfin⟩
    · obtain ⟨taken, n, code, rest, b, hls, htake, hline⟩ := takeLines_error herr
      have hout := takeLine_outcome n code b
      rw [hline] at hout
      refine ⟨taken, (n, code) :: rest, hls, by simp, ?_⟩
      rw [cleanSince_trans (takeLines_isPrefix htake) hout.1.isPrefix, takeLines_clean_iff htake,
        exists_isProgram_iff, and_iff_left hout.1.cleanSince]
    · rw [finish_eq] at hfin
      cases hfin

end Assemble
end PlainSketch
