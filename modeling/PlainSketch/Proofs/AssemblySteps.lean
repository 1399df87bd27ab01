import PlainSketch.Block.Assembly
import PlainSketch.Proofs.SessionSteps

/-!
# What a line does to the second pass

`Assembly.Step` lists everything that one line can do to the state of the second pass, with the
conditions under which it does it. `Assemble.takeLine_outcome` shows the list to be complete; the
invariants of the second pass are proved on the list and never open `takeLine` again.
-/
namespace PlainSketch
open Session (Moves)

/-- The lines that a control opener writes when it is accepted, given how many numbers for helper
variables are used up before and after. -/
inductive Opener.Writes (ids : Nat) : Opener → List Instr → Nat → Prop
  | ifDo (condition test : List Char) : Writes ids (.ifDo condition) [.openIf test] ids
  | repeatTimes (count : List Char) (n : Int) :
      Writes ids (.repeatTimes count) [.openRepeat (ids + 1) n] (ids + 1)
  | forever : Writes ids .forever [.openForever] ids
  | whileDo (condition test : List Char) : Writes ids (.whileDo condition) [.openWhile test] ids
  | every (amount unit : List Char) (n : Int) :
      Writes ids (.every amount unit)
        [.everyLast (ids + 1), .openEvery (ids + 1) n, .everyAdvance (ids + 1) n] (ids + 1)
  | after (amount unit : List Char) (n : Int) :
      Writes ids (.after amount unit)
        [.afterDone (ids + 1), .afterStart (ids + 1), .openAfter (ids + 1) n,
          .afterFinish (ids + 1)] (ids + 1)

/-- May still have a second branch. -/
def Frame.mayBranch (f : Frame) : Bool := f.kind == .ifDo && !f.hasAlternate

theorem Frame.control_isStructural (o : Opener) (line : Int) (opened : Bool) :
    ({ kind := Assemble.kindOf o, line, opened } : Frame).isStructural = false := by
  cases o <;> rfl

/-- The frame of a structural opener. -/
def BlockLine.structure? (line : Int) : BlockLine → Option Frame
  | .setup => some { kind := .setup, line }
  | .loop => some { kind := .loop, line }
  | .function name => some { kind := .function, line, name := some name }
  | _ => none

namespace Assembly

/-- The line is reported as out of place and has no other effect. -/
inductive Rejects (code : List Char) (a : Assembly) : BlockLine → Problem → Prop
  | otherwiseOutsideBody (hb : a.body = none) : Rejects code a .otherwise .controlOutsideBlock
  | otherwiseOutsideIf (hb : a.body.isSome = true)
      (h : ∀ top below, a.stack = top :: below → top.kind ≠ .ifDo) :
      Rejects code a .otherwise .otherwiseOutsideIf
  | otherwiseRepeated (top : Frame) (below : List Frame) (hb : a.body.isSome = true)
      (hs : a.stack = top :: below) (hk : top.kind = .ifDo) (ha : top.hasAlternate = true) :
      Rejects code a .otherwise .otherwiseRepeated
  | strayEnd (hs : a.stack = []) : Rejects code a .endBlock .endWithoutBlock
  | unknownBlock : Rejects code a .unknown (.unknownBlock (String.ofList code))
  | strayCommand (hb : a.body = none) : Rejects code a .command .commandOutsideBlock

/-- What a line of the given sort can do, with the lines that it writes. -/
inductive Step (line : Int) (code : List Char) (a : Assembly) :
    BlockLine → List Instr → Assembly → Prop
  | setup {t : Session} (hb : a.body = none) (ht : Moves a.session t) :
      Step line code a .setup []
        { a with session := t, body := some .setup, stack := { kind := .setup, line } :: a.stack,
                 sawSetup := true }
  | loop {t : Session} (hb : a.body = none) (ht : Moves a.session t) :
      Step line code a .loop []
        { a with session := t, body := some .loop, stack := { kind := .loop, line } :: a.stack,
                 sawLoop := true }
  | function {t : Session} (f : Function) (name : String) (hb : a.body = none)
      (hf : a.session.table.findFunction? name = some f) (hl : f.line = line)
      (ht : Moves a.session t) :
      Step line code a (.function name) []
        { a with session := t, sketch := a.sketch.withFunction name, body := some (.function name),
                 stack := { kind := .function, line, name := some name } :: a.stack }
  | detached {t : Session} (name : String) (hb : a.body = none)
      (hf : ∀ f, a.session.table.findFunction? name = some f → f.line ≠ line)
      (ht : Moves a.session t) :
      Step line code a (.function name) []
        { a with session := t, body := some (.detached []),
                 stack := { kind := .function, line, name := some name } :: a.stack }
  | nested {t : Session} {c : BlockLine} {f : Frame} (hc : c.structure? line = some f)
      (hb : a.body.isSome = true)
      (ht : Moves (a.session.reported line (Assemble.nestedProblem f.kind)) t) :
      Step line code a c []
        { a with session := t, stack := { f with opened := false } :: a.stack }
  | pin : Step line code a .pin [] a
  | stray {t : Session} (o : Opener) (hb : a.body = none)
      (ht : Moves (a.session.reported line .controlOutsideBlock) t) :
      Step line code a (.control o) []
        { a with session := t,
                 stack := { kind := Assemble.kindOf o, line, opened := false } :: a.stack }
  | refused {t : Session} (o : Opener) (hb : a.body.isSome = true) (ht : Moves a.session t) :
      Step line code a (.control o) []
        { a with session := t,
                 stack := { kind := Assemble.kindOf o, line, opened := false } :: a.stack }
  | control {t : Session} {o : Opener} {b : Body} {is : List Instr} {ids : Nat}
      (hb : a.body = some b) (hw : o.Writes a.ids is ids) (ht : Moves a.session t) :
      Step line code a (.control o) is
        { a.write b is with session := t, ids,
                            stack := { kind := Assemble.kindOf o, line } :: a.stack }
  | otherwise {b : Body} {top : Frame} {below : List Frame} (hb : a.body = some b)
      (hs : a.stack = top :: below) (hk : top.kind = .ifDo) (ha : top.hasAlternate = false) :
      Step line code a .otherwise (if top.opened then [.elseBranch] else [])
        { a.write b (if top.opened then [.elseBranch] else []) with
          stack := { top with hasAlternate := true } :: below }
  | endRefused {t : Session} {top : Frame} {below : List Frame} (hs : a.stack = top :: below)
      (ho : top.opened = false) (ht : Moves a.session t) :
      Step line code a .endBlock [] { a with session := t, stack := below }
  | endStructure {t : Session} {top : Frame} {below : List Frame} (hs : a.stack = top :: below)
      (ho : top.opened = true) (hk : top.isStructural = true) (ht : Moves a.session t) :
      Step line code a .endBlock [] { a with session := t, stack := below, body := none }
  | endControl {t : Session} {b : Body} {top : Frame} {below : List Frame}
      (hs : a.stack = top :: below) (ho : top.opened = true) (hk : top.isStructural = false)
      (hb : a.body = some b) (ht : Moves a.session t) :
      Step line code a .endBlock [.close]
        { a.write b [.close] with session := t, stack := below }
  | statement {t : Session} {b : Body} {st : Statement} {is : List Instr} (hb : a.body = some b)
      (hst : Statement.ofCode? code = some st)
      (ht : Build.statement line st a.session = .ok is t) :
      Step line code a .command is { a.write b is with session := t }
  | unknownCommand {t : Session} (hb : a.body.isSome = true) (ht : Moves a.session t) :
      Step line code a .command [] { a with session := t }
  | rejected {t : Session} {c : BlockLine} {p : Problem} (hr : Rejects code a c p)
      (ht : Moves (a.session.reported line p) t) : Step line code a c [] { a with session := t }

/-- A line that writes finds no body, since the innermost block is an opened control block and yet
no body is open. -/
def LacksBody (a : Assembly) : Prop :=
  a.body = none ∧ ∃ top below, a.stack = top :: below ∧ top.opened = true ∧ top.isStructural = false

/-- What becomes of a line: one of the listed steps, or a fault without a report about the block
structure. -/
def Outcome (line : Int) (code : List Char) (a : Assembly) (c : BlockLine) :
    EStateM.Result Fault Assembly (List Instr) → Prop
  | .ok is a' => Step line code a c is a'
  | .error f a' => Moves a.session a'.session ∧ (f = .noOpenBody → a.LacksBody)

section Write
variable (a : Assembly) (b : Body) (is : List Instr)

@[simp] theorem write_stack : (a.write b is).stack = a.stack := by cases b <;> rfl

@[simp] theorem write_session : (a.write b is).session = a.session := by cases b <;> rfl

@[simp] theorem write_sawSetup : (a.write b is).sawSetup = a.sawSetup := by cases b <;> rfl

@[simp] theorem write_sawLoop : (a.write b is).sawLoop = a.sawLoop := by cases b <;> rfl

variable {a b}

/-- Writing keeps the body open. -/
theorem write_body (hb : a.body = some b) : (a.write b is).body.isSome = true := by
  cases b <;> simp [write, hb]

end Write

theorem addFunction_nil (s : Sketch Instr) (name : String) : s.addFunction name [] = s := by
  have hid : (fun b : String × List Instr => if b.1 == name then (b.1, b.2 ++ []) else b) = id := by
    funext b
    simp
  simp only [Sketch.addFunction, hid, List.map_id]

theorem write_nil {a : Assembly} {b : Body} (hb : a.body = some b) : a.write b [] = a := by
  cases b with
  | setup => simp [write, Sketch.addSetup]
  | loop => simp [write, Sketch.addLoop]
  | function name => simp [write, addFunction_nil]
  | detached ls => simp [write, ← hb]

end Assembly

namespace Assemble
open Assembly

theorem get_eq (a : Assembly) : (get : Assemble Assembly) a = .ok a a := rfl

theorem report_eq (line : Int) (p : Problem) (a : Assembly) :
    report line p a = .ok () { a with session := a.session.reported line p } := rfl

/-- A step on the session, followed by more. -/
theorem build_bind {α β : Type} (m : Build α) (k : α → Assemble β) (a : Assembly) :
    (build m >>= k) a = match m a.session with
      | .ok x t => k x { a with session := t }
      | .error f t => .error f { a with session := t } := by
  simp only [bind, EStateM.bind, build]
  cases m a.session <;> rfl

/-- An entry of the log after some changes. -/
theorem moves_log {s t : Session} (h : Moves s t) (e : Event) :
    Moves s { t with log := t.log ++ [e] } := h.trans (Session.Step.log e).moves

variable {line : Int} {code : List Char} {a : Assembly}

theorem setup_outcome (hc : BlockLine.ofCode code = .setup) :
    a.Outcome line code .setup (takeLine line code a) := by
  obtain ⟨session, sketch, stack, body, sawSetup, sawLoop, ids⟩ := a
  unfold takeLine
  rw [hc]
  cases body with
  | none => exact .setup rfl (moves_log (.refl _) _)
  | some b => exact .nested (f := { kind := .setup, line }) rfl rfl (moves_log (.refl _) _)

theorem loop_outcome (hc : BlockLine.ofCode code = .loop) :
    a.Outcome line code .loop (takeLine line code a) := by
  obtain ⟨session, sketch, stack, body, sawSetup, sawLoop, ids⟩ := a
  unfold takeLine
  rw [hc]
  cases body with
  | none => exact .loop rfl (moves_log (.refl _) _)
  | some b => exact .nested (f := { kind := .loop, line }) rfl rfl (moves_log (.refl _) _)

theorem function_outcome {name : String} (hc : BlockLine.ofCode code = .function name) :
    a.Outcome line code (.function name) (takeLine line code a) := by
  obtain ⟨session, sketch, stack, body, sawSetup, sawLoop, ids⟩ := a
  unfold takeLine functionBody
  rw [hc]
  cases body with
  | some b =>
    exact .nested (f := { kind := .function, line, name := some name }) rfl rfl
      (moves_log (.refl _) _)
  | none =>
    cases hf : session.table.findFunction? name with
    | none =>
      simp only [bind, EStateM.bind, get_eq, hf]
      refine .detached name rfl ?_ (moves_log (.refl _) _)
      intro f h
      rw [hf] at h
      cases h
    | some f =>
      simp only [bind, EStateM.bind, get_eq, hf]
      by_cases hl : f.line = line
      · simp only [hl, beq_self_eq_true, if_true]
        exact .function f name rfl hf hl (moves_log (.refl _) _)
      · simp only [beq_eq_false_iff_ne.mpr hl, Bool.false_eq_true, if_false]
        refine .detached name rfl ?_ (moves_log (.refl _) _)
        intro g h
        rw [hf] at h
        cases h
        exact hl

theorem emit_push {b : Body} (hb : a.body = some b) (is : List Instr) (f : Frame) :
    ∃ t, Moves a.session t ∧ (do let is ← emit is; push f; return is : Assemble (List Instr)) a =
      .ok is { a.write b is with session := t, stack := f :: a.stack } := by
  obtain ⟨session, sketch, stack, body, sawSetup, sawLoop, ids⟩ := a
  subst hb
  cases b <;> exact ⟨_, moves_log (.refl _) _, rfl⟩

theorem timerInterval_ne (amount unit : List Char) :
    timerInterval amount unit ≠ .error .noOpenBody := by
  refine Build.except_bind_ne (Build.except_bind_ne (Build.readNatural_ne _) fun n => ?_)
    fun n => Build.writable_ne n
  cases unit with
  | nil => simp [pure, Except.pure]
  | cons c cs =>
    dsimp only
    split <;> simp [pure, Except.pure]

/-- Goes on after a step on the session: the step is elementary, and what follows is known from
every session that it can lead to. -/
theorem outcome_of_build {α : Type} {m : Build α} {k : α → Assemble (List Instr)} {c : BlockLine}
    (hm : Build.Elementary m)
    (hk : ∀ x t, m a.session = .ok x t → Moves a.session t →
      a.Outcome line code c (k x { a with session := t })) :
    a.Outcome line code c ((build m >>= k) a) := by
  rw [build_bind]
  cases h : m a.session with
  | ok x t => exact hk x t h ((hm _).ok h)
  | error f t =>
    obtain ⟨ht, hf⟩ := (hm _).error h
    exact ⟨ht, fun he => absurd he hf⟩

/-- A control block is opened by its lines, and pushed. -/
theorem openBlock_outcome {b : Body} (hb : a.body = some b) {o : Opener} {t : Session}
    {is : List Instr} {ids : Nat} (hw : o.Writes a.ids is ids) (ht : Moves a.session t) :
    a.Outcome line code (.control o)
      ((do let is ← emit is; push { kind := kindOf o, line }; return is : Assemble (List Instr))
        { a with session := t, ids }) := by
  obtain ⟨u, hu, he⟩ := emit_push (a := { a with session := t, ids }) hb is
    { kind := kindOf o, line }
  rw [he]
  have h : a.Step line code (.control o) is _ := .control hb hw (ht.trans hu)
  cases b <;> exact h

theorem openConditional_outcome {b : Body} (hb : a.body = some b) {o : Opener}
    {header : List Char → Instr} {condition : List Char}
    (hw : ∀ test, o.Writes a.ids [header test] a.ids) :
    a.Outcome line code (.control o) (openConditional (kindOf o) header condition line a) := by
  refine outcome_of_build (Build.condition_elementary condition line) fun x t _ ht => ?_
  cases x with
  | none => exact .refused o (by rw [hb]; rfl) (moves_log ht _)
  | some test => exact openBlock_outcome hb (hw test) ht

theorem openRepeat_outcome {b : Body} (hb : a.body = some b) (count : List Char) :
    a.Outcome line code (.control (.repeatTimes count)) (openRepeat count line a) := by
  refine outcome_of_build (Build.ofExcept_elementary (Build.readInteger_ne count))
    fun n t _ ht => ?_
  split
  · refine .refused (.repeatTimes count) (by rw [hb]; rfl) ?_
    exact moves_log (ht.trans (Session.Step.report line rfl).moves) _
  · exact openBlock_outcome hb (.repeatTimes count n) ht

theorem openEvery_outcome {b : Body} (hb : a.body = some b) (amount unit : List Char) :
    a.Outcome line code (.control (.every amount unit)) (openEvery amount unit line a) := by
  refine outcome_of_build (Build.ofExcept_elementary (timerInterval_ne amount unit))
    fun n t _ ht => ?_
  exact openBlock_outcome hb (.every amount unit n) ht

theorem openAfter_outcome {b : Body} (hb : a.body = some b) (amount unit : List Char) :
    a.Outcome line code (.control (.after amount unit)) (openAfter amount unit line a) := by
  refine outcome_of_build (Build.ofExcept_elementary (timerInterval_ne amount unit))
    fun n t _ ht => ?_
  exact openBlock_outcome hb (.after amount unit n) ht

/-- A line that needs a body is reported without one. -/
theorem requireBody_bind_none {α : Type} (hb : a.body = none) (k : Bool → Assemble α) :
    (requireBody line >>= k) a =
      k false { a with session := a.session.reported line .controlOutsideBlock } := by
  have hn : a.body.isSome = false := by rw [hb]; rfl
  simp only [requireBody, bind, EStateM.bind, get_eq, hn]
  rfl

theorem requireBody_bind_some {α : Type} (hb : a.body.isSome = true) (k : Bool → Assemble α) :
    (requireBody line >>= k) a = k true a := by
  simp only [requireBody, bind, EStateM.bind, get_eq, hb]
  rfl

theorem openControl_outcome (o : Opener) :
    a.Outcome line code (.control o) (openControl o line a) := by
  unfold openControl
  cases hb : a.body with
  | none =>
    rw [requireBody_bind_none hb]
    exact .stray o hb (moves_log (.refl _) _)
  | some b =>
    rw [requireBody_bind_some (by rw [hb]; rfl)]
    cases o with
    | ifDo condition => exact openConditional_outcome hb fun test => .ifDo condition test
    | repeatTimes count => exact openRepeat_outcome hb count
    | forever => exact openBlock_outcome hb .forever (.refl _)
    | whileDo condition => exact openConditional_outcome hb fun test => .whileDo condition test
    | every amount unit => exact openEvery_outcome hb amount unit
    | after amount unit => exact openAfter_outcome hb amount unit

theorem alternate_outcome : a.Outcome line code .otherwise (alternate line a) := by
  obtain ⟨session, sketch, stack, body, sawSetup, sawLoop, ids⟩ := a
  cases body with
  | none => exact .rejected (.otherwiseOutsideBody rfl) (.refl _)
  | some b =>
    cases stack with
    | nil => exact .rejected (.otherwiseOutsideIf rfl (by simp)) (.refl _)
    | cons top below =>
      obtain ⟨kind, opening, name, opened, hasAlternate⟩ := top
      by_cases hk : kind = .ifDo
      · subst hk
        cases hasAlternate with
        | true => exact .rejected (.otherwiseRepeated _ below rfl rfl rfl rfl) (.refl _)
        | false =>
          have step : Step line code ⟨session, sketch, ⟨.ifDo, opening, name, opened, false⟩ ::
              below, some b, sawSetup, sawLoop, ids⟩ .otherwise _ _ := .otherwise rfl rfl rfl rfl
          cases opened with
          | true => cases b <;> exact step
          | false =>
            simp only [Bool.false_eq_true, if_false, write_nil] at step
            exact step
      · have hr : Rejects code ⟨session, sketch, ⟨kind, opening, name, opened, hasAlternate⟩ ::
            below, some b, sawSetup, sawLoop, ids⟩ .otherwise .otherwiseOutsideIf := by
          refine .otherwiseOutsideIf rfl ?_
          intro top' below' h
          cases h
          exact hk
        unfold alternate
        rw [requireBody_bind_some rfl]
        simp only [if_true, bind, EStateM.bind, get_eq, ne_eq, hk, not_false_eq_true]
        exact .rejected hr (.refl _)

theorem closeBlock_outcome : a.Outcome line code .endBlock (closeBlock line a) := by
  obtain ⟨session, sketch, stack, body, sawSetup, sawLoop, ids⟩ := a
  cases stack with
  | nil => exact .rejected (.strayEnd rfl) (.refl _)
  | cons top below =>
    obtain ⟨kind, opening, name, opened, hasAlternate⟩ := top
    have hlog := moves_log (.refl session)
      (.blockClosed line (Frame.label ⟨kind, opening, name, opened, hasAlternate⟩))
    cases opened with
    | false => exact .endRefused rfl rfl hlog
    | true =>
      cases hk : kind.isStructural with
      | true =>
        unfold closeBlock
        simp only [bind, EStateM.bind, get_eq, Frame.isStructural, hk]
        exact .endStructure rfl rfl hk hlog
      | false =>
        unfold closeBlock
        simp only [bind, EStateM.bind, get_eq, Frame.isStructural, hk]
        cases body with
        | none => exact ⟨hlog, fun _ => ⟨rfl, _, below, rfl, rfl, hk⟩⟩
        | some b =>
          have step : Step line code ⟨session, sketch, ⟨kind, opening, name, true, hasAlternate⟩ ::
              below, some b, sawSetup, sawLoop, ids⟩ .endBlock _ _ :=
            .endControl rfl rfl hk rfl hlog
          cases b <;> exact step

theorem command_outcome : a.Outcome line code .command (command code line a) := by
  obtain ⟨session, sketch, stack, body, sawSetup, sawLoop, ids⟩ := a
  cases body with
  | none => exact .rejected (.strayCommand rfl) (.refl _)
  | some b =>
    unfold command
    simp only [bind, EStateM.bind, get_eq]
    cases hst : Statement.ofCode? code with
    | none => exact .unknownCommand rfl (Session.Step.report line rfl).moves
    | some st =>
      refine outcome_of_build (k := fun is => emit is) (Build.statement_elementary line st)
        fun is t h _ => ?_
      have step : Step line code ⟨session, sketch, stack, some b, sawSetup, sawLoop, ids⟩ .command
          _ _ := .statement rfl hst h
      cases b <;> exact step

/-- What a line does is one of the listed steps. -/
theorem takeLine_outcome (line : Int) (code : List Char) (a : Assembly) :
    a.Outcome line code (BlockLine.ofCode code) (takeLine line code a) := by
  cases hc : BlockLine.ofCode code with
  | setup => exact setup_outcome hc
  | loop => exact loop_outcome hc
  | function name => exact function_outcome hc
  | pin =>
    unfold takeLine
    rw [hc]
    exact .pin
  | control o =>
    unfold takeLine
    rw [hc]
    exact openControl_outcome o
  | otherwise =>
    unfold takeLine
    rw [hc]
    exact alternate_outcome
  | endBlock =>
    unfold takeLine
    rw [hc]
    exact closeBlock_outcome
  | unknown =>
    unfold takeLine
    rw [hc]
    exact .rejected .unknownBlock (.refl _)
  | command =>
    unfold takeLine
    rw [hc]
    exact command_outcome

/-! ## Runs over several lines -/

theorem takeLines_append {ls ls' : List (Int × List Char)} {a a' : Assembly} :
    takeLines (ls ++ ls') a = .ok () a' ↔
      ∃ b, takeLines ls a = .ok () b ∧ takeLines ls' b = .ok () a' := by
  induction ls generalizing a with
  | nil =>
    constructor
    · intro h
      exact ⟨a, rfl, h⟩
    · rintro ⟨b, hb, h⟩
      cases hb
      exact h
  | cons l ls ih =>
    simp only [List.cons_append, takeLines, bind_eq_ok, ih]
    constructor
    · rintro ⟨is, b, hl, b', hls, h⟩
      exact ⟨b', ⟨is, b, hl, hls⟩, h⟩
    · rintro ⟨b', ⟨is, b, hl, hls⟩, h⟩
      exact ⟨is, b, hl, b', hls, h⟩

/-- What every step preserves, every run preserves. -/
theorem takeLines_invariant {P : Assembly → Prop}
    (hP : ∀ line code a is a', P a → a.Step line code (BlockLine.ofCode code) is a' → P a')
    {ls : List (Int × List Char)} {a a' : Assembly} (ha : P a) (h : takeLines ls a = .ok () a') :
    P a' := by
  induction ls generalizing a with
  | nil => cases h; exact ha
  | cons l ls ih =>
    obtain ⟨n, c⟩ := l
    obtain ⟨is, b, hl, hr⟩ := bind_eq_ok.mp h
    have step := takeLine_outcome n c a
    rw [hl] at step
    exact ih (hP n c a is b ha step) hr

/-- A run that stops has taken all lines before the one it stops at. -/
theorem takeLines_error {ls : List (Int × List Char)} {a a' : Assembly} {f : Fault}
    (h : takeLines ls a = .error f a') :
    ∃ taken line code rest b, ls = taken ++ (line, code) :: rest ∧
      takeLines taken a = .ok () b ∧ takeLine line code b = .error f a' := by
  induction ls generalizing a with
  | nil => cases h
  | cons l ls ih =>
    obtain ⟨n, c⟩ := l
    rcases bind_eq_error.mp h with he | ⟨is, b, hl, hr⟩
    · exact ⟨[], n, c, ls, a, rfl, rfl, he⟩
    · obtain ⟨taken, line, code, rest, b', hls, ht, he⟩ := ih hr
      refine ⟨(n, c) :: taken, line, code, rest, b', by rw [hls]; rfl, ?_, he⟩
      exact bind_eq_ok.mpr ⟨is, b, hl, ht⟩

/-- What a line does to the session are elementary changes, maybe after a report of its place. -/
theorem step_moves {line : Int} {code : List Char} {a a' : Assembly} {is : List Instr}
    {c : BlockLine} (h : a.Step line code c is a') :
    Session.Moves a.session a'.session ∨
      ∃ p, Session.Moves (a.session.reported line p) a'.session := by
  cases h with
  | setup hb ht | loop hb ht | function f name hb hf hl ht | detached name hb hf ht
  | refused o hb ht | control hb hw ht | endRefused hs ho ht | endStructure hs ho hk ht
  | endControl hs ho hk hb ht | unknownCommand hb ht => exact .inl ht
  | nested hc hb ht | stray o hb ht | rejected hr ht => exact .inr ⟨_, ht⟩
  | pin => exact .inl (.refl _)
  | otherwise => exact .inl ((write_session a _ _).symm ▸ .refl _)
  | @statement t b st is hb hst ht =>
    exact .inl ((Build.statement_elementary line st a.session).ok ht)

/-- Reports are only added. -/
theorem step_isPrefix {line : Int} {code : List Char} {a a' : Assembly} {is : List Instr}
    {c : BlockLine} (h : a.Step line code c is a') :
    a.session.findings <+: a'.session.findings := by
  obtain hm | ⟨p, hm⟩ := step_moves h
  · exact hm.isPrefix
  · exact (a.session.reported_isPrefix line p).trans hm.isPrefix

theorem takeLines_isPrefix {ls : List (Int × List Char)} {a a' : Assembly}
    (h : takeLines ls a = .ok () a') : a.session.findings <+: a'.session.findings :=
  takeLines_invariant (P := fun b => a.session.findings <+: b.session.findings)
    (fun _ _ _ _ _ hb step => hb.trans (step_isPrefix step)) List.prefix_rfl h

/-! ## The end of a run -/

/-- What is reported at the end of a script. -/
def lastFindings (lineCount : Nat) (a : Assembly) : List Finding :=
  (a.stack.head?.map fun top =>
      (⟨max lineCount 1, .unclosedBlock top.label top.line⟩ : Finding)).toList ++
    ((if a.sawSetup then [] else [⟨1, .setupMissing⟩]) ++
      if a.sawLoop then [] else [⟨1, .loopMissing⟩])

theorem finish_eq (lineCount : Nat) (a : Assembly) :
    finish lineCount a = .ok () { a with session :=
      { a.session with findings := a.session.findings ++ lastFindings lineCount a } } := by
  obtain ⟨⟨table, findings, log⟩, sketch, stack, body, sawSetup, sawLoop, ids⟩ := a
  cases stack <;> cases sawSetup <;> cases sawLoop <;>
    simp [lastFindings, finish, get_eq, report_eq, Session.reported, bind, EStateM.bind, pure,
      EStateM.pure]

end Assemble
end PlainSketch
