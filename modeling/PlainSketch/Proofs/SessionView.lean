import PlainSketch.Proofs.AssemblySteps

/-!
# Lines as steps on the session

A step of the second pass changes the session and, beside it, the stack, the sketch and the rest of
the assembly. Seen from the session, with the rest fixed in advance, it is a step like those of the
first pass, whose answer holds what became of the rest: that is `Assemble.onSession`. A property of
steps on the session that passes to sequences of steps then holds of whole lines and whole scripts,
once it is known of the few steps that read operands. `Build.Closed` says what is asked of the
property. It may depend on the lines that are reported: it is asked of reports on some lines only,
and given of the lines and scripts that report on no others.
-/
namespace PlainSketch

namespace Build

/-- A property that passes to sequences of steps and holds of those that read no operand. Reports
are on lines in `L`. -/
structure Closed (L : Int → Prop) (P : (α : Type) → Build α → Prop) : Prop where
  pure {α : Type} (a : α) : P α (pure a)
  throw {α : Type} (f : Fault) : P α (throw f)
  bind {α β : Type} {m : Build α} {f : α → Build β} (hm : P α m) (hf : ∀ a, P β (f a)) :
    P β (m >>= f)
  report {line : Int} (hl : L line) (p : Problem) : P Unit (report line p)
  log (e : Event) : P Unit (log e)
  findFunction (name : String) : P (Option Function) (return (← table).findFunction? name)

theorem Closed.ofExcept {L : Int → Prop} {P : (α : Type) → Build α → Prop} (hP : Closed L P)
    {α : Type} (x : Except Fault α) : P α (ofExcept x) := by
  cases x with
  | ok a => exact hP.pure a
  | error f => exact hP.throw f

end Build

namespace Assemble

section
variable {α β : Type}

/-- A step as seen from the session, when the rest of the assembly is as in `a`. -/
def onSession (m : Assemble α) (a : Assembly) : Build (α × Assembly) := fun s =>
  match m { a with session := s } with
  | .ok x b => .ok (x, { b with session := a.session }) b.session
  | .error f b => .error f b.session

theorem onSession_of_ok {m : Assemble α} {a b : Assembly} {x : α} (h : m a = .ok x b) :
    onSession m a a.session = .ok (x, { b with session := a.session }) b.session := by
  simp only [onSession, h]

theorem onSession_bind (m : Assemble α) (f : α → Assemble β) (a : Assembly) :
    onSession (m >>= f) a = onSession m a >>= fun p => onSession (f p.1) p.2 := by
  funext s
  simp only [onSession, bind, EStateM.bind]
  cases m { a with session := s } <;> rfl

theorem onSession_build (m : Build α) (a : Assembly) :
    onSession (build m) a = m >>= fun x => pure (x, a) := by
  funext s
  simp only [onSession, build, bind, EStateM.bind]
  cases m s <;> rfl

theorem onSession_push (f : Frame) (a : Assembly) :
    onSession (push f) a = Build.log (.blockOpened f.line f.label (a.stack.length + 1)) >>= fun _ =>
      pure ((), { a with stack := f :: a.stack }) := rfl

theorem onSession_emit (is : List Instr) (a : Assembly) :
    onSession (emit is) a = match a.body with
      | none => throw .noOpenBody
      | some b => pure (is, a.write b is) := by
  obtain ⟨session, sketch, stack, body, sawSetup, sawLoop, ids⟩ := a
  rcases body with _ | b
  · rfl
  · cases b <;> rfl

theorem onSession_openStructure (f : Frame) (b : Body) (a : Assembly) :
    onSession (openStructure f b) a =
      if a.body.isSome then
        onSession (report f.line (nestedProblem f.kind) >>= fun _ =>
          push { f with opened := false } >>= fun _ => pure false) a
      else onSession (push f >>= fun _ => pure true) { a with body := some b } := by
  obtain ⟨session, sketch, stack, body, sawSetup, sawLoop, ids⟩ := a
  cases body <;> rfl

theorem onSession_functionBody (name : String) (line : Int) (a : Assembly) :
    onSession (functionBody name line) a =
      (return (← Build.table).findFunction? name : Build (Option Function)) >>= fun f? =>
        match a.body, f? with
        | none, some f =>
          if f.line == line then
            pure (.function name, { a with sketch := a.sketch.withFunction name })
          else pure (.detached [], a)
        | _, _ => pure (.detached [], a) := by
  obtain ⟨session, sketch, stack, body, sawSetup, sawLoop, ids⟩ := a
  funext s
  have hget : (get : Build Session) s = .ok s s := rfl
  simp only [onSession, functionBody, bind, EStateM.bind, get_eq, hget, pure, EStateM.pure,
    Build.table]
  rcases body with _ | b
  · cases s.table.findFunction? name with
    | none => rfl
    | some f =>
      dsimp only
      cases f.line == line <;> rfl
  · rfl

end

/-! ## The steps of a line -/

/-- The property holds of a step, whatever the rest of the assembly is. -/
def Everywhere (P : (α : Type) → Build α → Prop) {α : Type} (m : Assemble α) : Prop :=
  ∀ a, P (α × Assembly) (onSession m a)

section
variable {L : Int → Prop} {P : (α : Type) → Build α → Prop} (hP : Build.Closed L P) {α β : Type}
  {line : Int}
include hP

theorem everywhere_pure (x : α) : Everywhere P (pure x : Assemble α) := fun a => hP.pure (x, a)

theorem Everywhere.bind {m : Assemble α} {f : α → Assemble β} (hm : Everywhere P m)
    (hf : ∀ x, Everywhere P (f x)) : Everywhere P (m >>= f) := by
  intro a
  rw [onSession_bind]
  exact hP.bind (hm a) fun p => hf p.1 p.2

theorem everywhere_build {m : Build α} (hm : P α m) : Everywhere P (build m) := by
  intro a
  rw [onSession_build]
  exact hP.bind hm fun x => hP.pure (x, a)

omit hP in
/-- A step that looks at the assembly apart from its session. -/
theorem everywhere_look {k : Assembly → Assemble α} (hk : ∀ a s, k { a with session := s } = k a)
    (h : ∀ a, Everywhere P (k a)) : Everywhere P (get >>= k) := by
  intro a
  have heq : onSession (get >>= k) a = onSession (k a) a := by
    funext s
    have h : onSession (get >>= k) a s = onSession (k { a with session := s }) a s := rfl
    rw [h, hk]
  rw [heq]
  exact h a a

/-- A step that changes a part of the assembly other than the session. -/
theorem everywhere_modify {g : Assembly → Assembly}
    (hg : ∀ a s, g { a with session := s } = { g a with session := s }) :
    Everywhere P (modify g : Assemble Unit) := by
  intro a
  have heq : onSession (modify g) a = pure ((), { g a with session := a.session }) := by
    funext s
    have h : onSession (modify g) a s =
        .ok ((), { g { a with session := s } with session := a.session })
          (g { a with session := s }).session := rfl
    rw [h, hg]
    rfl
  rw [heq]
  exact hP.pure _

theorem everywhere_report (hl : L line) (p : Problem) : Everywhere P (report line p) :=
  everywhere_build hP (hP.report hl p)

/-- A report in place of what would be done. -/
theorem everywhere_refusal (hl : L line) (p : Problem) (x : α) :
    Everywhere P (report line p >>= fun _ => pure x) :=
  (everywhere_report hP hl p).bind hP fun _ => everywhere_pure hP x

theorem everywhere_push (f : Frame) : Everywhere P (push f) := by
  intro a
  rw [onSession_push]
  exact hP.bind (hP.log _) fun _ => hP.pure _

/-- A block that is pushed with an answer. -/
theorem everywhere_pushed (f : Frame) (x : α) : Everywhere P (push f >>= fun _ => pure x) :=
  (everywhere_push hP f).bind hP fun _ => everywhere_pure hP x

theorem everywhere_emit (is : List Instr) : Everywhere P (emit is) := by
  intro a
  rw [onSession_emit]
  cases a.body with
  | none => exact hP.throw _
  | some b => exact hP.pure _

/-- The header of a block and the block itself. -/
theorem everywhere_opened (is : List Instr) (f : Frame) :
    Everywhere P (emit is >>= fun is => push f >>= fun _ => pure is) :=
  (everywhere_emit hP is).bind hP fun _ => everywhere_pushed hP f _

theorem everywhere_freshId : Everywhere P freshId :=
  fun a => hP.pure (a.ids + 1, { a with ids := a.ids + 1 })

theorem everywhere_openStructure {f : Frame} (hl : L f.line) (b : Body) :
    Everywhere P (openStructure f b) := by
  intro a
  rw [onSession_openStructure]
  split
  · exact (everywhere_report hP hl _).bind hP (fun _ => everywhere_pushed hP _ _) a
  · exact everywhere_pushed hP f true _

theorem everywhere_functionBody (name : String) (line : Int) :
    Everywhere P (functionBody name line) := by
  intro a
  rw [onSession_functionBody]
  refine hP.bind (hP.findFunction name) fun f? => ?_
  split
  · split
    · exact hP.pure _
    · exact hP.pure _
  · exact hP.pure _

theorem everywhere_requireBody (hl : L line) : Everywhere P (requireBody line) := by
  refine everywhere_look (fun _ _ => rfl) fun a => ?_
  cases a.body.isSome with
  | true => exact everywhere_pure hP true
  | false => exact everywhere_refusal hP hl _ false

/-! ## Whole lines -/

variable (hl : L line) (hcondition : ∀ cs, P (Option (List Char)) (Build.condition cs line))

include hcondition in
theorem everywhere_openConditional (kind : BlockKind) (header : List Char → Instr)
    (cs : List Char) : Everywhere P (openConditional kind header cs line) := by
  refine (everywhere_build hP (hcondition cs)).bind hP fun test => ?_
  cases test with
  | none => exact everywhere_pushed hP _ _
  | some test => exact everywhere_opened hP _ _

include hl in
theorem everywhere_openRepeat (count : List Char) : Everywhere P (openRepeat count line) := by
  refine (everywhere_build hP (hP.ofExcept _)).bind hP fun n => ?_
  split
  · exact (everywhere_report hP hl _).bind hP fun _ => everywhere_pushed hP _ _
  · exact (everywhere_freshId hP).bind hP fun id => everywhere_opened hP _ _

theorem everywhere_openEvery (amount unit : List Char) (line : Int) :
    Everywhere P (openEvery amount unit line) := by
  refine (everywhere_build hP (hP.ofExcept _)).bind hP fun n => ?_
  exact (everywhere_freshId hP).bind hP fun id => everywhere_opened hP _ _

theorem everywhere_openAfter (amount unit : List Char) (line : Int) :
    Everywhere P (openAfter amount unit line) := by
  refine (everywhere_build hP (hP.ofExcept _)).bind hP fun n => ?_
  exact (everywhere_freshId hP).bind hP fun id => everywhere_opened hP _ _

include hl hcondition in
theorem everywhere_openControl (o : Opener) : Everywhere P (openControl o line) := by
  refine (everywhere_requireBody hP hl).bind hP fun inside => ?_
  cases inside with
  | false => exact everywhere_pushed hP _ _
  | true =>
    cases o with
    | ifDo cs => exact everywhere_openConditional hP hcondition _ _ cs
    | repeatTimes count => exact everywhere_openRepeat hP hl count
    | forever => exact everywhere_opened hP _ _
    | whileDo cs => exact everywhere_openConditional hP hcondition _ _ cs
    | every amount unit => exact everywhere_openEvery hP amount unit line
    | after amount unit => exact everywhere_openAfter hP amount unit line

include hl in
theorem everywhere_alternate : Everywhere P (alternate line) := by
  refine (everywhere_requireBody hP hl).bind hP fun inside => ?_
  cases inside with
  | false => exact everywhere_pure hP []
  | true =>
    refine everywhere_look (fun _ _ => rfl) fun a => ?_
    cases a.stack with
    | nil => exact everywhere_refusal hP hl _ []
    | cons top below =>
      dsimp only
      split
      · exact everywhere_refusal hP hl _ []
      split
      · exact everywhere_refusal hP hl _ []
      have branch : ∀ is : List Instr, Everywhere P (do
          modify fun a => { a with stack := { top with hasAlternate := true } :: below }
          return is) :=
        fun is => (everywhere_modify hP fun _ _ => rfl).bind hP fun _ => everywhere_pure hP is
      split
      · exact (everywhere_emit hP _).bind hP branch
      · exact (everywhere_pure hP _).bind hP branch

include hl in
theorem everywhere_closeBlock : Everywhere P (closeBlock line) := by
  refine everywhere_look (fun _ _ => rfl) fun a => ?_
  cases a.stack with
  | nil => exact everywhere_refusal hP hl _ []
  | cons top below =>
    refine (everywhere_modify hP fun _ _ => rfl).bind hP fun _ => ?_
    refine (everywhere_build hP (hP.log _)).bind hP fun _ => ?_
    split
    · exact everywhere_pure hP []
    split
    · exact (everywhere_modify hP fun _ _ => rfl).bind hP fun _ => everywhere_pure hP []
    · exact everywhere_emit hP _

include hl in
theorem everywhere_command {code : List Char}
    (hstatement : ∀ st, Statement.ofCode? code = some st →
      P (List Instr) (Build.statement line st)) : Everywhere P (command code line) := by
  refine everywhere_look (fun _ _ => rfl) fun a => ?_
  cases a.body.isSome with
  | false => exact everywhere_refusal hP hl _ []
  | true =>
    cases hst : Statement.ofCode? code with
    | none => exact everywhere_refusal hP hl _ []
    | some st =>
      exact (everywhere_build hP (hstatement st hst)).bind hP fun is => everywhere_emit hP is

include hl hcondition in
/-- What holds of conditions and of the statement on a line holds of the line. -/
theorem everywhere_takeLine {code : List Char}
    (hstatement : ∀ st, BlockLine.ofCode code = .command → Statement.ofCode? code = some st →
      P (List Instr) (Build.statement line st)) : Everywhere P (takeLine line code) := by
  unfold takeLine
  cases hc : BlockLine.ofCode code with
  | setup | loop =>
    refine (everywhere_openStructure hP hl _).bind hP fun opened => ?_
    cases opened with
    | true => exact (everywhere_modify hP fun _ _ => rfl).bind hP fun _ => everywhere_pure hP []
    | false => exact everywhere_pure hP []
  | function name =>
    refine (everywhere_functionBody hP name line).bind hP fun body => ?_
    exact (everywhere_openStructure hP hl body).bind hP fun _ => everywhere_pure hP []
  | pin => exact everywhere_pure hP []
  | control o => exact everywhere_openControl hP hl hcondition o
  | otherwise => exact everywhere_alternate hP hl
  | endBlock => exact everywhere_closeBlock hP hl
  | unknown => exact everywhere_refusal hP hl _ []
  | command => exact everywhere_command hP hl fun st hst => hstatement st hc hst

/-- What holds of every line holds of the lines in a row. -/
theorem everywhere_takeLines {ls : List (Int × List Char)}
    (h : ∀ l ∈ ls, Everywhere P (takeLine l.1 l.2)) : Everywhere P (takeLines ls) := by
  induction ls with
  | nil => exact everywhere_pure hP ()
  | cons l ls ih =>
    exact (h l (.head _)).bind hP fun _ => ih fun l' hl' => h l' (.tail _ hl')

theorem everywhere_finish {lineCount : Nat} (hfirst : L 1) (hlast : L (max lineCount 1)) :
    Everywhere P (finish lineCount) := by
  refine everywhere_look (fun _ _ => rfl) fun a => ?_
  have hloop : Everywhere P (if !a.sawLoop then report 1 .loopMissing else pure ()) := by
    cases a.sawLoop with
    | true => exact everywhere_pure hP ()
    | false => exact everywhere_report hP hfirst _
  have hsetup : Everywhere P (do
      if !a.sawSetup then report 1 .setupMissing
      if !a.sawLoop then report 1 .loopMissing) := by
    cases a.sawSetup with
    | true => exact hloop
    | false => exact (everywhere_report hP hfirst _).bind hP fun _ => hloop
  cases a.stack with
  | nil => exact hsetup
  | cons top _ => exact (everywhere_report hP hlast _).bind hP fun _ => hsetup

end
end Assemble
end PlainSketch
