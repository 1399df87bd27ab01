import PlainSketch.Proofs.Renumbering
import PlainSketch.Proofs.UniformSteps

/-!
# Runs over the lines of one block

What the lines of a block do in the second pass does not depend on where the block stands in the
script: on the numbers of its lines, on what was written before and on which variables are known
already. `Assemble.Repeats` says this of some lines inside a body. One run without errors is enough
to know it, since the steps on the session are uniform and the rest depends on the kinds of the open
blocks only. So each block comes down to an `Effect`: the lines that it writes, with the numbers of
helper variables counted from one, and the uses of variables that it makes.
-/
namespace PlainSketch
open Session SymbolTable

/-- What some lines of a script come to: what they write and how they use variables. -/
structure Effect extends Fragment where
  uses : List Use

namespace Fragment

/-- Nothing is written. -/
def empty : Fragment := ⟨[], 0, nofun⟩

/-- Lines without numbers. -/
def plain (lines : List Instr) (h : ∀ i ∈ lines, i.id? = none) : Fragment :=
  ⟨lines, 0, Instr.within_of_id? h⟩

/-- One after the other. -/
def followedBy (w v : Fragment) : Fragment :=
  ⟨w.lines ++ Instr.shift w.count v.lines, w.count + v.count, w.within.append v.within⟩

end Fragment

instance : Inhabited Effect := ⟨⟨.empty, []⟩⟩

def Effect.followedBy (e e' : Effect) : Effect :=
  ⟨e.toFragment.followedBy e'.toFragment, e.uses ++ e'.uses⟩

/-- An open block without the line that it was opened on. -/
def Frame.bare (f : Frame) : Frame := { f with line := 0 }

/-! ## Writing to a body -/

namespace Assembly

theorem addFunction_addFunction (s : Sketch Instr) (name : String) (is js : List Instr) :
    (s.addFunction name is).addFunction name js = s.addFunction name (is ++ js) := by
  simp only [Sketch.addFunction, List.map_map]
  congr 1
  refine List.map_congr_left fun b _ => ?_
  by_cases h : b.1 = name
  · simp [h]
  · simp [h]

/-- The state after some lines were taken into the open body. -/
def after (a : Assembly) (x : Body) (w : Fragment) (u : Session) (st : List Frame) : Assembly :=
  { a.write x (Instr.shift a.ids w.lines) with session := u, stack := st, ids := a.ids + w.count }

section
variable {a : Assembly} {x : Body} (hb : a.body = some x)
include hb

theorem after_empty (u : Session) (st : List Frame) :
    a.after x .empty u st = { a with session := u, stack := st } := by
  have hsame : a.write x (Instr.shift a.ids Fragment.empty.lines) = a := write_nil hb
  rw [after, hsame]
  rfl

theorem after_plain {is : List Instr} (h : ∀ i ∈ is, i.id? = none) (u : Session)
    (st : List Frame) :
    a.after x (.plain is h) u st = { a.write x is with session := u, stack := st } := by
  obtain ⟨session, sketch, stack, body, sawSetup, sawLoop, ids⟩ := a
  simp only [after, Fragment.plain, Instr.shift_of_id? h]
  cases x <;> rfl

theorem after_body (w : Fragment) (u : Session) (st : List Frame) :
    (a.after x w u st).body = some (Body.extend (Instr.shift a.ids w.lines) x) := write_body_eq hb

end

/-- Lines are taken one after the other. -/
theorem after_after (a : Assembly) (x : Body) (w v : Fragment) (u u' : Session)
    (st st' : List Frame) :
    (a.after x w u st).after (Body.extend (Instr.shift a.ids w.lines) x) v u' st' =
      a.after x (w.followedBy v) u' st' := by
  have hlines : Instr.shift a.ids (w.followedBy v).lines =
      Instr.shift a.ids w.lines ++ Instr.shift (a.ids + w.count) v.lines := by
    simp only [Fragment.followedBy, Instr.shift_append, Instr.shift_shift]
  simp only [after, hlines]
  cases x <;> simp [write, Body.extend, Sketch.addSetup, Sketch.addLoop, addFunction_addFunction,
    Fragment.followedBy, Nat.add_assoc]

end Assembly

/-! ## Lines inside a body -/

namespace Assemble
open Assembly

/-- Inside a body, the lines with these codes have the same effect wherever they stand, provided
that the open blocks are `sh` when they begin; the open blocks are `sh'` after them. -/
def Repeats (t : SymbolTable) (codes : List (List Char)) (sh sh' : List Frame) (e : Effect) :
    Prop :=
  ∀ ls : List (Int × List Char), ls.map Prod.snd = codes →
    ∀ (b : Assembly) (x : Body), b.stack.map Frame.bare = sh → b.body = some x →
      t.Follows b.session.table →
      ∃ u st, takeLines ls b = .ok () (b.after x e.toFragment u st) ∧ st.map Frame.bare = sh' ∧
        Build.Ends t e.uses b.session u

section
variable {t : SymbolTable} {codes codes' : List (List Char)} {sh sh' sh'' : List Frame}
  {e e' : Effect}

theorem repeats_nil (t : SymbolTable) (sh : List Frame) : Repeats t [] sh sh ⟨.empty, []⟩ := by
  intro ls hls b x hsh hb hs
  rw [List.map_eq_nil_iff.mp hls]
  refine ⟨b.session, b.stack, ?_, hsh, .refl hs⟩
  rw [after_empty hb]
  rfl

theorem Repeats.append (h : Repeats t codes sh sh' e) (h' : Repeats t codes' sh' sh'' e') :
    Repeats t (codes ++ codes') sh sh'' (e.followedBy e') := by
  intro ls hls b x hsh hb hs
  obtain ⟨ls₁, ls₂, rfl, h₁, h₂⟩ := List.map_eq_append_iff.mp hls
  obtain ⟨u, st, hrun, hst, hends⟩ := h ls₁ h₁ b x hsh hb hs
  obtain ⟨u', st', hrun', hst', hends'⟩ := h' ls₂ h₂ (b.after x e.toFragment u st) _ hst
    (after_body hb e.toFragment u st) hends.follows
  rw [after_after] at hrun'
  exact ⟨u', st', takeLines_append.mpr ⟨_, hrun, hrun'⟩, hst', hends.trans hends'⟩

/-- For a single line. -/
theorem repeats_line {code : List Char}
    (h : ∀ (line : Int) (b : Assembly) (x : Body), b.stack.map Frame.bare = sh → b.body = some x →
      t.Follows b.session.table →
      ∃ is u st, takeLine line code b = .ok is (b.after x e.toFragment u st) ∧
        st.map Frame.bare = sh' ∧ Build.Ends t e.uses b.session u) :
    Repeats t [code] sh sh' e := by
  intro ls hls b x hsh hb hs
  obtain ⟨l, rest, rfl, rfl, hrest⟩ := List.map_eq_cons_iff.mp hls
  rw [List.map_eq_nil_iff.mp hrest]
  obtain ⟨is, u, st, hline, hst, hends⟩ := h l.1 b x hsh hb hs
  exact ⟨u, st, bind_eq_ok.mpr ⟨is, _, hline, rfl⟩, hst, hends⟩

end

/-! ### Statements -/

theorem id?_of_emits {st : Statement} {is : List Instr} (h : st.Emits is) :
    ∀ i ∈ is, i.id? = none := by
  cases h <;> simp [Instr.id?]

section
variable {t : SymbolTable} {line : Int} {code : List Char} {a a' : Assembly} {x : Body}
  {is : List Instr}

/-- The variables that the statement on a line takes may be taken. -/
def MayTake (t : SymbolTable) (code : List Char) : Prop :=
  BlockLine.ofCode code = .command → ∀ st, Statement.ofCode? code = some st →
    ∀ name type, st.taken? = some (name, type) → Build.Takes t name type

theorem takeLine_command (hc : BlockLine.ofCode code = .command) (hb : a.body = some x) :
    takeLine line code a = match Statement.ofCode? code with
      | none => .ok []
          { a with session := a.session.reported line (.unknownCommand (String.ofList code)) }
      | some st => match Build.statement line st a.session with
        | .ok is u => .ok is { a.write x is with session := u }
        | .error f u => .error f { a with session := u } := by
  obtain ⟨session, sketch, stack, body, sawSetup, sawLoop, ids⟩ := a
  cases hb
  unfold takeLine
  rw [hc]
  cases hst : Statement.ofCode? code with
  | none =>
    simp only [command, bind, EStateM.bind, get_eq, hst]
    rfl
  | some st =>
    simp only [command, bind, EStateM.bind, get_eq, hst]
    show (build (Build.statement line st) >>= emit) _ = _
    rw [build_bind]
    cases Build.statement line st session with
    | error f u => rfl
    | ok is u => cases x <;> rfl

theorem exists_repeats_command (hc : BlockLine.ofCode code = .command) (htake : MayTake t code)
    (hs : t.Follows a.session.table) (hb : a.body = some x)
    (h : takeLine line code a = .ok is a') (hacc : a'.session.Accepted) :
    ∃ sh e, Repeats t [code] (a.stack.map Frame.bare) sh e := by
  rw [takeLine_command hc hb] at h
  cases hst : Statement.ofCode? code with
  | none =>
    rw [hst] at h
    cases h
    exact absurd hacc (Build.not_accepted_reported rfl)
  | some st =>
    rw [hst] at h
    cases hrun : Build.statement line st a.session with
    | error f u =>
      simp only [hrun] at h
      cases h
    | ok js u =>
      simp only [hrun] at h
      cases h
      have huniform := (Build.compositional_uniform t).statement (htake hc st hst)
      obtain ⟨us, hall⟩ := huniform.of_accepted hs hrun hacc
      have hids : ∀ i ∈ is, i.id? = none := by
        rcases Build.statement_becomes hrun with rfl | hemits
        · exact nofun
        · exact id?_of_emits hemits
      refine ⟨a.stack.map Frame.bare, ⟨.plain is hids, us⟩,
        repeats_line fun line b y hsh hb hs => ?_⟩
      obtain ⟨u, hu, hends⟩ := hall line b.session hs
      refine ⟨is, u, b.stack, ?_, hsh, hends⟩
      simp only [takeLine_command hc hb, hst, hu, after_plain hb, ← write_stack b y is]

end

/-! ### Control blocks -/

end Assemble

namespace Build
open Assemble (timerInterval)

/-- What a control opener writes; nothing if it is refused. -/
def header : Opener → Int → Build (Option Fragment)
  | .ifDo cs, line => do
    return (← condition cs line).map fun test => .plain [.openIf test] (by simp [Instr.id?])
  | .whileDo cs, line => do
    return (← condition cs line).map fun test => .plain [.openWhile test] (by simp [Instr.id?])
  | .forever, _ => return some (.plain [.openForever] (by simp [Instr.id?]))
  | .repeatTimes count, line => do
    let n ← ofExcept (Text.readInteger count)
    if n < 0 then
      report line .negativeRepeat
      return none
    else return some ⟨[.openRepeat 1 n], 1, by simp [Instr.Within, Instr.id?]⟩
  | .every amount unit, _ => do
    let n ← ofExcept (timerInterval amount unit)
    return some ⟨[.everyLast 1, .openEvery 1 n, .everyAdvance 1 n], 1,
      by simp [Instr.Within, Instr.id?]⟩
  | .after amount unit, _ => do
    let n ← ofExcept (timerInterval amount unit)
    return some ⟨[.afterDone 1, .afterStart 1, .openAfter 1 n, .afterFinish 1], 1,
      by simp [Instr.Within, Instr.id?]⟩

theorem uniform_header (t : SymbolTable) (o : Opener) : Uniform t (header o) := by
  cases o with
  | ifDo cs | whileDo cs =>
    exact ((compositional_uniform t).condition cs).bind fun _ => uniform_pure _
  | forever => exact uniform_pure _
  | every amount unit | after amount unit =>
    exact (uniform_ofExcept _).bind fun _ => uniform_pure _
  | repeatTimes count =>
    refine (uniform_ofExcept _).bind fun n => ?_
    by_cases hn : n < 0
    · simp only [if_pos hn]
      exact (uniform_report _).bind fun _ => uniform_pure _
    · simp only [if_neg hn]
      exact uniform_pure _

end Build

namespace Assemble
open Assembly

section
variable {t : SymbolTable} {line : Int} {code : List Char} {a a' : Assembly} {x : Body}
  {is : List Instr} {o : Opener}

/-- The state after a control opener was taken into the open body, with the header that it has. -/
def opened (a : Assembly) (x : Body) (o : Opener) (line : Int) (w : Option Fragment)
    (u : Session) : Assembly :=
  let f : Frame := { kind := kindOf o, line, opened := w.isSome }
  a.after x (w.getD .empty)
    { u with log := u.log ++ [.blockOpened line f.label (a.stack.length + 1)] } (f :: a.stack)

/-- The test of an `if` or a `while` is read on the session alone, and what is written follows from
the answer. -/
theorem openConditional_eq (hb : a.body = some x) (cs : List Char) {header : List Char → Instr}
    (hid : ∀ test, ∀ i ∈ [header test], i.id? = none) :
    openConditional (kindOf o) header cs line a = match Build.condition cs line a.session with
      | .ok test u =>
        let w := test.map fun test => Fragment.plain [header test] (hid test)
        .ok (Instr.shift a.ids (w.getD .empty).lines) (opened a x o line w u)
      | .error f u => .error f { a with session := u } := by
  rw [openConditional, build_bind]
  obtain ⟨session, sketch, stack, body, sawSetup, sawLoop, ids⟩ := a
  cases hb
  cases Build.condition cs line session with
  | error f u => rfl
  | ok test u =>
    cases test with
    | none =>
      show EStateM.Result.ok [] _ = EStateM.Result.ok [] _
      simp only [Option.map_none, opened, Option.getD_none, after_empty]
      rfl
    | some test =>
      simp only [Option.map_some, opened, Option.getD_some, after_plain]
      simp only [Fragment.plain, Instr.shift_of_id? (hid test)]
      cases x <;> rfl

theorem openControl_eq (hb : a.body = some x) :
    openControl o line a = match Build.header o line a.session with
      | .ok w u => .ok (Instr.shift a.ids (w.getD .empty).lines) (opened a x o line w u)
      | .error f u => .error f { a with session := u } := by
  unfold openControl
  rw [requireBody_bind_some (by rw [hb]; rfl)]
  cases o with
  | ifDo cs =>
    refine (openConditional_eq (o := .ifDo cs) hb cs (by simp [Instr.id?])).trans ?_
    simp only [Build.header, bind, EStateM.bind]
    cases Build.condition cs line a.session <;> rfl
  | whileDo cs =>
    refine (openConditional_eq (o := .whileDo cs) hb cs (by simp [Instr.id?])).trans ?_
    simp only [Build.header, bind, EStateM.bind]
    cases Build.condition cs line a.session <;> rfl
  | forever =>
    obtain ⟨session, sketch, stack, body, sawSetup, sawLoop, ids⟩ := a
    cases hb
    cases x <;> rfl
  | repeatTimes count =>
    obtain ⟨session, sketch, stack, body, sawSetup, sawLoop, ids⟩ := a
    cases hb
    simp only [if_true, openRepeat, build_bind, Build.header]
    cases Text.readInteger count with
    | error f => rfl
    | ok n =>
      -- a negative count is refused, and its block opens without a header
      by_cases hn : n < 0
      · simp only [Build.ofExcept, bind, EStateM.bind, pure, EStateM.pure, if_pos hn]
        show EStateM.Result.ok [] _ = EStateM.Result.ok [] (opened _ x _ line none _)
        simp only [opened, Option.getD_none, after_empty]
        rfl
      · simp only [Build.ofExcept, bind, EStateM.bind, pure, EStateM.pure, if_neg hn]
        cases x <;> rfl
  | every amount unit =>
    obtain ⟨session, sketch, stack, body, sawSetup, sawLoop, ids⟩ := a
    cases hb
    simp only [if_true, openEvery, build_bind, Build.header]
    cases timerInterval amount unit with
    | error f => rfl
    | ok n => cases x <;> rfl
  | after amount unit =>
    obtain ⟨session, sketch, stack, body, sawSetup, sawLoop, ids⟩ := a
    cases hb
    simp only [if_true, openAfter, build_bind, Build.header]
    cases timerInterval amount unit with
    | error f => rfl
    | ok n => cases x <;> rfl

theorem exists_repeats_control (hc : BlockLine.ofCode code = .control o)
    (hs : t.Follows a.session.table) (hb : a.body = some x)
    (h : takeLine line code a = .ok is a') (hacc : a'.session.Accepted) :
    ∃ sh e, Repeats t [code] (a.stack.map Frame.bare) sh e := by
  rw [takeLine_control hc, openControl_eq hb] at h
  cases hrun : Build.header o line a.session with
  | error f u =>
    simp only [hrun] at h
    cases h
  | ok w u =>
    simp only [hrun] at h
    cases h
    obtain ⟨us, hall⟩ := (Build.uniform_header t o).of_accepted hs hrun hacc
    refine ⟨{ kind := kindOf o, line := 0, opened := w.isSome } :: a.stack.map Frame.bare,
      ⟨w.getD .empty, us⟩, repeats_line fun line b y hsh hb hs => ?_⟩
    obtain ⟨u, hu, hends⟩ := hall line b.session hs
    have hline : takeLine line code b =
        .ok (Instr.shift b.ids (w.getD .empty).lines) (opened b y o line w u) := by
      rw [takeLine_control hc, openControl_eq hb, hu]
    refine ⟨_, _, _, hline, ?_, hends.log _⟩
    rw [List.map_cons, hsh]
    rfl

/-! ### Other lines -/

theorem not_accepted_of_moves {s u : Session} {p : Problem} (hp : p.severity = .error)
    (h : Moves (s.reported line p) u) : ¬ u.Accepted :=
  fun hacc => Build.not_accepted_reported hp (hacc.of_isPrefix h.isPrefix)

theorem severity_of_rejects {c : BlockLine} {p : Problem} (h : a.Rejects code c p) :
    p.severity = .error := by
  cases h <;> rfl

/-- The innermost open block, but for its line. -/
theorem exists_top {fs below : List Frame} {top : Frame}
    (hsh : fs.map Frame.bare = (top :: below).map Frame.bare) :
    ∃ opening below', fs = { top with line := opening } :: below' ∧
      below'.map Frame.bare = below.map Frame.bare := by
  obtain ⟨top', below', hs, htop, hbelow⟩ := List.map_eq_cons_iff.mp hsh
  refine ⟨top'.line, below', ?_, hbelow⟩
  obtain ⟨kind, line, name, opened, hasAlternate⟩ := top'
  obtain ⟨kind', line', name', opened', hasAlternate'⟩ := top
  cases htop
  exact hs

theorem alternate_eq (line : Int) {top : Frame} {below : List Frame} (hb : a.body = some x)
    (hs : a.stack = top :: below) (hk : top.kind = .ifDo) (ha : top.hasAlternate = false) :
    alternate line a = .ok (if top.opened then [.elseBranch] else [])
      { a.write x (if top.opened then [.elseBranch] else []) with
        session := a.session, stack := { top with hasAlternate := true } :: below } := by
  obtain ⟨session, sketch, stack, body, sawSetup, sawLoop, ids⟩ := a
  obtain ⟨kind, opening, name, opened, hasAlternate⟩ := top
  cases hb
  cases hs
  cases hk
  cases ha
  cases opened with
  | true => cases x <;> rfl
  | false =>
    simp only [Bool.false_eq_true, if_false, write_nil]
    rfl

theorem takeLine_otherwise (hc : BlockLine.ofCode code = .otherwise) :
    takeLine line code a = alternate line a := by
  unfold takeLine
  rw [hc]

theorem exists_repeats_otherwise (hc : BlockLine.ofCode code = .otherwise)
    (h : takeLine line code a = .ok is a') (hacc : a'.session.Accepted) :
    ∃ sh e, Repeats t [code] (a.stack.map Frame.bare) sh e := by
  have step := takeLine_outcome line code a
  rw [h, hc] at step
  cases step with
  | nested hf => cases hf
  | rejected hr ht => exact absurd hacc (not_accepted_of_moves (severity_of_rejects hr) ht)
  | @otherwise x top below hb hs hk ha =>
    have hids : ∀ i ∈ (if top.opened then [Instr.elseBranch] else []), i.id? = none := by
      cases top.opened <;> simp [Instr.id?]
    refine ⟨{ top.bare with hasAlternate := true } :: below.map Frame.bare, ⟨.plain _ hids, []⟩,
      repeats_line fun line b y hsh hb hs' => ?_⟩
    rw [hs] at hsh
    obtain ⟨opening, below', hstack, hbelow⟩ := exists_top hsh
    have hline := alternate_eq line hb hstack hk ha
    rw [← takeLine_otherwise hc, ← after_plain hb hids] at hline
    refine ⟨_, _, _, hline, ?_, .refl hs'⟩
    rw [List.map_cons, hbelow]
    rfl

theorem closeBlock_eq (line : Int) {top : Frame} {below : List Frame} (hb : a.body = some x)
    (hs : a.stack = top :: below) (htop : top.opened = false ∨ top.isStructural = false) :
    closeBlock line a = .ok (if top.opened then [.close] else [])
      { a.write x (if top.opened then [.close] else []) with
        session := { a.session with log := a.session.log ++ [.blockClosed line top.label] }
        stack := below } := by
  obtain ⟨session, sketch, stack, body, sawSetup, sawLoop, ids⟩ := a
  obtain ⟨kind, opening, name, opened, hasAlternate⟩ := top
  cases hb
  cases hs
  cases opened with
  | true =>
    have hkind : kind.isStructural = false := htop.resolve_left nofun
    unfold closeBlock
    simp only [bind, EStateM.bind, get_eq, Frame.isStructural, hkind]
    cases x <;> rfl
  | false =>
    simp only [Bool.false_eq_true, if_false, write_nil]
    rfl

theorem takeLine_end (hc : BlockLine.ofCode code = .endBlock) :
    takeLine line code a = closeBlock line a := by
  unfold takeLine
  rw [hc]

theorem exists_repeats_end (hc : BlockLine.ofCode code = .endBlock)
    (h : takeLine line code a = .ok is a') (hacc : a'.session.Accepted)
    (hopen : a'.body.isSome = true) :
    ∃ sh e, Repeats t [code] (a.stack.map Frame.bare) sh e := by
  have hrepeats : ∀ top below, a.stack = top :: below →
      top.opened = false ∨ top.isStructural = false →
      ∃ sh e, Repeats t [code] (a.stack.map Frame.bare) sh e := by
    intro top below hs htop
    have hids : ∀ i ∈ (if top.opened then [Instr.close] else []), i.id? = none := by
      cases top.opened <;> simp [Instr.id?]
    refine ⟨below.map Frame.bare, ⟨.plain _ hids, []⟩, repeats_line fun line b y hsh hb hs' => ?_⟩
    rw [hs] at hsh
    obtain ⟨opening, below', hstack, hbelow⟩ := exists_top hsh
    have hline := closeBlock_eq line hb hstack htop
    rw [← takeLine_end hc, ← after_plain hb hids] at hline
    exact ⟨_, _, _, hline, hbelow, (Build.Ends.refl hs').log _⟩
  have step := takeLine_outcome line code a
  rw [h, hc] at step
  cases step with
  | nested hf => cases hf
  | rejected hr ht => exact absurd hacc (not_accepted_of_moves (severity_of_rejects hr) ht)
  | endStructure hs ho hk ht => cases hopen
  | endRefused hs ho ht => exact hrepeats _ _ hs (.inl ho)
  | endControl hs ho hk hb ht => exact hrepeats _ _ hs (.inr hk)

theorem exists_repeats_pin (hc : BlockLine.ofCode code = .pin) :
    ∃ sh e, Repeats t [code] (a.stack.map Frame.bare) sh e := by
  refine ⟨a.stack.map Frame.bare, ⟨.empty, []⟩, repeats_line fun line b y hsh hb hs => ?_⟩
  refine ⟨[], b.session, b.stack, ?_, hsh, .refl hs⟩
  unfold takeLine
  rw [hc, after_empty hb]
  rfl

/-- A line that has its place in a body, and that was taken once without an error and did not end
the body, can be taken anywhere. -/
theorem exists_repeats (htake : MayTake t code) (hs : t.Follows a.session.table)
    (hb : a.body = some x) (hmark : (BlockLine.ofCode code).mark ≠ .foreign)
    (h : takeLine line code a = .ok is a') (hacc : a'.session.Accepted)
    (hopen : a'.body.isSome = true) : ∃ sh e, Repeats t [code] (a.stack.map Frame.bare) sh e := by
  cases hc : BlockLine.ofCode code with
  | command => exact exists_repeats_command hc htake hs hb h hacc
  | control o => exact exists_repeats_control hc hs hb h hacc
  | otherwise => exact exists_repeats_otherwise hc h hacc
  | endBlock => exact exists_repeats_end hc h hacc hopen
  | pin => exact exists_repeats_pin hc
  | setup | loop | function name | unknown =>
    rw [hc] at hmark
    exact absurd rfl hmark

end

/-! ### Runs -/

section
variable {a a' : Assembly} {st st' : List Bool}

theorem body_of_fits (h : a.Fits (st ++ [false])) : a.body.isSome = true := by
  rcases h.shape with ⟨hs, -⟩ | ⟨-, -, -, -, -, -, hb⟩
  · have hnil := h.blocks
    rw [hs] at hnil
    simp at hnil
  · exact hb

theorem fits_of_follow {ls : List (Int × List Char)} (h : a.Fits st)
    (hfollow : Script.follow st (sorts ls) = some st') (hr : takeLines ls a = .ok () a') :
    a'.Fits st' := by
  rcases takeLines_follow h hr with ⟨st₁, hst₁, hfits, -⟩ | ⟨hnone, -⟩
  · rw [hfollow] at hst₁
    cases hst₁
    exact hfits
  · rw [hfollow] at hnone
    cases hnone

/-- Lines that were taken once without errors, all inside one body, can be taken anywhere. -/
theorem exists_repeats_lines {t : SymbolTable} {ls : List (Int × List Char)}
    (htake : ∀ l ∈ ls, MayTake t l.2) (hs : t.Follows a.session.table)
    (hfits : a.Fits (st ++ [false]))
    (hfollow : Nesting.follow BlockLine.mark st (sorts ls) = some st')
    (h : takeLines ls a = .ok () a') (hacc : a'.session.Accepted) :
    ∃ sh e, Repeats t (ls.map Prod.snd) (a.stack.map Frame.bare) sh e := by
  induction ls generalizing a st with
  | nil => exact ⟨_, _, repeats_nil t _⟩
  | cons l ls ih =>
    obtain ⟨is, b, hl, hr⟩ := bind_eq_ok.mp h
    rw [sorts, List.map_cons, Nesting.follow_cons] at hfollow
    obtain ⟨st₁, hadv, hfollow⟩ := Option.bind_eq_some_iff.mp hfollow
    have hfits' : b.Fits (st₁ ++ [false]) := by
      have hone : takeLines [l] a = .ok () b := bind_eq_ok.mpr ⟨is, b, hl, rfl⟩
      refine fits_of_follow hfits (Script.follow_inside ?_) hone
      rw [sorts, List.map_singleton, Nesting.follow_cons, hadv]
      rfl
    have hmark : (BlockLine.ofCode l.2).mark ≠ .foreign := by
      intro hforeign
      simp [Nesting.advance, hforeign] at hadv
    obtain ⟨x, hb⟩ := Option.isSome_iff_exists.mp (body_of_fits hfits)
    have hbacc := hacc.of_isPrefix (takeLines_isPrefix hr)
    obtain ⟨sh, e, hrepeats⟩ := exists_repeats (htake l (by simp)) hs hb hmark hl hbacc
      (body_of_fits hfits')
    -- the line itself is such a repetition, so that the run goes on as recorded
    obtain ⟨u, st₂, hrun, hst₂, hends⟩ := hrepeats [l] rfl a x rfl hb hs
    obtain ⟨js, b', hl', hb'⟩ := bind_eq_ok.mp hrun
    rw [hl] at hl'
    cases hl'
    cases hb'
    obtain ⟨sh', e', hrest⟩ := ih (fun l hl => htake l (List.mem_cons_of_mem _ hl)) hends.follows
      hfits' hfollow hr
    exact ⟨sh', e.followedBy e', hrepeats.append (hst₂ ▸ hrest)⟩

end

end Assemble
end PlainSketch
