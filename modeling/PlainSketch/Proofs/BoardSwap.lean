import PlainSketch.Proofs.SessionView
import PlainSketch.Proofs.StatementWalk

/-!
# Scripts on two boards

The board is asked in three places: whether it has an analog label, whether it has a digital pin and
whether a pin can do PWM. Each answer decides about a warning only. So a script leads two boards
through the same steps: `Session.SameButBoard` relates the sessions of the two runs, `Build.Agrees`
the steps, and `board_affects_warnings_only` compares the results of whole compilations.
-/
namespace PlainSketch

/-- The same symbols and the same errors; warnings, log and board may differ. -/
structure Session.SameButBoard (s s' : Session) : Prop where
  table : s'.table = { s.table with board := s'.table.board }
  errors : s'.findings.filter (·.isError) = s.findings.filter (·.isError)

namespace Session.SameButBoard
variable {s s' : Session}

theorem start (b b' : Board) (reserved : List String) :
    (Session.start b reserved).SameButBoard (.start b' reserved) := ⟨rfl, rfl⟩

theorem reported (h : s.SameButBoard s') (line : Int) (p : Problem) :
    (s.reported line p).SameButBoard (s'.reported line p) :=
  ⟨h.table, by simp only [Session.reported, List.filter_append, h.errors]⟩

theorem warned_left (h : s.SameButBoard s') (line : Int) {p : Problem}
    (hp : p.severity = .warning) : (s.reported line p).SameButBoard s' :=
  ⟨h.table, by simpa [Session.reported, Finding.isError, hp] using h.errors⟩

theorem warned_right (h : s.SameButBoard s') (line : Int) {p : Problem}
    (hp : p.severity = .warning) : s.SameButBoard (s'.reported line p) :=
  ⟨h.table, by simpa [Session.reported, Finding.isError, hp] using h.errors⟩

end Session.SameButBoard

namespace Build

/-- Two outcomes with the same answer or the same fault. -/
def SameOutcome {α : Type} :
    EStateM.Result Fault Session α → EStateM.Result Fault Session α → Prop
  | .ok a t, .ok a' t' => a' = a ∧ t.SameButBoard t'
  | .error f _, .error f' _ => f' = f
  | _, _ => False

/-- Steps that do the same on two boards. -/
def Agrees {α : Type} (m m' : Build α) : Prop :=
  ∀ s s', s.SameButBoard s' → SameOutcome (m s) (m' s')

section
variable {α β : Type}

theorem agrees_pure (a : α) : Agrees (pure a : Build α) (pure a) := fun _ _ h => ⟨rfl, h⟩

theorem agrees_throw (f : Fault) : Agrees (throw f : Build α) (throw f) := fun _ _ _ => rfl

theorem Agrees.bind {m m' : Build α} {f f' : α → Build β} (hm : Agrees m m')
    (hf : ∀ a, Agrees (f a) (f' a)) : Agrees (m >>= f) (m' >>= f') := by
  intro s s' h
  have hout := hm s s' h
  simp only [Bind.bind, EStateM.bind]
  revert hout
  cases m s with
  | ok a t =>
    cases m' s' with
    | ok a' t' =>
      rintro ⟨rfl, ht⟩
      exact hf a' t t' ht
    | error f t' => exact False.elim
  | error f t =>
    cases m' s' with
    | ok a' t' => exact False.elim
    | error f' t' => exact id

theorem agrees_report (line : Int) (p : Problem) : Agrees (report line p) (report line p) :=
  fun _ _ h => ⟨rfl, h.reported line p⟩

theorem agrees_log (e e' : Event) : Agrees (log e) (log e') :=
  fun _ _ h => ⟨rfl, h.table, h.errors⟩

theorem agrees_setTable (t : SymbolTable) (b : Board) :
    Agrees (setTable t) (setTable { t with board := b }) := fun _ _ h => ⟨rfl, rfl, h.errors⟩

theorem agrees_refuse (line : Int) (p : Problem) : Agrees (refuse line p) (refuse line p) :=
  (agrees_report line p).bind fun _ => agrees_pure false

theorem agrees_ite {c : Prop} [Decidable c] {m m' n n' : Build α} (hm : Agrees m m')
    (hn : Agrees n n') : Agrees (if c then m else n) (if c then m' else n') := by
  split
  · exact hm
  · exact hn

/-- A warning that one board gives and the other need not give. -/
theorem agrees_warning (c c' : Bool) (line : Int) {p : Problem} (hp : p.severity = .warning)
    {m m' : Build α} (hm : Agrees m m') :
    Agrees (if c then report line p >>= fun _ => m else m)
      (if c' then report line p >>= fun _ => m' else m') := by
  intro s s' h
  cases c with
  | true =>
    cases c' with
    | true => exact hm _ _ (h.reported line p)
    | false => exact hm _ _ (h.warned_left line hp)
  | false =>
    cases c' with
    | true => exact hm _ _ (h.warned_right line hp)
    | false => exact hm _ _ h

/-- A step that looks at the table must do the same whatever the table's board is. -/
theorem agrees_table {g : SymbolTable → Build β}
    (hg : ∀ t b, Agrees (g t) (g { t with board := b })) : Agrees (table >>= g) (table >>= g) := by
  intro s s' h
  rw [table_bind, table_bind, h.table]
  exact hg s.table _ s s' h

end

/-! ## The steps of both passes -/

theorem agrees_ofExcept {α : Type} (x : Except Fault α) : Agrees (ofExcept x) (ofExcept x) := by
  cases x with
  | ok a => exact agrees_pure a
  | error f => exact agrees_throw f

theorem agrees_pinOfWord (token : List Char) (line : Int) :
    Agrees (pinOfWord token line) (pinOfWord token line) := by
  refine agrees_table fun t b => ?_
  cases Line.analogLabel? token with
  | some label => exact agrees_warning _ _ line rfl (agrees_pure _)
  | none =>
    refine agrees_ite ?_ (agrees_pure _)
    exact (agrees_ofExcept _).bind fun n => agrees_warning _ _ line rfl (agrees_pure _)

theorem agrees_definePin (name : String) (literal : List Char) (line : Int) :
    Agrees (definePin name literal line) (definePin name literal line) := by
  refine agrees_table fun t b => ?_
  refine agrees_ite (agrees_refuse _ _) (agrees_ite (agrees_refuse _ _) ?_)
  refine agrees_ite (agrees_refuse _ _) (agrees_ite (agrees_refuse _ _) ?_)
  refine agrees_ite (agrees_refuse _ _) ((agrees_pinOfWord literal line).bind fun r => ?_)
  cases r with
  | none => exact agrees_refuse _ _
  | some ref =>
    exact (agrees_setTable (t.addPin _) b).bind fun _ =>
      (agrees_log _ _).bind fun _ => agrees_pure true

theorem agrees_defineFunction (name : String) (line : Int) :
    Agrees (defineFunction name line) (defineFunction name line) := by
  refine agrees_table fun t b => ?_
  refine agrees_ite (agrees_refuse _ _) (agrees_ite (agrees_refuse _ _) ?_)
  refine agrees_ite (agrees_refuse _ _) (agrees_ite (agrees_refuse _ _) ?_)
  refine agrees_ite (agrees_refuse _ _) ?_
  exact (agrees_setTable (t.addFunction _) b).bind fun _ =>
    (agrees_log _ _).bind fun _ => agrees_pure true

theorem agrees_widenVariable (v : Variable) (type : ValueType) (line : Int) :
    Agrees (widenVariable v type line) (widenVariable v type line) := by
  refine agrees_warning _ _ line rfl (agrees_ite ?_ (agrees_pure ()))
  exact (agrees_log _ _).bind fun _ => agrees_table fun t b => agrees_setTable (t.retype _ _) b

theorem agrees_observeVariable (name : String) (type : ValueType) (line : Int) :
    Agrees (observeVariable name type line) (observeVariable name type line) := by
  refine agrees_table fun t b => ?_
  refine agrees_ite (agrees_pure false) (agrees_ite (agrees_refuse _ _) ?_)
  refine agrees_ite (agrees_refuse _ _) (agrees_ite (agrees_refuse _ _) ?_)
  have hfind : SymbolTable.findVariable? { t with board := b } name = t.findVariable? name := rfl
  rw [hfind]
  cases t.findVariable? name with
  | none =>
    exact (agrees_setTable (t.addVariable _) b).bind fun _ =>
      (agrees_log _ _).bind fun _ => agrees_pure true
  | some v => exact (agrees_widenVariable v type line).bind fun _ => agrees_pure true

theorem agrees_mention (name : String) (line : Int) :
    Agrees (mention name line) (mention name line) :=
  agrees_table fun _ _ => agrees_ite (agrees_pure true) (agrees_observeVariable name .long line)

theorem agrees_mentionAll (line : Int) (names : List String) :
    Agrees (mentionAll line names) (mentionAll line names) := by
  induction names with
  | nil => exact agrees_pure ()
  | cons n ns ih => exact (agrees_mention n line).bind fun _ => ih

theorem agrees_useNames (cs : List Char) (line : Int) :
    Agrees (useNames cs line) (useNames cs line) :=
  agrees_table fun _ _ => agrees_mentionAll line _

theorem agrees_writeTarget (name : String) (type : ValueType) (line : Int) :
    Agrees (writeTarget name type line) (writeTarget name type line) :=
  agrees_table fun _ _ => agrees_ite (agrees_pure true) (agrees_observeVariable name type line)

theorem agrees_checkPwm (ref : PinRef) (line : Int) :
    Agrees (checkPwm ref line) (checkPwm ref line) := by
  obtain ⟨target, kind, consumed, number⟩ := ref
  cases kind with
  | analog => exact agrees_report line _
  | digital =>
    cases number with
    | none => exact agrees_pure ()
    | some n => exact agrees_table fun t b => agrees_warning _ _ line rfl (agrees_pure ())

/-- The steps of statements do the same on all boards. -/
theorem compositional_agrees : Compositional
    (fun _ _ m => ∀ line, Agrees (m line) (m line)) fun _ _ => True where
  pure _ := fun _ => agrees_pure _
  bind hm hf := fun line => (hm line).bind fun a => hf a line
  ofExcept x := fun _ => agrees_ofExcept x
  report p := fun line => agrees_report line p
  useNames cs := agrees_useNames cs
  observe name := agrees_observeVariable name .long
  writeTarget _ := agrees_writeTarget _ _
  pinOfWord token := agrees_pinOfWord token
  checkPwm ref := agrees_checkPwm ref
  isFunction name := fun _ => agrees_table fun t _ => agrees_pure (t.isFunction name)

theorem agrees_seed (name : String) (type : ValueType) (line : Int) :
    Agrees (seed name type line) (seed name type line) := by
  refine agrees_table fun t b => agrees_ite (agrees_pure ()) ?_
  exact (agrees_observeVariable name type line).bind fun _ => agrees_pure ()

theorem agrees_outlineLine (depth : Nat) (line : Int) (c : OutlineLine) :
    Agrees (outlineLine depth line c) (outlineLine depth line c) := by
  cases c with
  | opener | closer | neutral | other => exact agrees_pure _
  | function name =>
    exact agrees_ite ((agrees_defineFunction name line).bind fun _ => agrees_pure _)
      (agrees_pure _)
  | pin parts =>
    refine agrees_ite ((agrees_report line _).bind fun _ => agrees_pure _) ?_
    rcases parts with _ | ⟨name, value⟩
    · exact (agrees_report line _).bind fun _ => agrees_pure _
    · exact (agrees_definePin name value line).bind fun _ => agrees_pure _
  | pinAssignment name value =>
    exact agrees_ite ((agrees_report line _).bind fun _ => agrees_pure _)
      ((agrees_definePin name value line).bind fun _ => agrees_pure _)
  | writes name type => exact (agrees_seed name type line).bind fun _ => agrees_pure _

theorem agrees_outlineFrom (depth : Nat) (ls : List (Int × List Char)) :
    Agrees (outlineFrom depth ls) (outlineFrom depth ls) := by
  induction ls generalizing depth with
  | nil => exact agrees_pure depth
  | cons l ls ih => exact (agrees_outlineLine depth l.1 _).bind fun depth => ih depth

theorem agrees_outline (lines : List (List Char)) :
    Agrees (outline lines) (outline lines) :=
  (agrees_outlineFrom 0 _).bind fun _ => agrees_table fun _ _ => agrees_log _ _

/-- Doing the same on all boards passes to the steps of the second pass. -/
theorem closed_agrees : Closed (fun _ => True) fun _ m => Agrees m m where
  pure := agrees_pure
  throw := agrees_throw
  bind hm hf := hm.bind hf
  report {line} _ p := agrees_report line p
  log e := agrees_log e e
  findFunction name := agrees_table fun t _ => agrees_pure (t.findFunction? name)

end Build

/-! ## Whole scripts -/

open Assemble in
/-- Both passes do the same on all boards. -/
theorem everywhere_assemble_agrees (lines : List (List Char)) :
    Everywhere (fun _ m => Build.Agrees m m) (assemble lines) := by
  have hP := Build.closed_agrees
  refine (everywhere_build hP (Build.agrees_outline lines)).bind hP fun _ => ?_
  refine (everywhere_takeLines hP fun l _ => ?_).bind hP fun _ =>
    everywhere_finish hP trivial trivial
  exact everywhere_takeLine hP trivial (fun cs => Build.compositional_agrees.condition cs l.1)
    fun st _ _ => Build.compositional_agrees.statement (fun _ _ _ => trivial) l.1

/-- The assemblies of two boards have all in common but what the sessions may differ in. -/
theorem assemble_boards (lines : List (List Char)) (b b' : Board) (reserved : List String) :
    match assemble lines { session := .start b reserved },
      assemble lines { session := .start b' reserved } with
    | .ok _ a, .ok _ a' =>
      a.session.SameButBoard a'.session ∧ a' = { a with session := a'.session }
    | .error f _, .error f' _ => f' = f
    | _, _ => False := by
  have h := everywhere_assemble_agrees lines { session := .start b reserved } _ _
    (.start b b' reserved)
  simp only [Assemble.onSession] at h
  revert h
  cases assemble lines { session := .start b reserved } with
  | ok _ a =>
    cases assemble lines { session := .start b' reserved } with
    | ok _ a' =>
      rintro ⟨hrest, hs⟩
      refine ⟨hs, ?_⟩
      exact congrArg (fun p => { p.2 with session := a'.session }) hrest
    | error f a' => exact False.elim
  | error f a =>
    cases assemble lines { session := .start b' reserved } with
    | ok _ a' => exact False.elim
    | error f' a' => exact id

/-- A sketch begins with its banner. -/
theorem Sketch.render_eq (s : Sketch String) (t : SymbolTable) (version unit : String) :
    s.render t version unit = banner t.board version ++
      ("\n\n" ++ "\n\n".intercalate (s.sections t unit) ++ "\n") := by
  have hne : s.sections t unit ≠ [] := by simp [sections]
  rw [render, String.intercalate_cons_of_ne_nil hne]
  simp only [String.append_assoc]

/-- The lines of the errors are those of the findings. -/
theorem Compilation.errorLines_eq (c : Compilation) :
    (c.diagnostics.filter (·.isError)).map (·.line) =
      (c.findings.filter (·.isError)).map (·.line) := by
  simp only [diagnostics, List.filter_map, List.map_map]
  rfl

theorem Compilation.success_eq (c : Compilation) :
    c.success = (c.findings.filter (·.isError)).isEmpty := by
  rw [success, Bool.eq_iff_iff]
  simp [List.filter_eq_nil_iff]

theorem compile_result (o : Options) (source file : String) :
    (compile o source file).result =
      match assemble (sourceLines source) { session := .start o.board o.reserved } with
      | .ok _ a => .ok ⟨a.code o.indent, a.session.findings, a.session.table, file,
          sourceLines source⟩
      | .error f _ => .error f := by
  simp only [compile]
  cases assemble (sourceLines source) { session := .start o.board o.reserved } <;> rfl

/-- The assembly that a compilation comes from. -/
theorem exists_assembly {o : Options} {source file : String} {c : Compilation}
    (h : (compile o source file).result = .ok c) :
    ∃ a, assemble (sourceLines source) { session := .start o.board o.reserved } = .ok () a ∧
      c = ⟨a.code o.indent, a.session.findings, a.session.table, file, sourceLines source⟩ := by
  rw [compile_result] at h
  cases ha : assemble (sourceLines source) { session := .start o.board o.reserved } with
  | error f a =>
    rw [ha] at h
    cases h
  | ok u a =>
    rw [ha] at h
    cases h
    exact ⟨a, rfl, rfl⟩

theorem exists_ok_iff {ε α : Type} {r : Except ε α} {p : α → Bool} :
    (∃ c, r = .ok c ∧ p c = true) ↔ r.toOption.any p = true := by
  cases r with
  | error e => simp [Except.toOption]
  | ok c => simp [Except.toOption]

/-- **A board decides about warnings and the banner only.** On any two boards a script has the same
symbols, the same sketch after the banner, the same success and the same errors on the same lines,
or stops at the same fault. -/
theorem board_affects_warnings_only (o : Options) (b b' : Board) (source file : String) :
    match (compile { o with board := b } source file).result,
      (compile { o with board := b' } source file).result with
    | .ok c, .ok c' =>
      c.table.board = b ∧ c'.table = { c.table with board := b' } ∧
      (∃ rest, c.code = Sketch.banner b version ++ rest ∧
        c'.code = Sketch.banner b' version ++ rest) ∧
      c'.success = c.success ∧
      c'.findings.filter (·.isError) = c.findings.filter (·.isError) ∧
      (c'.diagnostics.filter (·.isError)).map (·.line) =
        (c.diagnostics.filter (·.isError)).map (·.line)
    | .error f, .error f' => f' = f
    | _, _ => False := by
  have h := assemble_boards (sourceLines source) b b' o.reserved
  simp only [compile_result]
  revert h
  cases hr : assemble (sourceLines source) { session := .start b o.reserved } with
  | error f a =>
    cases assemble (sourceLines source) { session := .start b' o.reserved } with
    | ok _ a' => exact False.elim
    | error f' a' => exact id
  | ok _ a =>
    cases hr' : assemble (sourceLines source) { session := .start b' o.reserved } with
    | error f' a' => exact False.elim
    | ok _ a' =>
      rintro ⟨hs, hrest⟩
      have hb : a.session.table.board = b := (extends_of_assemble hr).table.keeps.board
      have hb' : a'.session.table.board = b' := (extends_of_assemble hr').table.keeps.board
      have htable : a'.session.table = { a.session.table with board := b' } := hb' ▸ hs.table
      have hsketch : a'.sketch = a.sketch := by rw [hrest]
      refine ⟨hb, htable, ?_, ?_, hs.errors, ?_⟩
      · simp only [Assembly.code, Sketch.render_eq, hsketch, htable, hb]
        exact ⟨_, rfl, rfl⟩
      · simp only [Compilation.success_eq, hs.errors]
      · simp only [Compilation.errorLines_eq, hs.errors]

end PlainSketch
