import Mathlib.Logic.Relation
import PlainSketch.Proofs.InstrText
import PlainSketch.Statement.Compile

/-!
# What compiling a line does to the session

Everything that a value, a condition or a statement does to the session is made of four elementary
changes: a report that is not about the block structure, an entry of the log, a new variable and a
wider type for a known one. Pins and functions never change here. The functions that compile
statements are followed once, in `Build.statement_answers`; what holds of every elementary change
then holds of all of them. Their faults come from numbers and units of the script alone, and the
lines that they answer are simple ones.
-/
namespace PlainSketch

theorem bind_eq_ok {ε σ α β : Type} {m : EStateM ε σ α} {f : α → EStateM ε σ β} {s u : σ} {b : β} :
    (m >>= f) s = .ok b u ↔ ∃ a t, m s = .ok a t ∧ f a t = .ok b u := by
  simp only [bind, EStateM.bind]
  cases m s <;> simp [and_assoc]

theorem bind_eq_error {ε σ α β : Type} {m : EStateM ε σ α} {f : α → EStateM ε σ β} {s u : σ}
    {e : ε} : (m >>= f) s = .error e u ↔
      m s = .error e u ∨ ∃ a t, m s = .ok a t ∧ f a t = .error e u := by
  simp only [bind, EStateM.bind]
  cases m s <;> simp [and_assoc]

/-- The problem is about the block structure: openers, `otherwise` and `end` out of place, lines
outside a body, and the two bodies that a script must have. -/
def Problem.isStructural : Problem → Bool
  | nestedFunction | nestedStructure _ | controlOutsideBlock | otherwiseOutsideIf
  | otherwiseRepeated | endWithoutBlock | commandOutsideBlock | unknownBlock _ | unclosedBlock ..
  | setupMissing | loopMissing => true
  | _ => false

/-- A name that a new variable may take. -/
def SymbolTable.Admits (t : SymbolTable) (name : String) : Prop :=
  Line.isIdentifier name.toList = true ∧ t.isReserved name = false ∧ t.isPin name = false ∧
    t.isFunction name = false ∧ t.isVariable name = false

namespace Session

/-- The session after a report. -/
def reported (s : Session) (line : Int) (p : Problem) : Session :=
  { s with findings := s.findings ++ [⟨line, p⟩] }

/-- One elementary change. -/
inductive Step (s : Session) : Session → Prop
  | report (line : Int) {p : Problem} (h : p.isStructural = false) : Step s (s.reported line p)
  | log (e : Event) : Step s { s with log := s.log ++ [e] }
  | declare (v : Variable) (h : s.table.Admits v.name) :
      Step s { s with table := s.table.addVariable v }
  | widen (v : Variable) (type : ValueType) (h : s.table.findVariable? v.name = some v) :
      Step s { s with table := s.table.retype v.name (v.type.widen type) }

/-- Any number of elementary changes. -/
def Moves : Session → Session → Prop := Relation.ReflTransGen Step

theorem Moves.refl (s : Session) : Moves s s := Relation.ReflTransGen.refl

theorem Moves.trans {s t u : Session} (h : Moves s t) (h' : Moves t u) : Moves s u :=
  Relation.ReflTransGen.trans h h'

theorem Step.moves {s t : Session} (h : Step s t) : Moves s t := Relation.ReflTransGen.single h

/-- Findings are only added, and the added ones are not about the block structure. -/
theorem Moves.findings {s t : Session} (h : Moves s t) :
    ∃ fs, t.findings = s.findings ++ fs ∧ ∀ f ∈ fs, f.problem.isStructural = false := by
  induction h with
  | refl => exact ⟨[], by simp, by simp⟩
  | tail _ step ih =>
    obtain ⟨fs, hf, hn⟩ := ih
    cases step with
    | @report line p hp =>
      refine ⟨fs ++ [⟨line, p⟩], by simp [reported, hf], ?_⟩
      intro f hm
      rcases List.mem_append.mp hm with hm | hm
      · exact hn f hm
      · rw [List.mem_singleton.mp hm]; exact hp
    | log | declare | widen => exact ⟨fs, hf, hn⟩

theorem Moves.isPrefix {s t : Session} (h : Moves s t) : s.findings <+: t.findings := by
  obtain ⟨fs, hfs, -⟩ := h.findings
  exact ⟨fs, hfs.symm⟩

theorem reported_isPrefix (s : Session) (line : Int) (p : Problem) :
    s.findings <+: (s.reported line p).findings := ⟨_, rfl⟩

end Session

namespace Build
open Session
open Instr (AreSimple)

/-- The run of `m` from `s` goes through elementary changes, also when it stops, and it does not
stop for want of a body. -/
def MovesFrom {α : Type} (m : Build α) (s : Session) : Prop :=
  match m s with
  | .ok _ t => Moves s t
  | .error f t => Moves s t ∧ f ≠ .noOpenBody

/-- Every run goes through elementary changes. -/
def Elementary {α : Type} (m : Build α) : Prop := ∀ s, MovesFrom m s

section Closure
variable {α β : Type} {m : Build α} {f : α → Build β}

theorem MovesFrom.ok {s t : Session} {a : α} (h : MovesFrom m s) (hm : m s = .ok a t) :
    Moves s t := by
  simpa only [MovesFrom, hm] using h

theorem MovesFrom.error {s t : Session} {e : Fault} (h : MovesFrom m s) (hm : m s = .error e t) :
    Moves s t ∧ e ≠ .noOpenBody := by
  simpa only [MovesFrom, hm] using h

theorem MovesFrom.bind {s : Session} (hm : MovesFrom m s)
    (hf : ∀ a t, m s = .ok a t → MovesFrom (f a) t) : MovesFrom (m >>= f) s := by
  cases h : (m >>= f) s with
  | ok b u =>
    obtain ⟨a, t, ha, hb⟩ := bind_eq_ok.mp h
    simp only [MovesFrom, h]
    exact (hm.ok ha).trans ((hf a t ha).ok hb)
  | error e u =>
    simp only [MovesFrom, h]
    rcases bind_eq_error.mp h with he | ⟨a, t, ha, he⟩
    · exact hm.error he
    · obtain ⟨hu, hne⟩ := (hf a t ha).error he
      exact ⟨(hm.ok ha).trans hu, hne⟩

theorem Elementary.bind (hm : Elementary m) (hf : ∀ a, Elementary (f a)) :
    Elementary (m >>= f) := fun s => (hm s).bind fun a t _ => hf a t

theorem elementary_pure (a : α) : Elementary (pure a : Build α) := fun s => Moves.refl s

/-- Every run goes through elementary changes, and what it answers has the property. -/
def Answers (P : α → Prop) (m : Build α) : Prop := Elementary m ∧ ∀ s a t, m s = .ok a t → P a

theorem Elementary.answers {Q : β → Prop} (hm : Elementary m) (hf : ∀ a, Answers Q (f a)) :
    Answers Q (m >>= f) := by
  refine ⟨hm.bind fun a => (hf a).1, ?_⟩
  intro s b u h
  obtain ⟨a, t, -, hb⟩ := bind_eq_ok.mp h
  exact (hf a).2 t b u hb

theorem answers_pure {P : α → Prop} {a : α} (h : P a) : Answers P (pure a : Build α) := by
  refine ⟨elementary_pure a, ?_⟩
  intro s b t hb
  cases hb
  exact h

/-- What follows a look at the table is run with the table of the session. -/
theorem table_bind (g : SymbolTable → Build β) (s : Session) :
    (table >>= g) s = g s.table s := rfl

theorem table_elementary : Elementary table := fun s => Moves.refl s

/-- What follows a look at the table is run with the table of the session. -/
theorem elementary_table {g : SymbolTable → Build β}
    (h : ∀ s : Session, MovesFrom (g s.table) s) : Elementary (table >>= g) := by
  intro s
  refine (table_elementary s).bind fun t u hu => ?_
  cases hu
  exact h s

end Closure

theorem report_elementary (line : Int) {p : Problem} (h : p.isStructural = false) :
    Elementary (report line p) := fun _ => (Step.report line h).moves

theorem log_elementary (e : Event) : Elementary (log e) := fun _ => (Step.log e).moves

theorem refuse_elementary (line : Int) {p : Problem} (h : p.isStructural = false) :
    Elementary (refuse line p) := (report_elementary line h).bind fun _ => elementary_pure false

theorem ofExcept_elementary {α : Type} {x : Except Fault α} (h : x ≠ .error .noOpenBody) :
    Elementary (ofExcept x) := by
  intro s
  cases x with
  | ok a => exact Moves.refl s
  | error f => exact ⟨Moves.refl s, fun hf => h (by rw [hf])⟩

/-! ## Faults of numbers and units -/

theorem readNatural_ne (cs : List Char) : Text.readNatural cs ≠ .error .noOpenBody := by
  unfold Text.readNatural
  split <;> simp

theorem map_ne {α β : Type} {x : Except Fault α} (g : α → β) (h : x ≠ .error .noOpenBody) :
    x.map g ≠ .error .noOpenBody := by
  intro hg
  cases x with
  | ok a => cases hg
  | error f => cases hg; exact h rfl

theorem except_bind_ne {α β : Type} {x : Except Fault α} {g : α → Except Fault β}
    (hx : x ≠ .error .noOpenBody) (hg : ∀ a, g a ≠ .error .noOpenBody) :
    (x >>= g) ≠ .error .noOpenBody := by
  intro h
  cases x with
  | ok a => exact hg a h
  | error f => cases h; exact hx rfl

theorem readInteger_ne (cs : List Char) : Text.readInteger cs ≠ .error .noOpenBody := by
  unfold Text.readInteger
  split
  · exact map_ne _ (except_bind_ne (readNatural_ne _) fun n => by simp [pure, Except.pure])
  · exact map_ne _ (except_bind_ne (readNatural_ne _) fun n => by simp [pure, Except.pure])

theorem writable_ne (n : Int) : Text.writable n ≠ .error .noOpenBody := by
  unfold Text.writable
  split <;> simp

-- Comparing two runs must not evaluate the bound, a power of ten with thousands of digits.
attribute [local irreducible] Text.writable

theorem readRange_ne (cs : List Char) : Line.readRange cs ≠ .error .noOpenBody := by
  unfold Line.readRange
  split
  · simp
  · exact except_bind_ne (readInteger_ne _) fun l =>
      except_bind_ne (readInteger_ne _) fun h => by simp [pure, Except.pure]

theorem timeUnit_ne (cs : List Char) : TimeUnit.read cs ≠ .error .noOpenBody := by
  unfold TimeUnit.read
  split <;> simp

/-! ## Names and pins -/

theorem widenVariable_moves {s : Session} {v : Variable} (type : ValueType) (line : Int)
    (h : s.table.findVariable? v.name = some v) : MovesFrom (widenVariable v type line) s := by
  have widened : ∀ u : Session, u.table = s.table → MovesFrom (if v.type.widen type ≠ v.type then do
      log (.variableWidened line v.name v.type (v.type.widen type))
      setTable ((← table).retype v.name (v.type.widen type)) else pure ()) u := by
    intro u hu
    split
    · refine (log_elementary _ u).bind fun _ t ht => ?_
      cases ht
      exact (Step.widen (s := { u with log := _ }) v type (by rw [hu]; exact h)).moves
    · exact Moves.refl u
  unfold widenVariable
  split
  · refine (report_elementary line rfl s).bind fun _ t ht => ?_
    cases ht
    exact widened _ rfl
  · exact widened s rfl

theorem findVariable?_name {t : SymbolTable} {name : String} {v : Variable}
    (h : t.findVariable? name = some v) : v.name = name := by
  have := List.find?_some h
  simpa using this

theorem observeVariable_elementary (name : String) (type : ValueType) (line : Int) :
    Elementary (observeVariable name type line) := by
  refine elementary_table fun s => ?_
  split
  · exact Moves.refl s
  · split
    · exact refuse_elementary line rfl s
    · split
      · exact refuse_elementary line rfl s
      · split
        · exact refuse_elementary line rfl s
        · rename_i hid hres hpin hfun
          cases hv : s.table.findVariable? name with
          | none =>
            have hadm : s.table.Admits name := by
              refine ⟨by simpa using hid, by simpa using hres, by simpa using hpin,
                by simpa using hfun, ?_⟩
              simp [SymbolTable.isVariable, hv]
            have hset : Moves s { s with table := s.table.addVariable ⟨name, type, line⟩ } :=
              (Step.declare ⟨name, type, line⟩ hadm).moves
            exact hset.trans (log_elementary (.variableDeclared line name type) _)
          | some v =>
            have hn := findVariable?_name hv
            exact (widenVariable_moves type line (hn ▸ hv)).bind fun _ t _ => Moves.refl t

theorem mention_elementary (name : String) (line : Int) : Elementary (mention name line) := by
  refine elementary_table fun s => ?_
  split
  · exact Moves.refl s
  · exact observeVariable_elementary name .long line s

theorem mentionAll_elementary (line : Int) (names : List String) :
    Elementary (mentionAll line names) := by
  induction names with
  | nil => exact elementary_pure ()
  | cons n ns ih => exact (mention_elementary n line).bind fun _ => ih

theorem useNames_elementary (cs : List Char) (line : Int) : Elementary (useNames cs line) :=
  elementary_table fun s => mentionAll_elementary line _ s

theorem expression_elementary (cs : List Char) (line : Int) : Elementary (expression cs line) := by
  unfold expression
  split
  · exact (report_elementary line rfl).bind fun _ => elementary_pure none
  · exact (useNames_elementary _ line).bind fun _ => elementary_pure _

theorem condition_elementary (cs : List Char) (line : Int) : Elementary (condition cs line) := by
  unfold condition
  split
  · exact (report_elementary line rfl).bind fun _ => elementary_pure none
  · exact (useNames_elementary _ line).bind fun _ => elementary_pure _

/-- A warning in front of what is done anyway. -/
theorem elementary_warning {α : Type} {c : Prop} [Decidable c] (line : Int) {p : Problem}
    (hp : p.isStructural = false) {m : Build α} (hm : Elementary m) :
    Elementary (if c then report line p >>= fun _ => m else m) := by
  split
  · exact (report_elementary line hp).bind fun _ => hm
  · exact hm

theorem pinOfWord_elementary (token : List Char) (line : Int) :
    Elementary (pinOfWord token line) := by
  refine elementary_table fun s => ?_
  split
  · exact elementary_warning line rfl (elementary_pure _) s
  · split
    · exact (ofExcept_elementary (readInteger_ne _)).bind
        (fun n => elementary_warning line rfl (elementary_pure _)) s
    · exact Moves.refl s

theorem resolvePin_elementary (words : List (List Char)) (line : Int) :
    Elementary (resolvePin words line) := by
  unfold resolvePin
  split
  · exact (report_elementary line rfl).bind fun _ => elementary_pure none
  · split
    · split
      · exact (report_elementary line rfl).bind fun _ => elementary_pure none
      · refine (pinOfWord_elementary _ line).bind fun r => ?_
        cases r with
        | none => exact (report_elementary line rfl).bind fun _ => elementary_pure none
        | some ref => exact elementary_pure _
    · refine (pinOfWord_elementary _ line).bind fun r => ?_
      cases r with
      | none => exact (report_elementary line rfl).bind fun _ => elementary_pure none
      | some ref => exact elementary_pure _

theorem pinOperand_elementary (cs : List Char) (line : Int) : Elementary (pinOperand cs line) := by
  refine (resolvePin_elementary (Line.words cs) line).bind fun r => ?_
  cases r with
  | none => exact elementary_pure none
  | some ref => exact elementary_pure _

theorem writeTarget_elementary (name : String) (type : ValueType) (line : Int) :
    Elementary (writeTarget name type line) := by
  refine elementary_table fun s => ?_
  split
  · exact Moves.refl s
  · exact observeVariable_elementary name type line s

/-! ## Statements -/

section
variable {α : Type} {target : Option String}

/-- Only an operand that was found is written of. -/
theorem Elementary.answers_some {m : Build (Option α)} {f : Option α → Build (List Instr)}
    (hm : Elementary m) (hnone : f none = pure [])
    (hsome : ∀ a, Answers (AreSimple target) (f (some a))) :
    Answers (AreSimple target) (m >>= f) := by
  refine hm.answers fun r => ?_
  cases r with
  | none =>
    rw [hnone]
    exact answers_pure .nil
  | some a => exact hsome a

/-- Only a variable that was admitted is written of. -/
theorem Elementary.answers_true {m : Build Bool} {f : Bool → Build (List Instr)}
    (hm : Elementary m) (hfalse : f false = pure [])
    (htrue : Answers (AreSimple target) (f true)) : Answers (AreSimple target) (m >>= f) := by
  refine hm.answers fun ok => ?_
  cases ok with
  | false =>
    rw [hfalse]
    exact answers_pure .nil
  | true => exact htrue

theorem answers_refusal (line : Int) {p : Problem} (hp : p.isStructural = false) :
    Answers (AreSimple target) (report line p >>= fun _ => pure []) :=
  (report_elementary line hp).answers fun _ => answers_pure .nil

end

theorem compilePinMode_answers (operands : List Char) (line : Int) :
    Answers (AreSimple none) (compilePinMode operands line) := by
  refine (pinOperand_elementary operands line).answers_some rfl fun r => ?_
  dsimp only
  split
  · exact answers_pure (.fixed rfl rfl)
  · exact answers_refusal line rfl

theorem compileDigitalWrite_answers (operands : List Char) (line : Int) :
    Answers (AreSimple none) (compileDigitalWrite operands line) := by
  refine (pinOperand_elementary operands line).answers_some rfl fun r => ?_
  dsimp only
  split
  · exact answers_pure (.fixed rfl rfl)
  · exact answers_refusal line rfl

theorem checkPwm_elementary (ref : PinRef) (line : Int) : Elementary (checkPwm ref line) := by
  unfold checkPwm
  split
  · exact report_elementary line rfl
  · refine elementary_table fun s => ?_
    split
    · exact report_elementary line rfl s
    · exact Moves.refl s
  · exact elementary_pure ()

theorem compilePwmWrite_answers (pin value : List Char) (line : Int) :
    Answers (AreSimple none) (compilePwmWrite pin value line) := by
  refine (pinOperand_elementary pin line).answers_some rfl fun r => ?_
  refine (expression_elementary value line).answers_some rfl fun e => ?_
  exact (checkPwm_elementary r.1 line).answers fun _ => answers_pure (.fixed rfl rfl)

theorem compileReadAnalog_answers (pin : List Char) (name : String) (line : Int) :
    Answers (AreSimple (some name)) (compileReadAnalog pin name line) := by
  refine (writeTarget_elementary name .int line).answers_true rfl ?_
  refine (pinOperand_elementary pin line).answers_some rfl fun r => ?_
  dsimp only
  split
  · exact answers_pure (.led rfl rfl)
  · exact answers_refusal line rfl

theorem compileReadDigital_answers (pin : List Char) (name : String) (line : Int) :
    Answers (AreSimple (some name)) (compileReadDigital pin name line) := by
  refine (writeTarget_elementary name .int line).answers_true rfl ?_
  exact (pinOperand_elementary pin line).answers_some rfl fun _ => answers_pure (.led rfl rfl)

theorem compileWait_answers (amount unit : List Char) :
    Answers (AreSimple none) (compileWait amount unit) := by
  refine (ofExcept_elementary (readNatural_ne amount)).answers fun n => ?_
  refine (ofExcept_elementary (timeUnit_ne unit)).answers fun u => ?_
  cases u with
  | micro | milli => exact answers_pure (.fixed rfl rfl)
  | second =>
    exact (ofExcept_elementary (writable_ne _)).answers fun _ => answers_pure (.fixed rfl rfl)

theorem compileAssign_answers (name : String) (value : List Char) (line : Int) :
    Answers (AreSimple (some name)) (compileAssign name value line) := by
  refine (writeTarget_elementary name _ line).answers_true rfl ?_
  cases Line.isStringLiteral (Text.trim value) with
  | true => exact answers_pure (.led rfl rfl)
  | false =>
    exact (expression_elementary _ line).answers_some rfl fun _ => answers_pure (.led rfl rfl)

theorem compileChange_answers (name : String) (value : List Char) (line : Int) :
    Answers (AreSimple (some name)) (compileChange name value line) := by
  refine (expression_elementary value line).answers_some rfl fun e => ?_
  exact (observeVariable_elementary name .long line).answers_true rfl (answers_pure (.led rfl rfl))

theorem compileMap_answers (source : String) (fromRange toRange : List Char) (name : String)
    (line : Int) :
    Answers (AreSimple (some name)) (compileMap source fromRange toRange name line) := by
  refine (ofExcept_elementary (readRange_ne fromRange)).answers fun from? => ?_
  refine (ofExcept_elementary (readRange_ne toRange)).answers fun to? => ?_
  split
  · refine (observeVariable_elementary source .long line).answers fun sourceOk => ?_
    refine (observeVariable_elementary name .long line).answers fun nameOk => ?_
    split
    · exact answers_pure (.led rfl rfl)
    · exact answers_pure .nil
  · exact answers_refusal line rfl

theorem compileLimit_answers (name : String) (range : List Char) (line : Int) :
    Answers (AreSimple (some name)) (compileLimit name range line) := by
  refine (ofExcept_elementary (readRange_ne range)).answers fun range? => ?_
  split
  · exact answers_refusal line rfl
  · refine (observeVariable_elementary name .long line).answers_true rfl ?_
    -- both lines begin with the word `if`, not with the name
    exact answers_pure ((AreSimple.fixed rfl rfl).cons rfl nofun)

theorem compileRandom_answers (range : List Char) (name : String) (line : Int) :
    Answers (AreSimple (some name)) (compileRandom range name line) := by
  refine (ofExcept_elementary (readRange_ne range)).answers fun range? => ?_
  rcases range? with _ | ⟨a, b⟩
  · exact answers_refusal line rfl
  · refine (observeVariable_elementary name .long line).answers_true rfl ?_
    exact (ofExcept_elementary (writable_ne _)).answers fun _ => answers_pure (.led rfl rfl)

theorem compileTone_answers (frequency pin : List Char) (line : Int) :
    Answers (AreSimple none) (compileTone frequency pin line) := by
  refine (expression_elementary frequency line).answers_some rfl fun e => ?_
  exact (pinOperand_elementary pin line).answers_some rfl fun _ => answers_pure (.fixed rfl rfl)

theorem compileCall_answers (name : String) (line : Int) :
    Answers (AreSimple (some name)) (compileCall name line) := by
  refine table_elementary.answers fun t => ?_
  split
  · exact (report_elementary line rfl).answers fun _ => answers_pure (.led rfl rfl)
  · exact answers_pure (.led rfl rfl)

/-- Compiling a statement is made of elementary changes, whatever the statement, and the lines that
it becomes are simple. -/
theorem statement_answers (line : Int) (st : Statement) :
    Answers (AreSimple st.target?) (statement line st) := by
  cases st with
  | pinMode operands => exact compilePinMode_answers operands line
  | digitalWrite operands => exact compileDigitalWrite_answers operands line
  | toggle operands | noTone operands =>
    exact (pinOperand_elementary operands line).answers_some rfl fun _ =>
      answers_pure (.fixed rfl rfl)
  | pwmWrite pin value => exact compilePwmWrite_answers pin value line
  | readAnalog pin name => exact compileReadAnalog_answers pin name line
  | readTime name | readMicros name =>
    exact (writeTarget_elementary name .unsignedLong line).answers_true rfl
      (answers_pure (.led rfl rfl))
  | readDigital pin name => exact compileReadDigital_answers pin name line
  | wait amount unit => exact compileWait_answers amount unit
  | serialBegin rate =>
    exact (ofExcept_elementary (readNatural_ne rate)).answers fun _ => answers_pure (.fixed rfl rfl)
  | printText text => exact answers_pure (.fixed rfl rfl)
  | printTextValue text value =>
    exact (expression_elementary value line).answers_some rfl fun _ =>
      answers_pure ((AreSimple.fixed rfl rfl).cons rfl nofun)
  | printValue value | randomSeed value =>
    exact (expression_elementary value line).answers_some rfl fun _ =>
      answers_pure (.fixed rfl rfl)
  | assign name value => exact compileAssign_answers name value line
  | change name value => exact compileChange_answers name value line
  | map source fromRange toRange name =>
    exact compileMap_answers source fromRange toRange name line
  | limit name range => exact compileLimit_answers name range line
  | random range name => exact compileRandom_answers range name line
  | tone frequency pin => exact compileTone_answers frequency pin line
  | call name => exact compileCall_answers name line

theorem statement_elementary (line : Int) (st : Statement) : Elementary (statement line st) :=
  (statement_answers line st).1

end Build
end PlainSketch
