import PlainSketch.Proofs.StackShape
import PlainSketch.Proofs.TameText

/-!
# Scripts without faults

What is wrong with a script is reported; only a numeral that is too long, a unit of time that no
table has, and a line with no body to go to could stop the work. The first two do not occur in a
tame script, since its numerals are short and its units are spelled in ASCII, and the third never
occurs, by the shape of the stack. So every tame script has a sketch.
-/
namespace PlainSketch
open Text

-- Comparing two runs must not evaluate the bound, a power of ten with thousands of digits.
attribute [local irreducible] writable

/-! ## Steps on the session -/

namespace Build

/-- No run stops at a fault. -/
def Succeeds {α : Type} (m : Build α) : Prop := ∀ s, ∃ a t, m s = .ok a t

section
variable {α β : Type} {m : Build α} {f : α → Build β}

theorem succeeds_pure (a : α) : Succeeds (pure a : Build α) := fun s => ⟨a, s, rfl⟩

theorem Succeeds.bind (hm : Succeeds m) (hf : ∀ a, Succeeds (f a)) : Succeeds (m >>= f) := by
  intro s
  obtain ⟨a, t, ha⟩ := hm s
  obtain ⟨b, u, hb⟩ := hf a t
  exact ⟨b, u, bind_eq_ok.mpr ⟨a, t, ha, hb⟩⟩

theorem Succeeds.ne_error (hm : Succeeds m) {s t : Session} {e : Fault} : m s ≠ .error e t := by
  obtain ⟨a, u, h⟩ := hm s
  rw [h]
  rintro ⟨⟩

/-- What is read without a fault, followed by more. -/
theorem succeeds_ofExcept {x : Except Fault α} {a : α} (hx : x = .ok a) (hf : Succeeds (f a)) :
    Succeeds (ofExcept x >>= f) := by
  subst hx
  intro s
  obtain ⟨b, u, hb⟩ := hf s
  exact ⟨b, u, bind_eq_ok.mpr ⟨a, s, rfl, hb⟩⟩

end

theorem table_succeeds : Succeeds table := fun s => ⟨s.table, s, rfl⟩

theorem setTable_succeeds (t : SymbolTable) : Succeeds (setTable t) := fun _ => ⟨(), _, rfl⟩

theorem report_succeeds (line : Int) (p : Problem) : Succeeds (report line p) :=
  fun _ => ⟨(), _, rfl⟩

theorem log_succeeds (e : Event) : Succeeds (log e) := fun _ => ⟨(), _, rfl⟩

/-- A report in place of what would be done. -/
theorem succeeds_refusal {α : Type} (line : Int) (p : Problem) (a : α) :
    Succeeds (report line p >>= fun _ => pure a) :=
  (report_succeeds line p).bind fun _ => succeeds_pure a

theorem refuse_succeeds (line : Int) (p : Problem) : Succeeds (refuse line p) :=
  succeeds_refusal line p false

/-- One check of a declaration, in front of the rest. -/
theorem succeeds_unless {c : Prop} [Decidable c] {line : Int} {p : Problem} {m : Build Bool}
    (hm : Succeeds m) : Succeeds (if c then refuse line p else m) := by
  split
  · exact refuse_succeeds line p
  · exact hm

/-- A report in front of what is done anyway. -/
theorem succeeds_warning {α : Type} {c : Prop} [Decidable c] {line : Int} {p : Problem}
    {m : Build α} (hm : Succeeds m) :
    Succeeds (if c then report line p >>= fun _ => m else m) := by
  split
  · exact (report_succeeds line p).bind fun _ => hm
  · exact hm

/-! ### Names -/

theorem widenVariable_succeeds (v : Variable) (type : ValueType) (line : Int) :
    Succeeds (widenVariable v type line) := by
  refine succeeds_warning ?_
  split
  · refine (log_succeeds _).bind fun _ => table_succeeds.bind fun t => ?_
    exact setTable_succeeds _
  · exact succeeds_pure ()

theorem observeVariable_succeeds (name : String) (type : ValueType) (line : Int) :
    Succeeds (observeVariable name type line) := by
  refine table_succeeds.bind fun t => ?_
  split
  · exact succeeds_pure false
  refine succeeds_unless (succeeds_unless (succeeds_unless ?_))
  split
  · refine (setTable_succeeds _).bind fun _ => (log_succeeds _).bind fun _ => ?_
    exact succeeds_pure true
  · exact (widenVariable_succeeds _ type line).bind fun _ => succeeds_pure true

theorem mention_succeeds (name : String) (line : Int) : Succeeds (mention name line) := by
  refine table_succeeds.bind fun t => ?_
  split
  · exact succeeds_pure true
  · exact observeVariable_succeeds name .long line

theorem mentionAll_succeeds (line : Int) (names : List String) :
    Succeeds (mentionAll line names) := by
  induction names with
  | nil => exact succeeds_pure ()
  | cons n ns ih => exact (mention_succeeds n line).bind fun _ => ih

theorem useNames_succeeds (cs : List Char) (line : Int) : Succeeds (useNames cs line) :=
  table_succeeds.bind fun _ => mentionAll_succeeds line _

theorem expression_succeeds (cs : List Char) (line : Int) : Succeeds (expression cs line) := by
  unfold expression
  split
  · exact succeeds_refusal line _ _
  · exact (useNames_succeeds _ line).bind fun _ => succeeds_pure _

theorem condition_succeeds (cs : List Char) (line : Int) : Succeeds (condition cs line) := by
  unfold condition
  split
  · exact succeeds_refusal line _ _
  · exact (useNames_succeeds _ line).bind fun _ => succeeds_pure _

theorem writeTarget_succeeds (name : String) (type : ValueType) (line : Int) :
    Succeeds (writeTarget name type line) := by
  refine table_succeeds.bind fun t => ?_
  split
  · exact succeeds_pure true
  · exact observeVariable_succeeds name type line

theorem seed_succeeds (name : String) (type : ValueType) (line : Int) :
    Succeeds (seed name type line) := by
  refine table_succeeds.bind fun t => ?_
  split
  · exact succeeds_pure ()
  · exact (observeVariable_succeeds name type line).bind fun _ => succeeds_pure ()

theorem defineFunction_succeeds (name : String) (line : Int) :
    Succeeds (defineFunction name line) := by
  refine table_succeeds.bind fun t => ?_
  refine succeeds_unless (succeeds_unless (succeeds_unless (succeeds_unless (succeeds_unless ?_))))
  refine (setTable_succeeds _).bind fun _ => (log_succeeds _).bind fun _ => ?_
  exact succeeds_pure true

/-! ### Pins -/

theorem pinOfWord_succeeds {token : List Char} (h : Tame token) (line : Int) :
    Succeeds (pinOfWord token line) := by
  refine table_succeeds.bind fun t => ?_
  split
  · exact succeeds_warning (succeeds_pure _)
  · split
    · next hint =>
      obtain ⟨n, hn, -⟩ := readInteger_ok (h.of_infix (trim_isInfix token)) hint
      exact succeeds_ofExcept hn (succeeds_warning (succeeds_pure _))
    · exact succeeds_pure _

theorem definePin_succeeds (name : String) {literal : List Char} (h : Tame literal) (line : Int) :
    Succeeds (definePin name literal line) := by
  refine table_succeeds.bind fun t => ?_
  refine succeeds_unless (succeeds_unless (succeeds_unless (succeeds_unless (succeeds_unless ?_))))
  refine (pinOfWord_succeeds h line).bind fun r => ?_
  cases r with
  | none => exact refuse_succeeds line _
  | some ref =>
    refine (setTable_succeeds _).bind fun _ => (log_succeeds _).bind fun _ => ?_
    exact succeeds_pure true

theorem resolvePin_succeeds {words : List (List Char)} (h : ∀ w ∈ words, Tame w) (line : Int) :
    Succeeds (resolvePin words line) := by
  unfold resolvePin
  split
  · exact succeeds_refusal line _ _
  · next w ws =>
    split
    · split
      · exact succeeds_refusal line _ _
      · next x xs =>
        refine (pinOfWord_succeeds (h x (by simp)) line).bind fun r => ?_
        cases r with
        | none => exact succeeds_refusal line _ _
        | some ref => exact succeeds_pure _
    · refine (pinOfWord_succeeds (h w (by simp)) line).bind fun r => ?_
      cases r with
      | none => exact succeeds_refusal line _ _
      | some ref => exact succeeds_pure _

theorem pinOperand_succeeds {cs : List Char} (h : Tame cs) (line : Int) :
    Succeeds (pinOperand cs line) := by
  have hwords : ∀ w ∈ Line.words cs, Tame w := fun w hw => h.of_infix (Line.words_isInfix hw)
  refine (resolvePin_succeeds hwords line).bind fun r => ?_
  cases r with
  | none => exact succeeds_pure none
  | some ref => exact succeeds_pure _

/-! ### The first pass -/

theorem outlineLine_succeeds (depth : Nat) (line : Int) {c : OutlineLine} (h : c.IsTame) :
    Succeeds (outlineLine depth line c) := by
  obtain ⟨m, d, hact, he⟩ := outlineLine_acts depth line c
  rw [he]
  refine Succeeds.bind ?_ fun _ => succeeds_pure d
  cases hact with
  | opener | closer | neutral | other | innerFunction => exact succeeds_pure ()
  | function name => exact (defineFunction_succeeds name line).bind fun _ => succeeds_pure ()
  | pin name value | pinAssignment name value =>
    exact (definePin_succeeds name h line).bind fun _ => succeeds_pure ()
  | pinRefused | assignmentRefused => exact report_succeeds line _
  | writes name type => exact seed_succeeds name type line

theorem outlineFrom_succeeds (depth : Nat) {ls : List (Int × List Char)}
    (h : ∀ l ∈ ls, Tame l.2) : Succeeds (outlineFrom depth ls) := by
  induction ls generalizing depth with
  | nil => exact succeeds_pure depth
  | cons l ls ih =>
    have hline := OutlineLine.isTame_of_ofCode (h l List.mem_cons_self)
    refine (outlineLine_succeeds depth l.1 hline).bind fun d => ?_
    exact ih d fun l hl => h l (List.mem_cons_of_mem _ hl)

theorem outline_succeeds {lines : List (List Char)} (h : ∀ l ∈ Line.numbered lines, Tame l.2) :
    Succeeds (outline lines) :=
  (outlineFrom_succeeds 0 h).bind fun _ => table_succeeds.bind fun _ => log_succeeds _

/-! ### Statements -/

section
variable {α β : Type} {b : β}

/-- What is done with an operand that was found. -/
theorem Succeeds.bind_some {m : Build (Option α)} {f : Option α → Build β} (hm : Succeeds m)
    (hnone : f none = pure b) (hsome : ∀ a, Succeeds (f (some a))) : Succeeds (m >>= f) := by
  refine hm.bind fun r => ?_
  cases r with
  | none =>
    rw [hnone]
    exact succeeds_pure b
  | some a => exact hsome a

/-- What is done with a variable that was admitted. -/
theorem Succeeds.bind_true {m : Build Bool} {f : Bool → Build β} (hm : Succeeds m)
    (hfalse : f false = pure b) (htrue : Succeeds (f true)) : Succeeds (m >>= f) := by
  refine hm.bind fun ok => ?_
  cases ok with
  | false =>
    rw [hfalse]
    exact succeeds_pure b
  | true => exact htrue

end

theorem compilePinMode_succeeds {operands : List Char} (h : Tame operands) (line : Int) :
    Succeeds (compilePinMode operands line) := by
  refine (pinOperand_succeeds h line).bind_some rfl fun r => ?_
  dsimp only
  split
  · exact succeeds_pure _
  · exact succeeds_refusal line _ _

theorem compileDigitalWrite_succeeds {operands : List Char} (h : Tame operands) (line : Int) :
    Succeeds (compileDigitalWrite operands line) := by
  refine (pinOperand_succeeds h line).bind_some rfl fun r => ?_
  dsimp only
  split
  · exact succeeds_pure _
  · exact succeeds_refusal line _ _

theorem checkPwm_succeeds (ref : PinRef) (line : Int) : Succeeds (checkPwm ref line) := by
  unfold checkPwm
  split
  · exact report_succeeds line _
  · refine table_succeeds.bind fun t => ?_
    split
    · exact report_succeeds line _
    · exact succeeds_pure ()
  · exact succeeds_pure ()

theorem compilePwmWrite_succeeds {pin : List Char} (h : Tame pin) (value : List Char) (line : Int) :
    Succeeds (compilePwmWrite pin value line) := by
  refine (pinOperand_succeeds h line).bind_some rfl fun r => ?_
  refine (expression_succeeds value line).bind_some rfl fun e => ?_
  exact (checkPwm_succeeds r.1 line).bind fun _ => succeeds_pure _

theorem compileReadAnalog_succeeds {pin : List Char} (h : Tame pin) (name : String) (line : Int) :
    Succeeds (compileReadAnalog pin name line) := by
  refine (writeTarget_succeeds name .int line).bind_true rfl ?_
  refine (pinOperand_succeeds h line).bind_some rfl fun r => ?_
  dsimp only
  split
  · exact succeeds_pure _
  · exact succeeds_refusal line _ _

theorem compileReadDigital_succeeds {pin : List Char} (h : Tame pin) (name : String) (line : Int) :
    Succeeds (compileReadDigital pin name line) := by
  refine (writeTarget_succeeds name .int line).bind_true rfl ?_
  exact (pinOperand_succeeds h line).bind_some rfl fun _ => succeeds_pure _

/-- A pause: the amount is short, the unit is known, and the milliseconds can be written. -/
theorem compileWait_succeeds {amount unit : List Char} (h : Tame amount)
    (hn : isNatural amount = true) (hunit : ∃ w ∈ Statement.pauseUnits, isWord w unit = true) :
    Succeeds (compileWait amount unit) := by
  obtain ⟨n, hread, hshort⟩ := readNatural_ok h hn
  obtain ⟨u, hu⟩ := TimeUnit.read_ok hunit
  refine succeeds_ofExcept hread (succeeds_ofExcept hu ?_)
  cases u with
  | micro | milli => exact succeeds_pure _
  | second => exact succeeds_ofExcept (writable_millis hshort) (succeeds_pure _)

theorem compileAssign_succeeds (name : String) (value : List Char) (line : Int) :
    Succeeds (compileAssign name value line) := by
  refine (writeTarget_succeeds name _ line).bind_true rfl ?_
  cases Line.isStringLiteral (trim value) with
  | true => exact succeeds_pure _
  | false => exact (expression_succeeds _ line).bind_some rfl fun _ => succeeds_pure _

theorem compileChange_succeeds (name : String) (value : List Char) (line : Int) :
    Succeeds (compileChange name value line) := by
  refine (expression_succeeds value line).bind_some rfl fun e => ?_
  exact (observeVariable_succeeds name .long line).bind_true rfl (succeeds_pure _)

theorem compileMap_succeeds (source : String) {fromRange toRange : List Char} (hf : Tame fromRange)
    (ht : Tame toRange) (name : String) (line : Int) :
    Succeeds (compileMap source fromRange toRange name line) := by
  obtain ⟨from?, hfrom, -⟩ := Line.readRange_ok hf
  obtain ⟨to?, hto, -⟩ := Line.readRange_ok ht
  refine succeeds_ofExcept hfrom (succeeds_ofExcept hto ?_)
  split
  · refine (observeVariable_succeeds source .long line).bind fun sourceOk => ?_
    refine (observeVariable_succeeds name .long line).bind fun nameOk => ?_
    split
    · exact succeeds_pure _
    · exact succeeds_pure _
  · exact succeeds_refusal line _ _

theorem compileLimit_succeeds (name : String) {range : List Char} (h : Tame range) (line : Int) :
    Succeeds (compileLimit name range line) := by
  obtain ⟨range?, hrange, -⟩ := Line.readRange_ok h
  refine succeeds_ofExcept hrange ?_
  rcases range? with _ | ⟨low, high⟩
  · exact succeeds_refusal line _ _
  · exact (observeVariable_succeeds name .long line).bind_true rfl (succeeds_pure _)

theorem compileRandom_succeeds {range : List Char} (h : Tame range) (name : String) (line : Int) :
    Succeeds (compileRandom range name line) := by
  obtain ⟨range?, hrange, hshort⟩ := Line.readRange_ok h
  refine succeeds_ofExcept hrange ?_
  rcases range? with _ | ⟨a, b⟩
  · exact succeeds_refusal line _ _
  · obtain ⟨ha, hb⟩ := hshort (a, b) rfl
    refine (observeVariable_succeeds name .long line).bind_true rfl ?_
    exact succeeds_ofExcept (writable_succ_max ha hb) (succeeds_pure _)

theorem compileTone_succeeds (frequency : List Char) {pin : List Char} (h : Tame pin) (line : Int) :
    Succeeds (compileTone frequency pin line) := by
  refine (expression_succeeds frequency line).bind_some rfl fun e => ?_
  exact (pinOperand_succeeds h line).bind_some rfl fun _ => succeeds_pure _

theorem compileCall_succeeds (name : String) (line : Int) : Succeeds (compileCall name line) :=
  table_succeeds.bind fun _ => succeeds_warning (succeeds_pure _)

theorem statement_succeeds (line : Int) {st : Statement} (h : st.IsTame) :
    Succeeds (statement line st) := by
  cases st with
  | pinMode operands => exact compilePinMode_succeeds h line
  | digitalWrite operands => exact compileDigitalWrite_succeeds h line
  | toggle operands | noTone operands =>
    exact (pinOperand_succeeds h line).bind_some rfl fun _ => succeeds_pure _
  | pwmWrite pin value => exact compilePwmWrite_succeeds h value line
  | readAnalog pin name => exact compileReadAnalog_succeeds h name line
  | readTime name | readMicros name =>
    exact (writeTarget_succeeds name .unsignedLong line).bind_true rfl (succeeds_pure _)
  | readDigital pin name => exact compileReadDigital_succeeds h name line
  | wait amount unit => exact compileWait_succeeds h.1.1 h.1.2 h.2
  | serialBegin rate =>
    obtain ⟨n, hread, -⟩ := readNatural_ok h.1 h.2
    exact succeeds_ofExcept hread (succeeds_pure _)
  | printText text => exact succeeds_pure _
  | printTextValue text value | printValue value | randomSeed value =>
    exact (expression_succeeds value line).bind_some rfl fun _ => succeeds_pure _
  | assign name value => exact compileAssign_succeeds name value line
  | change name value => exact compileChange_succeeds name value line
  | map source fromRange toRange name => exact compileMap_succeeds source h.1 h.2 name line
  | limit name range => exact compileLimit_succeeds name h line
  | random range name => exact compileRandom_succeeds h name line
  | tone frequency pin => exact compileTone_succeeds frequency h line
  | call name => exact compileCall_succeeds name line

end Build

/-! ## The second pass -/

theorem opener_of_block {code : List Char} {o : Opener} (h : BlockLine.ofCode code = .control o) :
    Opener.ofCode? code = some o := by
  have hsort := BlockLine.isSort_ofCode code
  rw [h] at hsort
  cases hsort with
  | control ho => exact ho

namespace Assemble

/-- The run from this state does not stop at a fault. -/
def SucceedsAt {α : Type} (m : Assemble α) (a : Assembly) : Prop := ∃ x b, m a = .ok x b

section
variable {line : Int} {code : List Char} {a : Assembly} {b : Body}

theorem SucceedsAt.bind {α β : Type} {m : Assemble α} {k : α → Assemble β} (hm : SucceedsAt m a)
    (hk : ∀ x b, SucceedsAt (k x) b) : SucceedsAt (m >>= k) a := by
  obtain ⟨x, b, h⟩ := hm
  obtain ⟨y, c, h'⟩ := hk x b
  exact ⟨y, c, bind_eq_ok.mpr ⟨x, b, h, h'⟩⟩

/-- A step on the session that succeeds, followed by more. -/
theorem build_succeedsAt {α β : Type} {m : Build α} {k : α → Assemble β} (hm : Build.Succeeds m)
    (hk : ∀ x t, SucceedsAt (k x) { a with session := t }) : SucceedsAt (build m >>= k) a := by
  obtain ⟨x, t, h⟩ := hm a.session
  unfold SucceedsAt
  rw [build_bind, h]
  exact hk x t

theorem ofExcept_succeedsAt {α β : Type} {x : Except Fault α} {y : α} {k : α → Assemble β}
    (hx : x = .ok y) (hk : SucceedsAt (k y) a) : SucceedsAt (build (Build.ofExcept x) >>= k) a := by
  subst hx
  exact hk

/-- Where a body is open, lines can be written and a block pushed. -/
theorem emit_push_succeedsAt (hb : a.body = some b) (is : List Instr) (f : Frame) :
    SucceedsAt (do let is ← emit is; push f; return is) a := by
  obtain ⟨t, -, he⟩ := emit_push hb is f
  exact ⟨_, _, he⟩

theorem openConditional_succeedsAt (hb : a.body = some b) (kind : BlockKind)
    (header : List Char → Instr) (condition : List Char) :
    SucceedsAt (openConditional kind header condition line) a := by
  refine build_succeedsAt (Build.condition_succeeds condition line) fun x t => ?_
  cases x with
  | none => exact ⟨_, _, rfl⟩
  | some test => exact emit_push_succeedsAt (a := { a with session := t }) hb _ _

theorem openControl_succeedsAt {o : Opener} (h : o.IsTame) : SucceedsAt (openControl o line) a := by
  unfold SucceedsAt openControl
  cases hb : a.body with
  | none =>
    rw [requireBody_bind_none hb]
    exact ⟨_, _, rfl⟩
  | some b =>
    rw [requireBody_bind_some (by rw [hb]; rfl)]
    cases o with
    | ifDo condition => exact openConditional_succeedsAt hb .ifDo .openIf condition
    | repeatTimes count =>
      obtain ⟨n, hn, -⟩ := readInteger_ok h.1 h.2
      refine ofExcept_succeedsAt hn ?_
      split
      · exact ⟨_, _, rfl⟩
      · exact emit_push_succeedsAt (a := { a with ids := a.ids + 1 }) hb _ _
    | forever => exact emit_push_succeedsAt hb _ _
    | whileDo condition => exact openConditional_succeedsAt hb .whileDo .openWhile condition
    | every amount unit =>
      obtain ⟨n, hn⟩ := timerInterval_ok h.1 h.2 unit
      exact ofExcept_succeedsAt hn
        (emit_push_succeedsAt (a := { a with ids := a.ids + 1 }) hb _ _)
    | after amount unit =>
      obtain ⟨n, hn⟩ := timerInterval_ok h.1 h.2 unit
      exact ofExcept_succeedsAt hn
        (emit_push_succeedsAt (a := { a with ids := a.ids + 1 }) hb _ _)

theorem alternate_succeedsAt : SucceedsAt (alternate line) a := by
  obtain ⟨session, sketch, stack, body, sawSetup, sawLoop, ids⟩ := a
  cases body with
  | none => exact ⟨_, _, rfl⟩
  | some b =>
    cases stack with
    | nil => exact ⟨_, _, rfl⟩
    | cons top below =>
      unfold SucceedsAt alternate
      rw [requireBody_bind_some rfl]
      simp only [if_true, bind, EStateM.bind, get_eq]
      by_cases hk : top.kind = .ifDo
      · by_cases ha : top.hasAlternate = true
        · simp only [hk, ha, ne_eq, not_true_eq_false, if_false, if_true]
          exact ⟨_, _, rfl⟩
        · by_cases ho : top.opened = true
          · simp only [hk, ha, ho, ne_eq, not_true_eq_false, if_false, if_true]
            exact ⟨_, _, rfl⟩
          · simp only [hk, ha, ho, ne_eq, not_true_eq_false, if_false]
            exact ⟨_, _, rfl⟩
      · simp only [hk, ne_eq, not_false_eq_true, if_true]
        exact ⟨_, _, rfl⟩

/-- The end of a block is written to a body that is there. -/
theorem closeBlock_succeedsAt (h : ¬ a.LacksBody) : SucceedsAt (closeBlock line) a := by
  obtain ⟨session, sketch, stack, body, sawSetup, sawLoop, ids⟩ := a
  cases stack with
  | nil => exact ⟨_, _, rfl⟩
  | cons top below =>
    obtain ⟨kind, opening, name, opened, hasAlternate⟩ := top
    cases opened with
    | false => exact ⟨_, _, rfl⟩
    | true =>
      cases hk : kind.isStructural with
      | true =>
        unfold SucceedsAt closeBlock
        simp only [bind, EStateM.bind, get_eq, Frame.isStructural, hk]
        exact ⟨_, _, rfl⟩
      | false =>
        -- the one place where a line is written unchecked
        cases body with
        | none => exact absurd ⟨rfl, _, below, rfl, rfl, hk⟩ h
        | some b =>
          unfold SucceedsAt closeBlock
          simp only [bind, EStateM.bind, get_eq, Frame.isStructural, hk]
          exact ⟨_, _, rfl⟩

theorem openStructure_succeedsAt {f : Frame} : SucceedsAt (openStructure f b) a := by
  obtain ⟨session, sketch, stack, body, sawSetup, sawLoop, ids⟩ := a
  cases body with
  | none => exact ⟨_, _, rfl⟩
  | some b => exact ⟨_, _, rfl⟩

theorem functionBody_succeedsAt {name : String} : SucceedsAt (functionBody name line) a := by
  obtain ⟨session, sketch, stack, body, sawSetup, sawLoop, ids⟩ := a
  cases body with
  | some b => exact ⟨_, _, rfl⟩
  | none =>
    unfold SucceedsAt functionBody
    simp only [bind, EStateM.bind, get_eq]
    cases session.table.findFunction? name with
    | none => exact ⟨_, _, rfl⟩
    | some f =>
      by_cases hl : (f.line == line) = true
      · simp only [hl]
        exact ⟨_, _, rfl⟩
      · simp only [hl]
        exact ⟨_, _, rfl⟩

theorem command_succeedsAt (h : Tame code) : SucceedsAt (command code line) a := by
  obtain ⟨session, sketch, stack, body, sawSetup, sawLoop, ids⟩ := a
  cases body with
  | none => exact ⟨_, _, rfl⟩
  | some b =>
    unfold SucceedsAt command
    simp only [bind, EStateM.bind, get_eq]
    cases hst : Statement.ofCode? code with
    | none => exact ⟨_, _, rfl⟩
    | some st =>
      have hstatement := Build.statement_succeeds line (Statement.isTame_of_ofCode? h hst)
      refine build_succeedsAt (k := fun is => emit is) hstatement fun is t => ?_
      exact ⟨_, _, rfl⟩

/-- No line of a script stops the second pass, if its numerals are short and its units known. -/
theorem takeLine_succeedsAt (hshape : a.StackShape) (h : Tame code) :
    SucceedsAt (takeLine line code) a := by
  unfold SucceedsAt takeLine
  cases hc : BlockLine.ofCode code with
  | setup | loop =>
    refine openStructure_succeedsAt.bind fun opened b => ?_
    cases opened with
    | false => exact ⟨_, _, rfl⟩
    | true => exact ⟨_, _, rfl⟩
  | function name =>
    refine functionBody_succeedsAt.bind fun body b => ?_
    exact openStructure_succeedsAt.bind fun _ _ => ⟨_, _, rfl⟩
  | pin | unknown => exact ⟨_, _, rfl⟩
  | control o => exact openControl_succeedsAt (Opener.isTame_of_ofCode? h (opener_of_block hc))
  | otherwise => exact alternate_succeedsAt
  | endBlock => exact closeBlock_succeedsAt hshape.not_lacksBody
  | command => exact command_succeedsAt h

theorem takeLines_succeedsAt {ls : List (Int × List Char)} (hshape : a.StackShape)
    (h : ∀ l ∈ ls, Tame l.2) : SucceedsAt (takeLines ls) a := by
  induction ls generalizing a with
  | nil => exact ⟨_, _, rfl⟩
  | cons l ls ih =>
    obtain ⟨n, code⟩ := l
    obtain ⟨is, b, hline⟩ : SucceedsAt (takeLine n code) a :=
      takeLine_succeedsAt hshape (h (n, code) List.mem_cons_self)
    have step := takeLine_outcome n code a
    rw [hline] at step
    obtain ⟨u, c, hrest⟩ := ih (hshape.step step) fun l hl => h l (List.mem_cons_of_mem _ hl)
    exact ⟨u, c, bind_eq_ok.mpr ⟨is, b, hline, hrest⟩⟩

end
end Assemble

/-! ## Whole scripts -/

theorem assemble_succeeds {lines : List (List Char)} (h : ∀ l ∈ Line.numbered lines, Tame l.2)
    (s : Session) : ∃ a, assemble lines { session := s } = .ok () a := by
  obtain ⟨u, t, hfirst⟩ := Build.outline_succeeds h s
  obtain ⟨v, b, hsecond⟩ := Assemble.takeLines_succeedsAt (.start t) h
  have hbuild : Assemble.build (Build.outline lines) { session := s } =
      .ok () { session := t } := by
    simp only [Assemble.build, hfirst]
  obtain ⟨a, hrun⟩ : ∃ a, Assemble.run lines { session := t } = .ok () a :=
    ⟨_, bind_eq_ok.mpr ⟨(), b, hsecond, Assemble.finish_eq lines.length b⟩⟩
  exact ⟨a, bind_eq_ok.mpr ⟨(), { session := t }, hbuild, hrun⟩⟩

/-- A script without the three letters and without a row of more than 4000 digits is compiled,
whatever is wrong with it, for every board and every list of reserved words. -/
theorem compile_succeeds (o : Options) (source file : String) (h : Tame source.toList) :
    ∃ c, (compile o source file).result = .ok c := by
  have hlines : ∀ l ∈ Line.numbered (sourceLines source), Tame l.2 :=
    fun l hl => tame_of_mem_numbered h hl
  obtain ⟨a, ha⟩ := assemble_succeeds hlines (.start o.board o.reserved)
  simp only [compile, ha]
  exact ⟨_, rfl⟩

theorem compile_succeeds_stray_end :
    Tame "setup:\nwait ٩٩ seconds\nend\nend".toList ∧
      ∃ c, (compile {} "setup:\nwait ٩٩ seconds\nend\nend" "stray.aes").result = .ok c :=
  have h := tame_of_length_le (by decide) (by simp)
  ⟨h, compile_succeeds {} _ _ h⟩

end PlainSketch
