import PlainSketch.Proofs.DeclaredNames
import PlainSketch.Proofs.LineSorts

/-!
# Properties of all statements

Whatever a statement does is put together from a few steps: names of a text are used, a variable is
observed or taken, a word is read as a pin, something is reported. A property that holds of these
steps and passes to sequences of steps holds of every statement and of every condition. The steps
are given for every line at once, so that the property may compare what they do on different lines,
and together with what is known of their answers: a statement becomes nothing, or the lines that
`Statement.Emits` lists.
-/
namespace PlainSketch
open Text

/-- The lines that a statement becomes if its operands are in order. -/
inductive Statement.Emits : Statement → List Instr → Prop
  | pinMode (operands : List Char) (pin : PinTarget) (mode : PinMode) :
      Emits (.pinMode operands) [.pinMode pin mode]
  | digitalWrite (operands : List Char) (pin : PinTarget) (high : Bool) :
      Emits (.digitalWrite operands) [.digitalWrite pin high]
  | toggle (operands : List Char) (pin : PinTarget) : Emits (.toggle operands) [.toggle pin]
  | pwmWrite (operand value : List Char) (pin : PinTarget) (text : List Char) :
      Emits (.pwmWrite operand value) [.analogWrite pin text]
  | readAnalog (operand : List Char) (name : String) (pin : PinTarget) :
      Emits (.readAnalog operand name) [.readAnalog name pin]
  | readTime (name : String) : Emits (.readTime name) [.readMillis name]
  | readMicros (name : String) : Emits (.readMicros name) [.readMicros name]
  | readDigital (operand : List Char) (name : String) (pin : PinTarget) :
      Emits (.readDigital operand name) [.readDigital name pin]
  | wait (amount unit : List Char) (millis : Int) : Emits (.wait amount unit) [.delay millis]
  | waitMicros (amount unit : List Char) (micros : Int) :
      Emits (.wait amount unit) [.delayMicros micros]
  | serialBegin (digits : List Char) (rate : Int) : Emits (.serialBegin digits) [.serialBegin rate]
  | printText (text : List Char) : Emits (.printText text) [.printlnText text]
  | printTextValue (text value result : List Char) :
      Emits (.printTextValue text value) [.printText text, .println result]
  | printValue (value result : List Char) : Emits (.printValue value) [.println result]
  | assign (name : String) (value result : List Char) :
      Emits (.assign name value) [.assign name result]
  | change (name : String) (value result : List Char) :
      Emits (.change name value) [.increase name result]
  | map (source : String) (fromRange toRange : List Char) (name : String)
      (fromLow fromHigh toLow toHigh : Int) :
      Emits (.map source fromRange toRange name)
        [.rescale name source fromLow fromHigh toLow toHigh]
  | limit (name : String) (range : List Char) (low high : Int) :
      Emits (.limit name range) [.clampLow name low, .clampHigh name high]
  | random (range : List Char) (name : String) (low pastHigh : Int) :
      Emits (.random range name) [.random name low pastHigh]
  | randomSeed (value result : List Char) : Emits (.randomSeed value) [.randomSeed result]
  | tone (frequency operand : List Char) (pin : PinTarget) (result : List Char) :
      Emits (.tone frequency operand) [.tone pin result]
  | noTone (operand : List Char) (pin : PinTarget) : Emits (.noTone operand) [.noTone pin]
  | call (name : String) : Emits (.call name) [.call name]

/-- What a statement becomes: nothing, or the lines listed for it. -/
def Statement.Becomes (st : Statement) (is : List Instr) : Prop := is = [] ∨ st.Emits is

namespace Build

-- Comparing two runs must not evaluate the bound, a power of ten with thousands of digits.
attribute [local irreducible] writable

/-- A property of steps, each with what is known of its answers. -/
abbrev StepProperty := (α : Type) → (α → Prop) → (Int → Build α) → Prop

/-- Nothing is known of the answers. -/
def anything {α : Type} : α → Prop := fun _ => True

/-- The property holds of the steps that statements are made of and of their sequences. A variable
may be taken where `W` allows it, at the type that it has as a new one. -/
structure Compositional (P : StepProperty) (W : String → ValueType → Prop) : Prop where
  pure {α : Type} {Q : α → Prop} {a : α} (h : Q a) : P α Q fun _ => pure a
  bind {α β : Type} {Q : β → Prop} {m : Int → Build α} {f : α → Int → Build β}
    (hm : P α anything m) (hf : ∀ a, P β Q (f a)) : P β Q fun line => m line >>= fun a => f a line
  ofExcept {α : Type} (x : Except Fault α) : P α anything fun _ => ofExcept x
  report (p : Problem) : P Unit anything fun line => report line p
  useNames (cs : List Char) : P Unit anything (useNames cs)
  observe (name : String) : P Bool anything (observeVariable name .long)
  writeTarget {name : String} {type : ValueType} (h : W name type) :
    P Bool anything (writeTarget name type)
  pinOfWord (token : List Char) : P (Option PinRef) anything (pinOfWord token)
  checkPwm (ref : PinRef) : P Unit anything (checkPwm ref)
  isFunction (name : String) : P Bool anything fun _ => return (← table).isFunction name

theorem ofText_trim (cs : List Char) : ValueType.ofText (trim cs) = ValueType.ofText cs := by
  simp only [ValueType.ofText, trim_trim]

namespace Compositional
variable {P : StepProperty} {W : String → ValueType → Prop}

/-- A report in place of what would be done. -/
theorem refusal {α : Type} {Q : α → Prop} (h : Compositional P W) (p : Problem) {a : α} (ha : Q a) :
    P α Q fun line => Build.report line p >>= fun _ => Pure.pure a :=
  h.bind (h.report p) fun _ => h.pure ha

theorem expression (h : Compositional P W) (cs : List Char) :
    P (Option (List Char)) anything (expression cs) := by
  unfold Build.expression
  cases trim cs with
  | nil => exact h.refusal _ trivial
  | cons c r => exact h.bind (h.useNames _) fun _ => h.pure trivial

theorem condition (h : Compositional P W) (cs : List Char) :
    P (Option (List Char)) anything (condition cs) := by
  unfold Build.condition
  cases trim cs with
  | nil => exact h.refusal _ trivial
  | cons c r => exact h.bind (h.useNames _) fun _ => h.pure trivial

theorem resolvePin (h : Compositional P W) (words : List (List Char)) :
    P (Option PinRef) anything (resolvePin words) := by
  unfold Build.resolvePin
  cases words with
  | nil => exact h.refusal _ trivial
  | cons w ws =>
    dsimp only
    cases isWord "pin" w with
    | true =>
      cases ws with
      | nil => exact h.refusal _ trivial
      | cons x _ =>
        refine h.bind (h.pinOfWord x) fun r => ?_
        cases r with
        | none => exact h.refusal _ trivial
        | some ref => exact h.pure trivial
    | false =>
      refine h.bind (h.pinOfWord w) fun r => ?_
      cases r with
      | none => exact h.refusal _ trivial
      | some ref => exact h.pure trivial

theorem pinOperand (h : Compositional P W) (cs : List Char) :
    P (Option (PinRef × List (List Char))) anything (pinOperand cs) := by
  refine h.bind (h.resolvePin (Line.words cs)) fun r => ?_
  cases r with
  | none => exact h.pure trivial
  | some ref => exact h.pure trivial

/-! ## Statements -/

section
variable {Q : List Instr → Prop}

/-- Only an operand that was found is written of. -/
theorem bind_some (h : Compositional P W) {α : Type} {m : Int → Build (Option α)}
    {f : Option α → Int → Build (List Instr)} (hm : P (Option α) anything m)
    (hnone : f none = fun _ => Pure.pure []) (hnil : Q [])
    (hsome : ∀ a, P (List Instr) Q (f (some a))) :
    P (List Instr) Q fun line => m line >>= fun r => f r line := by
  refine h.bind hm fun r => ?_
  cases r with
  | none =>
    rw [hnone]
    exact h.pure hnil
  | some a => exact hsome a

/-- Only a variable that was admitted is written of. -/
theorem bind_true (h : Compositional P W) {m : Int → Build Bool}
    {f : Bool → Int → Build (List Instr)} (hm : P Bool anything m)
    (hfalse : f false = fun _ => Pure.pure []) (hnil : Q []) (htrue : P (List Instr) Q (f true)) :
    P (List Instr) Q fun line => m line >>= fun ok => f ok line := by
  refine h.bind hm fun ok => ?_
  cases ok with
  | false =>
    rw [hfalse]
    exact h.pure hnil
  | true => exact htrue

end

theorem compilePinMode (h : Compositional P W) (operands : List Char) :
    P (List Instr) (Statement.pinMode operands).Becomes (compilePinMode operands) := by
  refine h.bind_some (h.pinOperand operands) rfl (.inl rfl) fun r => ?_
  dsimp only
  cases pinMode? r.2 with
  | some mode => exact h.pure (.inr (.pinMode operands r.1.target mode))
  | none => exact h.refusal _ (.inl rfl)

theorem compileDigitalWrite (h : Compositional P W) (operands : List Char) :
    P (List Instr) (Statement.digitalWrite operands).Becomes (compileDigitalWrite operands) := by
  refine h.bind_some (h.pinOperand operands) rfl (.inl rfl) fun r => ?_
  dsimp only
  cases level? r.2 with
  | some high => exact h.pure (.inr (.digitalWrite operands r.1.target high))
  | none => exact h.refusal _ (.inl rfl)

theorem compilePwmWrite (h : Compositional P W) (pin value : List Char) :
    P (List Instr) (Statement.pwmWrite pin value).Becomes (compilePwmWrite pin value) := by
  refine h.bind_some (h.pinOperand pin) rfl (.inl rfl) fun r => ?_
  refine h.bind_some (h.expression value) rfl (.inl rfl) fun e => ?_
  exact h.bind (h.checkPwm r.1) fun _ => h.pure (.inr (.pwmWrite pin value r.1.target e))

theorem compileReadAnalog (h : Compositional P W) (pin : List Char) {name : String}
    (hw : W name .int) :
    P (List Instr) (Statement.readAnalog pin name).Becomes (compileReadAnalog pin name) := by
  refine h.bind_true (h.writeTarget hw) rfl (.inl rfl) ?_
  refine h.bind_some (h.pinOperand pin) rfl (.inl rfl) fun r => ?_
  dsimp only
  cases r.1.kind with
  | analog => exact h.pure (.inr (.readAnalog pin name r.1.target))
  | digital => exact h.refusal _ (.inl rfl)

theorem compileReadDigital (h : Compositional P W) (pin : List Char) {name : String}
    (hw : W name .int) :
    P (List Instr) (Statement.readDigital pin name).Becomes (compileReadDigital pin name) := by
  refine h.bind_true (h.writeTarget hw) rfl (.inl rfl) ?_
  exact h.bind_some (h.pinOperand pin) rfl (.inl rfl) fun r =>
    h.pure (.inr (.readDigital pin name r.1.target))

theorem compileWait (h : Compositional P W) (amount unit : List Char) :
    P (List Instr) (Statement.wait amount unit).Becomes fun _ => compileWait amount unit := by
  refine h.bind (h.ofExcept (readNatural amount)) fun n => ?_
  refine h.bind (h.ofExcept (TimeUnit.read unit)) fun u => ?_
  cases u with
  | micro => exact h.pure (.inr (.waitMicros amount unit n))
  | milli => exact h.pure (.inr (.wait amount unit n))
  | second => exact h.bind (h.ofExcept _) fun m => h.pure (.inr (.wait amount unit m))

theorem compileAssign (h : Compositional P W) {name : String} {value : List Char}
    (hw : W name (.ofText value)) :
    P (List Instr) (Statement.assign name value).Becomes (compileAssign name value) := by
  rw [← ofText_trim] at hw
  refine h.bind_true (h.writeTarget hw) rfl (.inl rfl) ?_
  cases Line.isStringLiteral (trim value) with
  | true => exact h.pure (.inr (.assign name value _))
  | false =>
    exact h.bind_some (h.expression _) rfl (.inl rfl) fun v => h.pure (.inr (.assign name value v))

theorem compileChange (h : Compositional P W) (name : String) (value : List Char) :
    P (List Instr) (Statement.change name value).Becomes (compileChange name value) := by
  refine h.bind_some (h.expression value) rfl (.inl rfl) fun e => ?_
  exact h.bind_true (h.observe name) rfl (.inl rfl) (h.pure (.inr (.change name value e)))

theorem compileMap (h : Compositional P W) (source : String) (fromRange toRange : List Char)
    (name : String) :
    P (List Instr) (Statement.map source fromRange toRange name).Becomes
      (compileMap source fromRange toRange name) := by
  refine h.bind (h.ofExcept (Line.readRange fromRange)) fun from? => ?_
  refine h.bind (h.ofExcept (Line.readRange toRange)) fun to? => ?_
  rcases from? with _ | ⟨fromLow, fromHigh⟩
  · exact h.refusal _ (.inl rfl)
  rcases to? with _ | ⟨toLow, toHigh⟩
  · exact h.refusal _ (.inl rfl)
  refine h.bind (h.observe source) fun sourceOk => h.bind (h.observe name) fun nameOk => ?_
  cases sourceOk && nameOk with
  | true =>
    exact h.pure (.inr (.map source fromRange toRange name fromLow fromHigh toLow toHigh))
  | false => exact h.pure (.inl rfl)

theorem compileLimit (h : Compositional P W) (name : String) (range : List Char) :
    P (List Instr) (Statement.limit name range).Becomes (compileLimit name range) := by
  refine h.bind (h.ofExcept (Line.readRange range)) fun range? => ?_
  rcases range? with _ | ⟨low, high⟩
  · exact h.refusal _ (.inl rfl)
  · exact h.bind_true (h.observe name) rfl (.inl rfl) (h.pure (.inr (.limit name range low high)))

theorem compileRandom (h : Compositional P W) (range : List Char) (name : String) :
    P (List Instr) (Statement.random range name).Becomes (compileRandom range name) := by
  refine h.bind (h.ofExcept (Line.readRange range)) fun range? => ?_
  rcases range? with _ | ⟨a, b⟩
  · exact h.refusal _ (.inl rfl)
  · refine h.bind_true (h.observe name) rfl (.inl rfl) ?_
    exact h.bind (h.ofExcept _) fun _ => h.pure (.inr (.random range name _ _))

theorem compileTone (h : Compositional P W) (frequency pin : List Char) :
    P (List Instr) (Statement.tone frequency pin).Becomes (compileTone frequency pin) := by
  refine h.bind_some (h.expression frequency) rfl (.inl rfl) fun e => ?_
  exact h.bind_some (h.pinOperand pin) rfl (.inl rfl) fun r =>
    h.pure (.inr (.tone frequency pin r.1.target e))

theorem compileCall (h : Compositional P W) (name : String) :
    P (List Instr) (Statement.call name).Becomes (compileCall name) := by
  have hanswer : P (List Instr) (Statement.call name).Becomes fun _ => Pure.pure [.call name] :=
    h.pure (.inr (.call name))
  have heq : Build.compileCall name = fun line =>
      (return (← table).isFunction name : Build Bool) >>= fun known =>
        if !known then Build.report line (.undefinedFunction name) >>= fun _ =>
          Pure.pure [Instr.call name]
        else Pure.pure [Instr.call name] := rfl
  rw [heq]
  refine h.bind (h.isFunction name) fun known => ?_
  cases known with
  | true => exact hanswer
  | false => exact h.bind (h.report _) fun _ => hanswer

/-- What holds of the steps holds of every statement whose variable may be taken. -/
theorem statement (h : Compositional P W) {st : Statement}
    (hw : ∀ name type, st.taken? = some (name, type) → W name type) :
    P (List Instr) st.Becomes fun line => statement line st := by
  cases st with
  | pinMode operands => exact h.compilePinMode operands
  | digitalWrite operands => exact h.compileDigitalWrite operands
  | toggle operands =>
    exact h.bind_some (h.pinOperand operands) rfl (.inl rfl) fun r =>
      h.pure (.inr (.toggle operands r.1.target))
  | pwmWrite pin value => exact h.compilePwmWrite pin value
  | readAnalog pin name => exact h.compileReadAnalog pin (hw name .int rfl)
  | readTime name =>
    exact h.bind_true (h.writeTarget (hw name _ rfl)) rfl (.inl rfl)
      (h.pure (.inr (.readTime name)))
  | readMicros name =>
    exact h.bind_true (h.writeTarget (hw name _ rfl)) rfl (.inl rfl)
      (h.pure (.inr (.readMicros name)))
  | readDigital pin name => exact h.compileReadDigital pin (hw name .int rfl)
  | wait amount unit => exact h.compileWait amount unit
  | serialBegin rate =>
    exact h.bind (h.ofExcept (readNatural rate)) fun n => h.pure (.inr (.serialBegin rate n))
  | printText text => exact h.pure (.inr (.printText text))
  | printTextValue text value =>
    exact h.bind_some (h.expression value) rfl (.inl rfl) fun v =>
      h.pure (.inr (.printTextValue text value v))
  | printValue value =>
    exact h.bind_some (h.expression value) rfl (.inl rfl) fun v =>
      h.pure (.inr (.printValue value v))
  | assign name value => exact h.compileAssign (hw name _ rfl)
  | change name value => exact h.compileChange name value
  | map source fromRange toRange name => exact h.compileMap source fromRange toRange name
  | limit name range => exact h.compileLimit name range
  | random range name => exact h.compileRandom range name
  | randomSeed value =>
    exact h.bind_some (h.expression value) rfl (.inl rfl) fun v =>
      h.pure (.inr (.randomSeed value v))
  | tone frequency pin => exact h.compileTone frequency pin
  | noTone pin =>
    exact h.bind_some (h.pinOperand pin) rfl (.inl rfl) fun r =>
      h.pure (.inr (.noTone pin r.1.target))
  | call name => exact h.compileCall name

end Compositional

/-- Every answer is as it is known to be. -/
theorem compositional_answers : Compositional
    (fun _ Q m => ∀ line s a t, m line s = .ok a t → Q a) fun _ _ => True where
  pure h := by
    intro line s a t ha
    cases ha
    exact h
  bind _ hf := by
    intro line s b u h
    obtain ⟨a, t, -, hb⟩ := bind_eq_ok.mp h
    exact hf a line t b u hb
  ofExcept _ := fun _ _ _ _ _ => trivial
  report _ := fun _ _ _ _ _ => trivial
  useNames _ := fun _ _ _ _ _ => trivial
  observe _ := fun _ _ _ _ _ => trivial
  writeTarget _ := fun _ _ _ _ _ => trivial
  pinOfWord _ := fun _ _ _ _ _ => trivial
  checkPwm _ := fun _ _ _ _ _ => trivial
  isFunction _ := fun _ _ _ _ _ => trivial

/-- What a statement becomes is listed for it. -/
theorem statement_becomes {line : Int} {st : Statement} {s t : Session} {is : List Instr}
    (h : statement line st s = .ok is t) : st.Becomes is :=
  compositional_answers.statement (fun _ _ _ => trivial) line s is t h

end Build
end PlainSketch
