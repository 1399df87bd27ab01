import Mathlib.Data.List.TakeWhile
import PlainSketch.Proofs.FunctionBodies

/-!
# The names that a sketch uses

In a script without errors, everything that a line of the sketch names is declared: the variables it
writes to, its pin, the names in its value or test, and the function it calls, unless a warning on
the line of the script says that there is none. Names are declared while operands are read, so what
a statement answers is followed through every later state of the session: `Build.Grants`.
-/
namespace PlainSketch
open Text Session

/-! ## What a line names -/

namespace Instr

/-- The variables that a line names outside its value: those it writes to, and the one it scales. -/
def vars : Instr → List String
  | readAnalog name _ | readDigital name _ | readMillis name | readMicros name | assign name _
  | increase name _ | clampLow name _ | clampHigh name _ | random name .. => [name]
  | rescale name source .. => [name, source]
  | _ => []

/-- The pin that a line is about. -/
def pin? : Instr → Option PinTarget
  | pinMode pin _ | digitalWrite pin _ | toggle pin | analogWrite pin _ | readAnalog _ pin
  | readDigital _ pin | tone pin _ | noTone pin => some pin
  | _ => none

/-- The value or the test in a line, as text of the script. -/
def value? : Instr → Option (List Char)
  | analogWrite _ value | println value | assign _ value | increase _ value | randomSeed value
  | tone _ value | openIf value | openWhile value => some value
  | _ => none

/-- The function that a line calls. -/
def called? : Instr → Option String
  | call function => some function
  | _ => none

end Instr

/-- A pin of the sketch: a number, an analog label in upper case or a declared pin. -/
def SymbolTable.KnowsPin (t : SymbolTable) : PinTarget → Prop
  | .number _ => True
  | .label text => ∃ ds, text = String.ofList ('A' :: ds) ∧ isNatural ds = true
  | .named name => t.isPin name = true

theorem SymbolTable.Resolves.knowsPin {t : SymbolTable} {target : PinTarget} {kind : PinKind}
    {number : Option Int} (h : t.Resolves target kind number) : t.KnowsPin target := by
  cases h with
  | number n => trivial
  | label hd => exact ⟨_, rfl, hd⟩
  | named hp => exact SymbolTable.isPin_iff.mpr ⟨_, hp, rfl⟩

/-- Everything that a line of the sketch names is declared, for a line of the script and the
functions that the sketch defines. -/
structure Instr.Declared (i : Instr) (line : Int) (s : Session) (functions : List String) :
    Prop where
  vars : ∀ n ∈ i.vars, s.table.isVariable n = true
  pin : ∀ p ∈ i.pin?, s.table.KnowsPin p
  names : ∀ v ∈ i.value?, ∀ n ∈ Expression.names s.table.reserved v,
    s.table.isPin n = true ∨ s.table.isVariable n = true
  called : ∀ f ∈ i.called?, f ∈ functions ∨ ⟨line, .undefinedFunction f⟩ ∈ s.findings

/-! ## Names in expressions -/

namespace Expression
open Line

theorem isIdentifier_of_namesFrom {w cs : List Char} {inWord : Bool}
    (h : w ∈ namesFrom inWord cs) : isIdentifier w = true := by
  induction cs generalizing inWord with
  | nil => cases h
  | cons c cs ih =>
    rw [namesFrom] at h
    split at h
    · next hc =>
      rcases List.mem_cons.mp h with rfl | h
      · have hhead : isNameHead c = true := ((Bool.and_eq_true _ _).mp hc).2
        have hafter : (cs.takeWhile isNameChar).dropWhile isNameChar = [] :=
          List.dropWhile_eq_nil_iff.mpr fun d hd => List.mem_takeWhile_imp hd
        simp [isIdentifier, hhead, hafter]
      · exact ih h
    · exact ih h

theorem isIdentifier_of_names {reserved : List String} {cs : List Char} {n : String}
    (h : n ∈ names reserved cs) : isIdentifier n.toList = true := by
  obtain ⟨w, hw, hn⟩ := List.mem_filterMap.mp (List.mem_eraseDups.mp h)
  split at hn
  · cases hn
  · cases hn
    rw [String.toList_ofList]
    exact isIdentifier_of_namesFrom hw

theorem names_of_quoted {reserved : List String} {cs : List Char} {q : List Char}
    (h : quoted? cs = some (q, [])) : names reserved cs = [] := by
  cases cs with
  | nil => cases h
  | cons c cs =>
    have hhollow : hollow (c :: cs) = ['"', '"'] := by
      rw [hollow]
      split
      · next r hr =>
        rw [h] at hr
        cases hr
        simp [hollow]
      · next hr =>
        rw [h] at hr
        cases hr
    simp [names, hhollow, namesFrom, isNameHead]

end Expression

/-! ## Answers that stay good -/

namespace Build
open Line (isIdentifier)

/-- Every run extends the session, and what it answers has the property in every later session
without errors. -/
def Grants {α : Type} (P : Session → α → Prop) (m : Build α) : Prop :=
  Extending m ∧ ∀ s a t, m s = .ok a t → ∀ u : Session, t.Extends u → u.Accepted → P u a

section
variable {α β : Type} {m : Build α} {f : α → Build β} {P : Session → α → Prop}
  {Q : Session → β → Prop}

theorem Grants.bind (hm : Grants P m) (hf : ∀ a, Grants (fun u b => P u a → Q u b) (f a)) :
    Grants Q (m >>= f) := by
  refine ⟨hm.1.bind fun a => (hf a).1, ?_⟩
  intro s b t h u hu hacc
  obtain ⟨a, t₁, ha, hb⟩ := bind_eq_ok.mp h
  have hfirst : P u a := hm.2 s a t₁ ha u (((hf a).1.ok hb).trans hu) hacc
  exact (hf a).2 t₁ b t hb u hu hacc hfirst

theorem Grants.weaken {P' : Session → α → Prop} (hm : Grants P m) (h : ∀ u a, P u a → P' u a) :
    Grants P' m :=
  ⟨hm.1, fun s a t ha u hu hacc => h u a (hm.2 s a t ha u hu hacc)⟩

theorem grants_pure {a : α} (h : ∀ u, P u a) : Grants P (pure a : Build α) := by
  refine ⟨extending_pure a, ?_⟩
  intro s b t hb u _ _
  cases hb
  exact h u

theorem Elementary.grants (hm : Elementary m) : Grants (fun _ _ => True) m :=
  ⟨hm.extending, fun _ _ _ _ _ _ _ => trivial⟩

/-- A step that does nothing to the answers of what follows. -/
theorem Elementary.then (hm : Elementary m) (hf : ∀ a, Grants Q (f a)) : Grants Q (m >>= f) := by
  refine hm.grants.bind fun a => ⟨(hf a).1, ?_⟩
  intro s b t h u hu hacc _
  exact (hf a).2 s b t h u hu hacc

/-- A report in place of what would be done. -/
theorem grants_refusal {line : Int} {p : Problem} (hp : p.isStructural = false) {a : α}
    (h : ∀ u, P u a) : Grants P (report line p >>= fun _ => pure a) :=
  (report_elementary line hp).then fun _ => grants_pure h

end

/-! ### Names and pins -/

theorem observeVariable_grants (name : String) (type : ValueType) (line : Int) :
    Grants (fun u ok => (ok = true ∨ isIdentifier name.toList = true) →
      u.table.isVariable name = true) (observeVariable name type line) := by
  refine ⟨(observeVariable_elementary name type line).extending, ?_⟩
  intro s ok t h u hu hacc hok
  rcases observeVariable_ok h with ⟨rfl, -, hid | hrefused⟩ | ⟨-, hvar⟩
  · rcases hok with hok | hok
    · cases hok
    · rw [hid] at hok
      cases hok
  · exact absurd hrefused (hacc.of_isPrefix hu.findings).not_refused
  · exact hu.table.isVariable hvar

theorem observeVariable_admits (name : String) (type : ValueType) (line : Int) :
    Grants (fun u ok => ok = true → u.table.isVariable name = true)
      (observeVariable name type line) :=
  (observeVariable_grants name type line).weaken fun _ _ h hok => h (.inl hok)

theorem mention_grants (name : String) (line : Int) :
    Grants (fun u _ => isIdentifier name.toList = true →
      u.table.isPin name = true ∨ u.table.isVariable name = true) (mention name line) := by
  refine ⟨(mention_elementary name line).extending, ?_⟩
  intro s ok t h u hu hacc hid
  obtain ⟨v, s', hs, h⟩ := bind_eq_ok.mp h
  cases hs
  split at h
  · next hknown =>
    cases h
    rcases Bool.or_eq_true_iff.mp hknown with hpin | hvar
    · exact .inl (hu.table.isPin hpin)
    · exact .inr (hu.table.isVariable hvar)
  · exact .inr ((observeVariable_grants name .long line).2 s ok t h u hu hacc (.inr hid))

theorem mentionAll_grants (line : Int) (names : List String) :
    Grants (fun u _ => ∀ n ∈ names, isIdentifier n.toList = true →
      u.table.isPin n = true ∨ u.table.isVariable n = true) (mentionAll line names) := by
  induction names with
  | nil => exact grants_pure fun u => nofun
  | cons n ns ih =>
    refine (mention_grants n line).bind fun _ => ⟨ih.1, ?_⟩
    intro s b t h u hu hacc hn m hm
    rcases List.mem_cons.mp hm with rfl | hm
    · exact hn
    · exact ih.2 s b t h u hu hacc m hm

/-- The names of a text are declared. -/
def KnowsNames (u : Session) (cs : List Char) : Prop :=
  ∀ n ∈ Expression.names u.table.reserved cs,
    u.table.isPin n = true ∨ u.table.isVariable n = true

theorem useNames_grants (cs : List Char) (line : Int) :
    Grants (fun u _ => KnowsNames u cs) (useNames cs line) := by
  refine ⟨(useNames_elementary cs line).extending, ?_⟩
  intro s b t h u hu hacc n hn
  obtain ⟨v, s', hs, h⟩ := bind_eq_ok.mp h
  cases hs
  have hres : u.table.reserved = s.table.reserved :=
    (((mentionAll_elementary line _).extending.ok h).trans hu).table.keeps.reserved
  rw [hres] at hn
  exact (mentionAll_grants line _).2 s b t h u hu hacc n hn (Expression.isIdentifier_of_names hn)

theorem expression_grants (cs : List Char) (line : Int) :
    Grants (fun u r => ∀ v ∈ r, KnowsNames u v) (expression cs line) := by
  unfold expression
  split
  · exact grants_refusal rfl fun u x hx => by cases hx
  · refine (useNames_grants _ line).bind fun _ => grants_pure fun u hu v hv => ?_
    cases hv
    exact hu

theorem condition_grants (cs : List Char) (line : Int) :
    Grants (fun u r => ∀ v ∈ r, KnowsNames u v) (condition cs line) := by
  unfold condition
  split
  · exact grants_refusal rfl fun u x hx => by cases hx
  · refine (useNames_grants _ line).bind fun _ => grants_pure fun u hu v hv => ?_
    cases hv
    exact hu

/-- A string literal uses no names. -/
theorem knowsNames_of_isStringLiteral {u : Session} {cs : List Char}
    (h : Line.isStringLiteral (trim cs) = true) : KnowsNames u (trim cs) := by
  unfold Line.isStringLiteral at h
  rw [trim_trim] at h
  split at h
  · next r hr =>
    obtain ⟨q, rest⟩ := r
    have hrest : rest = [] := List.isEmpty_iff.mp h
    subst hrest
    intro n hn
    rw [Expression.names_of_quoted hr] at hn
    cases hn
  · cases h

theorem writeTarget_grants (name : String) (type : ValueType) (line : Int) :
    Grants (fun u ok => ok = true → u.table.isVariable name = true)
      (writeTarget name type line) := by
  refine ⟨(writeTarget_elementary name type line).extending, ?_⟩
  intro s ok t h u hu hacc hok
  obtain ⟨v, s', hs, h⟩ := bind_eq_ok.mp h
  cases hs
  split at h
  · next hknown =>
    cases h
    exact hu.table.isVariable hknown
  · exact (observeVariable_admits name type line).2 s ok t h u hu hacc hok

theorem pinOfWord_grants (token : List Char) (line : Int) :
    Grants (fun u r => ∀ ref ∈ r, u.table.KnowsPin ref.target) (pinOfWord token line) := by
  refine ⟨(pinOfWord_elementary token line).extending, ?_⟩
  intro s r t h u hu _ ref hr
  obtain ⟨htable, hfound⟩ := pinOfWord_ok h
  have hres := hfound ref hr
  rw [← htable] at hres
  exact (hres.grows hu.table).knowsPin

theorem resolvePin_grants (words : List (List Char)) (line : Int) :
    Grants (fun u r => ∀ ref ∈ r, u.table.KnowsPin ref.target) (resolvePin words line) := by
  unfold resolvePin
  split
  · exact grants_refusal rfl fun u => nofun
  · split
    · split
      · exact grants_refusal rfl fun u => nofun
      · refine (pinOfWord_grants _ line).bind fun r => ?_
        cases r with
        | none => exact grants_refusal rfl fun u _ => nofun
        | some ref =>
          refine grants_pure fun u hu x hx => ?_
          cases hx
          exact hu ref rfl
    · refine (pinOfWord_grants _ line).bind fun r => ?_
      cases r with
      | none => exact grants_refusal rfl fun u _ => nofun
      | some ref => exact grants_pure fun u hu => hu

theorem pinOperand_grants (cs : List Char) (line : Int) :
    Grants (fun u r => ∀ x ∈ r, u.table.KnowsPin x.1.target) (pinOperand cs line) := by
  refine (resolvePin_grants (Line.words cs) line).bind fun r => ?_
  cases r with
  | none => exact grants_pure fun u _ => nofun
  | some ref =>
    refine grants_pure fun u hu x hx => ?_
    cases hx
    exact hu ref rfl

/-! ### Statements -/

-- Comparing two runs must not evaluate the bound, a power of ten with thousands of digits.
attribute [local irreducible] writable

/-- What some lines of the sketch name is declared; they come from the given line of the script. -/
def AllDeclared (line : Int) (u : Session) (is : List Instr) : Prop :=
  ∀ i ∈ is, i.Declared line u (u.table.functions.map (·.name))

section
variable {line : Int} {u : Session}

theorem AllDeclared.nil : AllDeclared line u [] := nofun

theorem AllDeclared.cons {i : Instr} {is : List Instr}
    (hi : i.Declared line u (u.table.functions.map (·.name))) (his : AllDeclared line u is) :
    AllDeclared line u (i :: is) := List.forall_mem_cons.mpr ⟨hi, his⟩

theorem AllDeclared.single {i : Instr} (hi : i.Declared line u (u.table.functions.map (·.name))) :
    AllDeclared line u [i] := .cons hi .nil

theorem forall_mem_some {α : Type} {p : α → Prop} {a : α} (h : p a) : ∀ x ∈ some a, p x := by
  rintro x ⟨⟩
  exact h

end

section
variable {α : Type} {Q : Session → List Instr → Prop}

/-- Only an operand that was found is written of. -/
theorem Grants.bind_some {P : Session → α → Prop} {m : Build (Option α)}
    {f : Option α → Build (List Instr)} (hm : Grants (fun u r => ∀ a ∈ r, P u a) m)
    (hnone : f none = pure []) (hnil : ∀ u, Q u [])
    (hsome : ∀ a, Grants (fun u is => P u a → Q u is) (f (some a))) : Grants Q (m >>= f) := by
  refine hm.bind fun r => ?_
  cases r with
  | none =>
    rw [hnone]
    exact grants_pure fun u _ => hnil u
  | some a => exact (hsome a).weaken fun u is h hall => h (hall a rfl)

/-- Only a variable that was admitted is written of. -/
theorem Grants.bind_true {P : Session → Prop} {m : Build Bool} {f : Bool → Build (List Instr)}
    (hm : Grants (fun u ok => ok = true → P u) m) (hfalse : f false = pure [])
    (hnil : ∀ u, Q u []) (htrue : Grants (fun u is => P u → Q u is) (f true)) :
    Grants Q (m >>= f) := by
  refine hm.bind fun ok => ?_
  cases ok with
  | false =>
    rw [hfalse]
    exact grants_pure fun u _ => hnil u
  | true => exact htrue.weaken fun u is h hok => h (hok rfl)

end

theorem compilePinMode_grants (operands : List Char) (line : Int) :
    Grants (AllDeclared line) (compilePinMode operands line) := by
  refine (pinOperand_grants operands line).bind_some rfl (fun _ => .nil) fun r => ?_
  dsimp only
  split
  · exact grants_pure fun u hp => .single ⟨nofun, forall_mem_some hp, nofun, nofun⟩
  · exact grants_refusal rfl fun u _ => .nil

theorem compileDigitalWrite_grants (operands : List Char) (line : Int) :
    Grants (AllDeclared line) (compileDigitalWrite operands line) := by
  refine (pinOperand_grants operands line).bind_some rfl (fun _ => .nil) fun r => ?_
  dsimp only
  split
  · exact grants_pure fun u hp => .single ⟨nofun, forall_mem_some hp, nofun, nofun⟩
  · exact grants_refusal rfl fun u _ => .nil

theorem compilePwmWrite_grants (pin value : List Char) (line : Int) :
    Grants (AllDeclared line) (compilePwmWrite pin value line) := by
  refine (pinOperand_grants pin line).bind_some rfl (fun _ => .nil) fun r => ?_
  refine (expression_grants value line).bind_some rfl (fun _ _ => .nil) fun e => ?_
  refine (checkPwm_elementary r.1 line).then fun _ => grants_pure fun u he hp => ?_
  exact .single ⟨nofun, forall_mem_some hp, forall_mem_some he, nofun⟩

theorem compileReadAnalog_grants (pin : List Char) (name : String) (line : Int) :
    Grants (AllDeclared line) (compileReadAnalog pin name line) := by
  refine (writeTarget_grants name .int line).bind_true rfl (fun _ => .nil) ?_
  refine (pinOperand_grants pin line).bind_some rfl (fun _ _ => .nil) fun r => ?_
  dsimp only
  split
  · refine grants_pure fun u hp hv => ?_
    exact .single ⟨List.forall_mem_singleton.mpr hv, forall_mem_some hp, nofun, nofun⟩
  · exact grants_refusal rfl fun u _ _ => .nil

theorem compileReadDigital_grants (pin : List Char) (name : String) (line : Int) :
    Grants (AllDeclared line) (compileReadDigital pin name line) := by
  refine (writeTarget_grants name .int line).bind_true rfl (fun _ => .nil) ?_
  refine (pinOperand_grants pin line).bind_some rfl (fun _ _ => .nil) fun r => ?_
  refine grants_pure fun u hp hv => ?_
  exact .single ⟨List.forall_mem_singleton.mpr hv, forall_mem_some hp, nofun, nofun⟩

theorem compileWait_grants (amount unit : List Char) (line : Int) :
    Grants (AllDeclared line) (compileWait amount unit) := by
  refine (ofExcept_elementary (readNatural_ne amount)).then fun n => ?_
  refine (ofExcept_elementary (timeUnit_ne unit)).then fun unit => ?_
  cases unit with
  | micro | milli => exact grants_pure fun u => .single ⟨nofun, nofun, nofun, nofun⟩
  | second =>
    refine (ofExcept_elementary (writable_ne _)).then fun _ => ?_
    exact grants_pure fun u => .single ⟨nofun, nofun, nofun, nofun⟩

theorem compileAssign_grants (name : String) (value : List Char) (line : Int) :
    Grants (AllDeclared line) (compileAssign name value line) := by
  refine (writeTarget_grants name _ line).bind_true rfl (fun _ => .nil) ?_
  cases hlit : Line.isStringLiteral (trim value) with
  | true =>
    refine grants_pure fun u hv => ?_
    exact .single ⟨List.forall_mem_singleton.mpr hv, nofun,
      forall_mem_some (knowsNames_of_isStringLiteral hlit), nofun⟩
  | false =>
    refine (expression_grants _ line).bind_some rfl (fun _ _ => .nil) fun e => ?_
    refine grants_pure fun u he hv => ?_
    exact .single ⟨List.forall_mem_singleton.mpr hv, nofun, forall_mem_some he, nofun⟩

theorem compileChange_grants (name : String) (value : List Char) (line : Int) :
    Grants (AllDeclared line) (compileChange name value line) := by
  refine (expression_grants value line).bind_some rfl (fun _ => .nil) fun e => ?_
  refine (observeVariable_admits name .long line).bind_true rfl (fun _ _ => .nil) ?_
  refine grants_pure fun u hv he => ?_
  exact .single ⟨List.forall_mem_singleton.mpr hv, nofun, forall_mem_some he, nofun⟩

theorem compileMap_grants (source : String) (fromRange toRange : List Char) (name : String)
    (line : Int) : Grants (AllDeclared line) (compileMap source fromRange toRange name line) := by
  refine (ofExcept_elementary (readRange_ne fromRange)).then fun from? => ?_
  refine (ofExcept_elementary (readRange_ne toRange)).then fun to? => ?_
  split
  · refine (observeVariable_admits source .long line).bind fun sourceOk => ?_
    refine (observeVariable_admits name .long line).bind fun nameOk => ?_
    split
    · next hok =>
      obtain ⟨hsource, hname⟩ := (Bool.and_eq_true _ _).mp hok
      refine grants_pure fun u hn hs => ?_
      have hvars : ∀ n ∈ [name, source], u.table.isVariable n = true :=
        List.forall_mem_cons.mpr ⟨hn hname, List.forall_mem_singleton.mpr (hs hsource)⟩
      exact .single ⟨hvars, nofun, nofun, nofun⟩
    · exact grants_pure fun u _ _ => .nil
  · exact grants_refusal rfl fun u => .nil

theorem compileLimit_grants (name : String) (range : List Char) (line : Int) :
    Grants (AllDeclared line) (compileLimit name range line) := by
  refine (ofExcept_elementary (readRange_ne range)).then fun range? => ?_
  split
  · exact grants_refusal rfl fun u => .nil
  · refine (observeVariable_admits name .long line).bind_true rfl (fun _ => .nil) ?_
    refine grants_pure fun u hv => ?_
    exact .cons ⟨List.forall_mem_singleton.mpr hv, nofun, nofun, nofun⟩
      (.single ⟨List.forall_mem_singleton.mpr hv, nofun, nofun, nofun⟩)

theorem compileRandom_grants (range : List Char) (name : String) (line : Int) :
    Grants (AllDeclared line) (compileRandom range name line) := by
  refine (ofExcept_elementary (readRange_ne range)).then fun range? => ?_
  rcases range? with _ | ⟨a, b⟩
  · exact grants_refusal rfl fun u => .nil
  · refine (observeVariable_admits name .long line).bind_true rfl (fun _ => .nil) ?_
    refine (ofExcept_elementary (writable_ne _)).then fun _ => grants_pure fun u hv => ?_
    exact .single ⟨List.forall_mem_singleton.mpr hv, nofun, nofun, nofun⟩

theorem compileTone_grants (frequency pin : List Char) (line : Int) :
    Grants (AllDeclared line) (compileTone frequency pin line) := by
  refine (expression_grants frequency line).bind_some rfl (fun _ => .nil) fun e => ?_
  refine (pinOperand_grants pin line).bind_some rfl (fun _ _ => .nil) fun r => ?_
  refine grants_pure fun u hp he => ?_
  exact .single ⟨nofun, forall_mem_some hp, forall_mem_some he, nofun⟩

/-- A call is of a declared function, or a warning on its line says that it is not. -/
theorem compileCall_grants (name : String) (line : Int) :
    Grants (AllDeclared line) (compileCall name line) := by
  refine ⟨(compileCall_answers name line).1.extending, ?_⟩
  intro s is t h u hu _
  obtain ⟨v, s', hs, h⟩ := bind_eq_ok.mp h
  cases hs
  split at h
  · cases h
    refine .single ⟨nofun, nofun, nofun, forall_mem_some (.inr ?_)⟩
    exact hu.findings.subset (by simp)
  · next hknown =>
    cases h
    refine .single ⟨nofun, nofun, nofun, forall_mem_some (.inl ?_)⟩
    obtain ⟨f, hf, he⟩ := SymbolTable.isFunction_iff.mp (by simpa using hknown)
    exact List.mem_map.mpr ⟨f, hu.table.keeps.functions.subset hf, he⟩

theorem statement_grants (line : Int) (st : Statement) :
    Grants (AllDeclared line) (statement line st) := by
  cases st with
  | pinMode operands => exact compilePinMode_grants operands line
  | digitalWrite operands => exact compileDigitalWrite_grants operands line
  | toggle operands | noTone operands =>
    refine (pinOperand_grants operands line).bind_some rfl (fun _ => .nil) fun r => ?_
    exact grants_pure fun u hp => .single ⟨nofun, forall_mem_some hp, nofun, nofun⟩
  | pwmWrite pin value => exact compilePwmWrite_grants pin value line
  | readAnalog pin name => exact compileReadAnalog_grants pin name line
  | readTime name | readMicros name =>
    refine (writeTarget_grants name .unsignedLong line).bind_true rfl (fun _ => .nil) ?_
    refine grants_pure fun u hv => ?_
    exact .single ⟨List.forall_mem_singleton.mpr hv, nofun, nofun, nofun⟩
  | readDigital pin name => exact compileReadDigital_grants pin name line
  | wait amount unit => exact compileWait_grants amount unit line
  | serialBegin rate =>
    refine (ofExcept_elementary (readNatural_ne rate)).then fun _ => ?_
    exact grants_pure fun u => .single ⟨nofun, nofun, nofun, nofun⟩
  | printText text => exact grants_pure fun u => .single ⟨nofun, nofun, nofun, nofun⟩
  | printTextValue text value =>
    refine (expression_grants value line).bind_some rfl (fun _ => .nil) fun e => ?_
    refine grants_pure fun u he => .cons ⟨nofun, nofun, nofun, nofun⟩ ?_
    exact .single ⟨nofun, nofun, forall_mem_some he, nofun⟩
  | printValue value | randomSeed value =>
    refine (expression_grants value line).bind_some rfl (fun _ => .nil) fun e => ?_
    exact grants_pure fun u he => .single ⟨nofun, nofun, forall_mem_some he, nofun⟩
  | assign name value => exact compileAssign_grants name value line
  | change name value => exact compileChange_grants name value line
  | map source fromRange toRange name => exact compileMap_grants source fromRange toRange name line
  | limit name range => exact compileLimit_grants name range line
  | random range name => exact compileRandom_grants range name line
  | tone frequency pin => exact compileTone_grants frequency pin line
  | call name => exact compileCall_grants name line

end Build

/-! ## Lines of a script -/

namespace Assemble
open Build (AllDeclared KnowsNames)

section
variable {line : Int} {code : List Char} {a a' : Assembly} {is : List Instr} {u : Session}

/-- The header of an `if` or a `while` holds the test that its condition becomes. -/
theorem openConditional_ok {kind : BlockKind} {header : List Char → Instr} {condition : List Char}
    (h : openConditional kind header condition line a = .ok is a') :
    is = [] ∨ ∃ test t, Build.condition condition line a.session = .ok (some test) t ∧
      t.Extends a'.session ∧ is = [header test] := by
  unfold openConditional at h
  rw [build_bind] at h
  cases hc : Build.condition condition line a.session with
  | error f t =>
    rw [hc] at h
    cases h
  | ok r t =>
    rw [hc] at h
    cases r with
    | none =>
      obtain ⟨_, b, _, h⟩ := bind_eq_ok.mp h
      cases h
      exact .inl rfl
    | some test =>
      refine .inr ⟨test, t, rfl, ?_⟩
      cases hb : a.body with
      | none =>
        obtain ⟨_, b, hemit, _⟩ := bind_eq_ok.mp h
        simp only [emit, bind, EStateM.bind, get_eq, hb] at hemit
        cases hemit
      | some b =>
        obtain ⟨v, hv, he⟩ :=
          emit_push (a := { a with session := t }) hb [header test] { kind, line }
        have hsame := he.symm.trans h
        cases hsame
        exact ⟨hv.extends, rfl⟩

theorem knowsNames_of_openConditional {kind : BlockKind} (header : List Char → Instr)
    {condition test : List Char} (hinj : ∀ x y, header x = header y → x = y)
    (h : openConditional kind header condition line a = .ok [header test] a')
    (hu : a'.session.Extends u) (hacc : u.Accepted) : KnowsNames u test := by
  rcases openConditional_ok h with hnil | ⟨test', t, hc, ht, he⟩
  · cases hnil
  · have htest := hinj test test' (List.head_eq_of_cons_eq he)
    subst htest
    exact (Build.condition_grants condition line).2 _ _ _ hc u (ht.trans hu) hacc test rfl

theorem takeLine_control {o : Opener} (hc : BlockLine.ofCode code = .control o) :
    takeLine line code a = openControl o line a := by
  unfold takeLine
  rw [hc]

/-- What a line writes names declared things only, if there are no errors up to some later state. -/
theorem takeLine_declared (h : takeLine line code a = .ok is a') (hu : a'.session.Extends u)
    (hacc : u.Accepted) : AllDeclared line u is := by
  have step := takeLine_outcome line code a
  rw [h] at step
  generalize hc : BlockLine.ofCode code = c at step
  have nameless : ∀ {i : Instr}, i.vars = [] → i.pin? = none → i.value? = none → i.called? = none →
      i.Declared line u (u.table.functions.map (·.name)) := by
    intro i hv hp he hf
    constructor <;> simp [hv, hp, he, hf]
  cases step with
  | setup | loop | function | detached | nested | pin | stray | refused | endRefused | endStructure
  | unknownCommand | rejected => exact .nil
  | otherwise =>
    split
    · exact .single (nameless rfl rfl rfl rfl)
    · exact .nil
  | endControl => exact .single (nameless rfl rfl rfl rfl)
  | @statement t b st is hb hst ht =>
    exact (Build.statement_grants line st).2 _ _ _ ht u hu hacc
  | control hb hw =>
    -- the outcome gives the header only; that its test was read as a condition is in the run
    have hsome : a.body.isSome = true := by rw [hb]; rfl
    rw [takeLine_control hc] at h
    unfold openControl at h
    cases hw with
    | ifDo condition test =>
      rw [requireBody_bind_some hsome] at h
      have htest := knowsNames_of_openConditional .openIf (fun _ _ => Instr.openIf.inj) h hu hacc
      exact .single ⟨nofun, nofun, Build.forall_mem_some htest, nofun⟩
    | whileDo condition test =>
      rw [requireBody_bind_some hsome] at h
      have htest := knowsNames_of_openConditional .openWhile (fun _ _ => Instr.openWhile.inj) h hu
        hacc
      exact .single ⟨nofun, nofun, Build.forall_mem_some htest, nofun⟩
    | repeatTimes | forever => exact .single (nameless rfl rfl rfl rfl)
    | every =>
      exact .cons (nameless rfl rfl rfl rfl) (.cons (nameless rfl rfl rfl rfl)
        (.single (nameless rfl rfl rfl rfl)))
    | after =>
      exact .cons (nameless rfl rfl rfl rfl) (.cons (nameless rfl rfl rfl rfl)
        (.cons (nameless rfl rfl rfl rfl) (.single (nameless rfl rfl rfl rfl))))

theorem trace_declared {ls : List (Int × List Char)} (h : takeLines ls a = .ok () a')
    (hu : a'.session.Extends u) (hacc : u.Accepted) :
    ∀ w ∈ trace ls a, AllDeclared w.line u w.instrs := by
  induction ls generalizing a with
  | nil => exact nofun
  | cons l ls ih =>
    obtain ⟨n, code⟩ := l
    obtain ⟨is, b, hl, hr⟩ := bind_eq_ok.mp h
    rw [trace, hl]
    refine List.forall_mem_cons.mpr ⟨?_, ih hr⟩
    exact takeLine_declared hl ((extends_of_takeLines hr).trans hu) hacc

end
end Assemble

/-- In a script without errors, whatever a line of the sketch names is declared: variables and pins
in the table at the end, and functions in the sketch, unless a warning on the line of the script
says that there is none. The lines of all bodies are among those of the trace. -/
theorem names_declared (o : Options) (source : String) :
    match assemble (sourceLines source) { session := .start o.board o.reserved } with
    | .ok _ a => a.session.Accepted →
      (∀ w ∈ scriptTrace o source, ∀ i ∈ w.instrs,
        i.Declared w.line a.session (a.sketch.functions.map Prod.fst)) ∧
      ∀ p ∈ a.buffers, ∀ i ∈ p.2, ∃ w ∈ scriptTrace o source, i ∈ w.instrs
    | .error _ _ => True := by
  split
  · next a h =>
    intro hacc
    have hnames : a.sketch.functions.map Prod.fst = _ := (functions_of_accepted h hacc).2
    obtain ⟨t, b, hs, hb, rfl⟩ := assemble_ok h
    rw [scriptTrace, hs]
    refine ⟨?_, ?_⟩
    · rw [hnames]
      exact Assemble.trace_declared hb ⟨.refl _, ⟨_, rfl⟩⟩ hacc
    · intro p hp i hi
      rcases Assembly.mem_trace hb hp hi with ⟨q, hq, hi⟩ | hw
      · rcases Assembly.mem_buffers.mp hq with rfl | rfl | ⟨f, hf, -⟩ | ⟨ls, hls, -⟩
        · cases hi
        · cases hi
        · cases hf
        · cases hls
      · exact hw
  · trivial

end PlainSketch
