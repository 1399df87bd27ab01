import PlainSketch.Proofs.OutlineOrder

/-!
# Statements that come to nothing

A statement either becomes lines of the sketch or is reported with an error, but for one kind of
name. The words that a line may have for a variable go on with letters and digits of all scripts,
while variables have ASCII names, and the use of any other word as a variable is refused without a
report. `Build.Speaks` follows what is known of the answer of a run that adds no error. It shows
that nothing else is dropped in silence, and `Build.dropped_iff` says exactly when a statement is.
-/
namespace PlainSketch
open Text

/-! ## Errors since a session -/

namespace Session

/-- Since `s`, no error was found. -/
def QuietSince (s t : Session) : Prop :=
  ∀ f ∈ t.findings.drop s.findings.length, f.isError = false

section
variable {s t u : Session} {line : Int} {p : Problem}

theorem quietSince_iff {fs : List Finding} (h : t.findings = s.findings ++ fs) :
    s.QuietSince t ↔ ∀ f ∈ fs, f.isError = false := by
  rw [QuietSince, h, List.drop_left]

theorem quietSince_of_findings (h : t.findings = s.findings) : s.QuietSince t := by
  have hnothing : t.findings = s.findings ++ [] := by rw [h, List.append_nil]
  exact (quietSince_iff hnothing).mpr fun f hf => absurd hf List.not_mem_nil

theorem quietSince_trans (ht : s.findings <+: t.findings) (hu : t.findings <+: u.findings) :
    s.QuietSince u ↔ s.QuietSince t ∧ t.QuietSince u := forall_since_iff ht hu

theorem quietSince_reported_iff : s.QuietSince (s.reported line p) ↔ p.severity ≠ .error := by
  rw [quietSince_iff (t := s.reported line p) rfl, List.forall_mem_singleton]
  simp [Finding.isError]

end
end Session

/-! ## Names that a statement needs -/

namespace Statement

/-- The names that a statement needs as variables. -/
def needed : Statement → List String
  | readAnalog _ name | readTime name | readMicros name | readDigital _ name | assign name _
  | change name _ | limit name _ | random _ name => [name]
  | map source _ _ name => [source, name]
  | _ => []

/-- Nothing is wrong with the statement but, perhaps, names that are no identifiers. -/
def OtherwiseInOrder (t : SymbolTable) : Statement → Prop
  | change _ value => trim value ≠ [] ∧
      ∀ n ∈ Expression.names t.reserved (trim value), t.isFunction n = false
  | map source fromRange toRange name => (Line.rangeParts? fromRange).isSome = true ∧
      (Line.rangeParts? toRange).isSome = true ∧
      ∀ n ∈ [source, name], Line.isIdentifier n.toList = true → t.Allows n
  | limit _ range | random range _ => (Line.rangeParts? range).isSome = true
  | _ => True

end Statement

theorem Expression.not_reserved_of_names {reserved : List String} {cs : List Char} {n : String}
    (h : n ∈ names reserved cs) : reserved.contains n = false := by
  obtain ⟨w, -, hn⟩ := List.mem_filterMap.mp (List.mem_eraseDups.mp h)
  split at hn
  · cases hn
  · next hw =>
    cases hn
    exact (Bool.or_eq_false_iff.mp (Bool.eq_false_iff.mpr hw)).1

namespace Build
open Session
open Line (isIdentifier)

/-! ## Answers of quiet runs -/

/-- Every run extends the session, and what it answers without adding an error has the property. -/
def Speaks {α : Type} (Q : α → Prop) (m : Build α) : Prop :=
  Extending m ∧ ∀ s a t, m s = .ok a t → s.QuietSince t → Q a

section
variable {α β : Type} {m : Build α} {f : α → Build β} {P : α → Prop} {Q : β → Prop}

theorem Speaks.bind (hm : Speaks P m) (hf : ∀ a, Speaks (fun b => P a → Q b) (f a)) :
    Speaks Q (m >>= f) := by
  refine ⟨hm.1.bind fun a => (hf a).1, ?_⟩
  intro s b u h hquiet
  obtain ⟨a, t, ha, hb⟩ := bind_eq_ok.mp h
  have hboth := (quietSince_trans (hm.1.ok ha).findings ((hf a).1.ok hb).findings).mp hquiet
  exact (hf a).2 t b u hb hboth.2 (hm.2 s a t ha hboth.1)

theorem speaks_pure {a : α} (h : P a) : Speaks P (pure a : Build α) := by
  refine ⟨extending_pure a, ?_⟩
  intro s b t hb _
  cases hb
  exact h

/-- A step whose answer does not matter. -/
theorem Elementary.speaks (hm : Elementary m) (hf : ∀ a, Speaks Q (f a)) : Speaks Q (m >>= f) := by
  have htrue : Speaks (fun _ => True) m := ⟨hm.extending, fun _ _ _ _ _ => trivial⟩
  exact htrue.bind fun a => ⟨(hf a).1, fun s b t hb hquiet _ => (hf a).2 s b t hb hquiet⟩

/-- An error in place of what would be done: there is no quiet run. -/
theorem speaks_refusal {line : Int} {p : Problem} (hs : p.isStructural = false)
    (hp : p.severity = .error) (a : α) : Speaks P (report line p >>= fun _ => pure a) := by
  refine ⟨((report_elementary line hs).bind fun _ => elementary_pure a).extending, ?_⟩
  intro s b t h hquiet
  cases h
  exact absurd hp (quietSince_reported_iff.mp hquiet)

end

/-! ### Names, values and pins -/

section
variable {name : String} {type : ValueType} {line : Int}

theorem observeVariable_speaks (name : String) (type : ValueType) (line : Int) :
    Speaks (fun ok => ok = true ∨ isIdentifier name.toList = false)
      (observeVariable name type line) := by
  refine ⟨(observeVariable_elementary name type line).extending, ?_⟩
  intro s ok t h hquiet
  have refused : ∀ {p : Problem}, p.severity = .error → refuse line p s = .ok ok t →
      ok = true ∨ isIdentifier name.toList = false := by
    intro p hp hr
    cases hr
    exact absurd hp (quietSince_reported_iff.mp hquiet)
  rw [observeVariable, table_bind] at h
  split at h
  · next hid => exact .inr (by simpa using hid)
  split at h
  · exact refused rfl h
  split at h
  · exact refused rfl h
  split at h
  · exact refused rfl h
  cases hv : s.table.findVariable? name with
  | none =>
    rw [hv] at h
    cases h
    exact .inl rfl
  | some v =>
    rw [hv] at h
    obtain ⟨_, u, -, h⟩ := bind_eq_ok.mp h
    cases h
    exact .inl rfl

theorem writeTarget_speaks (name : String) (type : ValueType) (line : Int) :
    Speaks (fun ok => ok = true ∨ isIdentifier name.toList = false)
      (writeTarget name type line) := by
  refine ⟨(writeTarget_elementary name type line).extending, ?_⟩
  intro s ok t h hquiet
  rw [writeTarget, table_bind] at h
  split at h
  · cases h
    exact .inl rfl
  · exact (observeVariable_speaks name type line).2 s ok t h hquiet

theorem expression_speaks (cs : List Char) (line : Int) :
    Speaks (· ≠ none) (expression cs line) := by
  unfold expression
  split
  · exact speaks_refusal rfl rfl none
  · exact (useNames_elementary _ line).speaks fun _ => speaks_pure (Option.some_ne_none _)

theorem resolvePin_speaks (words : List (List Char)) (line : Int) :
    Speaks (· ≠ none) (resolvePin words line) := by
  unfold resolvePin
  split
  · exact speaks_refusal rfl rfl none
  · split
    · split
      · exact speaks_refusal rfl rfl none
      · refine (pinOfWord_elementary _ line).speaks fun r => ?_
        cases r with
        | none => exact speaks_refusal rfl rfl none
        | some ref => exact speaks_pure (Option.some_ne_none _)
    · refine (pinOfWord_elementary _ line).speaks fun r => ?_
      cases r with
      | none => exact speaks_refusal rfl rfl none
      | some ref => exact speaks_pure (Option.some_ne_none _)

theorem pinOperand_speaks (cs : List Char) (line : Int) :
    Speaks (· ≠ none) (pinOperand cs line) := by
  refine (resolvePin_speaks (Line.words cs) line).bind fun r => ?_
  cases r with
  | none => exact speaks_pure fun h => absurd rfl h
  | some ref => exact speaks_pure fun _ => Option.some_ne_none _

end

/-! ### Statements -/

-- Comparing two runs must not evaluate the bound, a power of ten with thousands of digits.
attribute [local irreducible] writable

/-- Something was written, or one of the names is no identifier. -/
def WritesUnless (names : List String) (is : List Instr) : Prop :=
  is ≠ [] ∨ ∃ n ∈ names, isIdentifier n.toList = false

section
variable {names : List String} {line : Int}

theorem writesUnless_cons (i : Instr) (is : List Instr) : WritesUnless names (i :: is) :=
  .inl (List.cons_ne_nil i is)

theorem Speaks.weaken {α : Type} {P Q : α → Prop} {m : Build α} (hm : Speaks P m)
    (h : ∀ a, P a → Q a) : Speaks Q m :=
  ⟨hm.1, fun s a t ha hquiet => h a (hm.2 s a t ha hquiet)⟩

/-- What is done with an operand, which a quiet run has found. -/
theorem Speaks.bind_some {α : Type} {Q : List Instr → Prop} {m : Build (Option α)}
    {f : Option α → Build (List Instr)} (hm : Speaks (· ≠ none) m) (hnone : f none = pure [])
    (hsome : ∀ a, Speaks Q (f (some a))) : Speaks Q (m >>= f) := by
  refine hm.bind fun r => ?_
  cases r with
  | none =>
    rw [hnone]
    exact speaks_pure fun h => absurd rfl h
  | some a => exact (hsome a).weaken fun _ h _ => h

/-- What is done with a variable only if it may be used. -/
theorem withVariable_speaks {name : String} (hmem : name ∈ names) {m : Build Bool}
    (hm : Speaks (fun ok => ok = true ∨ isIdentifier name.toList = false) m)
    {f : Bool → Build (List Instr)} (hfalse : f false = pure [])
    (htrue : Speaks (WritesUnless names) (f true)) : Speaks (WritesUnless names) (m >>= f) := by
  refine hm.bind fun ok => ?_
  cases ok with
  | true => exact htrue.weaken fun _ h _ => h
  | false =>
    rw [hfalse]
    exact speaks_pure fun h => .inr ⟨name, hmem, h.resolve_left Bool.false_ne_true⟩

theorem compilePinMode_speaks (operands : List Char) :
    Speaks (WritesUnless names) (compilePinMode operands line) := by
  refine (pinOperand_speaks operands line).bind_some rfl fun r => ?_
  dsimp only
  split
  · exact speaks_pure (writesUnless_cons _ _)
  · exact speaks_refusal rfl rfl []

theorem compileDigitalWrite_speaks (operands : List Char) :
    Speaks (WritesUnless names) (compileDigitalWrite operands line) := by
  refine (pinOperand_speaks operands line).bind_some rfl fun r => ?_
  dsimp only
  split
  · exact speaks_pure (writesUnless_cons _ _)
  · exact speaks_refusal rfl rfl []

theorem compilePwmWrite_speaks (pin value : List Char) :
    Speaks (WritesUnless names) (compilePwmWrite pin value line) := by
  refine (pinOperand_speaks pin line).bind_some rfl fun r => ?_
  refine (expression_speaks value line).bind_some rfl fun e => ?_
  exact (checkPwm_elementary r.1 line).speaks fun _ => speaks_pure (writesUnless_cons _ _)

theorem compileReadAnalog_speaks (pin : List Char) (name : String) :
    Speaks (WritesUnless [name]) (compileReadAnalog pin name line) := by
  refine withVariable_speaks (List.mem_singleton_self name) (writeTarget_speaks name .int line) rfl
    ?_
  refine (pinOperand_speaks pin line).bind_some rfl fun r => ?_
  dsimp only
  split
  · exact speaks_pure (writesUnless_cons _ _)
  · exact speaks_refusal rfl rfl []

theorem compileWait_speaks (amount unit : List Char) :
    Speaks (WritesUnless names) (compileWait amount unit) := by
  refine (ofExcept_elementary (readNatural_ne amount)).speaks fun n => ?_
  refine (ofExcept_elementary (timeUnit_ne unit)).speaks fun u => ?_
  cases u with
  | micro | milli => exact speaks_pure (writesUnless_cons _ _)
  | second =>
    exact (ofExcept_elementary (writable_ne _)).speaks fun _ => speaks_pure (writesUnless_cons _ _)

theorem compileAssign_speaks (name : String) (value : List Char) :
    Speaks (WritesUnless [name]) (compileAssign name value line) := by
  refine withVariable_speaks (List.mem_singleton_self name) (writeTarget_speaks name _ line) rfl ?_
  cases Line.isStringLiteral (trim value) with
  | true => exact speaks_pure (writesUnless_cons _ _)
  | false =>
    exact (expression_speaks _ line).bind_some rfl fun _ => speaks_pure (writesUnless_cons _ _)

theorem compileChange_speaks (name : String) (value : List Char) :
    Speaks (WritesUnless [name]) (compileChange name value line) := by
  refine (expression_speaks value line).bind_some rfl fun e => ?_
  exact withVariable_speaks (List.mem_singleton_self name)
    (observeVariable_speaks name .long line) rfl (speaks_pure (writesUnless_cons _ _))

theorem compileMap_speaks (source : String) (fromRange toRange : List Char) (name : String) :
    Speaks (WritesUnless [source, name]) (compileMap source fromRange toRange name line) := by
  refine (ofExcept_elementary (readRange_ne fromRange)).speaks fun from? => ?_
  refine (ofExcept_elementary (readRange_ne toRange)).speaks fun to? => ?_
  rcases from? with _ | ⟨fromLow, fromHigh⟩
  · exact speaks_refusal rfl rfl []
  rcases to? with _ | ⟨toLow, toHigh⟩
  · exact speaks_refusal rfl rfl []
  refine (observeVariable_speaks source .long line).bind fun sourceOk => ?_
  refine (observeVariable_speaks name .long line).bind fun nameOk => ?_
  cases sourceOk with
  | false =>
    refine speaks_pure fun _ h => .inr ⟨source, List.mem_cons_self, ?_⟩
    exact h.resolve_left Bool.false_ne_true
  | true =>
    cases nameOk with
    | false =>
      refine speaks_pure fun h _ => .inr ⟨name, by simp, ?_⟩
      exact h.resolve_left Bool.false_ne_true
    | true => exact speaks_pure fun _ _ => writesUnless_cons _ _

theorem compileLimit_speaks (name : String) (range : List Char) :
    Speaks (WritesUnless [name]) (compileLimit name range line) := by
  refine (ofExcept_elementary (readRange_ne range)).speaks fun range? => ?_
  rcases range? with _ | ⟨low, high⟩
  · exact speaks_refusal rfl rfl []
  · exact withVariable_speaks (List.mem_singleton_self name)
      (observeVariable_speaks name .long line) rfl (speaks_pure (writesUnless_cons _ _))

theorem compileRandom_speaks (range : List Char) (name : String) :
    Speaks (WritesUnless [name]) (compileRandom range name line) := by
  refine (ofExcept_elementary (readRange_ne range)).speaks fun range? => ?_
  rcases range? with _ | ⟨a, b⟩
  · exact speaks_refusal rfl rfl []
  · refine withVariable_speaks (List.mem_singleton_self name)
      (observeVariable_speaks name .long line) rfl ?_
    exact (ofExcept_elementary (writable_ne _)).speaks fun _ => speaks_pure (writesUnless_cons _ _)

theorem compileTone_speaks (frequency pin : List Char) :
    Speaks (WritesUnless names) (compileTone frequency pin line) := by
  refine (expression_speaks frequency line).bind_some rfl fun e => ?_
  exact (pinOperand_speaks pin line).bind_some rfl fun _ => speaks_pure (writesUnless_cons _ _)

theorem compileCall_speaks (name : String) :
    Speaks (WritesUnless names) (compileCall name line) := by
  refine table_elementary.speaks fun t => ?_
  split
  · exact (report_elementary line rfl).speaks fun _ => speaks_pure (writesUnless_cons _ _)
  · exact speaks_pure (writesUnless_cons _ _)

/-- A quiet run of a statement writes something, unless the statement needs a name that is no
identifier. -/
theorem statement_speaks (line : Int) (st : Statement) :
    Speaks (WritesUnless st.needed) (statement line st) := by
  cases st with
  | pinMode operands => exact compilePinMode_speaks operands
  | digitalWrite operands => exact compileDigitalWrite_speaks operands
  | toggle operands | noTone operands =>
    exact (pinOperand_speaks operands line).bind_some rfl fun _ =>
      speaks_pure (writesUnless_cons _ _)
  | pwmWrite pin value => exact compilePwmWrite_speaks pin value
  | readAnalog pin name => exact compileReadAnalog_speaks pin name
  | readTime name | readMicros name =>
    exact withVariable_speaks (List.mem_singleton_self name)
      (writeTarget_speaks name .unsignedLong line) rfl (speaks_pure (writesUnless_cons _ _))
  | readDigital pin name =>
    refine withVariable_speaks (List.mem_singleton_self name) (writeTarget_speaks name .int line)
      rfl ?_
    exact (pinOperand_speaks pin line).bind_some rfl fun _ => speaks_pure (writesUnless_cons _ _)
  | wait amount unit => exact compileWait_speaks amount unit
  | serialBegin rate =>
    exact (ofExcept_elementary (readNatural_ne rate)).speaks fun _ =>
      speaks_pure (writesUnless_cons _ _)
  | printText text => exact speaks_pure (writesUnless_cons _ _)
  | printTextValue _ value | printValue value | randomSeed value =>
    exact (expression_speaks value line).bind_some rfl fun _ =>
      speaks_pure (writesUnless_cons _ _)
  | assign name value => exact compileAssign_speaks name value
  | change name value => exact compileChange_speaks name value
  | map source fromRange toRange name => exact compileMap_speaks source fromRange toRange name
  | limit name range => exact compileLimit_speaks name range
  | random range name => exact compileRandom_speaks range name
  | tone frequency pin => exact compileTone_speaks frequency pin
  | call name => exact compileCall_speaks name

end

/-! ## Quiet runs -/

section
variable {name : String} {type : ValueType} {line : Int} {s t : Session} {b : Bool}

theorem widenVariable_quiet {v : Variable} (h : widenVariable v type line s = .ok () t) :
    s.QuietSince t := by
  have widened : ∀ u : Session, (if v.type.widen type ≠ v.type then do
      log (.variableWidened line v.name v.type (v.type.widen type))
      setTable ((← table).retype v.name (v.type.widen type)) else pure ()) u = .ok () t →
      t.findings = u.findings := by
    intro u hu
    split at hu <;> (cases hu; rfl)
  unfold widenVariable at h
  split at h
  · -- a change between text and number is only warned of
    rw [quietSince_iff (widened (s.reported line (.typeChanged v.name v.type type)) h)]
    exact List.forall_mem_singleton.mpr rfl
  · exact quietSince_of_findings (widened s h)

/-- A use of a variable adds no error if the name may be a variable or is no identifier. -/
theorem observeVariable_quiet_iff (h : observeVariable name type line s = .ok b t) :
    s.QuietSince t ↔ (isIdentifier name.toList = true → s.table.Allows name) := by
  constructor
  · intro hquiet hid
    by_contra hnot
    obtain ⟨u, hu, -⟩ := observeVariable_of_not_allows hnot type line
    rw [hu] at h
    cases h
    rcases (observeVariable_speaks name type line).2 s false t hu hquiet with hfalse | hfalse
    · cases hfalse
    · rw [hid] at hfalse
      cases hfalse
  · intro hallows
    cases hid : isIdentifier name.toList with
    | false =>
      rw [observeVariable_of_not_identifier hid] at h
      cases h
      exact quietSince_of_findings rfl
    | true =>
      obtain ⟨-, hres, hpin, hfun⟩ := hallows hid
      rw [observeVariable, table_bind] at h
      simp only [hid, hres, hpin, hfun, Bool.not_true, Bool.false_eq_true, if_false] at h
      cases hv : s.table.findVariable? name with
      | none =>
        rw [hv] at h
        cases h
        exact quietSince_of_findings rfl
      | some v =>
        rw [hv] at h
        obtain ⟨_, u, hu, h⟩ := bind_eq_ok.mp h
        cases h
        exact widenVariable_quiet hu

/-- A mention of a name adds an error only if the name is a function. -/
theorem mention_quiet_iff (hs : s.table.Exclusive) (hid : isIdentifier name.toList = true)
    (hres : s.table.isReserved name = false) (h : mention name line s = .ok b t) :
    s.QuietSince t ↔ s.table.isFunction name = false := by
  rw [mention, table_bind] at h
  split at h
  · next hknown =>
    cases h
    refine ⟨fun _ => ?_, fun _ => quietSince_of_findings rfl⟩
    rw [Bool.eq_false_iff]
    intro hf
    obtain ⟨-, -, hpin, hvar⟩ := hs.of_isFunction hf
    rw [hpin, hvar] at hknown
    cases hknown
  · next hknown =>
    obtain ⟨hpin, -⟩ := Bool.or_eq_false_iff.mp (Bool.eq_false_iff.mpr hknown)
    rw [observeVariable_quiet_iff h]
    simp [SymbolTable.Allows, hid, hres, hpin]

theorem mentionAll_quiet_iff {names : List String} (hs : s.table.Exclusive)
    (hid : ∀ n ∈ names, isIdentifier n.toList = true)
    (hres : ∀ n ∈ names, s.table.isReserved n = false)
    (h : mentionAll line names s = .ok () t) :
    s.QuietSince t ↔ ∀ n ∈ names, s.table.isFunction n = false := by
  induction names generalizing s with
  | nil =>
    cases h
    exact ⟨fun _ => nofun, fun _ => quietSince_of_findings rfl⟩
  | cons n ns ih =>
    obtain ⟨hidn, hids⟩ := List.forall_mem_cons.mp hid
    obtain ⟨hresn, hress⟩ := List.forall_mem_cons.mp hres
    obtain ⟨b, u, hu, h⟩ := bind_eq_ok.mp h
    have hmoves := (mention_elementary n line s).ok hu
    have hrest := (mentionAll_elementary line ns u).ok h
    have hgrows := hmoves.extends.table
    have hreserved : u.table.reserved = s.table.reserved := hgrows.keeps.reserved
    have hfunction : ∀ m, u.table.isFunction m = s.table.isFunction m := by
      intro m
      simp only [SymbolTable.isFunction, SymbolTable.findFunction?, hmoves.fixed.2]
    rw [quietSince_trans hmoves.isPrefix hrest.isPrefix, mention_quiet_iff hs hidn hresn hu,
      ih (hs.grows hgrows) hids (by simpa only [SymbolTable.isReserved, hreserved] using hress) h,
      List.forall_mem_cons]
    simp only [hfunction]

/-- A value adds an error if it is missing or names a function. -/
theorem expression_quiet_iff {value : List Char} {r : Option (List Char)}
    (hs : s.table.Exclusive) (h : expression value line s = .ok r t) :
    s.QuietSince t ↔ trim value ≠ [] ∧
      ∀ n ∈ Expression.names s.table.reserved (trim value), s.table.isFunction n = false := by
  unfold expression at h
  cases hvalue : trim value with
  | nil =>
    rw [hvalue] at h
    cases h
    exact ⟨fun hquiet => absurd rfl (quietSince_reported_iff.mp hquiet), fun h => absurd rfl h.1⟩
  | cons c cs =>
    rw [hvalue] at h
    obtain ⟨_, u, hu, h⟩ := bind_eq_ok.mp h
    cases h
    rw [useNames, table_bind] at hu
    rw [mentionAll_quiet_iff hs (fun n hn => Expression.isIdentifier_of_names hn)
      (fun n hn => Expression.not_reserved_of_names hn) hu]
    exact ⟨fun hall => ⟨List.cons_ne_nil c cs, hall⟩, fun hall => hall.2⟩

theorem readRange_ok {range : List Char} {r : Option (Int × Int)}
    (h : Line.readRange range = .ok r) : r.isSome = (Line.rangeParts? range).isSome := by
  unfold Line.readRange at h
  cases hparts : Line.rangeParts? range with
  | none =>
    rw [hparts] at h
    cases h
    rfl
  | some parts =>
    rw [hparts] at h
    cases hlow : readInteger parts.1 with
    | error f => simp [hlow, bind, Except.bind] at h
    | ok low =>
      cases hhigh : readInteger parts.2 with
      | error f => simp [hlow, hhigh, bind, Except.bind] at h
      | ok high =>
        simp only [hlow, hhigh, bind, Except.bind, pure, Except.pure, Except.ok.injEq] at h
        rw [← h]
        rfl

end

/-! ## Statements with a name that is no identifier -/

section
variable {name : String} {line : Int} {s t : Session} {is : List Instr}

theorem ok_bind {α β : Type} {m : Build α} {f : α → Build β} {a : α} (h : m s = .ok a t) :
    (m >>= f) s = f a t := by
  simp only [bind, EStateM.bind, h]

theorem writeTarget_of_not_identifier (hs : s.table.Exclusive)
    (hid : isIdentifier name.toList = false) (type : ValueType) (line : Int) :
    writeTarget name type line s = .ok false s := by
  have hunknown : s.table.isVariable name = false := by
    rw [Bool.eq_false_iff]
    intro hv
    rw [(hs.allows hv).1] at hid
    cases hid
  rw [writeTarget, table_bind, hunknown]
  exact observeVariable_of_not_identifier hid type line s

/-- A statement that first takes its variable is dropped as a whole. -/
theorem dropped_of_writeTarget (hs : s.table.Exclusive) (hid : isIdentifier name.toList = false)
    {type : ValueType} {f : Bool → Build (List Instr)} (hf : f false = pure [])
    (h : (writeTarget name type line >>= f) s = .ok is t) : is = [] ∧ s.QuietSince t := by
  rw [ok_bind (writeTarget_of_not_identifier hs hid type line), hf] at h
  cases h
  exact ⟨rfl, quietSince_of_findings rfl⟩

/-- After a range, a variable that is no identifier is dropped; a range that is none is an error. -/
theorem dropped_range_iff (hid : isIdentifier name.toList = false) {range : List Char}
    {p : Problem} (hp : p.severity = .error) {f : Option (Int × Int) → Build (List Instr)}
    (hnone : f none = do report line p; pure [])
    (hsome : ∀ r, ∃ g : Bool → Build (List Instr),
      f (some r) = (observeVariable name .long line >>= g) ∧ g false = pure [])
    (h : (ofExcept (Line.readRange range) >>= f) s = .ok is t) :
    is = [] ∧ s.QuietSince t ↔ (Line.rangeParts? range).isSome = true := by
  obtain ⟨r, u, hr, hrest⟩ := bind_eq_ok.mp h
  obtain ⟨hread, rfl⟩ := ofExcept_ok hr
  rw [← readRange_ok hread]
  cases r with
  | none =>
    rw [hnone] at hrest
    cases hrest
    refine ⟨fun hboth => absurd hp (quietSince_reported_iff.mp hboth.2), nofun⟩
  | some r =>
    obtain ⟨g, hg, hfalse⟩ := hsome r
    rw [hg, ok_bind (observeVariable_of_not_identifier hid .long line u), hfalse] at hrest
    cases hrest
    exact ⟨fun _ => rfl, fun _ => ⟨rfl, quietSince_of_findings rfl⟩⟩

theorem compileChange_dropped_iff (hs : s.table.Exclusive) {value : List Char}
    (hid : isIdentifier name.toList = false) (h : compileChange name value line s = .ok is t) :
    is = [] ∧ s.QuietSince t ↔ (Statement.change name value).OtherwiseInOrder s.table := by
  obtain ⟨r, u, hu, h⟩ := bind_eq_ok.mp h
  have hsame : is = [] ∧ t = u := by
    cases r with
    | none =>
      cases h
      exact ⟨rfl, rfl⟩
    | some e =>
      obtain ⟨b, v, hb, h⟩ := bind_eq_ok.mp h
      rw [observeVariable_of_not_identifier hid] at hb
      cases hb
      cases h
      exact ⟨rfl, rfl⟩
  rw [hsame.1, hsame.2, expression_quiet_iff hs hu]
  exact ⟨fun hboth => hboth.2, fun horder => ⟨rfl, horder⟩⟩

theorem compileMap_dropped_iff {source : String} {fromRange toRange : List Char}
    (hid : ∃ n ∈ [source, name], isIdentifier n.toList = false)
    (h : compileMap source fromRange toRange name line s = .ok is t) :
    is = [] ∧ s.QuietSince t ↔
      (Statement.map source fromRange toRange name).OtherwiseInOrder s.table := by
  obtain ⟨from?, v, hfrom, hrest⟩ := bind_eq_ok.mp h
  obtain ⟨hfromRead, rfl⟩ := ofExcept_ok hfrom
  obtain ⟨to?, w, hto, hrun⟩ := bind_eq_ok.mp hrest
  obtain ⟨htoRead, rfl⟩ := ofExcept_ok hto
  rw [Statement.OtherwiseInOrder, ← readRange_ok hfromRead, ← readRange_ok htoRead]
  rcases from? with _ | ⟨fromLow, fromHigh⟩
  · cases hrun
    exact ⟨fun hboth => absurd rfl (quietSince_reported_iff.mp hboth.2), fun h => by cases h.1⟩
  rcases to? with _ | ⟨toLow, toHigh⟩
  · cases hrun
    exact ⟨fun hboth => absurd rfl (quietSince_reported_iff.mp hboth.2), fun h => by cases h.2.1⟩
  obtain ⟨sourceOk, u, hsource, hrun⟩ := bind_eq_ok.mp hrun
  obtain ⟨nameOk, v, hname, hrun⟩ := bind_eq_ok.mp hrun
  have hmoves := (observeVariable_elementary source .long line w).ok hsource
  have hmoves' := (observeVariable_elementary name .long line u).ok hname
  -- observing the source adds variables only, which forbid nothing to the target
  have hallows : u.table.Allows name ↔ w.table.Allows name := by
    simp only [SymbolTable.Allows, SymbolTable.isReserved, SymbolTable.isPin, SymbolTable.findPin?,
      SymbolTable.isFunction, SymbolTable.findFunction?, hmoves.fixed,
      hmoves.extends.table.keeps.reserved]
  have hrefused : (sourceOk && nameOk) = false := by
    obtain ⟨n, hn, hid⟩ := hid
    rcases List.mem_pair.mp hn with rfl | rfl
    · rw [observeVariable_of_not_identifier hid] at hsource
      cases hsource
      rfl
    · rw [observeVariable_of_not_identifier hid] at hname
      cases hname
      exact Bool.and_false _
  have hsame : is = [] ∧ t = v := by
    rw [hrefused] at hrun
    cases hrun
    exact ⟨rfl, rfl⟩
  rw [hsame.1, hsame.2, quietSince_trans hmoves.isPrefix hmoves'.isPrefix,
    observeVariable_quiet_iff hsource, observeVariable_quiet_iff hname, hallows]
  simp

/-- A statement is dropped without an error exactly if it needs a name that is no identifier and
nothing else is wrong with it. -/
theorem dropped_iff {st : Statement} (hs : s.table.Exclusive)
    (h : statement line st s = .ok is t) : is = [] ∧ s.QuietSince t ↔
      (∃ n ∈ st.needed, isIdentifier n.toList = false) ∧ st.OtherwiseInOrder s.table := by
  have hnamed : is = [] ∧ s.QuietSince t → ∃ n ∈ st.needed, isIdentifier n.toList = false :=
    fun hboth => ((statement_speaks line st).2 s is t h hboth.2).resolve_left (· hboth.1)
  have hrest : (∃ n ∈ st.needed, isIdentifier n.toList = false) →
      (is = [] ∧ s.QuietSince t ↔ st.OtherwiseInOrder s.table) := by
    intro hneeds
    cases st with
    | readAnalog _ name | readTime name | readMicros name | readDigital _ name | assign name _ =>
      obtain ⟨n, hn, hid⟩ := hneeds
      cases List.mem_singleton.mp hn
      exact ⟨fun _ => trivial, fun _ => dropped_of_writeTarget hs hid rfl h⟩
    | change name value =>
      obtain ⟨n, hn, hid⟩ := hneeds
      cases List.mem_singleton.mp hn
      exact compileChange_dropped_iff hs hid h
    | limit name range | random range name =>
      obtain ⟨n, hn, hid⟩ := hneeds
      cases List.mem_singleton.mp hn
      exact dropped_range_iff hid rfl rfl (fun _ => ⟨_, rfl, rfl⟩) h
    | map source fromRange toRange name => exact compileMap_dropped_iff hneeds h
    | _ =>
      obtain ⟨n, hn, -⟩ := hneeds
      cases hn
  exact ⟨fun hboth => ⟨hnamed hboth, (hrest (hnamed hboth)).mp hboth⟩,
    fun hboth => (hrest hboth.1).mpr hboth.2⟩

end
end Build

/-- Since `s`, an error was found. -/
def Session.ErrsSince (s t : Session) : Prop :=
  ∃ f ∈ t.findings.drop s.findings.length, f.isError = true

instance (s t : Session) : Decidable (s.ErrsSince t) :=
  inferInstanceAs (Decidable (∃ f ∈ t.findings.drop s.findings.length, f.isError = true))

theorem Session.not_errsSince_iff {s t : Session} : ¬ s.ErrsSince t ↔ s.QuietSince t := by
  simp [ErrsSince, QuietSince]

/-- **A statement is written or reported, but for a name that is no identifier.** Whatever was done
to the session before, a line that is read as a statement and compiled becomes lines of the sketch
or adds an error, exactly if all variables it needs have identifiers for names or something else is
wrong with it too. -/
theorem written_or_reported_iff (board : Board) (reserved : List String)
    (ops : List (Int × Operation)) (line : Int) (code : List Char) :
    let s := (Session.start board reserved).perform ops
    match Statement.ofCode? code with
    | none => True
    | some st =>
      match Build.statement line st s with
      | .ok is t => is ≠ [] ∨ s.ErrsSince t ↔
        (∀ n ∈ st.needed, Line.isIdentifier n.toList = true) ∨ ¬ st.OtherwiseInOrder s.table
      | .error _ _ => True := by
  intro s
  have hexcl : s.table.Exclusive :=
    (SymbolTable.exclusive_start board reserved).grows (Session.perform_extends _ ops).table
  split
  · trivial
  · next st _ =>
    split
    · next is t h =>
      have hiff := not_congr (Build.dropped_iff hexcl h)
      rw [← Session.not_errsSince_iff, not_and_or, not_and_or, not_not] at hiff
      simpa using hiff
    · trivial

/-- A clock reading into a word with an accent is dropped, and nothing tells of it. -/
theorem neither_written_nor_reported_accent :
    let s := Session.start .uno reservedWords
    let code := "read time into caf\u00e9".toList
    ∃ st is t, Statement.ofCode? code = some st ∧ Build.statement 1 st s = .ok is t ∧
      ¬ (is ≠ [] ∨ s.ErrsSince t) := by
  refine ⟨.readTime "caf\u00e9", [], Session.start .uno reservedWords, ?_, rfl, by decide⟩
  decide +kernel

end PlainSketch
