import PlainSketch.Proofs.SessionSteps
import PlainSketch.Symbol.Outline

/-!
# What both passes do to the symbol table

A symbol table changes in four ways only: a pin, a function or a variable is entered under a name
that is still free, or a known variable gets a wider type. Declarations, the first pass and
everything of `SessionSteps` are made of these changes, also where they stop at a fault. Findings
are only added.
-/
namespace PlainSketch

namespace SymbolTable

/-- What a word stands for as a pin: a number, an analog label in upper case, or a declared pin,
each with the kind and the number behind it. -/
inductive Resolves (t : SymbolTable) : PinTarget → PinKind → Option Int → Prop
  | number (n : Int) : Resolves t (.number n) .digital (some n)
  | label {ds : List Char} (h : Text.isNatural ds = true) :
      Resolves t (.label (String.ofList ('A' :: ds))) .analog none
  | named {p : Pin} (h : p ∈ t.pins) : Resolves t (.named p.name) p.kind p.number

/-- One change of a symbol table. -/
inductive Step (t : SymbolTable) : SymbolTable → Prop
  | pin (p : Pin) (h : t.Admits p.name) (hr : t.Resolves p.target p.kind p.number) :
      Step t (t.addPin p)
  | function (f : Function) (h : t.Admits f.name) : Step t (t.addFunction f)
  | declare (v : Variable) (h : t.Admits v.name) : Step t (t.addVariable v)
  | widen (v : Variable) (type : ValueType) (h : t.findVariable? v.name = some v) :
      Step t (t.retype v.name (v.type.widen type))

/-- Any number of changes. -/
def Grows : SymbolTable → SymbolTable → Prop := Relation.ReflTransGen Step

section
variable {t u : SymbolTable} {name : String}

theorem Grows.refl (t : SymbolTable) : t.Grows t := Relation.ReflTransGen.refl

theorem Grows.trans {v : SymbolTable} (h : t.Grows u) (h' : u.Grows v) : t.Grows v :=
  Relation.ReflTransGen.trans h h'

theorem Step.grows (h : t.Step u) : t.Grows u := Relation.ReflTransGen.single h

theorem isPin_iff : t.isPin name = true ↔ ∃ p ∈ t.pins, p.name = name := by
  simp [isPin, findPin?]

theorem isVariable_iff : t.isVariable name = true ↔ ∃ v ∈ t.vars, v.name = name := by
  simp [isVariable, findVariable?]

theorem isFunction_iff : t.isFunction name = true ↔ ∃ f ∈ t.functions, f.name = name := by
  simp [isFunction, findFunction?]

theorem retype_names (t : SymbolTable) (name : String) (type : ValueType) :
    (t.retype name type).vars.map (·.name) = t.vars.map (·.name) := by
  rw [retype, List.map_map]
  refine List.map_congr_left fun v _ => ?_
  show (if v.name == name then { v with type } else v : Variable).name = v.name
  split <;> rfl

/-- What stays as it is when a table grows: the entries there are, and the words that are
reserved. -/
structure Keeps (t u : SymbolTable) : Prop where
  board : u.board = t.board
  reserved : u.reserved = t.reserved
  pins : t.pins <+: u.pins
  vars : t.vars.map (·.name) <+: u.vars.map (·.name)
  functions : t.functions <+: u.functions

theorem Step.keeps (h : t.Step u) : t.Keeps u := by
  cases h with
  | pin p => exact ⟨rfl, rfl, ⟨[p], rfl⟩, List.prefix_rfl, List.prefix_rfl⟩
  | function f => exact ⟨rfl, rfl, List.prefix_rfl, List.prefix_rfl, ⟨[f], rfl⟩⟩
  | declare v =>
    refine ⟨rfl, rfl, List.prefix_rfl, ⟨[v.name], ?_⟩, List.prefix_rfl⟩
    simp [addVariable]
  | widen v type =>
    refine ⟨rfl, rfl, List.prefix_rfl, ?_, List.prefix_rfl⟩
    simp [retype_names]

theorem Grows.keeps (h : t.Grows u) : t.Keeps u := by
  induction h with
  | refl => exact ⟨rfl, rfl, List.prefix_rfl, List.prefix_rfl, List.prefix_rfl⟩
  | tail _ step ih =>
    have hs := step.keeps
    exact ⟨hs.board.trans ih.board, hs.reserved.trans ih.reserved, ih.pins.trans hs.pins,
      ih.vars.trans hs.vars, ih.functions.trans hs.functions⟩

theorem Grows.isPin (h : t.Grows u) (hn : t.isPin name = true) : u.isPin name = true := by
  obtain ⟨p, hp, he⟩ := isPin_iff.mp hn
  exact isPin_iff.mpr ⟨p, h.keeps.pins.subset hp, he⟩

theorem Grows.isVariable (h : t.Grows u) (hn : t.isVariable name = true) :
    u.isVariable name = true := by
  obtain ⟨v, hv, he⟩ := isVariable_iff.mp hn
  have hmem : name ∈ t.vars.map (·.name) := List.mem_map.mpr ⟨v, hv, he⟩
  exact isVariable_iff.mpr (List.mem_map.mp (h.keeps.vars.subset hmem))

theorem Resolves.grows {target : PinTarget} {kind : PinKind} {number : Option Int}
    (hr : t.Resolves target kind number) (h : t.Grows u) : u.Resolves target kind number := by
  cases hr with
  | number n => exact .number n
  | label hd => exact .label hd
  | named hp => exact .named (h.keeps.pins.subset hp)

end
end SymbolTable

namespace Session

/-- The table grows and findings are only added. -/
structure Extends (s t : Session) : Prop where
  table : s.table.Grows t.table
  findings : s.findings <+: t.findings

theorem Extends.refl (s : Session) : s.Extends s := ⟨.refl _, List.prefix_rfl⟩

theorem Extends.trans {s t u : Session} (h : s.Extends t) (h' : t.Extends u) : s.Extends u :=
  ⟨h.table.trans h'.table, h.findings.trans h'.findings⟩

theorem Step.extends {s t : Session} (h : Step s t) : s.Extends t := by
  cases h with
  | report line hp => exact ⟨.refl _, ⟨_, rfl⟩⟩
  | log e => exact ⟨.refl _, List.prefix_rfl⟩
  | declare v h => exact ⟨(SymbolTable.Step.declare v h).grows, List.prefix_rfl⟩
  | widen v type h => exact ⟨(SymbolTable.Step.widen v type h).grows, List.prefix_rfl⟩

theorem Moves.extends {s t : Session} (h : Moves s t) : s.Extends t := by
  induction h with
  | refl => exact .refl s
  | tail _ step ih => exact ih.trans step.extends

/-- Compiling lines leaves pins and functions alone. -/
theorem Moves.fixed {s t : Session} (h : Moves s t) :
    t.table.pins = s.table.pins ∧ t.table.functions = s.table.functions := by
  induction h with
  | refl => exact ⟨rfl, rfl⟩
  | tail _ step ih =>
    cases step with
    | report | log | declare | widen => exact ih

end Session

namespace Build
open Session

/-- The session that a step leads to, also when it stops. -/
def after {α : Type} (m : Build α) (s : Session) : Session :=
  match m s with
  | .ok _ t => t
  | .error _ t => t

/-- Every run extends the session. -/
def Extending {α : Type} (m : Build α) : Prop := ∀ s : Session, s.Extends (after m s)

section
variable {α β : Type} {m : Build α} {f : α → Build β}

theorem after_of_ok {s t : Session} {a : α} (h : m s = .ok a t) : after m s = t := by
  rw [after, h]

theorem Extending.ok (hm : Extending m) {s t : Session} {a : α} (h : m s = .ok a t) :
    s.Extends t := after_of_ok h ▸ hm s

theorem Elementary.extending (h : Elementary m) : Extending m := by
  intro s
  unfold after
  cases hm : m s with
  | ok a t => exact ((h s).ok hm).extends
  | error e t => exact ((h s).error hm).1.extends

theorem after_bind (m : Build α) (f : α → Build β) (s : Session) :
    after (m >>= f) s = match m s with
      | .ok a t => after (f a) t
      | .error _ t => t := by
  simp only [after, bind, EStateM.bind]
  cases m s <;> rfl

/-- What each of two steps does to the session, both do, if it can be done twice. -/
theorem after_bind_of_trans {R : Session → Session → Prop}
    (htrans : ∀ s t u, R s t → R t u → R s u) (hm : ∀ s, R s (after m s))
    (hf : ∀ a s, R s (after (f a) s)) (s : Session) : R s (after (m >>= f) s) := by
  have hs := hm s
  rw [after] at hs
  rw [after_bind]
  cases h : m s with
  | ok a t =>
    rw [h] at hs
    exact htrans s t _ hs (hf a t)
  | error e t =>
    rw [h] at hs
    exact hs

theorem Extending.bind (hm : Extending m) (hf : ∀ a, Extending (f a)) : Extending (m >>= f) :=
  after_bind_of_trans (fun _ _ _ => .trans) hm hf

theorem extending_pure (a : α) : Extending (pure a : Build α) := fun s => .refl s

end

/-! ## Pins -/

theorem isNatural_of_analogLabel? {token label : List Char}
    (h : Line.analogLabel? token = some label) :
    ∃ ds, label = 'A' :: ds ∧ Text.isNatural ds = true := by
  unfold Line.analogLabel? at h
  split at h
  · split at h
    · next hc =>
      cases h
      exact ⟨_, rfl, ((Bool.and_eq_true _ _).mp hc).2⟩
    · cases h
  · cases h

theorem ofExcept_ok {α : Type} {x : Except Fault α} {s t : Session} {a : α}
    (h : ofExcept x s = .ok a t) : x = .ok a ∧ t = s := by
  cases x with
  | ok b => cases h; exact ⟨rfl, rfl⟩
  | error e => cases h

/-- Reading a word as a pin leaves the table alone, and what it finds is a pin. -/
theorem pinOfWord_ok {token : List Char} {line : Int} {s t : Session} {r : Option PinRef}
    (h : pinOfWord token line s = .ok r t) :
    t.table = s.table ∧ ∀ ref, r = some ref → s.table.Resolves ref.target ref.kind ref.number := by
  obtain ⟨u, s', hs, h⟩ := bind_eq_ok.mp h
  cases hs
  cases hl : Line.analogLabel? token with
  | some label =>
    obtain ⟨ds, rfl, hd⟩ := isNatural_of_analogLabel? hl
    have found : ∀ ref : PinRef,
        some ⟨.label (String.ofList ('A' :: ds)), .analog, 1, none⟩ = some ref →
        s.table.Resolves ref.target ref.kind ref.number := by
      rintro ref ⟨⟩
      exact .label hd
    simp only [hl] at h
    split at h <;> (cases h; exact ⟨rfl, found⟩)
  | none =>
    simp only [hl] at h
    split at h
    · obtain ⟨n, s', hn, h⟩ := bind_eq_ok.mp h
      obtain ⟨-, rfl⟩ := ofExcept_ok hn
      have found : ∀ ref : PinRef, some ⟨.number n, .digital, 1, some n⟩ = some ref →
          s'.table.Resolves ref.target ref.kind ref.number := by
        rintro ref ⟨⟩
        exact .number n
      split at h <;> (cases h; exact ⟨rfl, found⟩)
    · cases h
      refine ⟨rfl, ?_⟩
      intro ref hr
      obtain ⟨p, hp, rfl⟩ := Option.map_eq_some_iff.mp hr
      exact .named (List.mem_of_find?_eq_some hp)

/-! ## Declarations -/

/-- The declaration was refused: the table is as before and an error says why. -/
def Refused (line : Int) (s t : Session) : Prop :=
  t.table = s.table ∧ ∃ p : Problem, p.severity = .error ∧ (⟨line, p⟩ : Finding) ∈ t.findings

section
variable {name : String} {literal : List Char} {type : ValueType} {line : Int} {s t : Session}
  {b : Bool}

theorem refuse_ok {p : Problem} (hp : p.severity = .error) (h : refuse line p s = .ok b t) :
    b = false ∧ Refused line s t := by
  cases h
  exact ⟨rfl, rfl, p, hp, by simp⟩

/-- A name that none of the checks of a declaration refuses is free. -/
theorem admits_of_checks {u : SymbolTable} (hid : ¬ (!Line.isIdentifier name.toList) = true)
    (hres : ¬ u.isReserved name = true) (hpin : ¬ u.isPin name = true)
    (hvar : ¬ u.isVariable name = true) (hfun : ¬ u.isFunction name = true) : u.Admits name :=
  ⟨by simpa using hid, by simpa using hres, by simpa using hpin, by simpa using hfun,
    by simpa using hvar⟩

theorem definePin_ok (h : definePin name literal line s = .ok b t) :
    b = false ∧ Refused line s t ∨
      b = true ∧ s.table.Admits name ∧ ∃ ref : PinRef,
        s.table.Resolves ref.target ref.kind ref.number ∧ t.table = s.table.addPin
          ⟨name, ref.target, ref.kind, String.ofList literal, line, ref.number⟩ := by
  obtain ⟨u, s', hs, h⟩ := bind_eq_ok.mp h
  cases hs
  split at h
  · exact .inl (refuse_ok rfl h)
  split at h
  · exact .inl (refuse_ok rfl h)
  split at h
  · exact .inl (refuse_ok rfl h)
  split at h
  · exact .inl (refuse_ok rfl h)
  split at h
  · exact .inl (refuse_ok rfl h)
  next hid hres hvar hfun hpin =>
  obtain ⟨r, s', hr, h⟩ := bind_eq_ok.mp h
  obtain ⟨htable, hfound⟩ := pinOfWord_ok hr
  cases r with
  | none =>
    obtain ⟨hb, hrefused, herror⟩ := refuse_ok rfl h
    exact .inl ⟨hb, hrefused.trans htable, herror⟩
  | some ref =>
    cases h
    exact .inr ⟨rfl, admits_of_checks hid hres hpin hvar hfun, ref, hfound ref rfl, rfl⟩

theorem definePin_extending (name : String) (literal : List Char) (line : Int) :
    Extending (definePin name literal line) := by
  intro s
  have refused : ∀ {p : Problem}, p.isStructural = false → s.Extends (after (refuse line p) s) :=
    fun hp => (refuse_elementary line hp).extending s
  show s.Extends (after (if _ then _ else _) s)
  split
  · exact refused rfl
  split
  · exact refused rfl
  split
  · exact refused rfl
  split
  · exact refused rfl
  split
  · exact refused rfl
  next hid hres hvar hfun hpin =>
  have hs := (pinOfWord_elementary literal line).extending s
  rw [after] at hs
  rw [after_bind]
  cases hr : pinOfWord literal line s with
  | error e t =>
    rw [hr] at hs
    exact hs
  | ok r t =>
    rw [hr] at hs
    obtain ⟨htable, hfound⟩ := pinOfWord_ok hr
    cases r with
    | none => exact hs.trans ((refuse_elementary line rfl).extending t)
    | some ref =>
      have hgrows : s.table.Grows (s.table.addPin _) :=
        (SymbolTable.Step.pin ⟨name, ref.target, ref.kind, String.ofList literal, line, ref.number⟩
          (admits_of_checks hid hres hpin hvar hfun) (hfound ref rfl)).grows
      exact ⟨hgrows, hs.findings⟩

theorem defineFunction_ok (h : defineFunction name line s = .ok b t) :
    b = false ∧ Refused line s t ∨
      b = true ∧ s.table.Admits name ∧ t.table = s.table.addFunction ⟨name, line⟩ := by
  obtain ⟨u, s', hs, h⟩ := bind_eq_ok.mp h
  cases hs
  split at h
  · exact .inl (refuse_ok rfl h)
  split at h
  · exact .inl (refuse_ok rfl h)
  split at h
  · exact .inl (refuse_ok rfl h)
  split at h
  · exact .inl (refuse_ok rfl h)
  split at h
  · exact .inl (refuse_ok rfl h)
  next hid hres hpin hvar hfun =>
  cases h
  exact .inr ⟨rfl, admits_of_checks hid hres hpin hvar hfun, rfl⟩

theorem defineFunction_extending (name : String) (line : Int) :
    Extending (defineFunction name line) := by
  intro s
  have refused : ∀ {p : Problem}, p.isStructural = false → s.Extends (after (refuse line p) s) :=
    fun hp => (refuse_elementary line hp).extending s
  show s.Extends (after (if _ then _ else _) s)
  split
  · exact refused rfl
  split
  · exact refused rfl
  split
  · exact refused rfl
  split
  · exact refused rfl
  split
  · exact refused rfl
  next hid hres hpin hvar hfun =>
  have hadm := admits_of_checks hid hres hpin hvar hfun
  exact ⟨(SymbolTable.Step.function ⟨name, line⟩ hadm).grows, List.prefix_rfl⟩

/-- A variable that is refused leaves the table as it was, without a word only if it has no name at
all; one that is accepted is a variable from then on. -/
theorem observeVariable_ok (h : observeVariable name type line s = .ok b t) :
    b = false ∧ t.table = s.table ∧
        (Line.isIdentifier name.toList = false ∨ Refused line s t) ∨
      b = true ∧ t.table.isVariable name = true := by
  have hext := (observeVariable_elementary name type line).extending.ok h
  obtain ⟨u, s', hs, h⟩ := bind_eq_ok.mp h
  cases hs
  have refused : ∀ {p : Problem}, p.severity = .error → refuse line p s = .ok b t →
      b = false ∧ t.table = s.table ∧
        (Line.isIdentifier name.toList = false ∨ Refused line s t) := by
    intro p hp hr
    obtain ⟨hb, hrefused⟩ := refuse_ok hp hr
    exact ⟨hb, hrefused.1, .inr hrefused⟩
  split at h
  · next hid =>
    cases h
    exact .inl ⟨rfl, rfl, .inl (by simpa using hid)⟩
  split at h
  · exact .inl (refused rfl h)
  split at h
  · exact .inl (refused rfl h)
  split at h
  · exact .inl (refused rfl h)
  -- The name is free or a variable already, and a variable it is afterwards.
  refine .inr ?_
  cases hv : s.table.findVariable? name with
  | none =>
    rw [hv] at h
    cases h
    refine ⟨rfl, SymbolTable.isVariable_iff.mpr ⟨⟨name, type, line⟩, ?_, rfl⟩⟩
    simp [SymbolTable.addVariable]
  | some v =>
    rw [hv] at h
    obtain ⟨_, s', -, h⟩ := bind_eq_ok.mp h
    cases h
    refine ⟨rfl, hext.table.isVariable ?_⟩
    rw [SymbolTable.isVariable, hv]
    rfl

end

/-! ## The first pass -/

theorem seed_elementary (name : String) (type : ValueType) (line : Int) :
    Elementary (seed name type line) := by
  refine elementary_table fun s => ?_
  split
  · exact Moves.refl s
  · exact ((observeVariable_elementary name type line).bind fun _ => elementary_pure ()) s

/-- What the first pass does at a line to the session, and the depth after it. -/
inductive OutlineAct (depth : Nat) (line : Int) : OutlineLine → Build Unit → Nat → Prop
  | opener : OutlineAct depth line .opener (pure ()) (depth + 1)
  | closer : OutlineAct depth line .closer (pure ()) (depth - 1)
  | neutral : OutlineAct depth line .neutral (pure ()) depth
  | other : OutlineAct depth line .other (pure ()) depth
  | function (name : String) (hd : depth = 0) :
      OutlineAct depth line (.function name) (defineFunction name line >>= fun _ => pure ())
        (depth + 1)
  | innerFunction (name : String) (hd : depth ≠ 0) :
      OutlineAct depth line (.function name) (pure ()) (depth + 1)
  | pin (name : String) (value : List Char) :
      OutlineAct depth line (.pin (some (name, value)))
        (definePin name value line >>= fun _ => pure ()) depth
  | pinAssignment (name : String) (value : List Char) :
      OutlineAct depth line (.pinAssignment name value)
        (definePin name value line >>= fun _ => pure ()) depth
  | pinRefused (parts : Option (String × List Char)) {p : Problem} (hp : p.severity = .error)
      (hs : p.isStructural = false) : OutlineAct depth line (.pin parts) (report line p) depth
  | assignmentRefused (name : String) (value : List Char) {p : Problem}
      (hp : p.severity = .error) (hs : p.isStructural = false) :
      OutlineAct depth line (.pinAssignment name value) (report line p) depth
  | writes (name : String) (type : ValueType) :
      OutlineAct depth line (.writes name type) (seed name type line) depth

theorem outlineLine_acts (depth : Nat) (line : Int) (c : OutlineLine) :
    ∃ m d, OutlineAct depth line c m d ∧ outlineLine depth line c = m >>= fun _ => pure d := by
  have dropped : ∀ {α : Type} (m : Build α) (d : Nat),
      (m >>= fun _ => pure d) = (m >>= fun _ => pure ()) >>= fun _ => pure d := by
    intro α m d
    rw [bind_assoc]
    rfl
  cases c with
  | opener => exact ⟨_, _, .opener, rfl⟩
  | closer => exact ⟨_, _, .closer, rfl⟩
  | neutral => exact ⟨_, _, .neutral, rfl⟩
  | other => exact ⟨_, _, .other, rfl⟩
  | function name =>
    by_cases hd : depth = 0
    · refine ⟨_, _, .function name hd, ?_⟩
      rw [← dropped]
      simp only [outlineLine, hd]
      rfl
    · refine ⟨_, _, .innerFunction name hd, ?_⟩
      simp only [outlineLine, beq_iff_eq, hd, if_false]
      rfl
  | pin parts =>
    simp only [outlineLine]
    split
    · exact ⟨_, _, .pinRefused parts rfl rfl, rfl⟩
    · cases parts with
      | none => exact ⟨_, _, .pinRefused none rfl rfl, rfl⟩
      | some p => exact ⟨_, _, .pin p.1 p.2, dropped _ _⟩
  | pinAssignment name value =>
    simp only [outlineLine]
    split
    · exact ⟨_, _, .assignmentRefused name value rfl rfl, rfl⟩
    · exact ⟨_, _, .pinAssignment name value, dropped _ _⟩
  | writes name type => exact ⟨_, _, .writes name type, rfl⟩

theorem outlineLine_ok {depth d : Nat} {line : Int} {c : OutlineLine} {s t : Session}
    (h : outlineLine depth line c s = .ok d t) :
    ∃ m, OutlineAct depth line c m d ∧ m s = .ok () t := by
  obtain ⟨m, e, hact, he⟩ := outlineLine_acts depth line c
  rw [he] at h
  obtain ⟨_, u, hm, hpure⟩ := bind_eq_ok.mp h
  cases hpure
  exact ⟨m, hact, hm⟩

theorem outlineLine_extending (depth : Nat) (line : Int) (c : OutlineLine) :
    Extending (outlineLine depth line c) := by
  obtain ⟨m, d, hact, he⟩ := outlineLine_acts depth line c
  rw [he]
  refine Extending.bind ?_ fun _ => extending_pure d
  cases hact with
  | opener | closer | neutral | other | innerFunction => exact extending_pure ()
  | function name => exact (defineFunction_extending name line).bind fun _ => extending_pure ()
  | pin name value | pinAssignment name value =>
    exact (definePin_extending name value line).bind fun _ => extending_pure ()
  | pinRefused _ _ hs | assignmentRefused _ _ _ hs => exact (report_elementary line hs).extending
  | writes name type => exact (seed_elementary name type line).extending

theorem outlineFrom_extending (depth : Nat) (ls : List (Int × List Char)) :
    Extending (outlineFrom depth ls) := by
  induction ls generalizing depth with
  | nil => exact extending_pure depth
  | cons l ls ih => exact (outlineLine_extending depth l.1 _).bind fun d => ih d

theorem outline_extending (lines : List (List Char)) : Extending (outline lines) := by
  refine (outlineFrom_extending 0 _).bind fun _ => ?_
  exact table_elementary.extending.bind fun t => (log_elementary _).extending

end Build
end PlainSketch
