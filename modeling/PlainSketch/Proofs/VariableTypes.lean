import PlainSketch.Proofs.FunctionBodies

/-!
# Types of variables along a run

What the steps of both passes do to the types in a symbol table. A variable that is used at a type
gets the wider of that type and its own; a plain mention or a write takes a known variable as it is.
Which names may be variables depends on the words that are reserved, the pins and the functions
only, and a use of one of these names is never an error.
-/
namespace PlainSketch
open Session

namespace ValueType

theorem rank_le_widen_left (t u : ValueType) : t.rank ≤ (t.widen u).rank := by
  unfold widen
  split
  · omega
  · exact Nat.le_refl _

theorem rank_le_widen_right (t u : ValueType) : u.rank ≤ (t.widen u).rank := by
  unfold widen
  split
  · exact Nat.le_refl _
  · omega

/-- The type of a variable, if it is one already, after a use at some type. -/
def join : Option ValueType → ValueType → ValueType
  | none, type => type
  | some before, type => before.widen type

theorem rank_le_join (before : Option ValueType) (type : ValueType) :
    type.rank ≤ (join before type).rank := by
  cases before with
  | none => exact Nat.le_refl _
  | some before => exact rank_le_widen_right before type

end ValueType

namespace SymbolTable

/-- The type of a variable. -/
def typeOf? (t : SymbolTable) (name : String) : Option ValueType :=
  (t.findVariable? name).map (·.type)

/-- A name that is a variable or may become one. -/
def Allows (t : SymbolTable) (name : String) : Prop :=
  Line.isIdentifier name.toList = true ∧ t.isReserved name = false ∧ t.isPin name = false ∧
    t.isFunction name = false

/-- The name is a variable of a type at least this wide. -/
def Covers (t : SymbolTable) (name : String) (type : ValueType) : Prop :=
  ∃ u ∈ t.typeOf? name, type.rank ≤ u.rank

instance (t : SymbolTable) (name : String) (type : ValueType) : Decidable (t.Covers name type) :=
  inferInstanceAs (Decidable (∃ u ∈ t.typeOf? name, type.rank ≤ u.rank))

/-- All stays but the type of one variable, which may be new. -/
structure Retypes (t : SymbolTable) (name : String) (type : ValueType) (u : SymbolTable) :
    Prop where
  board : u.board = t.board
  reserved : u.reserved = t.reserved
  pins : u.pins = t.pins
  functions : u.functions = t.functions
  self : u.typeOf? name = some type
  others : ∀ m, m ≠ name → u.typeOf? m = t.typeOf? m

section
variable {t u : SymbolTable} {name : String} {type : ValueType}

theorem isVariable_eq_typeOf? (t : SymbolTable) (name : String) :
    t.isVariable name = (t.typeOf? name).isSome := by
  rw [isVariable, typeOf?, Option.isSome_map]

theorem admits_iff : t.Admits name ↔ t.Allows name ∧ t.isVariable name = false := by
  simp only [Admits, Allows, and_assoc]

theorem typeOf?_retype (t : SymbolTable) (name : String) (type : ValueType) (m : String) :
    (t.retype name type).typeOf? m =
      if m = name then (t.typeOf? m).map fun _ => type else t.typeOf? m := by
  have hname : ((fun v : Variable => v.name == m) ∘ fun v : Variable =>
      if v.name == name then { v with type } else v) = fun v => v.name == m := by
    funext v
    simp only [Function.comp_apply]
    split <;> rfl
  simp only [typeOf?, findVariable?, retype, List.find?_map, hname, Option.map_map]
  cases hv : t.vars.find? (·.name == m) with
  | none => simp
  | some v =>
    have hm : v.name = m := by simpa using List.find?_some hv
    simp only [Option.map_some, Function.comp_apply, hm, beq_iff_eq]
    split <;> rfl

theorem typeOf?_addVariable (t : SymbolTable) (v : Variable) (m : String) :
    (t.addVariable v).typeOf? m =
      ((t.typeOf? m).or (if v.name = m then some v.type else none)) := by
  simp only [typeOf?, findVariable?, addVariable, List.find?_append]
  cases t.vars.find? (·.name == m) with
  | some w => rfl
  | none =>
    by_cases h : v.name = m
    · simp [h]
    · simp [h]

theorem Step.covers (h : t.Step u) (hc : t.Covers name type) : u.Covers name type := by
  obtain ⟨σ, hσ, hrank⟩ := hc
  cases h with
  | pin p | function f => exact ⟨σ, hσ, hrank⟩
  | declare v =>
    refine ⟨σ, ?_, hrank⟩
    rw [typeOf?_addVariable, hσ]
    rfl
  | widen v wider hv =>
    have hv' : t.typeOf? v.name = some v.type := by rw [typeOf?, hv]; rfl
    by_cases hn : name = v.name
    · subst hn
      rw [hv'] at hσ
      cases hσ
      refine ⟨v.type.widen wider, ?_, Nat.le_trans hrank (ValueType.rank_le_widen_left _ _)⟩
      rw [typeOf?_retype, if_pos rfl, hv']
      rfl
    · refine ⟨σ, ?_, hrank⟩
      rw [typeOf?_retype, if_neg hn]
      exact hσ

/-- Types only get wider. -/
theorem Grows.covers (h : t.Grows u) (hc : t.Covers name type) : u.Covers name type := by
  induction h with
  | refl => exact hc
  | tail _ step ih => exact step.covers ih

/-- Names that may not be variables stay so. -/
theorem Grows.allows (h : t.Grows u) (hu : u.Allows name) : t.Allows name := by
  obtain ⟨hid, hres, hpin, hfun⟩ := hu
  refine ⟨hid, ?_, ?_, ?_⟩
  · rwa [isReserved, h.keeps.reserved] at hres
  · rw [Bool.eq_false_iff] at hpin ⊢
    exact fun hp => hpin (h.isPin hp)
  · rw [Bool.eq_false_iff] at hfun ⊢
    intro hf
    obtain ⟨f, hmem, he⟩ := isFunction_iff.mp hf
    exact hfun (isFunction_iff.mpr ⟨f, h.keeps.functions.subset hmem, he⟩)

/-- A variable has a name that variables may have. -/
theorem Exclusive.allows (h : t.Exclusive) (hv : t.isVariable name = true) : t.Allows name := by
  have hmem : name ∈ t.names := mem_names.mpr (.inr (.inl hv))
  obtain ⟨v, hv, he⟩ := isVariable_iff.mp hv
  have hvar : name ∈ t.vars.map (·.name) := List.mem_map.mpr ⟨v, hv, he⟩
  obtain ⟨-, hrest, hpin⟩ := List.nodup_append.mp h.nodup
  obtain ⟨-, -, hfun⟩ := List.nodup_append.mp hrest
  refine ⟨h.identifiers name hmem, by simpa [isReserved] using h.unreserved name hmem, ?_, ?_⟩
  · rw [Bool.eq_false_iff]
    intro hp
    obtain ⟨p, hp, he⟩ := isPin_iff.mp hp
    exact hpin _ (List.mem_map.mpr ⟨p, hp, he⟩) _ (List.mem_append_left _ hvar) rfl
  · rw [Bool.eq_false_iff]
    intro hf
    obtain ⟨f, hf, he⟩ := isFunction_iff.mp hf
    exact hfun _ hvar _ (List.mem_map.mpr ⟨f, hf, he⟩) rfl

end
end SymbolTable

/-! ## Uses of a variable -/

namespace Build
open SymbolTable

section
variable {name : String} {type : ValueType} {line : Int} {s : Session}

theorem not_accepted_reported {s : Session} {line : Int} {p : Problem} (hp : p.severity = .error) :
    ¬ (s.reported line p).Accepted := by
  intro hacc
  have hmem : (⟨line, p⟩ : Finding) ∈ (s.reported line p).findings := by simp [reported]
  exact hacc.severity hmem hp

theorem accepted_of_warning {s t : Session} {f : Finding} (hf : f.isError = false)
    (h : t.findings = s.findings ++ [f]) (hs : s.Accepted) : t.Accepted := by
  intro g hg
  rw [h] at hg
  rcases List.mem_append.mp hg with hg | hg
  · exact hs g hg
  · rw [List.mem_singleton.mp hg]
    exact hf

/-- Widening a variable leads to the wider type. A change between text and number is reported, and
that is no error. -/
theorem widenVariable_eq (v : Variable) (type : ValueType) (line : Int) (s : Session) :
    ∃ t, widenVariable v type line s = .ok () t ∧ (s.Accepted → t.Accepted) ∧
      t.table = if v.type.widen type ≠ v.type then s.table.retype v.name (v.type.widen type)
        else s.table := by
  have widened : ∀ u : Session, ∃ t, (if v.type.widen type ≠ v.type then do
      log (.variableWidened line v.name v.type (v.type.widen type))
      setTable ((← table).retype v.name (v.type.widen type)) else pure ()) u = .ok () t ∧
      t.findings = u.findings ∧ t.table = if v.type.widen type ≠ v.type then
        u.table.retype v.name (v.type.widen type) else u.table := by
    intro u
    split
    · exact ⟨_, rfl, rfl, rfl⟩
    · exact ⟨u, rfl, rfl, rfl⟩
  unfold widenVariable
  split
  · obtain ⟨t, ht, hf, htable⟩ := widened (s.reported line (.typeChanged v.name v.type type))
    refine ⟨t, ht, ?_, htable⟩
    exact accepted_of_warning (f := ⟨line, .typeChanged v.name v.type type⟩) rfl hf
  · obtain ⟨t, ht, hf, htable⟩ := widened s
    exact ⟨t, ht, fun hs f hmem => hs f (hf ▸ hmem), htable⟩

/-- A name that may be a variable is one after its use, as wide as the use asks. -/
theorem observeVariable_of_allows (h : s.table.Allows name) (type : ValueType) (line : Int) :
    ∃ t, observeVariable name type line s = .ok true t ∧ (s.Accepted → t.Accepted) ∧
      s.table.Retypes name (ValueType.join (s.table.typeOf? name) type) t.table := by
  obtain ⟨hid, hres, hpin, hfun⟩ := h
  rw [observeVariable, table_bind]
  simp only [hid, hres, hpin, hfun, Bool.not_true, Bool.false_eq_true, if_false]
  cases hv : s.table.findVariable? name with
  | none =>
    have htype : s.table.typeOf? name = none := by rw [typeOf?, hv]; rfl
    refine ⟨_, rfl, id, ?_⟩
    rw [htype]
    refine ⟨rfl, rfl, rfl, rfl, ?_, fun m hm => ?_⟩
    · exact (typeOf?_addVariable _ ⟨name, type, line⟩ name).trans (by rw [htype, if_pos rfl]; rfl)
    · exact (typeOf?_addVariable _ ⟨name, type, line⟩ m).trans
        (by rw [if_neg (fun he => hm he.symm), Option.or_none])
  | some v =>
    have hname := findVariable?_name hv
    have htype : s.table.typeOf? name = some v.type := by rw [typeOf?, hv]; rfl
    obtain ⟨t, ht, hacc, htable⟩ := widenVariable_eq v type line s
    refine ⟨t, bind_eq_ok.mpr ⟨(), t, ht, rfl⟩, hacc, ?_⟩
    rw [htype, htable]
    split
    · refine ⟨rfl, rfl, rfl, rfl, ?_, fun m hm => ?_⟩
      · rw [typeOf?_retype, if_pos hname.symm, htype]
        rfl
      · rw [typeOf?_retype, if_neg (by rwa [hname])]
    · next hsame =>
      have hwide : v.type.widen type = v.type := by simpa using hsame
      exact ⟨rfl, rfl, rfl, rfl, by rw [htype, ValueType.join, hwide], fun _ _ => rfl⟩

/-- A name that may not be a variable is refused; that is an error if it is a name at all. -/
theorem observeVariable_of_not_allows (h : ¬ s.table.Allows name) (type : ValueType) (line : Int) :
    ∃ t, observeVariable name type line s = .ok false t ∧ t.table = s.table ∧
      (Line.isIdentifier name.toList = false ∧ t = s ∨ ¬ t.Accepted) := by
  have refused : ∀ p : Problem, p.severity = .error →
      ∃ t, refuse line p s = .ok false t ∧ t.table = s.table ∧
        (Line.isIdentifier name.toList = false ∧ t = s ∨ ¬ t.Accepted) := by
    intro p hp
    exact ⟨s.reported line p, rfl, rfl, .inr (not_accepted_reported hp)⟩
  rw [observeVariable, table_bind]
  split
  · next hid => exact ⟨s, rfl, rfl, .inl ⟨by simpa using hid, rfl⟩⟩
  split
  · exact refused (.reservedVariable name) rfl
  split
  · exact refused (.variableIsPin name) rfl
  split
  · exact refused (.variableIsFunction name) rfl
  next hid hres hpin hfun =>
  exact absurd ⟨by simpa using hid, by simpa using hres, by simpa using hpin, by simpa using hfun⟩ h

end
end Build
end PlainSketch
