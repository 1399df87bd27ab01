import Mathlib.Data.List.Nodup
import PlainSketch.Proofs.WrittenLines

/-!
# One space of names

Pins, variables and functions share one space of names: no name stands for two of them, none is a
reserved word, and all are identifiers. This holds of every table that declarations, the first pass
and compiled lines can lead to, in whatever order they come and also where one of them stops at a
fault. The names that a sketch declares are therefore all different.
-/
namespace PlainSketch

namespace SymbolTable

/-- The names of all entries. -/
def names (t : SymbolTable) : List String :=
  t.pins.map (·.name) ++ (t.vars.map (·.name) ++ t.functions.map (·.name))

/-- Every name stands for one thing only, and may stand for it. -/
structure Exclusive (t : SymbolTable) : Prop where
  nodup : t.names.Nodup
  identifiers : ∀ n ∈ t.names, Line.isIdentifier n.toList = true
  unreserved : ∀ n ∈ t.names, n ∉ t.reserved

section
variable {t u : SymbolTable} {n : String}

theorem mem_names :
    n ∈ t.names ↔ t.isPin n = true ∨ t.isVariable n = true ∨ t.isFunction n = true := by
  simp only [names, List.mem_append, List.mem_map, isPin_iff, isVariable_iff, isFunction_iff]

theorem Admits.not_mem_names (h : t.Admits n) : n ∉ t.names := by
  obtain ⟨-, -, hp, hf, hv⟩ := h
  simp [mem_names, hp, hf, hv]

/-- A change adds one free name or none. -/
theorem Step.names (h : t.Step u) :
    u.reserved = t.reserved ∧
      (u.names = t.names ∨ ∃ n, t.Admits n ∧ u.names.Perm (n :: t.names)) := by
  refine ⟨h.keeps.reserved, ?_⟩
  cases h with
  | pin p hp =>
    refine .inr ⟨p.name, hp, ?_⟩
    simp only [SymbolTable.names, addPin, List.map_append, List.map_cons, List.map_nil,
      List.append_assoc, List.cons_append, List.nil_append]
    exact List.perm_middle
  | function f hf =>
    refine .inr ⟨f.name, hf, ?_⟩
    simp only [SymbolTable.names, addFunction, List.map_append, List.map_cons, List.map_nil,
      ← List.append_assoc]
    exact List.perm_append_singleton _ _
  | declare v hv =>
    refine .inr ⟨v.name, hv, ?_⟩
    simp only [SymbolTable.names, addVariable, List.map_append, List.map_cons, List.map_nil,
      List.append_assoc, List.cons_append, List.nil_append]
    rw [← List.append_assoc, ← List.append_assoc]
    exact List.perm_middle
  | widen v type =>
    refine .inl ?_
    rw [SymbolTable.names, retype_names]
    rfl

theorem Exclusive.step (h : t.Exclusive) (step : t.Step u) : u.Exclusive := by
  obtain ⟨hres, hnames | ⟨n, hn, hperm⟩⟩ := step.names
  · exact ⟨hnames ▸ h.nodup, hnames ▸ h.identifiers, hnames ▸ hres ▸ h.unreserved⟩
  · refine ⟨?_, ?_, ?_⟩
    · exact hperm.nodup_iff.mpr (List.nodup_cons.mpr ⟨hn.not_mem_names, h.nodup⟩)
    · intro m hm
      rcases List.mem_cons.mp (hperm.subset hm) with rfl | hm
      · exact hn.1
      · exact h.identifiers m hm
    · intro m hm
      rw [hres]
      rcases List.mem_cons.mp (hperm.subset hm) with rfl | hm
      · simpa [isReserved] using hn.2.1
      · exact h.unreserved m hm

theorem Exclusive.grows (h : t.Exclusive) (hg : t.Grows u) : u.Exclusive := by
  induction hg with
  | refl => exact h
  | tail _ step ih => exact ih.step step

theorem exclusive_start (board : Board) (reserved : List String) :
    (Session.start board reserved).table.Exclusive :=
  ⟨List.nodup_nil, nofun, nofun⟩

/-- Where keys do not repeat, looking up a key finds the entry that has it. -/
theorem find?_key_eq_some_iff {α : Type} {key : α → String} {l : List α} (h : (l.map key).Nodup)
    {k : String} {x : α} : l.find? (key · == k) = some x ↔ x ∈ l ∧ key x = k := by
  constructor
  · intro hx
    exact ⟨List.mem_of_find?_eq_some hx, by simpa using List.find?_some hx⟩
  · rintro ⟨hx, rfl⟩
    cases hf : l.find? (key · == key x) with
    | none => simpa using List.find?_eq_none.mp hf x hx
    | some y =>
      have hy : key y = key x := by simpa using List.find?_some hf
      rw [List.inj_on_of_nodup_map h (List.mem_of_find?_eq_some hf) hx hy]

theorem Exclusive.pins (h : t.Exclusive) : (t.pins.map (·.name)).Nodup := h.nodup.of_append_left

theorem Exclusive.vars (h : t.Exclusive) : (t.vars.map (·.name)).Nodup :=
  h.nodup.of_append_right.of_append_left

theorem Exclusive.functions (h : t.Exclusive) : (t.functions.map (·.name)).Nodup :=
  h.nodup.of_append_right.of_append_right

end
end SymbolTable

/-! ## Sequences of operations -/

/-- What may be done to a session before and between compiled lines. -/
inductive Operation where
  | definePin (name : String) (literal : List Char)
  | defineFunction (name : String)
  | observe (name : String) (type : ValueType)
  | mention (name : String)
  | readPin (token : List Char)
  | resolvePin (words : List (List Char))
  | expression (text : List Char)
  | condition (text : List Char)
  | outlineLine (depth : Nat) (code : List Char)
  | outline (lines : List (List Char))
  | statement (st : Statement)
deriving DecidableEq, Repr

namespace Operation

/-- The operation, at a line; what it answers is dropped. -/
def act (line : Int) : Operation → Build Unit
  | definePin name literal => do let _ ← Build.definePin name literal line
  | defineFunction name => do let _ ← Build.defineFunction name line
  | observe name type => do let _ ← Build.observeVariable name type line
  | mention name => do let _ ← Build.mention name line
  | readPin token => do let _ ← Build.pinOfWord token line
  | resolvePin words => do let _ ← Build.resolvePin words line
  | expression text => do let _ ← Build.expression text line
  | condition text => do let _ ← Build.condition text line
  | outlineLine depth code => do let _ ← Build.outlineLine depth line (OutlineLine.ofCode code)
  | outline lines => Build.outline lines
  | statement st => do let _ ← Build.statement line st

theorem act_extending (line : Int) (op : Operation) : Build.Extending (op.act line) := by
  have dropping : ∀ {α : Type} {m : Build α}, Build.Extending m →
      Build.Extending (do let _ ← m) := fun hm => hm.bind fun _ => Build.extending_pure ()
  cases op with
  | definePin name literal => exact dropping (Build.definePin_extending name literal line)
  | defineFunction name => exact dropping (Build.defineFunction_extending name line)
  | observe name type => exact dropping (Build.observeVariable_elementary name type line).extending
  | mention name => exact dropping (Build.mention_elementary name line).extending
  | readPin token => exact dropping (Build.pinOfWord_elementary token line).extending
  | resolvePin words => exact dropping (Build.resolvePin_elementary words line).extending
  | expression text => exact dropping (Build.expression_elementary text line).extending
  | condition text => exact dropping (Build.condition_elementary text line).extending
  | outlineLine depth code => exact dropping (Build.outlineLine_extending depth line _)
  | outline lines => exact Build.outline_extending lines
  | statement st => exact dropping (Build.statement_elementary line st).extending

end Operation

/-- The session after some operations, each at its line. What an operation did before a fault
stays, and the next one goes on from there. -/
def Session.perform (s : Session) (ops : List (Int × Operation)) : Session :=
  ops.foldl (fun s op => Build.after (op.2.act op.1) s) s

theorem Session.perform_extends (s : Session) (ops : List (Int × Operation)) :
    s.Extends (s.perform ops) := by
  induction ops generalizing s with
  | nil => exact .refl s
  | cons op ops ih => exact (op.2.act_extending op.1 s).trans (ih _)

/-! ## Declarations -/

namespace Build

/-- Everything that may enter a name into the table and answers whether the name is there now. -/
def declarations (name : String) (literal : List Char) (type : ValueType) (line : Int) :
    List (Build Bool) :=
  [definePin name literal line, defineFunction name line, observeVariable name type line,
   mention name line, writeTarget name type line]

section
variable {name : String} {type : ValueType} {line : Int} {s t : Session} {b : Bool}

theorem declares_of_observeVariable (h : observeVariable name type line s = .ok b t) :
    if b then name ∈ t.table.names else t.table = s.table := by
  rcases observeVariable_ok h with ⟨rfl, htable, -⟩ | ⟨rfl, hvar⟩
  · exact htable
  · exact SymbolTable.mem_names.mpr (.inr (.inl hvar))

/-- A declaration that answers no leaves the table as it was; after one that answers yes, the name
is in it. -/
theorem declarations_ok {literal : List Char} {m : Build Bool}
    (hm : m ∈ declarations name literal type line) (h : m s = .ok b t) :
    if b then name ∈ t.table.names else t.table = s.table := by
  simp only [declarations, List.mem_cons, List.not_mem_nil, or_false] at hm
  rcases hm with rfl | rfl | rfl | rfl | rfl
  · rcases definePin_ok h with ⟨rfl, hrefused, -⟩ | ⟨rfl, -, ref, -, htable⟩
    · exact hrefused
    · rw [if_pos rfl, htable]
      simp [SymbolTable.names, SymbolTable.addPin]
  · rcases defineFunction_ok h with ⟨rfl, hrefused, -⟩ | ⟨rfl, -, htable⟩
    · exact hrefused
    · rw [if_pos rfl, htable]
      simp [SymbolTable.names, SymbolTable.addFunction]
  · exact declares_of_observeVariable h
  · obtain ⟨u, s', hs, h⟩ := bind_eq_ok.mp h
    cases hs
    split at h
    · next hknown =>
      cases h
      rw [if_pos rfl, SymbolTable.mem_names]
      rcases Bool.or_eq_true_iff.mp hknown with hp | hv
      · exact .inl hp
      · exact .inr (.inl hv)
    · exact declares_of_observeVariable h
  · obtain ⟨u, s', hs, h⟩ := bind_eq_ok.mp h
    cases hs
    split at h
    · next hknown =>
      cases h
      exact SymbolTable.mem_names.mpr (.inr (.inl hknown))
    · exact declares_of_observeVariable h

end
end Build

/-! ## The names of a sketch -/

/-- The names that a sketch declares: a prototype for each function, constants for the pins, the
variables, and the two functions that every sketch has. -/
def Sketch.declaredNames {α : Type} (s : Sketch α) (t : SymbolTable) : List String :=
  s.functions.map Prod.fst ++ (t.pins.map (·.name) ++ (t.vars.map (·.name) ++ ["setup", "loop"]))

/-- A sketch declares no name twice if its functions are functions of the table, each once. -/
theorem Sketch.declaredNames_nodup {α : Type} {s : Sketch α} {t : SymbolTable} (ht : t.Exclusive)
    (hres : t.reserved = reservedWords) (hs : (s.functions.map Prod.fst).Nodup)
    (hsub : ∀ n ∈ s.functions.map Prod.fst, t.isFunction n = true) :
    (s.declaredNames t).Nodup := by
  obtain ⟨hpins, hrest, hpin⟩ := List.nodup_append.mp ht.nodup
  obtain ⟨hvars, -, hvar⟩ := List.nodup_append.mp hrest
  have hfun : ∀ n ∈ s.functions.map Prod.fst, n ∈ t.functions.map (·.name) := by
    intro n hn
    obtain ⟨f, hf, he⟩ := SymbolTable.isFunction_iff.mp (hsub n hn)
    exact List.mem_map.mpr ⟨f, hf, he⟩
  have hword : ∀ w ∈ ["setup", "loop"], w ∉ t.names := by
    intro w hw hn
    refine ht.unreserved w hn (hres ▸ ?_)
    simp only [List.mem_cons, List.not_mem_nil, or_false] at hw
    rcases hw with rfl | rfl <;> decide
  have apart : ∀ {l : List String}, (∀ n ∈ l, n ∈ t.names) → ∀ n ∈ l, ∀ w ∈ ["setup", "loop"],
      n ≠ w := by
    rintro l hl n hn w hw rfl
    exact hword n hw (hl n hn)
  rw [declaredNames, List.nodup_append, List.nodup_append, List.nodup_append]
  refine ⟨hs, ⟨hpins, ⟨hvars, by decide, apart ?_⟩, ?_⟩, ?_⟩
  · exact fun n hn => List.mem_append_right _ (List.mem_append_left _ hn)
  · intro n hn m hm
    rcases List.mem_append.mp hm with hm | hm
    · exact hpin n hn m (List.mem_append_left _ hm)
    · exact apart (fun n hn => List.mem_append_left _ hn) n hn m hm
  · intro n hn m hm
    rcases List.mem_append.mp hm with hm | hm
    · exact (hpin m hm n (List.mem_append_right _ (hfun n hn))).symm
    · rcases List.mem_append.mp hm with hm | hm
      · exact (hvar m hm n (hfun n hn)).symm
      · refine apart (fun n hn => ?_) n hn m hm
        exact List.mem_append_right _ (List.mem_append_right _ (hfun n hn))

/-- Whatever is done to a session, its table keeps the three kinds of symbols apart and finds every
entry by its name; declarations that are refused change nothing. With the words that are reserved
by default, the names that a sketch declares are all different. -/
theorem namespaces_exclusive (board : Board) (reserved : List String)
    (ops : List (Int × Operation)) :
    let t := ((Session.start board reserved).perform ops).table
    (t.reserved = reserved ∧ t.Exclusive) ∧
    ((∀ n p, t.findPin? n = some p ↔ p ∈ t.pins ∧ p.name = n) ∧
      (∀ n v, t.findVariable? n = some v ↔ v ∈ t.vars ∧ v.name = n) ∧
      ∀ n f, t.findFunction? n = some f ↔ f ∈ t.functions ∧ f.name = n) ∧
    (∀ name literal type line, ∀ m ∈ Build.declarations name literal type line, ∀ s b u,
      m s = .ok b u → if b then name ∈ u.table.names else u.table = s.table) ∧
    ∀ source a, assemble (sourceLines source) { session := .start board reservedWords } = .ok () a →
      (a.sketch.declaredNames a.session.table).Nodup := by
  have hgrows := ((Session.start board reserved).perform_extends ops).table
  have hexcl := (SymbolTable.exclusive_start board reserved).grows hgrows
  refine ⟨⟨hgrows.keeps.reserved, hexcl⟩, ⟨?_, ?_, ?_⟩, ?_, ?_⟩
  · exact fun n p => SymbolTable.find?_key_eq_some_iff hexcl.pins
  · exact fun n v => SymbolTable.find?_key_eq_some_iff hexcl.vars
  · exact fun n f => SymbolTable.find?_key_eq_some_iff hexcl.functions
  · exact fun name literal type line m hm s b u h => Build.declarations_ok hm h
  · intro source a h
    have htable := (extends_of_assemble h).table
    have hbodies := bodies_of_assemble (o := { board }) h
    refine Sketch.declaredNames_nodup ((SymbolTable.exclusive_start _ _).grows htable)
      htable.keeps.reserved hbodies.nodup ?_
    intro n hn
    obtain ⟨b, hb, rfl⟩ := List.mem_map.mp hn
    obtain ⟨f, hf, -⟩ := hbodies.declared b hb
    rw [SymbolTable.isFunction, hf]
    rfl

end PlainSketch
