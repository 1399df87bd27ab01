import Mathlib.Data.List.Forall2
import PlainSketch.Proofs.BoardSwap
import PlainSketch.Proofs.VariableTypes

/-!
# The symbols of the first pass

The first pass alone already tells the beginning of what compiling tells. The second pass enters no
pin and no function, it reports after what is reported already, and all it does to the variables is
to widen them in their places and to put new ones behind them. That a widened variable is the only
one of its name is needed for this: a name is given its new type wherever it stands in the table.
-/
namespace PlainSketch

/-- The variable at a later time: at its line under its name, and of a type at least as wide. -/
structure Variable.Widens (v w : Variable) : Prop where
  name : w.name = v.name
  line : w.line = v.line
  rank : v.type.rank ≤ w.type.rank

theorem Variable.Widens.refl (v : Variable) : v.Widens v := ⟨rfl, rfl, Nat.le_refl _⟩

theorem Variable.Widens.trans {v w x : Variable} (h : v.Widens w) (h' : w.Widens x) : v.Widens x :=
  ⟨h'.name.trans h.name, h'.line.trans h.line, Nat.le_trans h.rank h'.rank⟩

namespace SymbolTable

/-- The variables of `t` come first among those of `u`, in their order, at their lines and of types
that were at most widened. -/
def Precedes (t u : SymbolTable) : Prop :=
  ∃ f rest, u.vars = t.vars.map f ++ rest ∧ ∀ v ∈ t.vars, v.Widens (f v)

section
variable {t u v : SymbolTable}

theorem Precedes.of_append {rest : List Variable} (h : u.vars = t.vars ++ rest) : t.Precedes u :=
  ⟨id, rest, by rw [List.map_id, h], fun v _ => .refl v⟩

theorem Precedes.refl (t : SymbolTable) : t.Precedes t := .of_append (List.append_nil _).symm

theorem Precedes.trans (h : t.Precedes u) (h' : u.Precedes v) : t.Precedes v := by
  obtain ⟨f, rest, hu, hf⟩ := h
  obtain ⟨g, rest', hv, hg⟩ := h'
  refine ⟨g ∘ f, rest.map g ++ rest', ?_, fun v hmem => (hf v hmem).trans (hg _ ?_)⟩
  · simp [hv, hu]
  · rw [hu]
    exact List.mem_append_left _ (List.mem_map_of_mem hmem)

theorem Precedes.forall₂ (h : t.Precedes u) :
    ∃ ws rest, u.vars = ws ++ rest ∧ List.Forall₂ Variable.Widens t.vars ws := by
  obtain ⟨f, rest, hu, hf⟩ := h
  exact ⟨_, rest, hu, List.forall₂_map_right_iff.mpr (List.forall₂_same.mpr hf)⟩

theorem Precedes.retype (h : t.Exclusive) {v : Variable} (hv : t.findVariable? v.name = some v)
    (type : ValueType) : t.Precedes (t.retype v.name (v.type.widen type)) := by
  refine ⟨_, [], (List.append_nil _).symm, fun w hw => ?_⟩
  split
  · next hname =>
    have hsame : w = v := by
      have hfound := (find?_key_eq_some_iff h.vars).mpr ⟨hw, by simpa using hname⟩
      exact Option.some.inj (hfound.symm.trans hv)
    exact ⟨rfl, rfl, hsame ▸ ValueType.rank_le_widen_left v.type type⟩
  · exact .refl w

theorem Step.precedes (h : t.Exclusive) (step : t.Step u) : t.Precedes u := by
  cases step with
  | pin p | function f => exact .refl t
  | declare v => exact .of_append rfl
  | widen v type hv => exact .retype h hv type

theorem Grows.precedes (h : t.Exclusive) (hg : t.Grows u) : t.Precedes u := by
  induction hg with
  | refl => exact .refl t
  | tail hg step ih => exact ih.trans (step.precedes (h.grows hg))

end
end SymbolTable

theorem Assemble.fixed_of_takeLines {a b : Assembly} {ls : List (Int × List Char)}
    (h : takeLines ls a = .ok () b) :
    b.session.table.pins = a.session.table.pins ∧
      b.session.table.functions = a.session.table.functions :=
  takeLines_invariant
    (P := fun b => b.session.table.pins = a.session.table.pins ∧
      b.session.table.functions = a.session.table.functions)
    (fun _ _ _ _ _ hb step => ⟨step.fixed.1.trans hb.1, step.fixed.2.trans hb.2⟩) ⟨rfl, rfl⟩ h

/-- A fault of the first pass ends both passes. -/
theorem assemble_of_outline_error {lines : List (List Char)} {s t : Session} {f : Fault}
    (h : Build.outline lines s = .error f t) :
    assemble lines { session := s } = .error f { session := t } := by
  refine bind_eq_error.mpr (.inl ?_)
  simp only [Assemble.build, h]

/-- **The first pass tells the beginning of a compilation.** Wherever both give a result, what the
first pass reports comes first among the reports, its pins and functions are those of the
compilation, and its variables come first there, in their order, at their lines and of types that
were at most widened. A fault of the first pass is the fault of compiling. -/
theorem analysis_begins_compilation (o : Options) (source file : String) :
    match (analyze o source).result, (compile o source file).result with
    | .ok s, .ok c =>
      s.diagnostics <+: c.diagnostics ∧ s.table.pins = c.table.pins ∧
        s.table.functions = c.table.functions ∧
        ∃ ws rest, c.table.vars = ws ++ rest ∧ List.Forall₂ Variable.Widens s.table.vars ws
    | .error f, r => r = .error f
    | .ok _, .error _ => True := by
  rw [compile_result, analyze]
  cases hs : Build.outline (sourceLines source) (.start o.board o.reserved) with
  | error f t => simp only [assemble_of_outline_error hs]
  | ok u s =>
    cases ha : assemble (sourceLines source) { session := .start o.board o.reserved } with
    | error f a => trivial
    | ok u a =>
      obtain ⟨t, b, ht, hb, rfl⟩ := assemble_ok ha
      rw [hs] at ht
      cases ht
      have hfirst := ((Build.outline_extending _).ok hs).table
      have hsecond := (extends_of_takeLines hb).table
      have hfixed := Assemble.fixed_of_takeLines hb
      have hexcl := (SymbolTable.exclusive_start o.board o.reserved).grows hfirst
      refine ⟨?_, hfixed.1.symm, hfixed.2.symm, (hsecond.precedes hexcl).forall₂⟩
      obtain ⟨fs, hfs⟩ := Assemble.takeLines_isPrefix hb
      simp only [Session.diagnostics, Compilation.diagnostics, hsecond.keeps.board, ← hfs,
        List.append_assoc, List.map_append]
      exact List.prefix_append _ _

end PlainSketch
