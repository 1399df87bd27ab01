import Mathlib.Data.List.Basic
import PlainSketch.Proofs.PinLines
import PlainSketch.Proofs.RespacedSteps
import PlainSketch.Proofs.TypeHints

/-!
# Pins that stand for other pins

A pin is declared by a number, by an analog label or by the name of a pin that is declared already,
and then it takes over kind and number of that one. So every pin rests on the pins before it in the
table. Going from a pin to the one that it names comes to an end, and the end is a number or a
label. A sketch declares the pins in the order of the table, so that the line of a constant needs no
other constants than those above it.
-/
namespace PlainSketch
open Text

namespace Pin

/-- The pin is the digital one with this number. -/
def IsDigital (p : Pin) (n : Int) : Prop :=
  p.target = .number n ∧ p.kind = .digital ∧ p.number = some n

/-- The pin is the analog one with these digits after the `A`. -/
def IsAnalog (p : Pin) (ds : List Char) : Prop :=
  p.target = .label (String.ofList ('A' :: ds)) ∧ p.kind = .analog ∧ p.number = none

/-- The pin is declared by a number or by an analog label. -/
def IsLiteral (p : Pin) : Prop := (∃ n, p.IsDigital n) ∨ ∃ ds, isNatural ds = true ∧ p.IsAnalog ds

/-- The pin is declared by the name of another and takes over its kind and number. -/
structure Aliases (p q : Pin) : Prop where
  target : p.target = .named q.name
  kind : p.kind = q.kind
  number : p.number = q.number

/-- The pin needs at most one of these pins. -/
def RestsOn (earlier : List Pin) (p : Pin) : Prop := p.IsLiteral ∨ ∃ q ∈ earlier, p.Aliases q

theorem IsLiteral.ne_named {p : Pin} (h : p.IsLiteral) (name : String) :
    p.target ≠ .named name := by
  rcases h with ⟨n, htarget, -⟩ | ⟨ds, -, htarget, -⟩
  · rw [htarget]
    exact PinTarget.noConfusion
  · rw [htarget]
    exact PinTarget.noConfusion

end Pin

namespace SymbolTable

/-- Every pin rests on the pins before it. -/
def Founded (t : SymbolTable) : Prop :=
  ∀ (i : Nat) (p : Pin), t.pins[i]? = some p → p.RestsOn (t.pins.take i)

/-- The first pin is declared by the name of the second. -/
def Names (t : SymbolTable) (p q : Pin) : Prop :=
  p ∈ t.pins ∧ q ∈ t.pins ∧ p.target = .named q.name

section
variable {t u : SymbolTable} {p q : Pin}

theorem Resolves.restsOn (h : t.Resolves p.target p.kind p.number) : p.RestsOn t.pins := by
  obtain ⟨name, target, kind, raw, line, number⟩ := p
  cases h with
  | number n => exact .inl (.inl ⟨n, rfl, rfl, rfl⟩)
  | label hd => exact .inl (.inr ⟨_, hd, rfl, rfl, rfl⟩)
  | named hq => exact .inr ⟨_, hq, rfl, rfl, rfl⟩

theorem founded_start (board : Board) (reserved : List String) :
    (Session.start board reserved).table.Founded := by
  intro i p hp
  cases hp

theorem Founded.step (h : t.Founded) (step : t.Step u) : u.Founded := by
  cases step with
  | function | declare | widen => exact h
  | pin p _ hr =>
    intro i q hq
    rw [addPin, List.getElem?_append] at hq
    split at hq
    · next hi =>
      rw [addPin, List.take_append_of_le_length (Nat.le_of_lt hi)]
      exact h i q hq
    · next hi =>
      obtain ⟨hlast, rfl⟩ : i - t.pins.length = 0 ∧ p = q := by
        simpa [List.getElem?_singleton] using hq
      obtain rfl : i = t.pins.length := by omega
      rw [addPin, List.take_left]
      exact hr.restsOn

theorem Founded.grows (h : t.Founded) (hg : t.Grows u) : u.Founded := by
  induction hg with
  | refl => exact h
  | tail _ step ih => exact ih.step step

/-- A pin that another one names comes before it, and shares its kind and number. -/
theorem Founded.of_names (h : t.Founded) (hn : (t.pins.map (·.name)).Nodup) (hpq : t.Names p q) :
    t.pins.idxOf q < t.pins.idxOf p ∧ p.Aliases q := by
  obtain ⟨hp, hq, htarget⟩ := hpq
  rcases h _ p (List.getElem?_idxOf hp) with hliteral | ⟨r, hr, halias⟩
  · exact absurd htarget (hliteral.ne_named q.name)
  · have hname : r.name = q.name := PinTarget.named.inj (halias.target.symm.trans htarget)
    obtain rfl := List.inj_on_of_nodup_map hn (List.mem_of_mem_take hr) hq hname
    exact ⟨(List.mem_take_iff_idxOf_lt hq).mp hr, halias⟩

/-- There is no way to go on for ever from a pin to the one that it names. -/
theorem Founded.wellFounded (h : t.Founded) (hn : (t.pins.map (·.name)).Nodup) :
    WellFounded fun q p => t.Names p q :=
  Subrelation.wf (fun hpq => (h.of_names hn hpq).1) (measure t.pins.idxOf).wf

/-- The way from a pin to the one that it names ends at a literal of the same kind and number. -/
theorem Founded.exists_literal (h : t.Founded) (hn : (t.pins.map (·.name)).Nodup)
    (hp : p ∈ t.pins) : ∃ q ∈ t.pins, Relation.ReflTransGen t.Names p q ∧ q.IsLiteral ∧
      q.kind = p.kind ∧ q.number = p.number := by
  induction p using (h.wellFounded hn).induction with
  | _ p ih =>
    rcases h _ p (List.getElem?_idxOf hp) with hliteral | ⟨q, hq, halias⟩
    · exact ⟨p, hp, .refl, hliteral, rfl, rfl⟩
    · have hq := List.mem_of_mem_take hq
      have hpq : t.Names p q := ⟨hp, hq, halias.target⟩
      obtain ⟨r, hr, hway, hliteral, hkind, hnumber⟩ := ih q hpq hq
      exact ⟨r, hr, .head hpq hway, hliteral, hkind.trans halias.kind.symm,
        hnumber.trans halias.number.symm⟩

end
end SymbolTable

/-! ## Names of declared pins -/

/-- The name has no blanks. -/
def IsWord (n : String) : Prop := ∀ c ∈ n.toList, isBlank c = false

theorem Shape.name_yields_isWord : Yields IsWord name := by
  intro cs n r h
  obtain ⟨c, ds, -, hc, hn, -⟩ := name_eq_some h
  rw [IsWord, hn, List.forall_mem_cons]
  refine ⟨isBlank_of_isNameStart hc, fun d hd => ?_⟩
  exact isBlank_of_isWordChar (List.mem_takeWhile_imp hd)

namespace OutlineLine

/-- A line names pins by words. -/
theorem isWord_of_pinName? {code : List Char} {n : String} (h : (ofCode code).pinName? = some n) :
    IsWord n := by
  have hdeclared : Shape.Yields (fun p => IsWord p.1) Declaration.pinShape :=
    Shape.yields_bind fun _ => Shape.yields_bind fun _ => Shape.name_yields_isWord.bind fun _ hn =>
      Shape.yields_bind fun _ => Shape.yields_bind fun _ => Shape.yields_pure hn
  have hhead : Shape.Yields IsWord Declaration.pinAssignmentHead :=
    Shape.yields_bind fun _ => Shape.yields_bind fun _ => Shape.name_yields_isWord.bind fun _ hn =>
      Shape.yields_bind fun _ => Shape.yields_bind fun _ => Shape.yields_pure hn
  have hassigned : Shape.Yields (fun p => IsWord p.1) Declaration.pinAssignmentShape :=
    hhead.bind fun _ hn => Shape.yields_bind fun _ => Shape.yields_pure hn
  have hsort := isSort_ofCode code
  generalize ofCode code = c at hsort h
  cases hsort with
  | pin =>
    cases hpin : Declaration.pinShape.first? code with
    | none =>
      rw [hpin] at h
      cases h
    | some x =>
      rw [hpin] at h
      cases h
      obtain ⟨r, hr⟩ := Shape.first?_eq_some.mp hpin
      exact hdeclared code x r hr
  | pinAssignment _ _ _ hassign =>
    cases h
    obtain ⟨r, hr⟩ := Shape.first?_eq_some.mp hassign
    exact hassigned code _ r hr
  | body | control | closer | neutral | function | writes | other => cases h

end OutlineLine

/-- Pins are entered under words only, also when the pass stops. -/
theorem Build.isWord_after_outlineFrom {ls : List (Int × List Char)} {s : Session} (depth : Nat)
    (hs : ∀ p ∈ s.table.pins, IsWord p.name) :
    ∀ p ∈ (after (outlineFrom depth ls) s).table.pins, IsWord p.name := by
  induction ls generalizing depth s with
  | nil => exact hs
  | cons l ls ih =>
    rw [outlineFrom, after_bind]
    cases h : outlineLine depth l.1 (OutlineLine.ofCode l.2) s with
    | error e t =>
      show ∀ p ∈ t.table.pins, IsWord p.name
      rwa [outlineLine_error h]
    | ok d t =>
      refine ih d fun p hp => ?_
      rcases outlineLine_pins h p hp with hp | ⟨-, hname⟩
      · exact hs p hp
      · exact OutlineLine.isWord_of_pinName? hname

/-- The pins of a script have words as names. -/
theorem isWord_of_assemble {lines : List (List Char)} {board : Board} {reserved : List String}
    {a : Assembly} (h : assemble lines { session := .start board reserved } = .ok () a) :
    ∀ p ∈ a.session.table.pins, IsWord p.name := by
  obtain ⟨t, b, hfirst, hsecond, rfl⟩ := assemble_ok h
  obtain ⟨d, u, hlines, hlog⟩ := bind_eq_ok.mp hfirst
  have hpins : t.table = u.table := by
    cases hlog
    rfl
  show ∀ p ∈ b.session.table.pins, IsWord p.name
  rw [(Assemble.fixed_of_takeLines hsecond).1]
  show ∀ p ∈ t.table.pins, IsWord p.name
  rw [hpins, ← Build.after_of_ok hlines]
  exact Build.isWord_after_outlineFrom 0 fun p hp => absurd hp List.not_mem_nil

/-! ## Constants of a sketch -/

/-- The line of a sketch that declares a constant. -/
def constantLine (name value : String) : String := s!"const int {name} = {value};"

/-- The constants that a sketch declares for its pins. -/
def SymbolTable.constants (t : SymbolTable) : List String :=
  t.pins.map fun p => constantLine p.name p.target.text

/-- A line that declares a constant by a number, an analog label or a constant declared above. -/
def DeclaresFrom (above : List String) (line : String) : Prop :=
  ∃ name value, line = constantLine name value ∧
    ((∃ n : Int, value = toString n) ∨
      (∃ ds, isNatural ds = true ∧ value = String.ofList ('A' :: ds)) ∨
      ∃ other, constantLine value other ∈ above)

section
variable {t : SymbolTable}

theorem SymbolTable.Founded.declaresFrom (h : t.Founded) {i : Nat} {line : String}
    (hi : t.constants[i]? = some line) : DeclaresFrom (t.constants.take i) line := by
  rw [constants, List.getElem?_map] at hi
  obtain ⟨p, hp, rfl⟩ := Option.map_eq_some_iff.mp hi
  refine ⟨p.name, p.target.text, rfl, ?_⟩
  rcases h i p hp with (⟨n, htarget, -⟩ | ⟨ds, hd, htarget, -⟩) | ⟨q, hq, halias⟩
  · exact .inl ⟨n, by rw [htarget]; rfl⟩
  · exact .inr (.inl ⟨ds, hd, by rw [htarget]; rfl⟩)
  · refine .inr (.inr ⟨q.target.text, ?_⟩)
    rw [halias.target, constants, ← List.map_take]
    exact List.mem_map_of_mem hq

theorem newline_not_mem_of_isWord {n : String} (h : IsWord n) : '\n' ∉ n.toList := by
  intro hmem
  have hblank := h '\n' hmem
  cases hblank

/-- Constants with words as names take up one line each. -/
theorem SymbolTable.Founded.newline_not_mem (h : t.Founded) (hw : ∀ p ∈ t.pins, IsWord p.name)
    {line : String} (hl : line ∈ t.constants) : '\n' ∉ line.toList := by
  obtain ⟨p, hp, rfl⟩ := List.mem_map.mp hl
  have htext : '\n' ∉ p.target.text.toList := by
    rcases h _ p (List.getElem?_idxOf hp) with (⟨n, htarget, -⟩ | ⟨ds, hd, htarget, -⟩) |
      ⟨q, hq, halias⟩
    · rw [htarget]
      exact Build.not_mem_toString (by decide) (by decide) n
    · rw [htarget, PinTarget.text, String.toList_ofList]
      exact Build.not_mem_label (by decide) (by decide) hd
    · rw [halias.target]
      exact newline_not_mem_of_isWord (hw q (List.mem_of_mem_take hq))
  have hname := newline_not_mem_of_isWord (hw p hp)
  show '\n' ∉ ("const int " ++ p.name ++ " = " ++ p.target.text ++ ";").toList
  simp [hname, htext]

end

/-- The constants of the pins are lines of the sketch, one after the other. -/
theorem Sketch.exists_constants_render (s : Sketch String) {t : SymbolTable}
    (h : ∀ l ∈ t.constants, '\n' ∉ l.toList) (version unit : String) :
    ∃ above below, splitLines (s.render t version unit).toList =
      above ++ t.constants.map String.toList ++ below := by
  by_cases hne : t.constants = []
  · exact ⟨_, [], by rw [hne, List.map_nil, List.append_nil, List.append_nil]⟩
  have hsection : "\n".intercalate t.constants ∈ banner t.board version :: s.sections t unit := by
    have hparagraph : paragraph t.constants = ["\n".intercalate t.constants] :=
      if_neg (by simpa using hne)
    have hmem : "\n".intercalate t.constants ∈ paragraph t.constants := by rw [hparagraph]; simp
    rw [sections_eq]
    exact .tail _ (List.mem_append_left _ (List.mem_append_left _ (List.mem_append_right _ hmem)))
  rw [← Text.splitLines_intercalate hne h]
  exact s.exists_splitLines_render hsection

/-- **Pins rest on the pins before them.** In every table that operations lead to, a pin is digital
with a number, analog with a label and without a number, or the alias of a pin earlier in the table,
with the kind and number of that one; and going from pin to pin by these names ends, after finitely
many steps, at a literal. In every sketch, the constants of the pins are lines that follow on one
another, and each is declared by a number, a label or a constant declared on a line above it. -/
theorem pins_rest_on_earlier (board : Board) (reserved : List String)
    (ops : List (Int × Operation)) (o : Options) (source file : String) :
    let t := ((Session.start board reserved).perform ops).table
    (t.Founded ∧ (WellFounded fun q p => t.Names p q) ∧
      ∀ p ∈ t.pins, ∃ q ∈ t.pins, Relation.ReflTransGen t.Names p q ∧ q.IsLiteral ∧
        q.kind = p.kind ∧ q.number = p.number) ∧
    match (compile o source file).result with
    | .ok c => c.table.Founded ∧
        (∃ above below, splitLines c.code.toList =
          above ++ c.table.constants.map String.toList ++ below) ∧
        ∀ i line, c.table.constants[i]? = some line →
          DeclaresFrom (c.table.constants.take i) line
    | .error _ => True := by
  intro t
  have hgrows := ((Session.start board reserved).perform_extends ops).table
  have hfounded : t.Founded := (SymbolTable.founded_start board reserved).grows hgrows
  have hnames := ((SymbolTable.exclusive_start board reserved).grows hgrows).pins
  refine ⟨⟨hfounded, hfounded.wellFounded hnames, fun p => hfounded.exists_literal hnames⟩, ?_⟩
  rw [compile_result]
  cases ha : assemble (sourceLines source) { session := .start o.board o.reserved } with
  | error f a => trivial
  | ok u a =>
    have hstart := SymbolTable.founded_start o.board o.reserved
    have hfounded := hstart.grows (extends_of_assemble ha).table
    have hlines : ∀ l ∈ a.session.table.constants, '\n' ∉ l.toList :=
      fun l => hfounded.newline_not_mem (isWord_of_assemble ha)
    exact ⟨hfounded, Sketch.exists_constants_render _ hlines version o.indent,
      fun i line => hfounded.declaresFrom⟩

end PlainSketch
