import PlainSketch.Proofs.BlockOrder
import PlainSketch.Proofs.BlockRuns
import PlainSketch.Proofs.WrittenLines

/-!
# The names of helper variables

Repetitions and timers have helper variables, told apart by numbers that are given out in order. So
the helper variables of different blocks have different names, wherever the blocks write to. That
they are also different from the names of the script is not checked anywhere: it holds exactly if
the script does not use the names that its own lines get, and so at least if none of its names
begins with two underscores.
-/
namespace PlainSketch
open Instr (counterName lastName doneName startName)

/-- The helper variables that a line of the sketch is about. -/
def Instr.helpers : Instr → List String
  | openRepeat id _ => [counterName id]
  | everyLast id | openEvery id _ | everyAdvance id _ => [lastName id]
  | afterDone id | afterFinish id => [doneName id]
  | afterStart id => [startName id]
  | openAfter id _ => [doneName id, startName id]
  | _ => []

/-- The helper variables of the lines that a line of a script wrote. -/
def Written.helpers (w : Written) : List String := w.instrs.flatMap Instr.helpers

namespace Opener

/-- Blocks with helper variables. -/
def isNumbered : Opener → Bool
  | repeatTimes _ | every .. | after .. => true
  | _ => false

/-- The helper variables of a block, given its number. -/
def helpers (id : Nat) : Opener → List String
  | repeatTimes _ => [counterName id]
  | every .. => [lastName id]
  | after .. => [doneName id, startName id]
  | _ => []

end Opener

/-- The opener of a block with helper variables. -/
def BlockLine.numbered? : BlockLine → Option Opener
  | control o => if o.isNumbered then some o else none
  | _ => none

/-- The openers of blocks with helper variables, in the order of their lines. -/
def numberedOpeners (ls : List (Int × List Char)) : List Opener :=
  (Assemble.sorts ls).filterMap BlockLine.numbered?

/-! ## Numbers and names -/

/-- The number in the name of a helper variable. -/
def helperNumber (name : String) : Nat :=
  Nat.ofDigitChars 10 (name.toList.filter Char.isDigit) 0

section
variable {o : Opener} {id : Nat} {n : String}

/-- The names of helper variables begin with underscores, and their only digits are the number. -/
theorem Opener.toList_of_mem (h : n ∈ o.helpers id) :
    ∃ u v, n.toList = u ++ (Nat.toDigits 10 id ++ v) ∧ "__".toList <+: u ∧
      u.filter Char.isDigit = [] ∧ v.filter Char.isDigit = [] := by
  have hspelled : ∀ u v : String, (u ++ toString id ++ v).toList =
      u.toList ++ (Nat.toDigits 10 id ++ v.toList) := by simp
  cases o with
  | repeatTimes =>
    have hname : (counterName id).toList = "__i".toList ++ (Nat.toDigits 10 id ++ []) := by
      show ("__i" ++ toString id).toList = _
      simp
    rw [List.mem_singleton.mp h]
    exact ⟨_, _, hname, by decide, by decide, rfl⟩
  | every =>
    rw [List.mem_singleton.mp h]
    exact ⟨_, _, hspelled "__every_" "_last", by decide, by decide, by decide⟩
  | after =>
    rcases List.mem_pair.mp h with he | he
    · rw [he]
      exact ⟨_, _, hspelled "__after_" "_done", by decide, by decide, by decide⟩
    · rw [he]
      exact ⟨_, _, hspelled "__after_" "_start", by decide, by decide, by decide⟩
  | _ => cases h

/-- The name of a helper variable tells its number. -/
theorem Opener.helperNumber_of_mem (h : n ∈ o.helpers id) : helperNumber n = id := by
  obtain ⟨u, v, hn, -, hu, hv⟩ := toList_of_mem h
  have hdigits : ∀ c ∈ Nat.toDigits 10 id, c.isDigit = true := fun c hc =>
    Nat.isDigit_of_mem_toDigits (by decide) (by decide) hc
  rw [helperNumber, hn, List.filter_append, List.filter_append, hu, hv,
    List.filter_eq_self.mpr hdigits]
  simp

theorem Opener.underscores_of_mem (h : n ∈ o.helpers id) : "__".toList <+: n.toList := by
  obtain ⟨u, v, hn, hu, -⟩ := toList_of_mem h
  rw [hn]
  exact hu.trans (List.prefix_append u _)

end

/-! ## Lines and runs -/

theorem Instr.helpers_of_id? {i : Instr} (h : i.id? = none) : i.helpers = [] := by
  cases i with
  | openRepeat | everyLast | openEvery | everyAdvance | afterDone | afterStart | openAfter
  | afterFinish => cases h
  | _ => rfl

theorem Assembly.write_ids (a : Assembly) (b : Body) (is : List Instr) :
    (a.write b is).ids = a.ids := by
  cases b <;> rfl

namespace Assemble
open Assembly Session

section
variable {line : Int} {code : List Char} {a a' : Assembly} {o : Opener} {is : List Instr}

/-- Lines that no number is given out for name no helper variables. -/
theorem flatMap_helpers_eq_nil (h : ∀ i ∈ is, i.id? = none) : is.flatMap Instr.helpers = [] :=
  List.flatMap_eq_nil_iff.mpr fun i hi => Instr.helpers_of_id? (h i hi)

/-- A block with helper variables is refused with an error only. -/
theorem lines_ne_nil_of_header {w : Option Fragment} {s u : Session} (hn : o.isNumbered = true)
    (h : Build.header o line s = .ok w u) (hacc : u.Accepted) : (w.getD .empty).lines ≠ [] := by
  cases o with
  | ifDo | whileDo | forever => cases hn
  | every | after =>
    obtain ⟨n, t, -, h⟩ := bind_eq_ok.mp h
    cases h
    exact List.cons_ne_nil _ _
  | repeatTimes =>
    obtain ⟨n, t, -, h⟩ := bind_eq_ok.mp h
    split at h
    · cases h
      exact absurd hacc (Build.not_accepted_reported rfl)
    · cases h
      exact List.cons_ne_nil _ _

theorem not_numbered_of_refused (hb : a.body.isSome = true) (h : openControl o line a = .ok [] a')
    (hacc : a'.session.Accepted) : o.isNumbered = false := by
  obtain ⟨x, hx⟩ := Option.isSome_iff_exists.mp hb
  rw [openControl_eq hx] at h
  rw [Bool.eq_false_iff]
  intro hn
  cases hheader : Build.header o line a.session with
  | error f u =>
    rw [hheader] at h
    cases h
  | ok w u =>
    rw [hheader] at h
    obtain ⟨hlines, rfl⟩ := EStateM.Result.ok.inj h
    exact lines_ne_nil_of_header hn hheader hacc (List.map_eq_nil_iff.mp hlines)

/-- A control opener takes a number for its helper variables if its block has any. -/
theorem openControl_helpers (h : openControl o line a = .ok is a') (hacc : a'.session.Accepted) :
    (o.isNumbered = true ∧ a'.ids = a.ids + 1 ∧
        ∀ n, n ∈ is.flatMap Instr.helpers ↔ n ∈ o.helpers (a.ids + 1)) ∨
      (o.isNumbered = false ∧ a'.ids = a.ids ∧ is.flatMap Instr.helpers = []) := by
  have step : a.Outcome line [] (.control o) (openControl o line a) := openControl_outcome o
  rw [h] at step
  cases step with
  | nested hf => cases hf
  | rejected hr => cases hr
  | stray _ hb ht => exact absurd hacc (not_accepted_of_moves rfl ht)
  | refused _ hb ht => exact .inr ⟨not_numbered_of_refused hb h hacc, rfl, rfl⟩
  | control hb hw ht =>
    cases hw with
    | ifDo | forever | whileDo => exact .inr ⟨rfl, rfl, rfl⟩
    | repeatTimes | every => exact .inl ⟨rfl, rfl, by simp [Instr.helpers, Opener.helpers]⟩
    | after =>
      refine .inl ⟨rfl, rfl, fun n => ?_⟩
      simp only [List.flatMap_cons, List.flatMap_nil, Instr.helpers, Opener.helpers,
        List.mem_append, List.mem_cons, List.not_mem_nil]
      tauto

theorem takeLine_helpers (h : takeLine line code a = .ok is a') (hacc : a'.session.Accepted) :
    (∃ o, (BlockLine.ofCode code).numbered? = some o ∧ a'.ids = a.ids + 1 ∧
        ∀ n, n ∈ is.flatMap Instr.helpers ↔ n ∈ o.helpers (a.ids + 1)) ∨
      ((BlockLine.ofCode code).numbered? = none ∧ a'.ids = a.ids ∧
        is.flatMap Instr.helpers = []) := by
  by_cases hcontrol : ∃ o, BlockLine.ofCode code = .control o
  · obtain ⟨o, ho⟩ := hcontrol
    rw [takeLine_control ho] at h
    rcases openControl_helpers h hacc with ⟨hn, hids, hnames⟩ | ⟨hn, hids, hnames⟩
    · exact .inl ⟨o, by simp [ho, BlockLine.numbered?, hn], hids, hnames⟩
    · exact .inr ⟨by simp [ho, BlockLine.numbered?, hn], hids, hnames⟩
  · have step := takeLine_outcome line code a
    rw [h] at step
    generalize BlockLine.ofCode code = c at step hcontrol
    right
    cases step with
    | stray | refused | control => exact absurd ⟨_, rfl⟩ hcontrol
    | setup | loop | function | detached | pin | endRefused | endStructure | unknownCommand =>
      exact ⟨rfl, rfl, rfl⟩
    | nested hf =>
      refine ⟨?_, rfl, rfl⟩
      cases c with
      | control o => cases hf
      | _ => rfl
    | rejected hr => exact ⟨by cases hr <;> rfl, rfl, rfl⟩
    | @otherwise _ top =>
      refine ⟨rfl, write_ids _ _ _, flatMap_helpers_eq_nil ?_⟩
      cases top.opened <;> simp [Instr.id?]
    | endControl => exact ⟨rfl, write_ids _ _ _, rfl⟩
    -- no statement draws a number
    | statement hb hst ht =>
      refine ⟨rfl, write_ids _ _ _, ?_⟩
      rcases Build.statement_becomes ht with rfl | hemits
      · rfl
      · exact flatMap_helpers_eq_nil (id?_of_emits hemits)

theorem trace_of_takeLine {ls : List (Int × List Char)} (h : takeLine line code a = .ok is a') :
    trace ((line, code) :: ls) a = ⟨line, a.structure?, is⟩ :: trace ls a' := by
  rw [trace, h]

/-- The helper variables of a run are those of its numbered lines, which get their numbers in
order. -/
theorem mem_helpers_trace {ls : List (Int × List Char)} (h : takeLines ls a = .ok () a')
    (hacc : a'.session.Accepted) (n : String) :
    (∃ w ∈ trace ls a, n ∈ w.helpers) ↔
      ∃ (k : Nat) (o : Opener), (numberedOpeners ls)[k]? = some o ∧
        n ∈ o.helpers (a.ids + k + 1) := by
  induction ls generalizing a with
  | nil => simp [trace, numberedOpeners, sorts]
  | cons l ls ih =>
    obtain ⟨line, code⟩ := l
    obtain ⟨is, b, hl, hr⟩ := bind_eq_ok.mp h
    have hopeners : numberedOpeners ((line, code) :: ls) =
        (BlockLine.ofCode code).numbered?.toList ++ numberedOpeners ls := by
      cases hn : (BlockLine.ofCode code).numbered? <;> simp [numberedOpeners, sorts, hn]
    rw [trace_of_takeLine hl, hopeners, List.exists_mem_cons_iff, ih hr]
    rcases takeLine_helpers hl (hacc.of_isPrefix (takeLines_isPrefix hr)) with
      ⟨o, ho, hids, hnames⟩ | ⟨ho, hids, hnames⟩
    · rw [ho, hids, Written.helpers, hnames]
      constructor
      · rintro (hn | ⟨k, o', hk, hn⟩)
        · exact ⟨0, o, rfl, hn⟩
        · exact ⟨k + 1, o', hk, by rwa [show a.ids + (k + 1) + 1 = a.ids + 1 + k + 1 by omega]⟩
      · rintro ⟨_ | k, o', hk, hn⟩
        · cases hk
          exact .inl hn
        · exact .inr ⟨k, o', hk, by rwa [show a.ids + 1 + k + 1 = a.ids + (k + 1) + 1 by omega]⟩
    · rw [ho, hids, Written.helpers, hnames]
      simp

/-- Whatever a run writes later has other numbers than what it wrote before. -/
theorem lt_helperNumber {ls : List (Int × List Char)} (h : takeLines ls a = .ok () a')
    (hacc : a'.session.Accepted) {w : Written} (hw : w ∈ trace ls a) {n : String}
    (hn : n ∈ w.helpers) : a.ids < helperNumber n := by
  obtain ⟨k, o, -, hmem⟩ := (mem_helpers_trace h hacc n).mp ⟨w, hw, hn⟩
  rw [Opener.helperNumber_of_mem hmem]
  omega

/-- No two lines of a run name the same helper variable. -/
theorem pairwise_trace {ls : List (Int × List Char)} (h : takeLines ls a = .ok () a')
    (hacc : a'.session.Accepted) :
    (trace ls a).Pairwise fun v w => ∀ n ∈ v.helpers, n ∉ w.helpers := by
  induction ls generalizing a with
  | nil => exact .nil
  | cons l ls ih =>
    obtain ⟨line, code⟩ := l
    obtain ⟨is, b, hl, hr⟩ := bind_eq_ok.mp h
    rw [trace_of_takeLine hl]
    refine .cons (fun w hw n hn hmem => ?_) (ih hr)
    have hlater := lt_helperNumber hr hacc hw hmem
    rcases takeLine_helpers hl (hacc.of_isPrefix (takeLines_isPrefix hr)) with
      ⟨o, -, hids, hnames⟩ | ⟨-, -, hnames⟩
    · have hnumber := Opener.helperNumber_of_mem ((hnames n).mp hn)
      omega
    · rw [Written.helpers, hnames] at hn
      cases hn

end

end Assemble

/-! ## Whole scripts -/

section
variable {o : Options} {source : String} {a : Assembly}

/-- The run of a script that compiles. -/
theorem Compiles.takeLines (h : Compiles o source a) :
    ∃ s b, Assemble.takeLines (Line.numbered (sourceLines source)) { session := s } = .ok () b ∧
      b.session.Accepted ∧ scriptTrace o source =
        Assemble.trace (Line.numbered (sourceLines source)) { session := s } := by
  obtain ⟨s, b, hs, hb, rfl⟩ := assemble_ok h.1
  exact ⟨s, b, hb, h.2.of_isPrefix ⟨_, rfl⟩, by rw [scriptTrace, hs]⟩

theorem mem_helpers_scriptTrace (h : Compiles o source a) (n : String) :
    (∃ w ∈ scriptTrace o source, n ∈ w.helpers) ↔ ∃ (k : Nat) (op : Opener),
      (numberedOpeners (Line.numbered (sourceLines source)))[k]? = some op ∧
        n ∈ op.helpers (k + 1) := by
  obtain ⟨s, b, hb, hacc, htrace⟩ := h.takeLines
  have hmem := Assemble.mem_helpers_trace hb hacc n
  simp only [Nat.zero_add] at hmem
  rwa [htrace]

end

/-- **The helper variables of different blocks have different names**, and these are different from
the names of pins, variables and functions exactly if no such name is the one that a line with a
repetition or a timer gets by its place among these lines. It is enough that no name of the script
begins with two underscores. -/
theorem helper_names_apart_iff {o : Options} {source : String} {a : Assembly}
    (h : Compiles o source a) :
    (scriptTrace o source).Pairwise (fun v w => ∀ n ∈ v.helpers, n ∉ w.helpers) ∧
      ((∀ w ∈ scriptTrace o source, ∀ n ∈ w.helpers, n ∉ a.session.table.names) ↔
        ∀ (k : Nat) (op : Opener),
          (numberedOpeners (Line.numbered (sourceLines source)))[k]? = some op →
            ∀ n ∈ op.helpers (k + 1), n ∉ a.session.table.names) ∧
      ((∀ n ∈ a.session.table.names, ¬ "__".toList <+: n.toList) →
        ∀ w ∈ scriptTrace o source, ∀ n ∈ w.helpers, n ∉ a.session.table.names) := by
  have hmem := mem_helpers_scriptTrace h
  refine ⟨?_, ⟨fun hall k op hk n hn => ?_, fun hall w hw n hn => ?_⟩,
    fun hall w hw n hn hname => ?_⟩
  · obtain ⟨s, b, hb, hacc, htrace⟩ := h.takeLines
    rw [htrace]
    exact Assemble.pairwise_trace hb hacc
  · obtain ⟨w, hw, hwn⟩ := (hmem n).mpr ⟨k, op, hk, hn⟩
    exact hall w hw n hwn
  · obtain ⟨k, op, hk, hkn⟩ := (hmem n).mp ⟨w, hw, hn⟩
    exact hall k op hk n hkn
  · obtain ⟨k, op, -, hkn⟩ := (hmem n).mp ⟨w, hw, hn⟩
    exact hall n hname (Opener.underscores_of_mem hkn)

/-- A run to compute. -/
theorem exists_compiles_of (o : Options) (source : String) (p : Assembly → Bool)
    (h : (match assemble (sourceLines source) { session := .start o.board o.reserved } with
      | .ok _ a => decide a.session.Accepted && p a
      | .error _ _ => false) = true) : ∃ a, Compiles o source a ∧ p a = true := by
  cases ha : assemble (sourceLines source) { session := .start o.board o.reserved } with
  | error f a =>
    rw [ha] at h
    cases h
  | ok u a =>
    rw [ha] at h
    obtain ⟨hacc, hp⟩ := (Bool.and_eq_true _ _).mp h
    exact ⟨a, ⟨ha, of_decide_eq_true hacc⟩, hp⟩

/-- Blocks inside each other, and one in a function that writes to no body of the sketch. -/
theorem helper_names_apart_nested :
    let source := "function undo:\nafter 5 s do:\nend\nend\nsetup:\nset i2 to 1\n" ++
      "repeat 2 times do:\nevery 1 s do:\nend\nend\nend\nloop:\nend"
    ∃ a, Compiles {} source a ∧ (∀ n ∈ a.session.table.names, ¬ "__".toList <+: n.toList) ∧
      (scriptTrace {} source).Pairwise (fun v w => ∀ n ∈ v.helpers, n ∉ w.helpers) ∧
      ∀ w ∈ scriptTrace {} source, ∀ n ∈ w.helpers, n ∉ a.session.table.names := by
  intro source
  obtain ⟨a, ha, hnames⟩ := exists_compiles_of {} source
    (fun a => decide (∀ n ∈ a.session.table.names, ¬ "__".toList <+: n.toList)) (by decide +kernel)
  obtain ⟨hpairwise, -, hapart⟩ := helper_names_apart_iff ha
  exact ⟨a, ha, of_decide_eq_true hnames, hpairwise, hapart (of_decide_eq_true hnames)⟩

/-- A variable with the name of the first counter. -/
theorem helper_name_captured :
    let source := "setup:\nset __i1 to 5\nrepeat 3 times do:\nend\nend\nloop:\nend"
    ∃ a, Compiles {} source a ∧ ∃ w ∈ scriptTrace {} source, ∃ n ∈ w.helpers,
      n ∈ a.session.table.names := by
  intro source
  obtain ⟨a, ha, hname⟩ := exists_compiles_of {} source
    (fun a => a.session.table.names.contains "__i1") (by decide +kernel)
  have hopener : (numberedOpeners (Line.numbered (sourceLines source)))[0]? =
      some (.repeatTimes ['3']) := by decide +kernel
  obtain ⟨w, hw, hmem⟩ := (mem_helpers_scriptTrace ha "__i1").mpr
    ⟨0, _, hopener, List.mem_singleton_self _⟩
  exact ⟨a, ha, w, hw, "__i1", hmem, by simpa using hname⟩

end PlainSketch
