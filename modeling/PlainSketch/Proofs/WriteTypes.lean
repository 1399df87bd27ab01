import PlainSketch.Proofs.SessionView
import PlainSketch.Proofs.StatementWalk
import PlainSketch.Proofs.VariableTypes

/-!
# Types are wide enough for what is written

The first pass gives the variables of a script their types from the lines that write to them; the
second pass takes a known variable as it is. So a statement that writes at some type relies on the
first pass to have seen its line: `Statement.hint_of_taken?` says when it has. The only statement it
passes over is an assignment whose value begins with the word `pwm`, and such a value is taken to be
a `long`. Hence the type of a variable is at least as wide as every write to it, unless the write is
such an assignment and the first pass made the variable narrower than `long`.
-/
namespace PlainSketch
open Session

/-! ## The first pass -/

namespace SymbolTable

/-- If the name may be a variable, then it is one and at least this wide. -/
def Settles (t : SymbolTable) (name : String) (type : ValueType) : Prop :=
  t.Allows name → t.Covers name type

theorem Grows.settles {t u : SymbolTable} {name : String} {type : ValueType} (h : t.Grows u)
    (ht : t.Settles name type) : u.Settles name type :=
  fun hu => h.covers (ht (h.allows hu))

theorem Covers.isVariable {t : SymbolTable} {name : String} {type : ValueType}
    (h : t.Covers name type) : t.isVariable name = true := by
  obtain ⟨u, hu, -⟩ := h
  rw [isVariable_eq_typeOf?, hu]
  rfl

end SymbolTable

namespace Build
open SymbolTable

section
variable {name : String} {type : ValueType} {line : Int} {s t : Session}

theorem observeVariable_covers (hs : s.table.Allows name) {b : Bool}
    (h : observeVariable name type line s = .ok b t) : t.table.Covers name type := by
  obtain ⟨u, hu, -, hretypes⟩ := observeVariable_of_allows hs type line
  rw [hu] at h
  cases h
  exact ⟨_, hretypes.self, ValueType.rank_le_join _ type⟩

theorem seed_settles (h : seed name type line s = .ok () t) : t.table.Settles name type := by
  intro hallows
  have hgrows := ((seed_elementary name type line).extending.ok h).table
  have hs := hgrows.allows hallows
  rw [seed, table_bind] at h
  simp only [hs.2.1, hs.2.2.1, hs.2.2.2, Bool.or_false, Bool.false_eq_true, if_false] at h
  obtain ⟨b, u, hu, h⟩ := bind_eq_ok.mp h
  cases h
  exact observeVariable_covers hs hu

/-- A line that the first pass takes to write to a variable settles the variable's type. -/
theorem outlineFrom_settles {ls : List (Int × List Char)} {depth d : Nat} {l : Int × List Char}
    (h : outlineFrom depth ls s = .ok d t) (hl : l ∈ ls)
    (hw : OutlineLine.ofCode l.2 = .writes name type) : t.table.Settles name type := by
  induction ls generalizing depth s with
  | nil => cases hl
  | cons l' ls ih =>
    obtain ⟨e, u, hu, h⟩ := bind_eq_ok.mp h
    rcases List.mem_cons.mp hl with rfl | hl
    · rw [hw] at hu
      obtain ⟨_, v, hv, hu⟩ := bind_eq_ok.mp hu
      cases hu
      exact ((outlineFrom_extending _ ls).ok h).table.settles (seed_settles hv)
    · exact ih h hl

theorem outline_settles {lines : List (List Char)} {l : Int × List Char}
    (h : outline lines s = .ok () t) (hl : l ∈ Line.numbered lines)
    (hw : OutlineLine.ofCode l.2 = .writes name type) : t.table.Settles name type := by
  obtain ⟨d, u, hu, h⟩ := bind_eq_ok.mp h
  have hgrows : u.table.Grows t.table := by
    cases h
    exact .refl _
  exact hgrows.settles (outlineFrom_settles hu hl hw)

end

/-! ## New variables of the second pass -/

/-- A variable that a statement may take: after the first pass it is known or has no chance to be
one, or else it is taken as a `long`. -/
def Takes (t : SymbolTable) (name : String) (type : ValueType) : Prop :=
  ¬ t.Admits name ∨ type = .long

theorem takes_of_statement {source : String} {s t : Session} {l : Int × List Char} {st : Statement}
    {name : String} {type : ValueType} (h : outline (sourceLines source) s = .ok () t)
    (hl : l ∈ Line.numbered (sourceLines source)) (hc : BlockLine.ofCode l.2 = .command)
    (hst : Statement.ofCode? l.2 = some st) (ht : st.taken? = some (name, type)) :
    Takes t.table name type := by
  have hcode := Line.isCode_of_mem_numbered hl
  rcases Statement.hint_of_taken? hcode hst ht with hhint | ⟨v, rfl, hv⟩
  · rw [← outline_of_command hc] at hhint
    refine .inl fun hadm => ?_
    obtain ⟨hallows, hnew⟩ := admits_iff.mp hadm
    rw [(outline_settles h hl hhint hallows).isVariable] at hnew
    cases hnew
  · cases ht
    exact .inr (ValueType.ofText_of_pwmWord hv)

/-- What the second pass makes of a table: it grows, and new variables are `long` or wider. -/
structure Continues (t u : SymbolTable) : Prop where
  grows : t.Grows u
  fresh : ∀ name type, u.typeOf? name = some type →
    t.isVariable name = true ∨ ValueType.long.rank ≤ type.rank

/-- Every run keeps to what the second pass makes of the table. -/
def Continuing (t : SymbolTable) {α : Type} (m : Build α) : Prop :=
  ∀ s a u, m s = .ok a u → Continues t s.table → Continues t u.table

section
variable {t : SymbolTable} {α β : Type}

theorem continuing_of_table {m : Build α} (h : ∀ s a u, m s = .ok a u → u.table = s.table) :
    Continuing t m := by
  intro s a u hm hs
  rw [h s a u hm]
  exact hs

theorem continuing_pure (a : α) : Continuing t (pure a : Build α) := by
  refine continuing_of_table fun s b u h => ?_
  cases h
  rfl

theorem Continuing.bind {m : Build α} {f : α → Build β} (hm : Continuing t m)
    (hf : ∀ a, Continuing t (f a)) : Continuing t (m >>= f) := by
  intro s b v h hs
  obtain ⟨a, u, hu, hb⟩ := bind_eq_ok.mp h
  exact hf a u b v hb (hm s a u hu hs)

theorem continuing_table {g : SymbolTable → Build β} (hg : ∀ u, Continuing t (g u)) :
    Continuing t (table >>= g) := fun s => hg s.table s

theorem continuing_observeVariable {name : String} {type : ValueType} (h : Takes t name type)
    (line : Int) : Continuing t (observeVariable name type line) := by
  intro s b u hu hs
  refine ⟨hs.grows.trans ((observeVariable_elementary name type line).extending.ok hu).table, ?_⟩
  by_cases hallows : s.table.Allows name
  · obtain ⟨v, hv, -, hretypes⟩ := observeVariable_of_allows hallows type line
    rw [hv] at hu
    cases hu
    intro m σ hσ
    by_cases hm : m = name
    · subst hm
      rw [hretypes.self] at hσ
      cases hσ
      rcases h with hadm | rfl
      · have hknown : t.isVariable m ≠ false :=
          fun hm => hadm (admits_iff.mpr ⟨hs.grows.allows hallows, hm⟩)
        exact .inl (by simpa using hknown)
      · exact .inr (ValueType.rank_le_join _ _)
    · rw [hretypes.others m hm] at hσ
      exact hs.fresh m σ hσ
  · obtain ⟨v, hv, hsame, -⟩ := observeVariable_of_not_allows hallows type line
    rw [hv] at hu
    cases hu
    rw [hsame]
    exact hs.fresh

theorem continuing_mention (name : String) (line : Int) : Continuing t (mention name line) := by
  refine continuing_table fun u => ?_
  split
  · exact continuing_pure true
  · exact continuing_observeVariable (.inr rfl) line

theorem continuing_mentionAll (line : Int) (names : List String) :
    Continuing t (mentionAll line names) := by
  induction names with
  | nil => exact continuing_pure ()
  | cons n ns ih => exact (continuing_mention n line).bind fun _ => ih

theorem continuing_writeTarget {name : String} {type : ValueType} (h : Takes t name type)
    (line : Int) : Continuing t (writeTarget name type line) := by
  refine continuing_table fun u => ?_
  split
  · exact continuing_pure true
  · exact continuing_observeVariable h line

theorem checkPwm_table {ref : PinRef} {line : Int} {s u : Session}
    (h : checkPwm ref line s = .ok () u) : u.table = s.table := by
  obtain ⟨target, kind, consumed, number⟩ := ref
  cases kind with
  | analog =>
    cases h
    rfl
  | digital =>
    cases number with
    | none =>
      cases h
      rfl
    | some n =>
      simp only [checkPwm, table_bind] at h
      split at h <;> (cases h; rfl)

/-- The steps of statements keep to what the second pass makes of the table. -/
theorem compositional_continuing (t : SymbolTable) : Compositional
    (fun _ _ m => ∀ line, Continuing t (m line)) (Takes t) where
  pure _ := fun _ => continuing_pure _
  bind hm hf := fun line => (hm line).bind fun a => hf a line
  ofExcept _ := fun _ => continuing_of_table fun _ _ _ h => by rw [(ofExcept_ok h).2]
  report _ := fun _ => continuing_of_table fun _ _ _ h => by cases h; rfl
  useNames _ := fun line => continuing_table fun _ => continuing_mentionAll line _
  observe _ := continuing_observeVariable (.inr rfl)
  writeTarget h := continuing_writeTarget h
  pinOfWord _ := fun _ => continuing_of_table fun _ _ _ h => (pinOfWord_ok h).1
  checkPwm _ := fun _ => continuing_of_table fun _ _ _ h => checkPwm_table h
  isFunction _ := fun _ => continuing_table fun _ => continuing_pure _

theorem closed_continuing (t : SymbolTable) : Closed (fun _ => True) fun _ m => Continuing t m where
  pure := continuing_pure
  throw _ := fun _ _ _ h => by cases h
  bind hm hf := hm.bind hf
  report _ _ := continuing_of_table fun _ _ _ h => by cases h; rfl
  log _ := continuing_of_table fun _ _ _ h => by cases h; rfl
  findFunction _ := continuing_table fun _ => continuing_pure _

end
end Build

/-- What the second pass makes of the table that the first pass leaves. -/
theorem continues_of_takeLines {source : String} {s t : Session} {b : Assembly}
    (h : Build.outline (sourceLines source) s = .ok () t)
    (hb : Assemble.takeLines (Line.numbered (sourceLines source)) { session := t } = .ok () b) :
    Build.Continues t.table b.session.table := by
  have hP := Build.closed_continuing t.table
  have hcomp := Build.compositional_continuing t.table
  have hlines := Assemble.everywhere_takeLines hP
    fun l (hl : l ∈ Line.numbered (sourceLines source)) =>
      Assemble.everywhere_takeLine hP trivial (fun cs => hcomp.condition cs l.1) fun st hc hst =>
        hcomp.statement (fun n type ht => Build.takes_of_statement h hl hc hst ht) l.1
  refine hlines _ _ _ _ (Assemble.onSession_of_ok hb) ⟨.refl _, fun n type hn => .inl ?_⟩
  rw [SymbolTable.isVariable_eq_typeOf?]
  exact Option.isSome_of_eq_some hn

/-! ## What statements write -/

/-- The variable that a line of the sketch writes to. -/
def Instr.written? : Instr → Option String
  | readAnalog name _ | readDigital name _ | readMillis name | readMicros name | assign name _
  | increase name _ | rescale name .. | clampLow name _ | clampHigh name _ | random name .. =>
    some name
  | _ => none

theorem Instr.mem_vars_of_written? {i : Instr} {name : String} (h : i.written? = some name) :
    name ∈ i.vars := by
  cases i <;> simp_all [written?, vars]

namespace Statement

/-- The variable that a statement changes where it is, which takes a `long`. -/
def changed? : Statement → Option String
  | .change name _ | .limit name _ | .map _ _ _ name | .random _ name => some name
  | _ => none

/-- The variable that a statement writes to, and the type it writes at. -/
def writes? (st : Statement) : Option (String × ValueType) :=
  st.taken?.or (st.changed?.map (·, .long))

theorem Emits.writes? {st : Statement} {is : List Instr} (h : st.Emits is) :
    ∀ i ∈ is, ∀ name ∈ i.written?, st.writes?.map Prod.fst = some name := by
  cases h <;> simp [Instr.written?, Statement.writes?, taken?, changed?]

end Statement

namespace Build

-- The bound of a random number is compared as it stands, not evaluated.
attribute [local irreducible] Text.writable

/-- The variable is at least a `long` if anything was written. -/
def Widened (name : String) (u : Session) (is : List Instr) : Prop :=
  is ≠ [] → u.table.Covers name .long

theorem widened_nil {name : String} (u : Session) : Widened name u [] := fun h => absurd rfl h

/-- An operation on a variable in its place, which is done only if the variable may be used. -/
theorem widened_grants (name : String) (line : Int) {f : Bool → Build (List Instr)}
    (hf : Extending (f true)) (hfalse : f false = pure []) :
    Grants (Widened name) (observeVariable name .long line >>= f) := by
  have hobserve : Grants (fun u ok => ok = true → u.table.Covers name .long)
      (observeVariable name .long line) := by
    refine ⟨(observeVariable_elementary name .long line).extending, ?_⟩
    intro s ok t h u hu _ hok
    have hallows : s.table.Allows name := by
      by_contra hnot
      obtain ⟨v, hv, -⟩ := observeVariable_of_not_allows hnot .long line
      rw [hv] at h
      cases h
      cases hok
    exact hu.table.covers (observeVariable_covers hallows h)
  refine hobserve.bind fun ok => ?_
  cases ok with
  | true => exact ⟨hf, fun _ _ _ _ _ _ _ hok _ => hok rfl⟩
  | false =>
    rw [hfalse]
    exact grants_pure fun u _ => widened_nil u

/-- A statement that changes a variable in its place makes it at least a `long`. -/
theorem statement_widened {line : Int} {st : Statement} {name : String}
    (h : st.changed? = some name) : Grants (Widened name) (statement line st) := by
  cases st with
  | change n value =>
    cases h
    refine (expression_elementary value line).then fun e => ?_
    cases e with
    | none => exact grants_pure widened_nil
    | some e => exact widened_grants name line (extending_pure _) rfl
  | limit n range =>
    cases h
    refine (ofExcept_elementary (readRange_ne range)).then fun r => ?_
    rcases r with _ | ⟨low, high⟩
    · exact grants_refusal rfl widened_nil
    · exact widened_grants name line (extending_pure _) rfl
  | map source fromRange toRange n =>
    cases h
    refine (ofExcept_elementary (readRange_ne fromRange)).then fun from? => ?_
    refine (ofExcept_elementary (readRange_ne toRange)).then fun to? => ?_
    rcases from? with _ | ⟨fromLow, fromHigh⟩
    · exact grants_refusal rfl widened_nil
    rcases to? with _ | ⟨toLow, toHigh⟩
    · exact grants_refusal rfl widened_nil
    -- the target is observed whether or not the source was in order
    refine (observeVariable_elementary source .long line).then fun sourceOk => ?_
    cases sourceOk with
    | true => exact widened_grants name line (extending_pure _) rfl
    | false => exact widened_grants name line (extending_pure _) rfl
  | random range n =>
    cases h
    refine (ofExcept_elementary (readRange_ne range)).then fun r => ?_
    rcases r with _ | ⟨a, b⟩
    · exact grants_refusal rfl widened_nil
    · refine widened_grants name line (Extending.bind ?_ fun _ => extending_pure _) rfl
      exact (ofExcept_elementary (writable_ne _)).extending
  | _ => cases h

end Build

/-! ## Whole scripts -/

namespace Assemble
open Assembly
variable {a a' : Assembly} {is : List Instr} {i : Instr} {name : String}

theorem written?_of_opener {o : Opener} {ids ids' : Nat} (h : o.Writes ids is ids') :
    ∀ i ∈ is, i.written? = none := by
  cases h <;> simp [Instr.written?]

/-- A line that writes to a variable is a statement. -/
theorem statement_of_written {line : Int} {code : List Char}
    (h : takeLine line code a = .ok is a') (hi : i ∈ is) (hw : i.written? = some name) :
    ∃ st, BlockLine.ofCode code = .command ∧ Statement.ofCode? code = some st ∧
      Build.statement line st a.session = .ok is a'.session := by
  have step := takeLine_outcome line code a
  rw [h] at step
  generalize hc : BlockLine.ofCode code = c at step
  cases step with
  | setup | loop | function | detached | nested | pin | stray | refused | endRefused | endStructure
  | unknownCommand | rejected => cases hi
  | otherwise =>
    split at hi
    · rw [List.mem_singleton.mp hi] at hw
      cases hw
    · cases hi
  | endControl =>
    rw [List.mem_singleton.mp hi] at hw
    cases hw
  | control hb hws =>
    rw [written?_of_opener hws i hi] at hw
    cases hw
  | @statement t b st is hb hst ht => exact ⟨st, rfl, hst, ht⟩

theorem trace_written {ls : List (Int × List Char)} (h : takeLines ls a = .ok () a') {w : Written}
    (hw : w ∈ trace ls a) (hi : i ∈ w.instrs) (hn : i.written? = some name) :
    ∃ code st s t, (w.line, code) ∈ ls ∧ BlockLine.ofCode code = .command ∧
      Statement.ofCode? code = some st ∧ Build.statement w.line st s = .ok w.instrs t ∧
      t.Extends a'.session := by
  induction ls generalizing a with
  | nil => cases hw
  | cons l ls ih =>
    obtain ⟨line, code⟩ := l
    obtain ⟨is, b, hl, hr⟩ := bind_eq_ok.mp h
    rw [trace, hl] at hw
    rcases List.mem_cons.mp hw with rfl | hw
    · obtain ⟨st, hc, hst, hrun⟩ := statement_of_written hl hi hn
      exact ⟨code, st, _, _, .head _, hc, hst, hrun, extends_of_takeLines hr⟩
    · obtain ⟨code, st, s, t, hmem, hrest⟩ := ih hr hw
      exact ⟨code, st, s, t, .tail _ hmem, hrest⟩

end Assemble

/-- A variable is at least as wide as a statement that takes it, as far as the first pass has seen
the statement. -/
theorem covers_of_taken {source : String} {s t u : Session} {l : Int × List Char} {st : Statement}
    {name : String} {type : ValueType} (h : Build.outline (sourceLines source) s = .ok () t)
    (hl : l ∈ Line.numbered (sourceLines source)) (hc : BlockLine.ofCode l.2 = .command)
    (hst : Statement.ofCode? l.2 = some st) (ht : st.taken? = some (name, type))
    (hu : Build.Continues t.table u.table) (hallows : u.table.Allows name)
    (hvar : u.table.isVariable name = true) :
    u.table.Covers name type ∨ ∃ v, st = .assign name v ∧ OutlineLine.pwmWord.fits v = true ∧
      ∃ before ∈ t.table.typeOf? name, before.rank < ValueType.long.rank := by
  have hcode := Line.isCode_of_mem_numbered hl
  rcases Statement.hint_of_taken? hcode hst ht with hhint | ⟨v, rfl, hv⟩
  · rw [← outline_of_command hc] at hhint
    exact .inl (hu.grows.settles (Build.outline_settles h hl hhint) hallows)
  · cases ht
    rw [ValueType.ofText_of_pwmWord hv]
    rw [SymbolTable.isVariable_eq_typeOf?, Option.isSome_iff_exists] at hvar
    obtain ⟨last, hlast⟩ := hvar
    rcases hu.fresh name last hlast with hknown | hwide
    · rw [SymbolTable.isVariable_eq_typeOf?, Option.isSome_iff_exists] at hknown
      obtain ⟨before, hbefore⟩ := hknown
      by_cases hnarrow : before.rank < ValueType.long.rank
      · exact .inr ⟨v, rfl, hv, before, hbefore, hnarrow⟩
      · exact .inl (hu.grows.covers ⟨before, hbefore, Nat.le_of_not_lt hnarrow⟩)
    · exact .inl ⟨last, hlast, hwide⟩

/-- **In a script without errors, variables are wide enough for what is written to them.** Every
line of the sketch that writes to a variable comes from a statement, and the type at which that
statement writes is no wider than the variable. The exception is an assignment of a value that
begins with `pwm` to a variable that the first pass made narrower than `long`. -/
theorem writes_fit_types (o : Options) (source : String) :
    match assemble (sourceLines source) { session := .start o.board o.reserved } with
    | .ok _ a => a.session.Accepted →
      ∀ w ∈ scriptTrace o source, ∀ i ∈ w.instrs, ∀ name ∈ i.written?,
        ∃ code st type, (w.line, code) ∈ Line.numbered (sourceLines source) ∧
          Statement.ofCode? code = some st ∧ st.writes? = some (name, type) ∧
          (a.session.table.Covers name type ∨
            ∃ v s, st = .assign name v ∧ OutlineLine.pwmWord.fits v = true ∧
              (analyze o source).result = .ok s ∧
              ∃ before ∈ s.table.typeOf? name, before.rank < ValueType.long.rank)
    | .error _ _ => True := by
  split
  · next a h =>
    intro hacc w hw i hi name hname
    obtain ⟨s, b, hs, hb, rfl⟩ := assemble_ok h
    have hbacc : b.session.Accepted := hacc.of_isPrefix ⟨_, rfl⟩
    rw [scriptTrace, hs] at hw
    obtain ⟨code, st, _, t, hmem, hc, hst, hrun, hext⟩ := Assemble.trace_written hb hw hi hname
    have hvar := (Assemble.trace_declared hb (.refl _) hbacc w hw i hi).vars name
      (Instr.mem_vars_of_written? hname)
    have hcontinues := continues_of_takeLines hs hb
    have hgrows := ((Build.outline_extending _).ok hs).table.trans hcontinues.grows
    have hallows := ((SymbolTable.exclusive_start _ _).grows hgrows).allows hvar
    rcases Build.statement_becomes hrun with hnil | hemits
    · rw [hnil] at hi
      cases hi
    obtain ⟨⟨_, type⟩, hwrites, rfl⟩ :=
      Option.map_eq_some_iff.mp (hemits.writes? i hi name hname)
    refine ⟨code, st, type, hmem, hst, hwrites, ?_⟩
    rcases Option.or_eq_some_iff.mp hwrites with htaken | ⟨-, hlong⟩
    · refine (covers_of_taken hs hmem hc hst htaken hcontinues hallows hvar).imp_right ?_
      rintro ⟨v, rfl, hv, hnarrow⟩
      exact ⟨v, s, rfl, hv, by rw [analyze, hs], hnarrow⟩
    · obtain ⟨_, hchanged, hpair⟩ := Option.map_eq_some_iff.mp hlong
      cases hpair
      have hwidened := (Build.statement_widened hchanged).2 _ _ _ hrun _ hext hbacc
      exact .inl (hwidened (List.ne_nil_of_mem hi))
  · trivial

/-- An assignment of `pwm` leaves a truth value as narrow as it is. -/
theorem write_wider_than_type_pwm :
    let source := "setup:\nset x to true\nset x to pwm\nend\nloop:\nend"
    (3, "set x to pwm".toList) ∈ Line.numbered (sourceLines source) ∧
    Statement.ofCode? "set x to pwm".toList = some (.assign "x" "pwm".toList) ∧
    (Statement.assign "x" "pwm".toList).writes? = some ("x", .long) ∧
    ⟨3, some { kind := .setup, line := 1 }, [.assign "x" "pwm".toList]⟩ ∈ scriptTrace {} source ∧
    match assemble (sourceLines source) { session := .start .uno reservedWords } with
    | .ok _ a => a.session.Accepted ∧ ¬ a.session.table.Covers "x" .long
    | .error _ _ => False := by
  intro source
  refine ⟨by decide +kernel, by decide +kernel, by decide, by decide +kernel, ?_⟩
  have hrun : (match assemble (sourceLines source) { session := .start .uno reservedWords } with
      | .ok _ a => decide (a.session.Accepted ∧ ¬ a.session.table.Covers "x" .long)
      | .error _ _ => false) = true := by decide +kernel
  revert hrun
  cases assemble (sourceLines source) { session := .start .uno reservedWords } with
  | ok _ a => exact of_decide_eq_true
  | error f a => exact nofun

end PlainSketch
