import PlainSketch.Proofs.FunctionBodies
import PlainSketch.Proofs.LineSorts

/-!
# Pin lines

The second pass passes over every line about a pin and relies on the first pass to have dealt with
it. The first pass does so, by a pin that has the line as its own or by an error on the line, unless
the line ends in `do:`: such a line it takes for an opener and leaves to the second pass. A pin line
that ends in `do:` is thus lost, and no other is. What the first pass enters and reports bears the
number of the line that it is about, so no line is accounted for by another one.
-/
namespace PlainSketch
open Text

namespace Session

/-- The line is accounted for: a pin is declared on it or an error reported. -/
def Accounts (s : Session) (line : Int) : Prop :=
  (∃ p ∈ s.table.pins, p.line = line) ∨ ∃ f ∈ s.findings, f.line = line ∧ f.isError = true

theorem Accounts.extends {s t : Session} {line : Int} (h : s.Accounts line) (ht : s.Extends t) :
    t.Accounts line := by
  rcases h with ⟨p, hp, hl⟩ | ⟨f, hf, hl⟩
  · exact .inl ⟨p, ht.table.keeps.pins.subset hp, hl⟩
  · exact .inr ⟨f, ht.findings.subset hf, hl⟩

theorem accounts_of_refused {s t : Session} {line : Int} (h : Build.Refused line s t) :
    t.Accounts line := by
  obtain ⟨-, p, hp, hmem⟩ := h
  exact .inr ⟨_, hmem, rfl, by simp [Finding.isError, hp]⟩

end Session

/-- The name of the pin that a line is about. -/
def OutlineLine.pinName? : OutlineLine → Option String
  | pin (some p) => some p.1
  | pinAssignment name _ => some name
  | _ => none

/-! ## Reports of the first pass -/

namespace Build

/-- Whatever a run reports, it reports about this line. -/
def ReportsOn {α : Type} (line : Int) (m : Build α) : Prop :=
  ∀ s a t, m s = .ok a t → ∀ f ∈ t.findings, f ∈ s.findings ∨ f.line = line

section
variable {α β : Type} {line : Int} {m : Build α} {f : α → Build β}

/-- A step that reports nothing. -/
theorem reportsOn_of_quiet (h : ∀ s a t, m s = .ok a t → t.findings = s.findings) :
    ReportsOn line m := by
  intro s a t hm f hf
  exact .inl (h s a t hm ▸ hf)

theorem reportsOn_pure (a : α) : ReportsOn line (pure a : Build α) :=
  reportsOn_of_quiet fun s b t h => by cases h; rfl

theorem ReportsOn.bind (hm : ReportsOn line m) (hf : ∀ a, ReportsOn line (f a)) :
    ReportsOn line (m >>= f) := by
  intro s b u h g hg
  obtain ⟨a, t, ha, hb⟩ := bind_eq_ok.mp h
  exact (hf a t b u hb g hg).elim (hm s a t ha g) .inr

theorem table_reportsOn : ReportsOn line table :=
  reportsOn_of_quiet fun s a t h => by cases h; rfl

theorem setTable_reportsOn (t : SymbolTable) : ReportsOn line (setTable t) :=
  reportsOn_of_quiet fun s a u h => by cases h; rfl

theorem log_reportsOn (e : Event) : ReportsOn line (log e) :=
  reportsOn_of_quiet fun s a t h => by cases h; rfl

theorem ofExcept_reportsOn (x : Except Fault α) : ReportsOn line (ofExcept x) :=
  reportsOn_of_quiet fun s a t h => by rw [(ofExcept_ok h).2]

theorem report_reportsOn (line : Int) (p : Problem) : ReportsOn line (report line p) := by
  intro s a t h f hf
  cases h
  rcases List.mem_append.mp hf with hf | hf
  · exact .inl hf
  · rw [List.mem_singleton.mp hf]
    exact .inr rfl

theorem refuse_reportsOn (line : Int) (p : Problem) : ReportsOn line (refuse line p) :=
  (report_reportsOn line p).bind fun _ => reportsOn_pure false

/-- A report in front of what is done anyway. -/
theorem reportsOn_warning {c : Prop} [Decidable c] {p : Problem} (hm : ReportsOn line m) :
    ReportsOn line (if c then report line p >>= fun _ => m else m) := by
  split
  · exact (report_reportsOn line p).bind fun _ => hm
  · exact hm

/-- One check of a declaration, in front of the rest. -/
theorem reportsOn_unless {c : Prop} [Decidable c] {p : Problem} {m : Build Bool}
    (hm : ReportsOn line m) : ReportsOn line (if c then refuse line p else m) := by
  split
  · exact refuse_reportsOn line p
  · exact hm

end

section
variable (line : Int)

theorem pinOfWord_reportsOn (token : List Char) : ReportsOn line (pinOfWord token line) := by
  refine table_reportsOn.bind fun t => ?_
  split
  · exact reportsOn_warning (reportsOn_pure _)
  split
  · exact (ofExcept_reportsOn _).bind fun n => reportsOn_warning (reportsOn_pure _)
  · exact reportsOn_pure _

theorem definePin_reportsOn (name : String) (literal : List Char) :
    ReportsOn line (definePin name literal line) := by
  refine table_reportsOn.bind fun t => ?_
  refine reportsOn_unless (reportsOn_unless (reportsOn_unless (reportsOn_unless ?_)))
  refine reportsOn_unless ((pinOfWord_reportsOn line literal).bind fun r => ?_)
  cases r with
  | none => exact refuse_reportsOn line _
  | some ref =>
    exact (setTable_reportsOn _).bind fun _ => (log_reportsOn _).bind fun _ => reportsOn_pure true

theorem defineFunction_reportsOn (name : String) : ReportsOn line (defineFunction name line) := by
  refine table_reportsOn.bind fun t => ?_
  refine reportsOn_unless (reportsOn_unless (reportsOn_unless (reportsOn_unless ?_)))
  refine reportsOn_unless ((setTable_reportsOn _).bind fun _ => ?_)
  exact (log_reportsOn _).bind fun _ => reportsOn_pure true

theorem widenVariable_reportsOn (v : Variable) (type : ValueType) :
    ReportsOn line (widenVariable v type line) := by
  refine reportsOn_warning ?_
  split
  · exact (log_reportsOn _).bind fun _ => table_reportsOn.bind fun _ => setTable_reportsOn _
  · exact reportsOn_pure ()

theorem observeVariable_reportsOn (name : String) (type : ValueType) :
    ReportsOn line (observeVariable name type line) := by
  refine table_reportsOn.bind fun t => ?_
  split
  · exact reportsOn_pure false
  refine reportsOn_unless (reportsOn_unless (reportsOn_unless ?_))
  split
  · exact (setTable_reportsOn _).bind fun _ => (log_reportsOn _).bind fun _ => reportsOn_pure true
  · exact (widenVariable_reportsOn line _ type).bind fun _ => reportsOn_pure true

theorem seed_reportsOn (name : String) (type : ValueType) :
    ReportsOn line (seed name type line) := by
  refine table_reportsOn.bind fun t => ?_
  split
  · exact reportsOn_pure ()
  · exact (observeVariable_reportsOn line name type).bind fun _ => reportsOn_pure ()

theorem outlineLine_reportsOn (depth : Nat) (c : OutlineLine) :
    ReportsOn line (outlineLine depth line c) := by
  obtain ⟨m, d, hact, he⟩ := outlineLine_acts depth line c
  rw [he]
  refine ReportsOn.bind ?_ fun _ => reportsOn_pure d
  cases hact with
  | opener | closer | neutral | other | innerFunction => exact reportsOn_pure ()
  | function name => exact (defineFunction_reportsOn line name).bind fun _ => reportsOn_pure ()
  | pin name value | pinAssignment name value =>
    exact (definePin_reportsOn line name value).bind fun _ => reportsOn_pure ()
  | pinRefused | assignmentRefused => exact report_reportsOn line _
  | writes name type => exact seed_reportsOn line name type

end

/-! ## Lines of the first pass -/

section
variable {depth d : Nat} {line : Int} {c : OutlineLine} {s t : Session}

theorem pins_of_definePin {name : String} {literal : List Char} {b : Bool}
    (h : definePin name literal line s = .ok b t) :
    ∀ p ∈ t.table.pins, p ∈ s.table.pins ∨ p.line = line ∧ p.name = name := by
  rcases definePin_ok h with ⟨-, hrefused, -⟩ | ⟨-, -, ref, -, htable⟩
  · rw [hrefused]
    exact fun p hp => .inl hp
  · rw [htable]
    intro p hp
    rcases List.mem_append.mp hp with hp | hp
    · exact .inl hp
    · rw [List.mem_singleton.mp hp]
      exact .inr ⟨rfl, rfl⟩

/-- A line enters pins under its own number only, and the one that it names. -/
theorem outlineLine_pins (h : outlineLine depth line c s = .ok d t) :
    ∀ p ∈ t.table.pins, p ∈ s.table.pins ∨ p.line = line ∧ c.pinName? = some p.name := by
  obtain ⟨m, hact, hm⟩ := outlineLine_ok h
  cases hact with
  | opener | closer | neutral | other | innerFunction | pinRefused | assignmentRefused =>
    cases hm
    exact fun p hp => .inl hp
  | function name =>
    obtain ⟨b, u, hdef, hpure⟩ := bind_eq_ok.mp hm
    cases hpure
    rw [pins_of_defineFunction hdef]
    exact fun p hp => .inl hp
  | pin name value | pinAssignment name value =>
    obtain ⟨b, u, hdef, hpure⟩ := bind_eq_ok.mp hm
    cases hpure
    intro p hp
    rcases pins_of_definePin hdef p hp with hp | ⟨hl, hn⟩
    · exact .inl hp
    · exact .inr ⟨hl, congrArg some hn.symm⟩
  | writes name type =>
    rw [((seed_elementary name type line s).ok hm).fixed.1]
    exact fun p hp => .inl hp

/-- A line leaves it as it is whether another line is accounted for. -/
theorem outlineLine_accounts {n : Int} (h : outlineLine depth line c s = .ok d t) (hn : n ≠ line)
    (ht : t.Accounts n) : s.Accounts n := by
  rcases ht with ⟨p, hp, rfl⟩ | ⟨f, hf, rfl, he⟩
  · rcases outlineLine_pins h p hp with hp | hl
    · exact .inl ⟨p, hp, rfl⟩
    · exact absurd hl.1 hn
  · rcases outlineLine_reportsOn line depth c s d t h f hf with hf | hl
    · exact .inr ⟨f, hf, rfl, he⟩
    · exact absurd hl hn

theorem accounts_of_definePin {name : String} {literal : List Char} {b : Bool}
    (h : definePin name literal line s = .ok b t) : t.Accounts line := by
  rcases definePin_ok h with ⟨-, hrefused⟩ | ⟨-, -, ref, -, htable⟩
  · exact Session.accounts_of_refused hrefused
  · refine .inl ⟨⟨name, ref.target, ref.kind, String.ofList literal, line, ref.number⟩, ?_, rfl⟩
    rw [htable]
    exact List.mem_append_right _ (List.mem_singleton.mpr rfl)

theorem accounts_of_report {p : Problem} (hp : p.severity = .error) :
    (s.reported line p).Accounts line :=
  .inr ⟨⟨line, p⟩, by simp [Session.reported], rfl, by simp [Finding.isError, hp]⟩

/-- A pin line is accounted for at once, at whatever depth. -/
theorem outlineLine_pin (hc : c.isPin = true) (h : outlineLine depth line c s = .ok d t) :
    t.Accounts line := by
  obtain ⟨m, hact, hm⟩ := outlineLine_ok h
  cases hact with
  | pin | pinAssignment =>
    obtain ⟨b, u, hdef, hpure⟩ := bind_eq_ok.mp hm
    cases hpure
    exact accounts_of_definePin hdef
  | pinRefused _ hp | assignmentRefused _ _ hp =>
    cases hm
    exact accounts_of_report hp
  | opener | closer | neutral | other | function | innerFunction | writes => cases hc

end

/-- Lines with other numbers do not account for a line. -/
theorem outlineFrom_accounts {ls : List (Int × List Char)} {n : Int} (hn : n ∉ ls.map Prod.fst)
    {depth d : Nat} {s t : Session} (h : outlineFrom depth ls s = .ok d t) (ht : t.Accounts n) :
    s.Accounts n := by
  induction ls generalizing depth s with
  | nil =>
    cases h
    exact ht
  | cons l ls ih =>
    obtain ⟨e, u, hline, h⟩ := bind_eq_ok.mp h
    obtain ⟨hl, hls⟩ : n ≠ l.1 ∧ n ∉ ls.map Prod.fst := by simpa using hn
    exact outlineLine_accounts hline hl (ih hls h)

/-- Among lines with different numbers, one that the second pass takes for a pin line is accounted
for exactly if it does not end in `do:`. -/
theorem outlineFrom_accounts_iff {ls : List (Int × List Char)} (hls : (ls.map Prod.fst).Nodup)
    {depth d : Nat} {s t : Session} (h : outlineFrom depth ls s = .ok d t) {l : Int × List Char}
    (hl : l ∈ ls) (hs : ¬ s.Accounts l.1) (hcode : Line.IsCode l.2)
    (hpin : BlockLine.ofCode l.2 = .pin) :
    t.Accounts l.1 ↔ endsWithWord "do:" l.2 = false := by
  obtain ⟨before, rest, rfl⟩ := List.append_of_mem hl
  obtain ⟨e, u, hbefore, h⟩ := outlineFrom_append.mp h
  obtain ⟨e', v, hline, hrest⟩ := bind_eq_ok.mp h
  have hout := outline_of_pin hcode hpin
  rw [List.map_append, List.map_cons, List.nodup_append] at hls
  obtain ⟨-, hcons, hdisjoint⟩ := hls
  cases hdo : endsWithWord "do:" l.2 with
  | false =>
    rw [hdo] at hout
    have hv := outlineLine_pin hout hline
    exact ⟨fun _ => rfl, fun _ => hv.extends ((outlineFrom_extending e' rest).ok hrest)⟩
  | true =>
    rw [hdo, if_pos rfl] at hout
    rw [hout] at hline
    cases hline
    refine ⟨fun ht => absurd ?_ hs, nofun⟩
    have hnot : l.1 ∉ before.map Prod.fst :=
      fun hm => hdisjoint _ hm _ List.mem_cons_self rfl
    exact outlineFrom_accounts hnot hbefore
      (outlineFrom_accounts (List.nodup_cons.mp hcons).1 hrest ht)

end Build

/-! ## Whole scripts -/

/-- The second pass passes over every pin line, and the first pass accounts for exactly those that
do not end in `do:`. -/
theorem pin_line_accounted_iff (o : Options) (source : String) :
    match (analyze o source).result with
    | .ok s => ∀ l ∈ Line.numbered (sourceLines source), BlockLine.ofCode l.2 = .pin →
      (s.Accounts l.1 ↔ endsWithWord "do:" l.2 = false) ∧
        ∀ a, Assemble.takeLine l.1 l.2 a = .ok [] a
    | .error _ => True := by
  unfold analyze
  cases h : Build.outline (sourceLines source) (.start o.board o.reserved) with
  | error f s => trivial
  | ok u s =>
    obtain ⟨d, t, hout, hlog⟩ := bind_eq_ok.mp h
    cases hlog
    intro l hl hpin
    have hstart : ¬ (Session.start o.board o.reserved).Accounts l.1 := by
      rintro (⟨p, hp, -⟩ | ⟨f, hf, -⟩)
      · cases hp
      · cases hf
    refine ⟨?_, fun a => ?_⟩
    · exact Build.outlineFrom_accounts_iff (Line.numberedFrom_nodup 1 _) hout hl hstart
        (Line.isCode_of_mem_numbered hl) hpin
    · unfold Assemble.takeLine
      rw [hpin]
      rfl

/-- The first pass says nothing about the pin line `pin do:`. -/
theorem pin_line_unaccounted_do :
    (1, "pin do:".toList) ∈ Line.numbered (sourceLines "pin do:") ∧
      BlockLine.ofCode "pin do:".toList = .pin ∧
      ∃ s, (analyze {} "pin do:").result = .ok s ∧ ¬ s.Accounts 1 := by
  refine ⟨by decide +kernel, by decide +kernel, ?_⟩
  have hline : Line.numbered (sourceLines "pin do:") = [(1, "pin do:".toList)] := by decide +kernel
  have houtline : OutlineLine.ofCode "pin do:".toList = .neutral := by decide +kernel
  have hrun : Build.outline (sourceLines "pin do:") (.start .uno reservedWords) =
      .ok () { Session.start .uno reservedWords with log := [.scanned 0 0 0] } := by
    rw [Build.outline, hline, Build.outlineFrom, houtline]
    rfl
  refine ⟨{ Session.start .uno reservedWords with log := [.scanned 0 0 0] }, ?_, ?_⟩
  · rw [analyze, hrun]
  · rintro (⟨p, hp, -⟩ | ⟨f, hf, -⟩)
    · cases hp
    · cases hf

end PlainSketch
