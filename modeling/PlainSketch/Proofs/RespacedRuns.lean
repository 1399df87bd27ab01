import PlainSketch.Proofs.BlockOrder
import PlainSketch.Proofs.Faultless
import PlainSketch.Proofs.RespacedSteps

/-!
# Both passes over respaced lines

A script that compiles without errors is followed line by line next to the script with its lines
squeezed. The first pass comes to the same session. The second pass also has the same blocks open
all along, and what it has written differs in blanks only.
-/
namespace PlainSketch
open Text Session
open Line (squeeze collapse)
open Build (Mirrors SameLines)

/-! ## The first pass -/

namespace Build
variable {line : Int} {v : List Char}

/-- The literal of a declared pin has no blanks. -/
theorem not_blank_of_definePin {s t : Session} {name : String} {b : Bool} (hs : s.table.Exclusive)
    (hcode : Line.IsCode v) (hhead : ∀ c, v.head? = some c → isBlank c = false)
    (h : definePin name v line s = .ok b t) (hacc : t.Accepted) : ∀ c ∈ v, isBlank c = false := by
  have htrim : trim v = v := trim_eq_self hhead hcode.last
  have refused : ∀ {p : Problem} {s' : Session}, p.severity = .error →
      refuse line p s' = .ok b t → ∀ c ∈ v, isBlank c = false :=
    fun hp h => absurd (refuse_ok hp h).2 hacc.not_refused
  rw [definePin, table_bind] at h
  split at h
  · exact refused rfl h
  split at h
  · exact refused rfl h
  split at h
  · exact refused rfl h
  split at h
  · exact refused rfl h
  split at h
  · exact refused rfl h
  obtain ⟨r, u, hr, h⟩ := bind_eq_ok.mp h
  cases r with
  | none => exact refused rfl h
  | some ref =>
    -- a pin that is found is a label, a number or an alias, and none of these holds a blank
    obtain ⟨-, hl | hint | ⟨pin, hpin, hname⟩⟩ := pinOfWord_some hr
    · rw [← htrim]
      exact Line.not_blank_of_analogLabel? hl
    · rw [Line.isIntLiteral, htrim] at hint
      exact Line.not_blank_of_isInteger hint
    · have hmem : pin.name ∈ s.table.names :=
        SymbolTable.mem_names.mpr (.inl (SymbolTable.isPin_iff.mpr ⟨pin, hpin, rfl⟩))
      have hident := hs.identifiers _ hmem
      rw [hname, htrim, String.toList_ofList] at hident
      intro c hc
      rcases isNameChar_of_isIdentifier hident c hc with hchar | rfl
      · exact isBlank_of_class (by decide +kernel) hchar
      · exact absurd hc hcode.oneLine

theorem definePin_mirrors (name : String) (hcode : Line.IsCode v)
    (hhead : ∀ c, v.head? = some c → isBlank c = false) :
    Mirrors Eq (definePin name v line) (definePin name (squeeze v) line) := by
  intro s b t hs h hacc
  rw [Line.squeeze_of_not_blank (not_blank_of_definePin hs hcode hhead h hacc)]
  exact ⟨b, h, rfl⟩

end Build

/-- The value of a pin line is code. -/
def OutlineLine.IsTight : OutlineLine → Prop
  | pin (some (_, v)) | pinAssignment _ v =>
    Line.IsCode v ∧ ∀ c, v.head? = some c → isBlank c = false
  | _ => True

theorem OutlineLine.isTight_ofCode {code : List Char} (hcode : Line.IsCode code) :
    (ofCode code).IsTight := by
  have hsort := isSort_ofCode code
  generalize ofCode code = c at hsort ⊢
  cases hsort with
  | pin =>
    cases hpin : Declaration.pinShape.first? code with
    | none => trivial
    | some x =>
      obtain ⟨r, hr⟩ := Shape.first?_eq_some.mp hpin
      obtain ⟨_, r₁, hword, hr⟩ := Shape.bind_eq_some.mp hr
      obtain ⟨_, r₂, hgap, hr⟩ := Shape.bind_eq_some.mp hr
      obtain ⟨n, r₃, hname, hr⟩ := Shape.bind_eq_some.mp hr
      obtain ⟨_, r₄, his, hr⟩ := Shape.bind_eq_some.mp hr
      obtain ⟨v, r₅, hvalue, hr⟩ := Shape.bind_eq_some.mp hr
      cases hr
      have hafter := (Shape.nextKeyword_leaves _ _ _ _ his).trans (Shape.name_leaves _ _ _ hname)
      have hbefore := (Shape.gap_leaves _ _ _ hgap).trans (Shape.keyword_leaves _ _ _ _ hword)
      exact Shape.isCode_of_value (hcode.of_suffix (hafter.trans hbefore)) hvalue
  | pinAssignment _ _ _ hassign =>
    obtain ⟨r, hr⟩ := Shape.first?_eq_some.mp hassign
    obtain ⟨m, r₁, hhead, hr⟩ := Shape.bind_eq_some.mp hr
    obtain ⟨u, r₂, hvalue, hr⟩ := Shape.bind_eq_some.mp hr
    cases hr
    have hafter := (Declaration.follows_pinAssignmentHead respaces_squeeze).leaves _ _ _ hhead
    exact Shape.isCode_of_value (hcode.of_suffix hafter) hvalue
  | body | control | closer | neutral | function | writes | other => trivial

theorem Build.outlineLine_mirrors {c : OutlineLine} (hc : c.IsTight) (depth : Nat) (line : Int) :
    Mirrors Eq (outlineLine depth line c) (outlineLine depth line (c.mapText squeeze)) := by
  cases c with
  | pin parts =>
    simp only [outlineLine, OutlineLine.mapText]
    split
    · exact mirrors_refl _
    · cases parts with
      | none => exact mirrors_refl _
      | some x =>
        refine (definePin_mirrors x.1 hc.1 hc.2).bind (definePin_extending x.1 x.2 line)
          (fun _ => extending_pure depth) fun _ _ _ => mirrors_pure rfl
  | pinAssignment name v =>
    simp only [outlineLine, OutlineLine.mapText]
    split
    · exact mirrors_refl _
    · refine (definePin_mirrors name hc.1 hc.2).bind (definePin_extending name v line)
          (fun _ => extending_pure depth) fun _ _ _ => mirrors_pure rfl
  | _ => exact mirrors_refl _

/-! ## Lines that keep their meaning -/

/-- The layout keeps the line as it is, or reads the quotes of its statement as the statement
does. -/
def Line.isSettled (code : List Char) : Bool :=
  squeeze code == code ||
    match BlockLine.ofCode code with
    | .command => (Statement.ofCode? code).all Statement.isSettled
    | _ => true

/-- A line that both passes read alike when it is squeezed. -/
structure Line.IsFirm (code : List Char) : Prop where
  isCode : Line.IsCode code
  head : ∀ c, code.head? = some c → isBlank c = false
  known : BlockLine.ofCode code ≠ .unknown
  opener : ∀ o, BlockLine.ofCode code = .control o → o.Steady
  statement : BlockLine.ofCode code = .command →
    ∃ st, Statement.ofCode? code = some st ∧ (squeeze code = code ∨ st.Steady)

theorem Line.IsFirm.outlineLine_mirrors {code : List Char} (h : Line.IsFirm code) (depth : Nat)
    (line : Int) : Build.Mirrors Eq (Build.outlineLine depth line (OutlineLine.ofCode code))
      (Build.outlineLine depth line (OutlineLine.ofCode (squeeze code))) := by
  by_cases hkept : squeeze code = code
  · rw [hkept]
    exact Build.mirrors_refl _
  · have hsort : OutlineLine.ofCode (squeeze code) = (OutlineLine.ofCode code).mapText squeeze := by
      refine OutlineLine.ofCode_squeeze h.isCode h.head h.known h.opener fun hcommand => ?_
      obtain ⟨st, hst, hsteady⟩ := h.statement hcommand
      exact Statement.hint_squeeze h.isCode hst (hsteady.resolve_left hkept)
    rw [hsort]
    exact Build.outlineLine_mirrors (OutlineLine.isTight_ofCode h.isCode) depth line

/-- The lines of a script, squeezed. -/
def Line.squeezeAll (ls : List (Int × List Char)) : List (Int × List Char) :=
  ls.map (Prod.map id squeeze)

theorem Build.outlineFrom_mirrors (depth : Nat) {ls : List (Int × List Char)}
    (h : ∀ l ∈ ls, Line.IsFirm l.2) :
    Mirrors Eq (outlineFrom depth ls) (outlineFrom depth (Line.squeezeAll ls)) := by
  induction ls generalizing depth with
  | nil => exact mirrors_refl _
  | cons l ls ih =>
    obtain ⟨hl, hls⟩ := List.forall_mem_cons.mp h
    refine (hl.outlineLine_mirrors depth l.1).bind (outlineLine_extending depth l.1 _)
      (fun d => outlineFrom_extending d ls) ?_
    rintro d _ rfl
    exact ih d hls

/-! ## The second pass -/

/-- The same body, but for the blanks of lines that are dropped. -/
inductive Body.Alike : Body → Body → Prop
  | same (b : Body) : Alike b b
  | detached {ls ls' : List Instr} (h : SameLines ls ls') : Alike (.detached ls) (.detached ls')

namespace Sketch
variable {α β : Type} (f : α → β) (s : Sketch α)

theorem map_addSetup (ls : List α) : (s.addSetup ls).map f = (s.map f).addSetup (ls.map f) := by
  simp [map, addSetup]

theorem map_addLoop (ls : List α) : (s.addLoop ls).map f = (s.map f).addLoop (ls.map f) := by
  simp [map, addLoop]

theorem map_addFunction (name : String) (ls : List α) :
    (s.addFunction name ls).map f = (s.map f).addFunction name (ls.map f) := by
  simp only [map, addFunction, List.map_map]
  congr 1
  refine List.map_congr_left fun b _ => ?_
  by_cases hb : b.1 = name
  · simp [hb]
  · simp [hb]

theorem map_withFunction (name : String) :
    (s.withFunction name).map f = (s.map f).withFunction name := by
  have hany : (s.map f).functions.any (·.1 == name) = s.functions.any (·.1 == name) := by
    simp [map, List.any_map, Function.comp_def]
  simp only [withFunction, hany]
  split
  · rfl
  · simp [map]

end Sketch

namespace Assembly

/-- Two states of the second pass that differ in the blanks of what is written only. -/
structure Alike (a a' : Assembly) : Prop where
  session : a'.session = a.session
  sketch : a'.sketch.map Instr.bare = a.sketch.map Instr.bare
  stack : a'.stack = a.stack
  body : Option.Rel Body.Alike a.body a'.body
  sawSetup : a'.sawSetup = a.sawSetup
  sawLoop : a'.sawLoop = a.sawLoop
  ids : a'.ids = a.ids

variable {a a' : Assembly}

theorem Alike.body_cases (h : a.Alike a') : a.body = none ∧ a'.body = none ∨
    ∃ b b', a.body = some b ∧ a'.body = some b' ∧ b.Alike b' := by
  have hbody := h.body
  generalize a.body = x, a'.body = x' at hbody
  cases hbody with
  | none => exact .inl ⟨rfl, rfl⟩
  | some hb => exact .inr ⟨_, _, rfl, rfl, hb⟩

theorem Alike.isSome (h : a.Alike a') : a'.body.isSome = a.body.isSome := by
  rcases h.body_cases with ⟨hb, hb'⟩ | ⟨b, b', hb, hb', -⟩ <;> simp [hb, hb']

theorem Alike.write (h : a.Alike a') {b b' : Body} (hb : b.Alike b') {is is' : List Instr}
    (his : SameLines is is') : (a.write b is).Alike (a'.write b' is') := by
  have dropped : ∀ {ls ls' : List Instr}, SameLines ls ls' →
      (a.write (.detached ls) is).Alike (a'.write (.detached ls') is') := by
    intro ls ls' hls
    refine { h with body := .some (.detached ?_) }
    rw [SameLines, List.map_append, hls, his, List.map_append]
  cases hb with
  | detached hls => exact dropped hls
  | same b =>
    cases b with
    | detached ls => exact dropped rfl
    | setup =>
      refine { h with sketch := ?_ }
      show (a'.sketch.addSetup is').map _ = (a.sketch.addSetup is).map _
      rw [Sketch.map_addSetup, h.sketch, his, ← Sketch.map_addSetup]
    | loop =>
      refine { h with sketch := ?_ }
      show (a'.sketch.addLoop is').map _ = (a.sketch.addLoop is).map _
      rw [Sketch.map_addLoop, h.sketch, his, ← Sketch.map_addLoop]
    | function name =>
      refine { h with sketch := ?_ }
      show (a'.sketch.addFunction name is').map _ = (a.sketch.addFunction name is).map _
      rw [Sketch.map_addFunction, h.sketch, his, ← Sketch.map_addFunction]

end Assembly

namespace Assemble
open Assembly

section
variable {α β : Type} {m m' : Assemble α} {f f' : α → Assemble β} {R : α → α → Prop}
  {Q : β → β → Prop}

/-- From alike states the two steps lead to alike states, with related answers. -/
def Carries (R : α → α → Prop) (m m' : Assemble α) : Prop :=
  ∀ ⦃a a' x b⦄, a.Alike a' → m a = .ok x b → ∃ x' b', m' a' = .ok x' b' ∧ b.Alike b' ∧ R x x'

theorem carries_pure {x x' : α} (h : R x x') : Carries R (pure x : Assemble α) (pure x') := by
  intro a a' y b ha hm
  cases hm
  exact ⟨x', a', rfl, ha, h⟩

theorem Carries.bind (hm : Carries R m m') (hf : ∀ x x', R x x' → Carries Q (f x) (f' x')) :
    Carries Q (m >>= f) (m' >>= f') := by
  intro a a' y c ha h
  obtain ⟨x, b, hx, hy⟩ := bind_eq_ok.mp h
  obtain ⟨x', b', hx', hb, hR⟩ := hm ha hx
  obtain ⟨y', c', hy', hc, hQ⟩ := hf x x' hR hb hy
  exact ⟨y', c', bind_eq_ok.mpr ⟨x', b', hx', hy'⟩, hc, hQ⟩

theorem carries_get : Carries Assembly.Alike (get : Assemble Assembly) get := by
  intro a a' x b ha hm
  cases hm
  exact ⟨a', a', rfl, ha, ha⟩

theorem carries_set {b b' : Assembly} (h : b.Alike b') :
    Carries Eq (set b : Assemble Unit) (set b') := by
  intro a a' x c _ hm
  cases hm
  exact ⟨(), b', rfl, h, rfl⟩

theorem carries_modify {g g' : Assembly → Assembly}
    (h : ∀ {a a'}, a.Alike a' → (g a).Alike (g' a')) :
    Carries Eq (modify g : Assemble Unit) (modify g') := by
  intro a a' x c ha hm
  cases hm
  exact ⟨(), g' a', rfl, h ha, rfl⟩

theorem carries_build (m : Build α) : Carries Eq (build m) (build m) := by
  intro a a' x b ha hm
  simp only [build] at hm ⊢
  rw [ha.session]
  cases hrun : m a.session with
  | error e t =>
    rw [hrun] at hm
    cases hm
  | ok y t =>
    rw [hrun] at hm
    cases hm
    exact ⟨x, { a' with session := t }, rfl, { ha with session := rfl }, rfl⟩

theorem carries_push (f : Frame) : Carries Eq (push f) (push f) := by
  refine carries_get.bind fun a a' ha => ?_
  rw [ha.stack]
  refine (carries_build _).bind fun _ _ _ => carries_modify fun {a a'} ha => ?_
  exact { ha with stack := congrArg (f :: ·) ha.stack }

theorem carries_emit {is is' : List Instr} (h : SameLines is is') :
    Carries SameLines (emit is) (emit is') := by
  refine carries_get.bind fun a a' ha => ?_
  rcases ha.body_cases with ⟨hb, hb'⟩ | ⟨b, b', hb, hb', hbody⟩
  · rw [hb]
    intro c c' x d _ hm
    cases hm
  · rw [hb, hb']
    exact (carries_set (ha.write hbody h)).bind fun _ _ _ => carries_pure h

theorem carries_openStructure (f : Frame) {b b' : Body} (hb : b.Alike b') :
    Carries Eq (openStructure f b) (openStructure f b') := by
  refine carries_get.bind fun a a' ha => ?_
  rw [ha.isSome]
  split
  · exact (carries_build _).bind fun _ _ _ => (carries_push _).bind fun _ _ _ => carries_pure rfl
  · refine Carries.bind (R := Eq) (carries_set ?_) fun _ _ _ =>
      (carries_push f).bind fun _ _ _ => carries_pure rfl
    exact { ha with body := .some hb }

theorem carries_functionBody (name : String) (line : Int) :
    Carries Body.Alike (functionBody name line) (functionBody name line) := by
  refine carries_get.bind fun a a' ha => ?_
  rw [ha.session]
  have detached : Carries Body.Alike (pure (.detached []) : Assemble Body) (pure (.detached [])) :=
    carries_pure (.same _)
  rcases ha.body_cases with ⟨hb, hb'⟩ | ⟨b, b', hb, hb', -⟩
  · rw [hb, hb']
    cases a.session.table.findFunction? name with
    | none => exact detached
    | some f =>
      dsimp only
      split
      · refine Carries.bind (R := Eq) (carries_set ?_) fun _ _ _ => carries_pure (.same _)
        refine { ha with session := rfl, body := .none, sketch := ?_ }
        rw [Sketch.map_withFunction, ha.sketch, ← Sketch.map_withFunction]
      · exact detached
  · rw [hb, hb']
    exact detached

theorem carries_freshId : Carries Eq freshId freshId := by
  refine carries_get.bind fun a a' ha => ?_
  rw [ha.ids]
  refine Carries.bind (R := Eq) (carries_set ?_) fun _ _ _ => carries_pure rfl
  exact { ha with ids := rfl }

theorem carries_requireBody (line : Int) : Carries Eq (requireBody line) (requireBody line) := by
  refine carries_get.bind fun a a' ha => ?_
  rw [ha.isSome]
  split
  · exact carries_pure rfl
  · exact (carries_build _).bind fun _ _ _ => carries_pure rfl

/-- Lines are written and their block is opened. -/
theorem carries_header (f : Frame) {is is' : List Instr} (h : SameLines is is') :
    Carries SameLines
      (do
        let is ← emit is
        push f
        return is)
      (do
        let is ← emit is'
        push f
        return is) :=
  (carries_emit h).bind fun _ _ his => (carries_push f).bind fun _ _ _ => carries_pure his

theorem carries_openControl (o : Opener) (line : Int) :
    Carries SameLines (openControl o line) (openControl o line) := by
  refine (carries_requireBody line).bind ?_
  rintro ok _ rfl
  split
  · cases o with
    | ifDo c | whileDo c =>
      refine (carries_build _).bind ?_
      rintro test _ rfl
      cases test with
      | some test => exact carries_header _ rfl
      | none => exact (carries_push _).bind fun _ _ _ => carries_pure rfl
    | forever => exact carries_header _ rfl
    | repeatTimes count =>
      refine (carries_build _).bind ?_
      rintro n _ rfl
      split
      · exact (carries_build _).bind fun _ _ _ =>
          (carries_push _).bind fun _ _ _ => carries_pure rfl
      · refine carries_freshId.bind ?_
        rintro id _ rfl
        exact carries_header _ rfl
    | every amount unit | after amount unit =>
      refine (carries_build _).bind ?_
      rintro n _ rfl
      refine carries_freshId.bind ?_
      rintro id _ rfl
      exact carries_header _ rfl
  · exact (carries_push _).bind fun _ _ _ => carries_pure rfl

theorem carries_alternate (line : Int) :
    Carries SameLines (alternate line) (alternate line) := by
  have refused : ∀ p : Problem, Carries SameLines (report line p >>= fun _ => pure [])
      (report line p >>= fun _ => pure []) :=
    fun p => (carries_build _).bind fun _ _ _ => carries_pure rfl
  refine (carries_requireBody line).bind ?_
  rintro ok _ rfl
  split
  · refine carries_get.bind fun a a' ha => ?_
    rw [ha.stack]
    cases a.stack with
    | nil => exact refused _
    | cons top below =>
      dsimp only
      split
      · exact refused _
      split
      · exact refused _
      have marked : ∀ {is is' : List Instr}, SameLines is is' → Carries SameLines
          (do
            modify fun a => { a with stack := { top with hasAlternate := true } :: below }
            return is)
          (do
            modify fun a => { a with stack := { top with hasAlternate := true } :: below }
            return is') := by
        intro is is' his
        refine Carries.bind (R := Eq) (carries_modify ?_) fun _ _ _ => carries_pure his
        exact fun ha => { ha with stack := rfl }
      split
      · exact (carries_emit rfl).bind fun _ _ his => marked his
      · exact marked rfl
  · exact carries_pure rfl

theorem carries_closeBlock (line : Int) :
    Carries SameLines (closeBlock line) (closeBlock line) := by
  refine carries_get.bind fun a a' ha => ?_
  rw [ha.stack]
  cases a.stack with
  | nil => exact (carries_build _).bind fun _ _ _ => carries_pure rfl
  | cons top below =>
    refine Carries.bind (R := Eq) (carries_modify ?_) fun _ _ _ => ?_
    · exact fun ha => { ha with stack := rfl }
    refine (carries_build _).bind fun _ _ _ => ?_
    split
    · exact carries_pure rfl
    split
    · refine Carries.bind (R := Eq) (carries_modify ?_) fun _ _ _ => carries_pure rfl
      exact fun ha => { ha with body := .none }
    · exact carries_emit rfl

/-- A line that is no statement and names no condition is taken alike by its sort alone. -/
theorem carries_takeLine {code code' : List Char} {c : BlockLine} (hc : BlockLine.ofCode code = c)
    (hc' : BlockLine.ofCode code' = c) (hcommand : c ≠ .command) (hknown : c ≠ .unknown)
    (line : Int) : Carries SameLines (takeLine line code) (takeLine line code') := by
  unfold takeLine
  rw [hc, hc']
  cases c with
  | setup =>
    refine (carries_openStructure _ (.same _)).bind ?_
    rintro ok _ rfl
    dsimp only
    split
    · refine Carries.bind (R := Eq) (carries_modify ?_) fun _ _ _ => carries_pure rfl
      exact fun ha => { ha with sawSetup := rfl }
    · exact carries_pure rfl
  | loop =>
    refine (carries_openStructure _ (.same _)).bind ?_
    rintro ok _ rfl
    dsimp only
    split
    · refine Carries.bind (R := Eq) (carries_modify ?_) fun _ _ _ => carries_pure rfl
      exact fun ha => { ha with sawLoop := rfl }
    · exact carries_pure rfl
  | function name =>
    refine (carries_functionBody name line).bind fun b b' hb => ?_
    exact (carries_openStructure _ hb).bind fun _ _ _ => carries_pure rfl
  | pin => exact carries_pure rfl
  | control o => exact carries_openControl o line
  | otherwise => exact carries_alternate line
  | endBlock => exact carries_closeBlock line
  | unknown => exact absurd rfl hknown
  | command => exact absurd rfl hcommand

end

section
variable {line : Int} {code : List Char} {a a' b : Assembly} {is : List Instr}

/-- Without errors, statements and control openers come in a body. -/
theorem body_of_accepted (h : takeLine line code a = .ok is b) (hacc : b.session.Accepted)
    (hc : BlockLine.ofCode code = .command ∨ ∃ o, BlockLine.ofCode code = .control o) :
    ∃ x, a.body = some x := by
  rw [← Option.isSome_iff_exists]
  have step := takeLine_outcome line code a
  rw [h] at step
  rcases hc with hc | ⟨o, hc⟩
  · rw [hc] at step
    cases step with
    | nested hf => cases hf
    | rejected hr ht => exact absurd hacc (not_accepted_of_moves (severity_of_rejects hr) ht)
    | statement hb => rw [hb]; rfl
    | unknownCommand hb => exact hb
  · rw [hc] at step
    cases step with
    | nested hf => cases hf
    | rejected hr ht => exact absurd hacc (not_accepted_of_moves (severity_of_rejects hr) ht)
    | stray o hb ht => exact absurd hacc (not_accepted_of_moves rfl ht)
    | refused o hb => exact hb
    | control hb => rw [hb]; rfl

section
variable {kind : BlockKind} {header : List Char → Instr} {c c' : List Char}

/-- Reading the condition comes first, and what follows it reports nothing. -/
theorem condition_of_accepted {x : Body} (hb : a.body = some x)
    (h : openConditional kind header c line a = .ok is b) (hacc : b.session.Accepted) :
    ∃ test t, Build.condition c line a.session = .ok test t ∧ t.Accepted := by
  rw [openConditional, build_bind] at h
  cases hrun : Build.condition c line a.session with
  | error f t =>
    rw [hrun] at h
    cases h
  | ok test t =>
    rw [hrun] at h
    refine ⟨test, t, rfl, ?_⟩
    cases test with
    | none =>
      cases h
      exact hacc
    | some test =>
      obtain ⟨u, hu, he⟩ := emit_push (a := { a with session := t }) hb [header test] { kind, line }
      dsimp only at h
      rw [he] at h
      cases h
      exact hacc.of_isPrefix hu.isPrefix

theorem openConditional_alike {x : Body} (hb : a.body = some x)
    (hheader : ∀ {v v'}, Line.Alike v v' → (header v').bare = (header v).bare)
    (hc : collapse c' = collapse c) (hn : '\n' ∉ c) (hn' : '\n' ∉ c') (ha : a.Alike a')
    (hs : a.session.table.Exclusive) (h : openConditional kind header c line a = .ok is b)
    (hacc : b.session.Accepted) :
    ∃ is' b', openConditional kind header c' line a' = .ok is' b' ∧ b.Alike b' := by
  obtain ⟨test, t, hrun, ht⟩ := condition_of_accepted hb h hacc
  obtain ⟨test', hrun', htest⟩ := Build.condition_mirrors hc hn hn' hs hrun ht
  rw [openConditional, build_bind, hrun] at h
  rw [openConditional, build_bind, ha.session, hrun']
  cases htest with
  | @intro v v' hv =>
    have hlines : SameLines [header v] [header v'] := by
      rw [SameLines, List.map_singleton, List.map_singleton, hheader hv]
    have halike : ({ a with session := t } : Assembly).Alike { a' with session := t } :=
      { ha with session := rfl }
    obtain ⟨is', b', hline, hb', -⟩ := carries_header { kind, line } hlines halike h
    exact ⟨is', b', hline, hb'⟩

end

theorem openControl_ifDo {x : Body} (hb : a.body = some x) (c : List Char) :
    openControl (.ifDo c) line a = openConditional .ifDo .openIf c line a := by
  unfold openControl
  rw [requireBody_bind_some (by rw [hb]; rfl)]
  rfl

theorem openControl_whileDo {x : Body} (hb : a.body = some x) (c : List Char) :
    openControl (.whileDo c) line a = openConditional .whileDo .openWhile c line a := by
  unfold openControl
  rw [requireBody_bind_some (by rw [hb]; rfl)]
  rfl

theorem isFirm_of_accepted (hcode : Line.IsCode code)
    (hhead : ∀ c, code.head? = some c → isBlank c = false) (hsettled : Line.isSettled code = true)
    (h : takeLine line code a = .ok is b) (hacc : b.session.Accepted) : Line.IsFirm code where
  isCode := hcode
  head := hhead
  known hc := by
    unfold takeLine at h
    rw [hc] at h
    cases h
    exact Build.not_accepted_reported rfl hacc
  opener o hc := by
    obtain ⟨x, hb⟩ := body_of_accepted h hacc (.inr ⟨o, hc⟩)
    rw [takeLine_control hc] at h
    cases o with
    | ifDo c =>
      rw [openControl_ifDo hb] at h
      obtain ⟨test, t, hrun, ht⟩ := condition_of_accepted hb h hacc
      exact Build.allBlank_of_condition hrun ht
    | whileDo c =>
      rw [openControl_whileDo hb] at h
      obtain ⟨test, t, hrun, ht⟩ := condition_of_accepted hb h hacc
      exact Build.allBlank_of_condition hrun ht
    | _ => trivial
  statement hc := by
    obtain ⟨x, hb⟩ := body_of_accepted h hacc (.inl hc)
    rw [takeLine_command hc hb] at h
    cases hst : Statement.ofCode? code with
    | none =>
      rw [hst] at h
      cases h
      exact absurd hacc (Build.not_accepted_reported rfl)
    | some st =>
      rw [hst] at h
      cases hrun : Build.statement line st a.session with
      | error f u =>
        simp only [hrun] at h
        cases h
      | ok js u =>
        simp only [hrun] at h
        cases h
        rw [Line.isSettled, hc, hst, Bool.or_eq_true, beq_iff_eq] at hsettled
        refine ⟨st, rfl, hsettled.imp_right fun hsettled => ?_⟩
        exact Statement.steady_of_isSettled hsettled hrun hacc

/-- Statements of both lines compile alike. -/
theorem command_alike (hfirm : Line.IsFirm code) (hc : BlockLine.ofCode code = .command)
    (hc' : BlockLine.ofCode (squeeze code) = .command) (ha : a.Alike a')
    (hs : a.session.table.Exclusive) (h : takeLine line code a = .ok is b)
    (hacc : b.session.Accepted) :
    ∃ is' b', takeLine line (squeeze code) a' = .ok is' b' ∧ b.Alike b' := by
  obtain ⟨x, hb⟩ := body_of_accepted h hacc (.inl hc)
  obtain ⟨st, hst, hsteady⟩ := hfirm.statement hc
  obtain ⟨st', hst', hre⟩ : ∃ st', Statement.ofCode? (squeeze code) = some st' ∧
      st.Respaced st' := by
    rcases hsteady with hkept | hsteady
    · exact ⟨st, by rw [hkept, hst], .same st⟩
    · exact Statement.ofCode?_squeeze hfirm.isCode hst hsteady
  have hclean := Shape.firstOf?_yields Statement.shapes_clean hst
  have hclean' := Shape.firstOf?_yields Statement.shapes_clean hst'
  rcases ha.body_cases with ⟨hnone, -⟩ | ⟨y, x', hy, hb', hbody⟩
  · rw [hb] at hnone
    cases hnone
  rw [hb] at hy
  cases hy
  rw [takeLine_command hc hb, hst] at h
  rw [takeLine_command hc' hb', hst', ha.session]
  cases hrun : Build.statement line st a.session with
  | error f u =>
    simp only [hrun] at h
    cases h
  | ok js u =>
    simp only [hrun] at h
    cases h
    obtain ⟨is', hrun', his⟩ := Build.statement_mirrors hre hclean hclean' line hs hrun hacc
    simp only [hrun']
    exact ⟨is', _, rfl, { ha.write hbody his with session := rfl }⟩

/-- The same line with its blanks squeezed leads to a state alike. -/
theorem takeLine_alike (hfirm : Line.IsFirm code) (ha : a.Alike a')
    (hs : a.session.table.Exclusive) (h : takeLine line code a = .ok is b)
    (hacc : b.session.Accepted) :
    ∃ is' b', takeLine line (squeeze code) a' = .ok is' b' ∧ b.Alike b' := by
  have hsort := BlockLine.ofCode_squeeze hfirm.isCode hfirm.head hfirm.known hfirm.opener
  have hknown := hfirm.known
  generalize hc : BlockLine.ofCode code = c, hc' : BlockLine.ofCode (squeeze code) = c' at hsort
  rw [hc] at hknown
  -- Lines of one sort run alike unless their operands are read again, as a command's are.
  have carried : c = c' → c ≠ .command →
      ∃ is' b', takeLine line (squeeze code) a' = .ok is' b' ∧ b.Alike b' := by
    rintro rfl hcommand
    obtain ⟨is', b', hline, hb', -⟩ := carries_takeLine hc hc' hcommand hknown line ha h
    exact ⟨is', b', hline, hb'⟩
  cases hsort with
  | same =>
    by_cases hcommand : c = .command
    · subst hcommand
      exact command_alike hfirm hc hc' ha hs h hacc
    · exact carried rfl hcommand
  | @control o o' hre =>
    obtain ⟨x, hb⟩ := body_of_accepted h hacc (.inr ⟨o, hc⟩)
    obtain ⟨x', hb'⟩ : ∃ x', a'.body = some x' := by
      rw [← Option.isSome_iff_exists, ha.isSome, hb]
      rfl
    have hclean := Shape.firstOf?_yields Opener.shapes_clean (opener_of_block hc)
    have hclean' := Shape.firstOf?_yields Opener.shapes_clean (opener_of_block hc')
    rw [takeLine_control hc] at h
    cases hre with
    | same => exact carried rfl nofun
    | ifDo hcond =>
      rw [openControl_ifDo hb] at h
      rw [takeLine_control hc', openControl_ifDo hb']
      exact openConditional_alike hb Instr.bare_openIf hcond hclean hclean' ha hs h hacc
    | whileDo hcond =>
      rw [openControl_whileDo hb] at h
      rw [takeLine_control hc', openControl_whileDo hb']
      exact openConditional_alike hb Instr.bare_openWhile hcond hclean hclean' ha hs h hacc

theorem isFirm_of_takeLines {ls : List (Int × List Char)}
    (hcode : ∀ l ∈ ls, Line.IsCode l.2 ∧ ∀ c, l.2.head? = some c → isBlank c = false)
    (hsettled : ∀ l ∈ ls, Line.isSettled l.2 = true) (h : takeLines ls a = .ok () b)
    (hacc : b.session.Accepted) : ∀ l ∈ ls, Line.IsFirm l.2 := by
  induction ls generalizing a with
  | nil => exact fun l hl => absurd hl List.not_mem_nil
  | cons l ls ih =>
    obtain ⟨hl, hls⟩ := List.forall_mem_cons.mp hcode
    obtain ⟨hsl, hsls⟩ := List.forall_mem_cons.mp hsettled
    obtain ⟨is, c, hline, hrest⟩ := bind_eq_ok.mp h
    refine List.forall_mem_cons.mpr ⟨?_, ih hls hsls hrest⟩
    exact isFirm_of_accepted hl.1 hl.2 hsl hline (hacc.of_isPrefix (takeLines_isPrefix hrest))

theorem takeLines_alike {ls : List (Int × List Char)} (hfirm : ∀ l ∈ ls, Line.IsFirm l.2)
    (ha : a.Alike a') (hs : a.session.table.Exclusive) (h : takeLines ls a = .ok () b)
    (hacc : b.session.Accepted) :
    ∃ b', takeLines (Line.squeezeAll ls) a' = .ok () b' ∧ b.Alike b' := by
  induction ls generalizing a a' with
  | nil =>
    cases h
    exact ⟨a', rfl, ha⟩
  | cons l ls ih =>
    obtain ⟨hl, hls⟩ := List.forall_mem_cons.mp hfirm
    obtain ⟨is, c, hline, hrest⟩ := bind_eq_ok.mp h
    have hcacc : c.session.Accepted := hacc.of_isPrefix (takeLines_isPrefix hrest)
    obtain ⟨is', c', hline', hc⟩ := takeLine_alike hl ha hs hline hcacc
    have hone : takeLines [l] a = .ok () c := bind_eq_ok.mpr ⟨is, c, hline, rfl⟩
    obtain ⟨b', hrest', hb⟩ := ih hls hc (hs.grows (extends_of_takeLines hone).table) hrest
    exact ⟨b', bind_eq_ok.mpr ⟨is', c', hline', hrest'⟩, hb⟩

end
end Assemble

/-! ## Whole scripts -/

theorem Build.outline_alike {lines lines' : List (List Char)} {s t : Session}
    (hlines : Line.numbered lines' = Line.squeezeAll (Line.numbered lines))
    (hfirm : ∀ l ∈ Line.numbered lines, Line.IsFirm l.2) (hs : s.table.Exclusive)
    (h : outline lines s = .ok () t) (hacc : t.Accepted) : outline lines' s = .ok () t := by
  obtain ⟨d, u, hfrom, hlog⟩ := bind_eq_ok.mp h
  have hu : u.Accepted := by
    cases hlog
    exact hacc
  obtain ⟨_, hfrom', rfl⟩ := outlineFrom_mirrors 0 hfirm hs hfrom hu
  rw [← hlines] at hfrom'
  exact bind_eq_ok.mpr ⟨d, u, hfrom', hlog⟩

/-- Squeezed lines compile to the same symbols and to a sketch alike. -/
theorem assemble_alike {lines lines' : List (List Char)} {s : Session} {a : Assembly}
    (hlines : Line.numbered lines' = Line.squeezeAll (Line.numbered lines))
    (hcode : ∀ l ∈ Line.numbered lines,
      Line.IsCode l.2 ∧ ∀ c, l.2.head? = some c → isBlank c = false)
    (hsettled : ∀ l ∈ Line.numbered lines, Line.isSettled l.2 = true) (hs : s.table.Exclusive)
    (h : assemble lines { session := s } = .ok () a) (hacc : a.session.Accepted) :
    ∃ a', assemble lines' { session := s } = .ok () a' ∧ a.Alike a' := by
  obtain ⟨t, b, ht, hb, rfl⟩ := assemble_ok h
  have hbacc : b.session.Accepted := hacc.of_isPrefix ⟨_, rfl⟩
  have htacc : t.Accepted := hbacc.of_isPrefix (Assemble.takeLines_isPrefix hb)
  have hfirm := Assemble.isFirm_of_takeLines hcode hsettled hb hbacc
  have hsecond := hs.grows ((Build.outline_extending lines).ok ht).table
  have ht' := Build.outline_alike hlines hfirm hs ht htacc
  have hstart : ({ session := t } : Assembly).Alike { session := t } :=
    ⟨rfl, rfl, rfl, .none, rfl, rfl, rfl⟩
  obtain ⟨b', hb', halike⟩ := Assemble.takeLines_alike hfirm hstart hsecond hb hbacc
  rw [← hlines] at hb'
  have hfinish := Assemble.cleanSince_finish (Assemble.finish_eq lines.length b)
  obtain ⟨hstack, hsetup, hloop⟩ := hfinish.2.mp hacc.cleanSince
  have hlast : Assemble.lastFindings lines.length b = [] := by
    simp [Assemble.lastFindings, hstack, hsetup, hloop]
  have hlast' : Assemble.lastFindings lines'.length b' = [] := by
    rw [← hlast]
    simp [Assemble.lastFindings, halike.stack, halike.sawSetup, halike.sawLoop, hstack]
  refine ⟨b', assemble_of_runs ht' hb' hlast', ?_⟩
  simpa only [hlast, List.append_nil] using halike

end PlainSketch
