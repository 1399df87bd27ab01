import PlainSketch.Program
import PlainSketch.Proofs.AssemblySteps
import PlainSketch.Proofs.Keywords
import PlainSketch.Proofs.TableSteps

/-!
# The depth of nesting in both passes

The first pass counts the open blocks, the second keeps them on a stack. Each sorts the lines in its
own order, and the two agree on how a line changes the depth, with one exception: a function whose
name ends in `do` directly before the colon. For the first pass such a line ends in `do:` and is no
control opener, so it opens nothing; for the second it opens a function. As long as both passes go
on, they agree on the depth after every line exactly if no such line has come.
-/
namespace PlainSketch
open Text Shape Declaration

/-- A function opener that ends in `do:`. -/
def hidesFunction (code : List Char) : Bool := functionShape.fits code && endsWithWord "do:" code

/-- The depth after a line, as the first pass counts it. -/
def OutlineLine.depthAfter (depth : Nat) : OutlineLine → Nat
  | opener | function _ => depth + 1
  | closer => depth - 1
  | _ => depth

/-- The depth after a line on the stack of the second pass. -/
def BlockLine.depthAfter (depth : Nat) : BlockLine → Nat
  | setup | loop | function _ | control _ => depth + 1
  | endBlock => depth - 1
  | _ => depth

/-! ## Sorts of lines -/

/-- Why the second pass takes a line for what it does. The sorts are tried in this order. -/
inductive BlockLine.IsSort (code : List Char) : BlockLine → Prop
  | setup (h : isWord "setup:" code = true) : IsSort code .setup
  | loop (h : isWord "loop:" code = true) : IsSort code .loop
  | function {n : String} (h : functionShape.first? code = some n) : IsSort code (.function n)
  | pin (hsetup : isWord "setup:" code = false) (hloop : isWord "loop:" code = false)
      (hfunction : functionShape.first? code = none) (h : isPinLine code = true) : IsSort code .pin
  | control {o : Opener} (h : Opener.ofCode? code = some o) : IsSort code (.control o)
  | otherwise (h : isOtherwise code = true) : IsSort code .otherwise
  | endBlock (h : isWord "end" code = true) : IsSort code .endBlock
  | unknown (h : endsWithWord "do:" code = true) : IsSort code .unknown
  | command (hsetup : isWord "setup:" code = false) (hloop : isWord "loop:" code = false)
      (hfunction : functionShape.first? code = none) (hpin : isPinLine code = false)
      (hotherwise : isOtherwise code = false) (hend : isWord "end" code = false)
      (hdo : endsWithWord "do:" code = false) : IsSort code .command

theorem BlockLine.isSort_ofCode (code : List Char) : IsSort code (ofCode code) := by
  unfold ofCode
  split
  · next h => exact .setup h
  next hsetup =>
  split
  · next h => exact .loop h
  next hloop =>
  split
  · next h => exact .function h
  next hfunction =>
  rw [Bool.not_eq_true] at hsetup hloop
  split
  · next h => exact .pin hsetup hloop hfunction h
  next hpin =>
  split
  · next h => exact .control h
  split
  · next h => exact .otherwise h
  next hotherwise =>
  split
  · next h => exact .endBlock h
  next hend =>
  split
  · next h => exact .unknown h
  next hdo =>
  rw [Bool.not_eq_true] at hpin hotherwise hend hdo
  exact .command hsetup hloop hfunction hpin hotherwise hend hdo

/-- Why the first pass takes a line for what it does. -/
inductive OutlineLine.IsSort (code : List Char) : OutlineLine → Prop
  | body (h : isWord "setup:" code = true ∨ isWord "loop:" code = true) : IsSort code .opener
  | control (h : (Opener.ofCode? code).isSome = true) : IsSort code .opener
  | closer (h : isWord "end" code = true) : IsSort code .closer
  | neutral : IsSort code .neutral
  | function {n : String} (h : functionShape.first? code = some n) : IsSort code (.function n)
  | pin (hsetup : isWord "setup:" code = false) (hloop : isWord "loop:" code = false)
      (hfunction : functionShape.first? code = none) (h : pinWord.fits code = true) :
      IsSort code (.pin (pinShape.first? code))
  | pinAssignment {n : String} {v : List Char} (hsetup : isWord "setup:" code = false)
      (hloop : isWord "loop:" code = false) (hfunction : functionShape.first? code = none)
      (h : pinAssignmentShape.first? code = some (n, v)) : IsSort code (.pinAssignment n v)
  | writes {n : String} {type : ValueType} (h : hint code = .writes n type) :
      IsSort code (.writes n type)
  | other : IsSort code .other

/-- A hint declares nothing. -/
theorem OutlineLine.hint_eq (code : List Char) :
    hint code = .other ∨ ∃ name type, hint code = .writes name type := by
  unfold hint
  split
  · exact .inr ⟨_, _, rfl⟩
  split
  · exact .inr ⟨_, _, rfl⟩
  split
  · split
    · exact .inl rfl
    · exact .inr ⟨_, _, rfl⟩
  · exact .inl rfl

theorem OutlineLine.isSort_ofCode (code : List Char) : IsSort code (ofCode code) := by
  unfold ofCode
  split
  · next h => exact .body ((Bool.or_eq_true _ _).mp h)
  next hstructure =>
  split
  · next h => exact .closer h
  split
  · exact .neutral
  split
  · split
    · next h => exact .control h
    · exact .neutral
  split
  · next h => exact .function h
  next hfunction =>
  simp only [Bool.or_eq_true, not_or, Bool.not_eq_true] at hstructure
  obtain ⟨hsetup, hloop⟩ := hstructure
  split
  · next h => exact .pin hsetup hloop hfunction h
  split
  · next h => exact .pinAssignment hsetup hloop hfunction h
  obtain h | ⟨n, type, h⟩ := hint_eq code
  · rw [h]
    exact .other
  · rw [h]
    exact .writes h

/-- The code begins with one of the words, whatever the case of its letters. -/
def BeginsWith (ws : List String) (code : List Char) : Prop :=
  ∃ w ∈ ws, w.toList <+: code.map baseLetter

/-- No word of one list is the beginning of one of the other. -/
def apart (vs ws : List String) : Bool :=
  vs.all fun v => ws.all fun w => !v.toList.isPrefixOf w.toList && !w.toList.isPrefixOf v.toList

section
variable {code : List Char} {vs ws : List String}

theorem BeginsWith.not_both (hv : BeginsWith vs code) (hw : BeginsWith ws code)
    (h : apart vs ws = true) : False := by
  obtain ⟨v, hv, hvu⟩ := hv
  obtain ⟨w, hw, hwu⟩ := hw
  have hvw := List.all_eq_true.mp (List.all_eq_true.mp h v hv) w hw
  simp only [Bool.and_eq_true, Bool.not_eq_true', ← Bool.not_eq_true,
    List.isPrefixOf_iff_prefix] at hvw
  exact not_both_begin hvu hwu hvw.1 hvw.2

theorem beginsWith_of_isWord {w : String} (hw : isAscii w.toList = true)
    (h : isWord w code = true) : BeginsWith [w] code := by
  refine ⟨w, by simp, ?_⟩
  rw [map_baseLetter_of_isWord hw h]

/-- A line that begins otherwise is not the whole word. -/
theorem BeginsWith.not_isWord (hv : BeginsWith vs code) {w : String}
    (hw : isAscii w.toList = true) (h : apart vs [w] = true) : isWord w code = false := by
  rw [Bool.eq_false_iff]
  intro hword
  exact hv.not_both (beginsWith_of_isWord hw hword) h

theorem BeginsWith.not_isOtherwise (hv : BeginsWith vs code)
    (h : apart vs ["otherwise do:"] = true) (h' : apart vs ["otherwise:"] = true) :
    isOtherwise code = false := by
  rw [isOtherwise, hv.not_isWord (by decide) h, hv.not_isWord (by decide) h']
  rfl

theorem beginsWith_of_function {n : String} (h : functionShape.first? code = some n) :
    BeginsWith ["function"] code := by
  have hshape : Begins "function" functionShape := (keyword_begins (by decide)).bind
  exact ⟨"function", by simp, hshape.first? h⟩

theorem beginsWith_of_isPinLine (h : isPinLine code = true) : BeginsWith ["pin", "set"] code := by
  rcases (Bool.or_eq_true _ _).mp h with h | h
  · have hpin : Begins "pin" pinWord := (keyword_begins (by decide)).bind
    exact ⟨"pin", by simp, hpin.fits h⟩
  · have hset : Begins "set" pinAssignmentHead := (keyword_begins (by decide)).bind
    exact ⟨"set", by simp, hset.bind.fits h⟩

theorem not_isPinLine_of_opener {o : Opener} (h : Opener.ofCode? code = some o) :
    isPinLine code = false := by
  rw [Bool.eq_false_iff]
  intro hpin
  exact (beginsWith_of_isPinLine hpin).not_both (Opener.begins_of_ofCode? h) (by decide)

theorem opener_eq_none_of_function {n : String} (h : functionShape.first? code = some n) :
    Opener.ofCode? code = none := by
  cases ho : Opener.ofCode? code with
  | none => rfl
  | some o =>
    exact ((beginsWith_of_function h).not_both (Opener.begins_of_ofCode? ho) (by decide)).elim

/-- A function opener is none of the words that are sorted as a whole. -/
theorem not_isWord_of_function {n : String} (h : functionShape.first? code = some n) :
    isWord "setup:" code = false ∧ isWord "loop:" code = false ∧ isWord "end" code = false ∧
      isOtherwise code = false := by
  have hbegins := beginsWith_of_function h
  exact ⟨hbegins.not_isWord (by decide) (by decide), hbegins.not_isWord (by decide) (by decide),
    hbegins.not_isWord (by decide) (by decide), hbegins.not_isOtherwise (by decide) (by decide)⟩

theorem block_of_function {n : String} (h : functionShape.first? code = some n) :
    BlockLine.ofCode code = .function n := by
  obtain ⟨hsetup, hloop, -, -⟩ := not_isWord_of_function h
  simp [BlockLine.ofCode, hsetup, hloop, h]

/-- The first pass sees a function opener as such unless it ends in `do:`. -/
theorem outline_of_function {n : String} (h : functionShape.first? code = some n) :
    OutlineLine.ofCode code = if endsWithWord "do:" code then .neutral else .function n := by
  obtain ⟨hsetup, hloop, hend, hotherwise⟩ := not_isWord_of_function h
  simp [OutlineLine.ofCode, hsetup, hloop, hend, hotherwise, h, opener_eq_none_of_function h]

/-- A control opener is one for both passes. -/
theorem sorts_of_opener (hlast : ∀ c, code.getLast? = some c → isBlank c = false) {o : Opener}
    (h : Opener.ofCode? code = some o) :
    OutlineLine.ofCode code = .opener ∧ BlockLine.ofCode code = .control o := by
  have hbegins : BeginsWith Opener.keywords code := Opener.begins_of_ofCode? h
  have hsetup : isWord "setup:" code = false := hbegins.not_isWord (by decide) (by decide)
  have hloop : isWord "loop:" code = false := hbegins.not_isWord (by decide) (by decide)
  have hend : isWord "end" code = false := hbegins.not_isWord (by decide) (by decide)
  have hotherwise := hbegins.not_isOtherwise (by decide) (by decide)
  have hdo := Opener.endsWithWord_of_ofCode? hlast h
  have hpin := not_isPinLine_of_opener h
  have hfunction : functionShape.first? code = none := by
    cases hf : functionShape.first? code with
    | none => rfl
    | some n =>
      rw [opener_eq_none_of_function hf] at h
      cases h
  constructor
  · simp [OutlineLine.ofCode, hsetup, hloop, hend, hotherwise, hdo, h]
  · simp [BlockLine.ofCode, hsetup, hloop, hfunction, hpin, h]

/-- A line that opens nothing leaves the depth alone in both passes, unless it is `end`. -/
theorem depthAfter_of_plain (hsetup : isWord "setup:" code = false)
    (hloop : isWord "loop:" code = false) (hfunction : functionShape.first? code = none)
    (hopener : Opener.ofCode? code = none) (depth : Nat) :
    (OutlineLine.ofCode code).depthAfter depth = (BlockLine.ofCode code).depthAfter depth := by
  cases hend : isWord "end" code with
  | true =>
    -- the second pass asks for `end` late, but nothing that it asks for earlier begins like that
    have hbegins := beginsWith_of_isWord (by decide) hend
    have hotherwise := hbegins.not_isOtherwise (by decide) (by decide)
    have hpin : isPinLine code = false := by
      rw [Bool.eq_false_iff]
      intro hpin
      exact (beginsWith_of_isPinLine hpin).not_both hbegins (by decide)
    have houtline : OutlineLine.ofCode code = .closer := by
      simp [OutlineLine.ofCode, hsetup, hloop, hend]
    have hblock : BlockLine.ofCode code = .endBlock := by
      simp [BlockLine.ofCode, hsetup, hloop, hfunction, hpin, hopener, hotherwise, hend]
    rw [houtline, hblock]
    rfl
  | false =>
    have houtline : (OutlineLine.ofCode code).depthAfter depth = depth := by
      have hsort := OutlineLine.isSort_ofCode code
      generalize OutlineLine.ofCode code = c at hsort ⊢
      cases hsort with
      | body h => simp [hsetup, hloop] at h
      | control h => simp [hopener] at h
      | closer h => simp [hend] at h
      | function h => simp [hfunction] at h
      | neutral | pin | pinAssignment | writes | other => rfl
    have hblock : (BlockLine.ofCode code).depthAfter depth = depth := by
      have hsort := BlockLine.isSort_ofCode code
      generalize BlockLine.ofCode code = c at hsort ⊢
      cases hsort with
      | setup h => simp [hsetup] at h
      | loop h => simp [hloop] at h
      | function h => simp [hfunction] at h
      | control h => simp [hopener] at h
      | endBlock h => simp [hend] at h
      | pin | otherwise | unknown | command => rfl
    rw [houtline, hblock]

/-- Both passes agree on how a line changes the depth, unless it hides a function. -/
theorem depthAfter_eq (hlast : ∀ c, code.getLast? = some c → isBlank c = false)
    (hhides : hidesFunction code = false) (depth : Nat) :
    (OutlineLine.ofCode code).depthAfter depth = (BlockLine.ofCode code).depthAfter depth := by
  cases hfunction : functionShape.first? code with
  | some n =>
    have hfits : functionShape.fits code = true := by
      obtain ⟨⟨m, r⟩, hr, -⟩ := Option.map_eq_some_iff.mp hfunction
      exact Option.isSome_iff_exists.mpr ⟨_, hr⟩
    have hdo : endsWithWord "do:" code = false := by simpa [hidesFunction, hfits] using hhides
    rw [outline_of_function hfunction, block_of_function hfunction, hdo]
    rfl
  | none =>
    cases hopener : Opener.ofCode? code with
    | some o =>
      obtain ⟨houtline, hblock⟩ := sorts_of_opener hlast hopener
      rw [houtline, hblock]
      rfl
    | none =>
      cases hsetup : isWord "setup:" code with
      | true => simp [OutlineLine.ofCode, BlockLine.ofCode, hsetup, OutlineLine.depthAfter,
          BlockLine.depthAfter]
      | false =>
        cases hloop : isWord "loop:" code with
        | true => simp [OutlineLine.ofCode, BlockLine.ofCode, hsetup, hloop,
            OutlineLine.depthAfter, BlockLine.depthAfter]
        | false => exact depthAfter_of_plain hsetup hloop hfunction hopener depth

/-- A hidden function opens a block for the second pass only. -/
theorem depthAfter_of_hidesFunction (h : hidesFunction code = true) (depth : Nat) :
    (OutlineLine.ofCode code).depthAfter depth = depth ∧
      (BlockLine.ofCode code).depthAfter depth = depth + 1 := by
  obtain ⟨hfits, hdo⟩ := (Bool.and_eq_true _ _).mp h
  obtain ⟨⟨n, r⟩, hr⟩ := Option.isSome_iff_exists.mp hfits
  have hfunction : functionShape.first? code = some n := by rw [first?, hr]; rfl
  rw [outline_of_function hfunction, block_of_function hfunction, hdo]
  exact ⟨rfl, rfl⟩

end

/-! ## Runs of both passes -/

theorem outlineLine_depth {depth d : Nat} {line : Int} {c : OutlineLine} {s s' : Session}
    (h : Build.outlineLine depth line c s = .ok d s') : d = c.depthAfter depth := by
  obtain ⟨m, hact, -⟩ := Build.outlineLine_ok h
  cases hact <;> rfl

/-- The stack grows and shrinks as the sort of the line says. -/
theorem Assembly.Step.stack_length {line : Int} {code : List Char} {a a' : Assembly}
    {c : BlockLine} {is : List Instr} (h : a.Step line code c is a') :
    a'.stack.length = c.depthAfter a.stack.length := by
  cases h with
  | setup | loop | function | detached | stray | refused | control => rfl
  | nested hc =>
    cases c <;> cases hc <;> rfl
  | pin | unknownCommand => rfl
  | otherwise hb hs =>
    rw [hs]
    rfl
  | endRefused hs | endStructure hs | endControl hs =>
    rw [hs]
    rfl
  | statement => rw [Assembly.write_stack]; rfl
  | rejected hr =>
    cases hr with
    | strayEnd hs => rw [hs]; rfl
    | _ => rfl

theorem outlineFrom_append {depth : Nat} {ls ls' : List (Int × List Char)} {s s' : Session}
    {d : Nat} : Build.outlineFrom depth (ls ++ ls') s = .ok d s' ↔
      ∃ e t, Build.outlineFrom depth ls s = .ok e t ∧ Build.outlineFrom e ls' t = .ok d s' := by
  induction ls generalizing depth s with
  | nil =>
    constructor
    · intro h
      exact ⟨depth, s, rfl, h⟩
    · rintro ⟨e, t, he, h⟩
      cases he
      exact h
  | cons l ls ih =>
    simp only [List.cons_append, Build.outlineFrom, bind_eq_ok, ih]
    constructor
    · rintro ⟨e, t, hl, e', t', hls, h⟩
      exact ⟨e', t', ⟨e, t, hl, hls⟩, h⟩
    · rintro ⟨e', t', ⟨e, t, hl, hls⟩, h⟩
      exact ⟨e, t, hl, e', t', hls, h⟩

/-- Over lines without hidden functions the depth and the stack go together. -/
theorem depth_eq_stack_length {ls : List (Int × List Char)}
    (hls : ∀ l ∈ ls, (∀ c, l.2.getLast? = some c → isBlank c = false) ∧
      hidesFunction l.2 = false) {s s' : Session} {a a' : Assembly} {d : Nat}
    (hout : Build.outlineFrom a.stack.length ls s = .ok d s')
    (htake : Assemble.takeLines ls a = .ok () a') : d = a'.stack.length := by
  induction ls generalizing s a with
  | nil =>
    cases hout
    cases htake
    rfl
  | cons l ls ih =>
    obtain ⟨n, code⟩ := l
    obtain ⟨hlast, hhides⟩ := hls (n, code) (by simp)
    obtain ⟨e, t, hline, hout⟩ := bind_eq_ok.mp hout
    obtain ⟨is, b, hstep, htake⟩ := bind_eq_ok.mp htake
    have step := Assemble.takeLine_outcome n code a
    rw [hstep] at step
    have hlen : e = b.stack.length := by
      rw [outlineLine_depth hline, step.stack_length, depthAfter_eq hlast hhides]
    subst hlen
    exact ih (fun l hl => hls l (List.mem_cons_of_mem _ hl)) hout htake

namespace Line

theorem numberedFrom_cons_of_nil {raw : List Char} (h : trimmedCode raw = []) (n : Int)
    (ls : List (List Char)) : numberedFrom n (raw :: ls) = numberedFrom (n + 1) ls := by
  rw [numberedFrom, h]

theorem numberedFrom_cons {raw : List Char} (h : trimmedCode raw ≠ []) (n : Int)
    (ls : List (List Char)) :
    numberedFrom n (raw :: ls) = (n, trimmedCode raw) :: numberedFrom (n + 1) ls := by
  obtain ⟨c, cs, hc⟩ := List.exists_cons_of_ne_nil h
  rw [numberedFrom, hc]

theorem numberedFrom_append (n : Int) (v w : List (List Char)) :
    numberedFrom n (v ++ w) = numberedFrom n v ++ numberedFrom (n + v.length) w := by
  induction v generalizing n with
  | nil => simp [numberedFrom]
  | cons l v ih =>
    have hn : n + 1 + (v.length : Int) = n + ((l :: v).length : Int) := by
      rw [List.length_cons]
      omega
    simp only [List.cons_append, numberedFrom]
    split
    · rw [ih, hn]
    · rw [ih, hn, List.cons_append]

theorem mem_numberedFrom {n : Int} {lines : List (List Char)} {l : Int × List Char}
    (h : l ∈ numberedFrom n lines) : ∃ raw ∈ lines, l.2 = trimmedCode raw := by
  induction lines generalizing n with
  | nil => cases h
  | cons raw lines ih =>
    simp only [numberedFrom] at h
    split at h
    · obtain ⟨r, hr, he⟩ := ih h
      exact ⟨r, List.mem_cons_of_mem raw hr, he⟩
    · next hcode =>
      rcases List.mem_cons.mp h with rfl | h
      · exact ⟨raw, by simp, hcode.symm⟩
      · obtain ⟨r, hr, he⟩ := ih h
        exact ⟨r, List.mem_cons_of_mem raw hr, he⟩

theorem numberedFrom_singleton {n : Int} {raw : List Char} (h : trimmedCode raw ≠ []) :
    numberedFrom n [raw] = [(n, trimmedCode raw)] := numberedFrom_cons h n []

end Line

/-- Both passes take the lines to their end, the one at this depth and the other in this state. -/
def BothRun (s t : Session) (ls : List (Int × List Char)) (depth : Nat) (a : Assembly) : Prop :=
  (∃ s', Build.outlineFrom 0 ls s = .ok depth s') ∧
    Assemble.takeLines ls { session := t } = .ok () a

namespace BothRun
variable {s t : Session} {ls ls' : List (Int × List Char)} {depth : Nat} {a : Assembly}

theorem left (h : BothRun s t (ls ++ ls') depth a) : ∃ e b, BothRun s t ls e b := by
  obtain ⟨⟨s', hout⟩, htake⟩ := h
  obtain ⟨e, u, hls, -⟩ := outlineFrom_append.mp hout
  obtain ⟨b, hb, -⟩ := Assemble.takeLines_append.mp htake
  exact ⟨e, b, ⟨u, hls⟩, hb⟩

/-- A hidden function drives depth and stack apart. -/
theorem of_hidesFunction {n : Int} {code : List Char} (hhides : hidesFunction code = true)
    (h : BothRun s t (ls ++ [(n, code)]) depth a) :
    ∃ b, BothRun s t ls depth b ∧ a.stack.length = b.stack.length + 1 := by
  obtain ⟨⟨s', hout⟩, htake⟩ := h
  obtain ⟨e, u, hls, hline⟩ := outlineFrom_append.mp hout
  obtain ⟨b, hb, hstep⟩ := Assemble.takeLines_append.mp htake
  obtain ⟨e', u', hline, hdone⟩ := bind_eq_ok.mp hline
  obtain ⟨is, b', hstep, hend⟩ := bind_eq_ok.mp hstep
  cases hdone
  cases hend
  have step := Assemble.takeLine_outcome n code b
  rw [hstep] at step
  have hdepth : depth = e := by
    rw [outlineLine_depth hline, (depthAfter_of_hidesFunction hhides e).1]
  subst hdepth
  refine ⟨b, ⟨⟨u, hls⟩, hb⟩, ?_⟩
  rw [step.stack_length, (depthAfter_of_hidesFunction hhides _).2]

end BothRun

theorem hidesFunction_ne_nil {code : List Char} (h : hidesFunction code = true) : code ≠ [] := by
  rintro rfl
  cases h

/-- The passes agree on the depth after every line exactly if no line hides a function. -/
theorem depth_eq_stack_length_iff (s t : Session) (lines : List (List Char)) :
    (∀ k depth a, BothRun s t (Line.numbered (lines.take k)) depth a → depth = a.stack.length) ↔
      ∀ k depth a, BothRun s t (Line.numbered (lines.take k)) depth a →
        ∀ raw ∈ lines.take k, hidesFunction (Line.trimmedCode raw) = false := by
  constructor
  · intro h k depth a hrun raw hraw
    rw [Bool.eq_false_iff]
    intro hhides
    obtain ⟨u, v, huv⟩ := List.append_of_mem hraw
    have hu : u = lines.take u.length :=
      List.prefix_iff_eq_take.mp ((List.prefix_append u _).trans (huv ▸ List.take_prefix k lines))
    have hsplit : lines.take k = (u ++ [raw]) ++ v := by rw [huv, List.append_cons]
    have hul : u ++ [raw] = lines.take (u.length + 1) := by
      have hpre := (List.prefix_append (u ++ [raw]) v).trans (hsplit ▸ List.take_prefix k lines)
      simpa using List.prefix_iff_eq_take.mp hpre
    -- the depths agree both before and after the line, but only the stack has grown
    rw [hsplit, Line.numbered, Line.numberedFrom_append] at hrun
    obtain ⟨e, b, hafter⟩ := hrun.left
    have heq := h (u.length + 1) e b (by rwa [← hul])
    rw [Line.numberedFrom_append,
      Line.numberedFrom_singleton (hidesFunction_ne_nil hhides)] at hafter
    obtain ⟨b', hbefore, hlen⟩ := hafter.of_hidesFunction hhides
    have heq' := h u.length e b' (by rwa [← hu])
    omega
  · intro h k depth a hrun
    have hnone := h k depth a hrun
    obtain ⟨⟨s', hout⟩, htake⟩ := hrun
    refine depth_eq_stack_length (a := { session := t }) ?_ hout htake
    intro l hl
    obtain ⟨raw, hraw, he⟩ := Line.mem_numberedFrom hl
    rw [he]
    exact ⟨fun c hc => getLast?_trimRight hc, hnone raw hraw⟩

/-- After a first line that opens the function `undo`, the first pass is at depth zero and the
second has a block open. -/
theorem depth_ne_stack_length_undo :
    ∃ depth a, BothRun (.start .uno reservedWords) (.start .uno reservedWords)
      (Line.numbered ((sourceLines "function undo:\nend").take 1)) depth a ∧
        depth ≠ a.stack.length := by
  have hline : Line.numbered ((sourceLines "function undo:\nend").take 1) =
      [(1, "function undo:".toList)] := by decide +kernel
  have houtline : OutlineLine.ofCode "function undo:".toList = .neutral := by decide +kernel
  have hblock : BlockLine.ofCode "function undo:".toList = .function "undo" := by decide +kernel
  have hfirst : Build.outlineFrom 0 [(1, "function undo:".toList)] (.start .uno reservedWords) =
      .ok 0 (.start .uno reservedWords) := by
    rw [Build.outlineFrom, houtline]
    rfl
  have hsecond : Assemble.takeLines [(1, "function undo:".toList)]
      { session := .start .uno reservedWords } = .ok ()
        { session := { Session.start .uno reservedWords with
            log := [.blockOpened 1 "function undo" 1] }
          stack := [{ kind := .function, line := 1, name := some "undo" }]
          body := some (.detached []) } := by
    rw [Assemble.takeLines, Assemble.takeLine, hblock]
    rfl
  rw [hline]
  exact ⟨0, _, ⟨⟨_, hfirst⟩, hsecond⟩, by simp⟩

end PlainSketch
