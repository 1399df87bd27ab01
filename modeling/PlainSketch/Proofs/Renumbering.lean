import Mathlib.Data.List.Nodup
import Mathlib.Data.List.Perm.Basic
import Mathlib.Tactic.SplitIfs
import PlainSketch.Block.Assembly

/-!
# Numbers of helper variables

The helper variables of a sketch are numbered through in the order in which their blocks come. If
the parts of a sketch are written in another order, each part has the same lines but for these
numbers. `Part.place_perm` finds one renumbering for all parts at once; it gives no number twice.
-/
namespace PlainSketch

namespace Instr

/-- The number of the helper variables that a line is about. -/
def id? : Instr → Option Nat
  | openRepeat id _ | everyLast id | openEvery id _ | everyAdvance id _ | afterDone id
  | afterStart id | openAfter id _ | afterFinish id => some id
  | _ => none

/-- The line with another number for its helper variables. -/
def renumber (f : Nat → Nat) : Instr → Instr
  | openRepeat id count => openRepeat (f id) count
  | everyLast id => everyLast (f id)
  | openEvery id interval => openEvery (f id) interval
  | everyAdvance id interval => everyAdvance (f id) interval
  | afterDone id => afterDone (f id)
  | afterStart id => afterStart (f id)
  | openAfter id wait => openAfter (f id) wait
  | afterFinish id => afterFinish (f id)
  | i => i

theorem id?_renumber (f : Nat → Nat) (i : Instr) : (i.renumber f).id? = i.id?.map f := by
  cases i <;> rfl

theorem renumber_renumber (f g : Nat → Nat) (i : Instr) :
    (i.renumber f).renumber g = i.renumber fun n => g (f n) := by
  cases i <;> rfl

theorem renumber_congr {f g : Nat → Nat} {i : Instr} (h : ∀ n ∈ i.id?, f n = g n) :
    i.renumber f = i.renumber g := by
  cases i <;> first | rfl | (simp only [renumber, h _ rfl])

theorem renumber_eq_self {f : Nat → Nat} {i : Instr} (h : ∀ n ∈ i.id?, f n = n) :
    i.renumber f = i := by
  cases i <;> first | rfl | (simp only [renumber, h _ rfl])

/-- The lines of a part, with their numbers counted on from `k`. -/
def shift (k : Nat) (is : List Instr) : List Instr := is.map (renumber (k + ·))

theorem shift_shift (k c : Nat) (is : List Instr) : shift k (shift c is) = shift (k + c) is := by
  simp only [shift, List.map_map]
  refine List.map_congr_left fun i _ => ?_
  simp only [Function.comp_apply, renumber_renumber, Nat.add_assoc]

theorem shift_append (k : Nat) (is js : List Instr) :
    shift k (is ++ js) = shift k is ++ shift k js := List.map_append

/-- The lines use the numbers from one to `c`. -/
def Within (c : Nat) (is : List Instr) : Prop := ∀ i ∈ is, ∀ n ∈ i.id?, 1 ≤ n ∧ n ≤ c

section
variable {c d : Nat} {is js : List Instr}

theorem within_of_id? (h : ∀ i ∈ is, i.id? = none) : Within c is := by
  intro i hi n hn
  rw [h i hi] at hn
  cases hn

theorem shift_of_id? (h : ∀ i ∈ is, i.id? = none) (k : Nat) : shift k is = is := by
  refine (List.map_congr_left fun i hi => ?_).trans (List.map_id _)
  refine renumber_eq_self fun n hn => ?_
  rw [h i hi] at hn
  cases hn

theorem Within.append (h : Within c is) (h' : Within d js) :
    Within (c + d) (is ++ shift c js) := by
  intro i hi n hn
  rcases List.mem_append.mp hi with hi | hi
  · obtain ⟨h1, h2⟩ := h i hi n hn
    omega
  · obtain ⟨j, hj, rfl⟩ := List.mem_map.mp hi
    rw [id?_renumber] at hn
    obtain ⟨m, hm, rfl⟩ := Option.map_eq_some_iff.mp hn
    obtain ⟨h1, h2⟩ := h' j hj m hm
    omega

end
end Instr

/-! ## Parts of a sketch -/

/-- Lines of a sketch, with the numbers of their helper variables counted from one. -/
structure Fragment where
  lines : List Instr
  /-- How many numbers are used up. -/
  count : Nat
  within : Instr.Within count lines

/-- What a block adds to a sketch: lines for its target, if it has one. -/
structure Part extends Fragment where
  target : Option BlockLine

namespace Part

/-- The bodies that come of some parts, when the numbers up to `k` are used up. -/
def place (k : Nat) : List Part → List (Option BlockLine × List Instr)
  | [] => []
  | p :: ps => (p.target, Instr.shift k p.lines) :: place (k + p.count) ps

/-- How many numbers some parts use. -/
def total : List Part → Nat
  | [] => 0
  | p :: ps => p.count + total ps

theorem total_perm {ps qs : List Part} (h : ps.Perm qs) : total ps = total qs := by
  induction h with
  | nil => rfl
  | cons p _ ih => rw [total, total, ih]
  | swap p q ps => simp only [total, Nat.add_left_comm]
  | trans _ _ ih ih' => rw [ih, ih']

/-- A body with other numbers. -/
def renumber (f : Nat → Nat) (b : Option BlockLine × List Instr) : Option BlockLine × List Instr :=
  (b.1, b.2.map (Instr.renumber f))

theorem place_targets (k : Nat) (ps : List Part) :
    (place k ps).map Prod.fst = ps.map target := by
  induction ps generalizing k with
  | nil => rfl
  | cons p ps ih => rw [place, List.map_cons, List.map_cons, ih]

section
variable {f : Nat → Nat} {k c : Nat}

/-- What a renumbering does to a part, told by its own numbers. -/
theorem renumber_shift (p : Part) (h : ∀ n, 1 ≤ n → n ≤ p.count → f (k + n) = c + n) :
    renumber f (p.target, Instr.shift k p.lines) = (p.target, Instr.shift c p.lines) := by
  simp only [renumber, Instr.shift, List.map_map]
  refine congrArg (p.target, ·) (List.map_congr_left fun i hi => ?_)
  rw [Function.comp_apply, Instr.renumber_renumber]
  exact Instr.renumber_congr fun n hn => h n (p.within i hi n hn).1 (p.within i hi n hn).2

/-- Parts whose numbers stay are placed as before. -/
theorem map_renumber_place (ps : List Part) (h : ∀ n, k < n → f n = n) :
    (place k ps).map (renumber f) = place k ps := by
  induction ps generalizing k with
  | nil => rfl
  | cons p ps ih =>
    rw [place, List.map_cons, renumber_shift p fun n h1 _ => h (k + n) (by omega),
      ih fun n hn => h n (by omega)]

end

/-- The renumbering that exchanges `c` numbers after `k` with the `d` numbers after them. -/
def exchange (k c d n : Nat) : Nat :=
  if n ≤ k then n else if n ≤ k + c then n + d else if n ≤ k + c + d then n - c else n

theorem exchange_injective (k c d : Nat) : (exchange k c d).Injective := by
  intro m n h
  unfold exchange at h
  split_ifs at h <;> omega

/-- **One renumbering serves all parts.** In any order the parts become the same bodies, but for
their numbers. -/
theorem place_perm {ps qs : List Part} (h : ps.Perm qs) (k : Nat) :
    ∃ f : Nat → Nat, f.Injective ∧ (∀ n, n ≤ k → f n = n) ∧ (∀ n, k + total ps < n → f n = n) ∧
      (place k qs).Perm ((place k ps).map (renumber f)) := by
  induction h generalizing k with
  | nil => exact ⟨id, Function.injective_id, fun _ _ => rfl, fun _ _ => rfl, .refl _⟩
  | @cons p ps qs _ ih =>
    obtain ⟨f, hinj, hlow, hhigh, hperm⟩ := ih (k + p.count)
    refine ⟨f, hinj, fun n hn => hlow n (by omega), fun n hn => hhigh n ?_, ?_⟩
    · rw [total] at hn
      omega
    · rw [place, place, List.map_cons, renumber_shift p fun n _ h2 => hlow (k + n) (by omega)]
      exact hperm.cons _
  | swap p q ps =>
    -- the two parts exchange their stretches of numbers, also where these differ in length
    refine ⟨exchange k q.count p.count, exchange_injective _ _ _, ?_, ?_, ?_⟩
    · intro n hn
      simp only [exchange, if_pos hn]
    · intro n hn
      simp only [total] at hn
      unfold exchange
      split_ifs <;> omega
    · have hq := renumber_shift (f := exchange k q.count p.count) (k := k) (c := k + p.count) q
        fun n h1 h2 => by unfold exchange; split_ifs <;> omega
      have hp := renumber_shift (f := exchange k q.count p.count) (k := k + q.count) (c := k) p
        fun n h1 h2 => by unfold exchange; split_ifs <;> omega
      have hrest := map_renumber_place (f := exchange k q.count p.count)
        (k := k + q.count + p.count) ps
        fun n hn => by unfold exchange; split_ifs <;> omega
      simp only [place, List.map_cons, hq, hp, hrest, Nat.add_right_comm k p.count q.count]
      exact List.Perm.swap _ _ _
  | @trans ps qs rs hpq _ ih ih' =>
    obtain ⟨f, hinj, hlow, hhigh, hperm⟩ := ih k
    obtain ⟨g, hinj', hlow', hhigh', hperm'⟩ := ih' k
    refine ⟨fun n => g (f n), hinj'.comp hinj, fun n hn => ?_, fun n hn => ?_, ?_⟩
    · show g (f n) = n
      rw [hlow n hn, hlow' n hn]
    · show g (f n) = n
      rw [hhigh n hn, hhigh' n (by rwa [← total_perm hpq])]
    · refine hperm'.trans ((hperm.map (renumber g)).trans (.of_eq ?_))
      simp only [List.map_map]
      refine List.map_congr_left fun b _ => ?_
      simp only [Function.comp_apply, renumber, List.map_map]
      refine congrArg (b.1, ·) (List.map_congr_left fun i _ => ?_)
      exact Instr.renumber_renumber f g i

end Part

/-! ## Sketches made of parts -/

namespace Sketch

/-- Adds a body for a block: `setup`, `loop` or a function. -/
def add (s : Sketch Instr) : Option BlockLine × List Instr → Sketch Instr
  | (some .setup, is) => s.addSetup is
  | (some .loop, is) => s.addLoop is
  | (some (.function name), is) => (s.withFunction name).addFunction name is
  | _ => s

/-- Adds the bodies of some blocks. -/
def addAll (s : Sketch Instr) (bs : List (Option BlockLine × List Instr)) : Sketch Instr :=
  bs.foldl add s

/-- The lines for a target. -/
def linesFor (c : BlockLine) (bs : List (Option BlockLine × List Instr)) : List Instr :=
  (bs.filter fun b => b.1 == some c).flatMap Prod.snd

/-- A body as that of a function. -/
def function? : Option BlockLine × List Instr → Option (String × List Instr)
  | (some (.function name), is) => some (name, is)
  | _ => none

theorem linesFor_cons (c : BlockLine) (b : Option BlockLine × List Instr)
    (bs : List (Option BlockLine × List Instr)) :
    linesFor c (b :: bs) = (if b.1 = some c then b.2 else []) ++ linesFor c bs := by
  by_cases h : b.1 = some c
  · simp [linesFor, h]
  · simp [linesFor, h]

/-- A part of the sketch that takes the lines for one target. -/
theorem part_addAll {part : Sketch Instr → List Instr} {c : BlockLine}
    (h : ∀ s b, part (add s b) = part s ++ if b.1 = some c then b.2 else [])
    (s : Sketch Instr) (bs : List (Option BlockLine × List Instr)) :
    part (s.addAll bs) = part s ++ linesFor c bs := by
  induction bs generalizing s with
  | nil => exact (List.append_nil _).symm
  | cons b bs ih =>
    rw [linesFor_cons, ← List.append_assoc, ← h]
    exact ih (s.add b)

theorem setup_add (s : Sketch Instr) (b : Option BlockLine × List Instr) :
    (s.add b).setup = s.setup ++ if b.1 = some .setup then b.2 else [] := by
  rcases b with ⟨_ | c, is⟩
  · simp [add]
  · cases c <;> simp [add, addSetup, addLoop, addFunction, withFunction, apply_ite setup]

theorem loop_add (s : Sketch Instr) (b : Option BlockLine × List Instr) :
    (s.add b).loop = s.loop ++ if b.1 = some .loop then b.2 else [] := by
  rcases b with ⟨_ | c, is⟩
  · simp [add]
  · cases c <;> simp [add, addSetup, addLoop, addFunction, withFunction, apply_ite loop]

/-- A function that is new gets a body of its own. -/
theorem functions_add_function (s : Sketch Instr) {name : String} (is : List Instr)
    (h : name ∉ s.functions.map Prod.fst) :
    (s.add (some (.function name), is)).functions = s.functions ++ [(name, is)] := by
  have hnew : s.functions.any (·.1 == name) = false :=
    List.any_eq_false.mpr fun b hb => by
      simpa using fun he => h (List.mem_map.mpr ⟨b, hb, he⟩)
  have hrest : s.functions.map (fun b => if b.1 == name then (b.1, b.2 ++ is) else b) =
      s.functions := by
    refine (List.map_congr_left fun b hb => ?_).trans (List.map_id _)
    have hne : b.1 ≠ name := fun he => h (List.mem_map.mpr ⟨b, hb, he⟩)
    simp [hne]
  simp only [add, withFunction, hnew, Bool.false_eq_true, if_false, addFunction, List.map_append,
    hrest]
  simp

theorem functions_addAll (s : Sketch Instr) (bs : List (Option BlockLine × List Instr))
    (hnodup : (s.functions.map Prod.fst ++ (bs.filterMap function?).map Prod.fst).Nodup) :
    (s.addAll bs).functions = s.functions ++ bs.filterMap function? := by
  induction bs generalizing s with
  | nil => exact (List.append_nil _).symm
  | cons b bs ih =>
    rcases hb : function? b with _ | ⟨name, is⟩
    · have hadd : (s.add b).functions = s.functions := by
        rcases b with ⟨_ | c, is⟩
        · rfl
        · cases c <;> first | rfl | cases hb
      rw [List.filterMap_cons_none hb] at hnodup ⊢
      rw [← hadd] at hnodup ⊢
      exact ih (s.add b) hnodup
    · have he : b = (some (.function name), is) := by
        rcases b with ⟨_ | c, js⟩
        · cases hb
        · cases c <;> cases hb
          rfl
      rw [List.filterMap_cons_some hb] at hnodup ⊢
      have hnew : name ∉ s.functions.map Prod.fst := by
        intro hmem
        exact (List.nodup_append.mp hnodup).2.2 name hmem name (by simp) rfl
      have hadd := functions_add_function s is hnew
      rw [← he] at hadd
      have hrest := ih (s.add b) (by simpa [hadd] using hnodup)
      rw [hadd, List.append_assoc] at hrest
      exact hrest

/-- Different blocks have different names, if they are functions. -/
theorem functionNames_nodup {bs : List (Option BlockLine × List Instr)}
    (h : (bs.filterMap Prod.fst).Nodup) : ((bs.filterMap function?).map Prod.fst).Nodup := by
  let name? : BlockLine → Option String
    | .function name => some name
    | _ => none
  have heq : (bs.filterMap function?).map Prod.fst = (bs.filterMap Prod.fst).filterMap name? := by
    rw [List.map_filterMap, List.filterMap_filterMap]
    refine List.filterMap_congr fun b _ => ?_
    rcases b with ⟨_ | c, is⟩
    · rfl
    · cases c <;> rfl
  rw [heq]
  refine h.filterMap fun c c' name hc hc' => ?_
  cases c <;> cases hc
  cases c' <;> cases hc'
  rfl

theorem perm_eq_of_length_le_one {α : Type} {l l' : List α} (h : l.Perm l') (hl : l'.length ≤ 1) :
    l = l' := by
  rcases l' with _ | ⟨a, _ | ⟨b, l'⟩⟩
  · exact h.eq_nil
  · exact List.perm_singleton.mp h
  · simp at hl

/-- The bodies of different blocks, in another order and with other numbers, make up the same sketch
but for the order of its functions and the numbers. -/
theorem addAll_perm {bs bs' : List (Option BlockLine × List Instr)} {f : Nat → Nat}
    (hperm : bs'.Perm (bs.map (Part.renumber f))) (hdistinct : (bs.filterMap Prod.fst).Nodup) :
    let s := addAll {} bs
    let s' := addAll {} bs'
    s'.setup = s.setup.map (Instr.renumber f) ∧ s'.loop = s.loop.map (Instr.renumber f) ∧
      s'.functions.Perm (s.functions.map fun b => (b.1, b.2.map (Instr.renumber f))) := by
  have hlines : ∀ c, linesFor c bs' = (linesFor c bs).map (Instr.renumber f) := by
    intro c
    -- no opener occurs twice, so among the lines for one there is no order to change
    have hcount : (bs.filter fun b => b.1 == some c).length ≤ 1 := by
      rw [← List.countP_eq_length_filter]
      have hle := List.nodup_iff_count_le_one.mp hdistinct c
      rwa [List.count_filterMap] at hle
    have hfilter := hperm.filter fun b => b.1 == some c
    rw [List.filter_map] at hfilter
    have heq : (bs'.filter fun b => b.1 == some c) =
        (bs.filter fun b => b.1 == some c).map (Part.renumber f) :=
      perm_eq_of_length_le_one hfilter (by rwa [List.length_map])
    rw [linesFor, heq, linesFor, List.flatMap_map, List.map_flatMap]
    rfl
  have hfun : (bs.map (Part.renumber f)).filterMap function? =
      (bs.filterMap function?).map fun b => (b.1, b.2.map (Instr.renumber f)) := by
    rw [List.filterMap_map, List.map_filterMap]
    refine List.filterMap_congr fun b _ => ?_
    rcases b with ⟨_ | c, is⟩
    · rfl
    · cases c <;> rfl
  have hnames := functionNames_nodup hdistinct
  have hfunctions : (addAll {} bs).functions = bs.filterMap function? :=
    functions_addAll {} bs hnames
  have hperm' := hperm.filterMap function?
  rw [hfun] at hperm'
  have hnames' : ((bs'.filterMap function?).map Prod.fst).Nodup := by
    refine ((hperm'.map Prod.fst).nodup_iff).mpr ?_
    rwa [List.map_map]
  refine ⟨?_, ?_, ?_⟩
  · rw [part_addAll setup_add, part_addAll setup_add]
    exact hlines .setup
  · rw [part_addAll loop_add, part_addAll loop_add]
    exact hlines .loop
  · rw [functions_addAll {} bs' hnames', hfunctions]
    exact hperm'

end Sketch
end PlainSketch
