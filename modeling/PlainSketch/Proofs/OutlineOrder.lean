import Mathlib.Data.List.Perm.Basic
import PlainSketch.Proofs.UniformSteps

/-!
# The order of lines in the first pass

A line that writes to a variable gives it a type, unless its name is taken. So the order of lines
matters in one way only: a write to a name that is declared as a function further down makes the
name a variable, and the function is refused. `Build.outlineFrom_ordered` shows that nothing else
can go wrong, and that in the absence of such pairs of lines the types come from all the writes to
names that are free in the end, in whatever order these are. `Build.pairwise_of_outlineFrom` shows
that a first pass without errors has no such pair.
-/
namespace PlainSketch
open Session
open Text (isBlank)
open Script (follow)
open Assemble (sorts)

/-- The first line writes to a variable with the name of the function that the second declares. -/
def Clashes (c d : List Char) : Prop :=
  ∃ name type, OutlineLine.ofCode c = .writes name type ∧ OutlineLine.ofCode d = .function name

/-- What a line says about the type of a variable. -/
def OutlineLine.written? : OutlineLine → Option (String × ValueType)
  | .writes name type => some (name, type)
  | _ => none

theorem clashes_iff {c d : List Char} : Clashes c d ↔
    ∃ w ∈ (OutlineLine.ofCode c).written?, OutlineLine.ofCode d = .function w.1 := by
  unfold Clashes
  cases OutlineLine.ofCode c <;> simp [OutlineLine.written?]

instance (c d : List Char) : Decidable (Clashes c d) := decidable_of_iff _ clashes_iff.symm

/-- What some lines say about the types of variables. -/
def writesOf (codes : List (List Char)) : List (String × ValueType) :=
  codes.filterMap fun c => (OutlineLine.ofCode c).written?

theorem writesOf_cons (c : List Char) (cs : List (List Char)) :
    writesOf (c :: cs) = (OutlineLine.ofCode c).written?.toList ++ writesOf cs := by
  simp only [writesOf, List.filterMap_cons]
  cases (OutlineLine.ofCode c).written? <;> rfl

theorem ValueType.join_comm (before : Option ValueType) (type type' : ValueType) :
    join (some (join before type)) type' = join (some (join before type')) type := by
  cases before with
  | none => cases type <;> cases type' <;> rfl
  | some before => cases before <;> cases type <;> cases type' <;> rfl

namespace SymbolTable

instance (t : SymbolTable) (name : String) : Decidable (t.Allows name) :=
  inferInstanceAs (Decidable (_ ∧ _ ∧ _ ∧ _))

/-- A function has a name that nothing else has. -/
theorem Exclusive.of_isFunction {t : SymbolTable} {name : String} (h : t.Exclusive)
    (hf : t.isFunction name = true) : Line.isIdentifier name.toList = true ∧
      t.isReserved name = false ∧ t.isPin name = false ∧ t.isVariable name = false := by
  have hmem : name ∈ t.names := mem_names.mpr (.inr (.inr hf))
  have hvar : t.isVariable name = false := by
    rw [Bool.eq_false_iff]
    intro hv
    rw [(h.allows hv).2.2.2] at hf
    cases hf
  obtain ⟨f, hf, he⟩ := isFunction_iff.mp hf
  have hfun : name ∈ t.functions.map (·.name) := List.mem_map.mpr ⟨f, hf, he⟩
  obtain ⟨-, -, hpin⟩ := List.nodup_append.mp h.nodup
  refine ⟨h.identifiers name hmem, by simpa [isReserved] using h.unreserved name hmem, ?_, hvar⟩
  rw [Bool.eq_false_iff]
  intro hp
  obtain ⟨p, hp, he⟩ := isPin_iff.mp hp
  exact hpin _ (List.mem_map.mpr ⟨p, hp, he⟩) _ (List.mem_append_right _ hfun) rfl

/-- The types after a write, if the table allows it. -/
def seeded (t : SymbolTable) (types : String → Option ValueType) (w : String × ValueType) :
    String → Option ValueType :=
  fun n => if n = w.1 ∧ t.Allows n then some (ValueType.join (types n) w.2) else types n

/-- The types after some writes. -/
def seededAll (t : SymbolTable) (types : String → Option ValueType)
    (ws : List (String × ValueType)) : String → Option ValueType :=
  ws.foldl t.seeded types

theorem seeded_comm (t : SymbolTable) (types : String → Option ValueType)
    (v w : String × ValueType) :
    t.seeded (t.seeded types v) w = t.seeded (t.seeded types w) v := by
  funext n
  by_cases hv : n = v.1 ∧ t.Allows n
  · by_cases hw : n = w.1 ∧ t.Allows n
    · simp only [seeded, if_pos hv, if_pos hw, ValueType.join_comm]
    · simp only [seeded, if_pos hv, if_neg hw]
  · by_cases hw : n = w.1 ∧ t.Allows n
    · simp only [seeded, if_neg hv, if_pos hw]
    · simp only [seeded, if_neg hv, if_neg hw]

theorem seededAll_perm (t : SymbolTable) {vs ws : List (String × ValueType)} (h : vs.Perm ws)
    (types : String → Option ValueType) : t.seededAll types vs = t.seededAll types ws :=
  h.foldl_eq' (fun v _ w _ types => seeded_comm t types v w) types

end SymbolTable

/-! ## A first pass that is to end in a given table -/

/-- A session on its way to the symbols of `t`, without errors so far. -/
structure Session.Outlines (s : Session) (t : SymbolTable) : Prop where
  board : s.table.board = t.board
  reserved : s.table.reserved = t.reserved
  pins : s.table.pins = t.pins
  declared : ∀ n, s.table.isFunction n = true → t.isFunction n = true
  allowed : ∀ n, s.table.isVariable n = true → t.Allows n
  accepted : s.Accepted

theorem Session.Outlines.isPin {s : Session} {t : SymbolTable} (h : s.Outlines t) (n : String) :
    s.table.isPin n = t.isPin n := by
  rw [SymbolTable.isPin, SymbolTable.isPin, SymbolTable.findPin?_congr h.pins]

namespace Build
open SymbolTable

section
variable {t : SymbolTable} {s : Session} {name : String}

/-- A write to a name that is no function, or that is known to be one. -/
theorem seed_ordered (h : s.Outlines t)
    (hdeclared : t.isFunction name = true → s.table.isFunction name = true) (type : ValueType)
    (line : Int) : ∃ u, seed name type line s = .ok () u ∧ u.Outlines t ∧
      u.table.functions = s.table.functions ∧
      u.table.typeOf? = t.seeded s.table.typeOf? (name, type) := by
  have hallows : s.table.Allows name ↔ t.Allows name := by
    have hfun : s.table.isFunction name = t.isFunction name :=
      Bool.eq_iff_iff.mpr ⟨h.declared name, hdeclared⟩
    simp only [Allows, isReserved, h.reserved, h.isPin, hfun]
  by_cases ha : s.table.Allows name
  · obtain ⟨u, hu, hacc, hretypes⟩ := observeVariable_of_allows ha type line
    have htypes : u.table.typeOf? = t.seeded s.table.typeOf? (name, type) := by
      funext n
      by_cases hn : n = name
      · rw [seeded, if_pos ⟨hn, hn ▸ hallows.mp ha⟩, hn, hretypes.self]
      · rw [seeded, if_neg fun hboth => hn hboth.1, hretypes.others n hn]
    refine ⟨u, ?_, ⟨?_, ?_, ?_, ?_, ?_, hacc h.accepted⟩, hretypes.functions, htypes⟩
    · rw [seed, table_bind, ha.2.1, ha.2.2.1, ha.2.2.2]
      exact bind_eq_ok.mpr ⟨true, u, hu, rfl⟩
    · rw [hretypes.board, h.board]
    · rw [hretypes.reserved, h.reserved]
    · rw [hretypes.pins, h.pins]
    · intro n hn
      rw [isFunction, findFunction?, hretypes.functions] at hn
      exact h.declared n hn
    · intro n hn
      by_cases he : n = name
      · exact he ▸ hallows.mp ha
      · rw [isVariable_eq_typeOf?, hretypes.others n he, ← isVariable_eq_typeOf?] at hn
        exact h.allowed n hn
  · have hsame : t.seeded s.table.typeOf? (name, type) = s.table.typeOf? := by
      funext n
      rw [seeded, if_neg]
      rintro ⟨rfl, hn⟩
      exact ha (hallows.mpr hn)
    -- a name that is taken, or is no identifier, is not entered
    refine ⟨s, ?_, h, rfl, hsame.symm⟩
    rw [seed, table_bind]
    split
    · rfl
    · next hfree =>
      have hid : Line.isIdentifier name.toList = false := by
        rw [Bool.eq_false_iff]
        intro hid
        simp only [Bool.or_eq_true, not_or, Bool.not_eq_true] at hfree
        exact ha ⟨hid, hfree.1.1, hfree.1.2, hfree.2⟩
      exact bind_eq_ok.mpr ⟨false, s, observeVariable_of_not_identifier hid type line s, rfl⟩

/-- A declaration of a function that is new. -/
theorem defineFunction_ordered (ht : t.Exclusive) (h : s.Outlines t)
    (hname : t.isFunction name = true) (hnew : s.table.isFunction name = false) (line : Int) :
    ∃ u, defineFunction name line s = .ok true u ∧ u.Outlines t ∧
      u.table.functions = s.table.functions ++ [⟨name, line⟩] ∧
      u.table.typeOf? = s.table.typeOf? := by
  obtain ⟨hid, hres, hpin, -⟩ := ht.of_isFunction hname
  rw [← h.isPin] at hpin
  rw [isReserved, ← h.reserved, ← isReserved] at hres
  have hvar : s.table.isVariable name = false := by
    rw [Bool.eq_false_iff]
    intro hv
    rw [(h.allowed name hv).2.2.2] at hname
    cases hname
  rw [defineFunction, table_bind]
  simp only [hid, hres, hpin, hvar, hnew, Bool.not_true, Bool.false_eq_true, if_false]
  refine ⟨_, rfl, ⟨h.board, h.reserved, h.pins, ?_, h.allowed, h.accepted⟩, rfl, rfl⟩
  intro n hn
  obtain ⟨f, hf, rfl⟩ := isFunction_iff.mp hn
  rcases List.mem_append.mp hf with hf | hf
  · exact h.declared f.name (isFunction_iff.mpr ⟨f, hf, rfl⟩)
  · rw [List.mem_singleton.mp hf]
    exact hname

/-- A line that declares no pin. Functions are declared outside all blocks and are new, and names of
functions are written to only once they are declared. -/
theorem outlineLine_ordered {depth : Nat} {c : OutlineLine} (ht : t.Exclusive) (h : s.Outlines t)
    (hpin : c.isPin = false)
    (hfunction : ∀ name, c = .function name →
      depth = 0 ∧ t.isFunction name = true ∧ s.table.isFunction name = false)
    (hwrites : ∀ name type, c = .writes name type → t.isFunction name = true →
      s.table.isFunction name = true) (line : Int) :
    ∃ u, outlineLine depth line c s = .ok (c.depthAfter depth) u ∧ u.Outlines t ∧
      u.table.functions = s.table.functions ++ (c.function? line).toList ∧
      u.table.typeOf? = t.seededAll s.table.typeOf? c.written?.toList := by
  cases c with
  | opener | closer | neutral | other => exact ⟨s, rfl, h, (List.append_nil _).symm, rfl⟩
  | pin parts | pinAssignment name value => cases hpin
  | function name =>
    obtain ⟨rfl, hname, hnew⟩ := hfunction name rfl
    obtain ⟨u, hu, hout, hfun, htypes⟩ := defineFunction_ordered ht h hname hnew line
    exact ⟨u, bind_eq_ok.mpr ⟨true, u, hu, rfl⟩, hout, hfun, htypes⟩
  | writes name type =>
    obtain ⟨u, hu, hout, hfun, htypes⟩ := seed_ordered h (hwrites name type rfl) type line
    exact ⟨u, bind_eq_ok.mpr ⟨(), u, hu, rfl⟩, hout, hfun.trans (List.append_nil _).symm, htypes⟩

/-- **The first pass goes through in any order without clashes.** -/
theorem outlineFrom_ordered {ls : List (Int × List Char)} {depth : Nat} {st st' : List Bool}
    (ht : t.Exclusive) (h : s.Outlines t)
    (hlast : ∀ l ∈ ls, ∀ c, l.2.getLast? = some c → isBlank c = false)
    (hpin : ∀ l ∈ ls, (OutlineLine.ofCode l.2).isPin = false) (hlevels : Levels depth st)
    (hfollow : follow st (sorts ls) = some st')
    (hnames : ((s.table.functions ++ declaredFunctions ls).map (·.name)).Nodup)
    (hall : ∀ n, t.isFunction n = true ↔
      n ∈ (s.table.functions ++ declaredFunctions ls).map (·.name))
    (horder : ls.Pairwise fun l l' => ¬ Clashes l.2 l'.2) :
    ∃ d u, outlineFrom depth ls s = .ok d u ∧ u.Outlines t ∧
      u.table.functions = s.table.functions ++ declaredFunctions ls ∧
      u.table.typeOf? = t.seededAll s.table.typeOf? (writesOf (ls.map Prod.snd)) := by
  induction ls generalizing depth st s with
  | nil => exact ⟨depth, s, rfl, h, (List.append_nil _).symm, rfl⟩
  | cons l ls ih =>
    obtain ⟨line, code⟩ := l
    rw [sorts, List.map_cons, Script.follow_cons] at hfollow
    obtain ⟨st₁, hadv, hfollow⟩ := Option.bind_eq_some_iff.mp hfollow
    obtain ⟨hclash, horder⟩ := List.pairwise_cons.mp horder
    have hsplit : declaredFunctions ((line, code) :: ls) =
        ((OutlineLine.ofCode code).function? line).toList ++ declaredFunctions ls :=
      declaredFunctions_cons (line, code) ls
    have hfunction : ∀ name, OutlineLine.ofCode code = .function name →
        depth = 0 ∧ t.isFunction name = true ∧ s.table.isFunction name = false := by
      intro name hc
      have hdecl : name ∈ (declaredFunctions ((line, code) :: ls)).map (·.name) := by
        rw [hsplit, hc]
        exact List.mem_cons_self
      refine ⟨depth_of_function hlevels hadv hc, (hall name).mpr ?_, ?_⟩
      · rw [List.map_append]
        exact List.mem_append_right _ hdecl
      · rw [Bool.eq_false_iff]
        intro hknown
        obtain ⟨f, hf, he⟩ := isFunction_iff.mp hknown
        rw [List.map_append] at hnames
        exact (List.nodup_append.mp hnames).2.2 _ (List.mem_map.mpr ⟨f, hf, he⟩) _ hdecl rfl
    have hwrites : ∀ name type, OutlineLine.ofCode code = .writes name type →
        t.isFunction name = true → s.table.isFunction name = true := by
      intro name type hc hname
      obtain ⟨f, hf, rfl⟩ := List.mem_map.mp ((hall name).mp hname)
      rcases List.mem_append.mp hf with hf | hf
      · exact isFunction_iff.mpr ⟨f, hf, rfl⟩
      · -- the function is declared further down
        rw [hsplit, hc] at hf
        obtain ⟨code', hl', hc'⟩ := mem_declaredFunctions.mp hf
        exact absurd ⟨f.name, type, hc, hc'⟩ (hclash _ hl')
    obtain ⟨u, hu, hout, hfun, htypes⟩ :=
      outlineLine_ordered ht h (hpin _ List.mem_cons_self) hfunction hwrites line
    rw [hsplit, ← List.append_assoc, ← hfun] at hnames hall
    obtain ⟨d, v, hv, hout', hfun', htypes'⟩ := ih hout
      (fun l hl => hlast l (List.mem_cons_of_mem _ hl))
      (fun l hl => hpin l (List.mem_cons_of_mem _ hl))
      (hlevels.advance (hlast _ List.mem_cons_self) hadv) hfollow hnames hall horder
    refine ⟨d, v, bind_eq_ok.mpr ⟨_, u, hu, hv⟩, hout', ?_, ?_⟩
    · rw [hsplit, hfun', hfun, List.append_assoc]
    · rw [htypes', htypes, List.map_cons, writesOf_cons]
      exact List.foldl_append.symm

/-- **A first pass without errors has no clashes.** -/
theorem pairwise_of_outlineFrom {ls : List (Int × List Char)} {depth d : Nat} {st st' : List Bool}
    {u : Session} (hlast : ∀ l ∈ ls, ∀ c, l.2.getLast? = some c → isBlank c = false)
    (hlevels : Levels depth st) (hfollow : follow st (sorts ls) = some st')
    (h : outlineFrom depth ls s = .ok d u) (hacc : u.Accepted) (hu : u.table.Exclusive) :
    ls.Pairwise fun l l' => ¬ Clashes l.2 l'.2 := by
  induction ls generalizing depth st s with
  | nil => exact .nil
  | cons l ls ih =>
    obtain ⟨line, code⟩ := l
    obtain ⟨e, v, hv, hrest⟩ := bind_eq_ok.mp h
    rw [sorts, List.map_cons, Script.follow_cons] at hfollow
    obtain ⟨st₁, hadv, hfollow⟩ := Option.bind_eq_some_iff.mp hfollow
    have hlast' : ∀ l ∈ ls, ∀ c, l.2.getLast? = some c → isBlank c = false :=
      fun l hl => hlast l (List.mem_cons_of_mem _ hl)
    have hlevels' := hlevels.advance (hlast _ List.mem_cons_self) hadv
    rw [← outlineLine_depth hv] at hlevels'
    refine .cons ?_ (ih hlast' hlevels' hfollow hrest)
    rintro ⟨line', code'⟩ hl' ⟨name, type, hc, hc'⟩
    have hfunctions := outlineFrom_functions hlast' hlevels' hfollow hrest hacc
    have hmem : (⟨name, line'⟩ : Function) ∈ declaredFunctions ls :=
      mem_declaredFunctions.mpr ⟨code', hl', hc'⟩
    have hname : u.table.isFunction name = true := by
      refine isFunction_iff.mpr ⟨⟨name, line'⟩, ?_, rfl⟩
      rw [hfunctions]
      exact List.mem_append_right _ hmem
    obtain ⟨hid, hres, hpin, hvar⟩ := hu.of_isFunction hname
    have hgrows := ((outlineFrom_extending e ls).ok hrest).table
    rw [hc] at hv
    obtain ⟨_, w, hseed, hw⟩ := bind_eq_ok.mp hv
    cases hw
    by_cases hknown : v.table.isFunction name = true
    · -- it would be declared twice
      obtain ⟨f, hf, he⟩ := isFunction_iff.mp hknown
      have hnodup := hu.functions
      rw [hfunctions, List.map_append] at hnodup
      exact (List.nodup_append.mp hnodup).2.2 _ (List.mem_map.mpr ⟨f, hf, he⟩) _
        (List.mem_map.mpr ⟨_, hmem, rfl⟩) rfl
    · -- it is a variable already
      have hallows : v.table.Allows name := by
        refine ⟨hid, ?_, ?_, by simpa using hknown⟩
        · rwa [isReserved, ← hgrows.keeps.reserved]
        · rw [Bool.eq_false_iff] at hpin ⊢
          exact fun hp => hpin (hgrows.isPin hp)
      have hknown := (seed_settles hseed hallows).isVariable
      rw [hgrows.isVariable hknown] at hvar
      cases hvar

/-! ## Runs of the first pass -/

theorem levels_of_outlineFrom {ls : List (Int × List Char)} {depth d : Nat} {st st' : List Bool}
    {u : Session} (hlast : ∀ l ∈ ls, ∀ c, l.2.getLast? = some c → isBlank c = false)
    (hlevels : Levels depth st) (hfollow : follow st (sorts ls) = some st')
    (h : outlineFrom depth ls s = .ok d u) : Levels d st' := by
  induction ls generalizing depth st s with
  | nil =>
    cases h
    cases hfollow
    exact hlevels
  | cons l ls ih =>
    obtain ⟨e, v, hv, hrest⟩ := bind_eq_ok.mp h
    rw [sorts, List.map_cons, Script.follow_cons] at hfollow
    obtain ⟨st₁, hadv, hfollow⟩ := Option.bind_eq_some_iff.mp hfollow
    have hlevels' := hlevels.advance (hlast _ List.mem_cons_self) hadv
    rw [← outlineLine_depth hv] at hlevels'
    exact ih (fun l hl => hlast l (List.mem_cons_of_mem _ hl)) hlevels' hfollow hrest

theorem pins_of_outlineLine {depth d : Nat} {line : Int} {c : OutlineLine} {u : Session}
    (hpin : c.isPin = false) (h : outlineLine depth line c s = .ok d u) :
    u.table.pins = s.table.pins := by
  obtain ⟨m, hact, hm⟩ := outlineLine_ok h
  cases hact with
  | opener | closer | neutral | other | innerFunction =>
    cases hm
    rfl
  | pin | pinAssignment | pinRefused | assignmentRefused => cases hpin
  | function name =>
    obtain ⟨b, v, hdef, hpure⟩ := bind_eq_ok.mp hm
    cases hpure
    exact pins_of_defineFunction hdef
  | writes name type => exact ((seed_elementary name type line s).ok hm).fixed.1

/-- Without pin lines the pins stay. -/
theorem pins_of_outlineFrom {ls : List (Int × List Char)} {depth d : Nat} {u : Session}
    (hpin : ∀ l ∈ ls, (OutlineLine.ofCode l.2).isPin = false)
    (h : outlineFrom depth ls s = .ok d u) : u.table.pins = s.table.pins := by
  induction ls generalizing depth s with
  | nil =>
    cases h
    rfl
  | cons l ls ih =>
    obtain ⟨e, v, hv, hrest⟩ := bind_eq_ok.mp h
    rw [ih (fun l hl => hpin l (List.mem_cons_of_mem _ hl)) hrest]
    exact pins_of_outlineLine (hpin l List.mem_cons_self) hv

end
end Build
end PlainSketch
