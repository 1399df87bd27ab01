import Mathlib.Order.Interval.Set.UnorderedInterval
import PlainSketch.Proofs.RespacedSteps
import PlainSketch.Proofs.StringAssignments
import PlainSketch.Proofs.VariableTypes

/-!
# Limiting to a range and drawing from it

Both statements write a range as `a..b`. Drawing a number puts the bounds in order first, so every
integer between them can come out and no other. Limiting tests the variable against the bounds as
they stand, one after the other. With the lower bound first that leaves the nearest number of the
range; with the bounds the other way round one of the tests always sets the variable to the second
bound.
-/
namespace PlainSketch
open Text Line Shape

/-! ## The numeral of an integer -/

namespace Text

/-- The integer has no more digits than can be read and written. -/
def InLimit (n : Int) : Prop := n.natAbs < 10 ^ digitLimit

instance : DecidablePred InLimit := fun _ => Nat.decLt _ _

theorem digitValue?_of_isDigit {c : Char} (h : c.isDigit = true) :
    digitValue? c = some (c.toNat - '0'.toNat) := by
  obtain ⟨hlow, hhigh⟩ := (Bool.and_eq_true _ _).mp h
  have hlow : 48 ≤ c.toNat := UInt32.le_iff_toNat_le.mp (of_decide_eq_true hlow)
  have hhigh : c.toNat ≤ 57 := UInt32.le_iff_toNat_le.mp (of_decide_eq_true hhigh)
  have hfirst : (decide (0x30 ≤ c.toNat) && decide (c.toNat < 0x30 + 10)) = true := by
    simp only [Bool.and_eq_true, decide_eq_true_eq]
    omega
  have hfind : zeros.find? (fun z => decide (z ≤ c.toNat) && decide (c.toNat < z + 10)) =
      some 0x30 := List.find?_cons_of_pos hfirst
  rw [digitValue?, hfind]
  rfl

theorem isNatural_toDigits (m : Nat) : isNatural (Nat.toDigits 10 m) = true := by
  refine (Bool.and_eq_true _ _).mpr ⟨by simp, List.all_eq_true.mpr fun c hc => ?_⟩
  rw [isDigit, digitValue?_of_isDigit (Nat.isDigit_of_mem_toDigits (by decide) (by decide) hc)]
  rfl

/-- The digits of a number denote it. -/
theorem digitsValue_toDigits (m : Nat) : digitsValue (Nat.toDigits 10 m) = m := by
  refine Eq.trans ?_ (Nat.ofDigitChars_toDigits (b := 10) (by decide) (by decide))
  refine List.foldl_ext _ _ _ fun k c hc => ?_
  rw [digitValue?_of_isDigit (Nat.isDigit_of_mem_toDigits (by decide) (by decide) hc)]
  rfl

theorem readNatural_toDigits (m : Nat) :
    readNatural (Nat.toDigits 10 m) = if m < 10 ^ digitLimit then .ok m
      else .error (.numeralTooLong (Nat.toDigits 10 m).length) := by
  have hlength : (Nat.toDigits 10 m).length ≤ digitLimit ↔ m < 10 ^ digitLimit :=
    Nat.length_toDigits_le_iff (by decide) (by decide)
  rw [readNatural, digitsValue_toDigits]
  split
  · next hlong => rw [if_neg fun hm => Nat.not_lt.mpr (hlength.mpr hm) hlong]
  · next hshort => rw [if_pos (hlength.mp (Nat.le_of_not_lt hshort))]

/-- Digits are read as they stand, without a sign. -/
theorem readInteger_of_isNatural {cs : List Char} (h : isNatural cs = true) :
    isInteger cs = true ∧ readInteger cs = (readNatural cs).map fun n => (n : Int) := by
  have hsign : ∀ ds, cs ≠ '-' :: ds := by
    rintro ds rfl
    have hdigit := List.all_eq_true.mp ((Bool.and_eq_true _ _).mp h).2 '-' List.mem_cons_self
    exact absurd hdigit (by decide +kernel)
  constructor
  · unfold isInteger
    split
    · exact absurd rfl (hsign _)
    · exact h
  · unfold readInteger
    split
    · exact absurd rfl (hsign _)
    · rfl

theorem toList_toString_cases (n : Int) :
    (n = n.natAbs ∧ (toString n).toList = Nat.toDigits 10 n.natAbs) ∨
      n = -(n.natAbs : Int) ∧ (toString n).toList = '-' :: Nat.toDigits 10 n.natAbs := by
  rw [Int.toString_eq_repr]
  cases n with
  | ofNat m => exact .inl ⟨rfl, Nat.toList_repr⟩
  | negSucc m =>
    refine .inr ⟨rfl, ?_⟩
    rw [Int.repr, String.toList_append, Nat.toList_repr]
    rfl

theorem isInteger_toString (n : Int) : isInteger (toString n).toList = true := by
  rcases toList_toString_cases n with ⟨-, hn⟩ | ⟨-, hn⟩
  · rw [hn]
    exact (readInteger_of_isNatural (isNatural_toDigits _)).1
  · rw [hn]
    exact isNatural_toDigits _

theorem readNatural_natAbs (n : Int) :
    readNatural (Nat.toDigits 10 n.natAbs) = if InLimit n then .ok n.natAbs
      else .error (.numeralTooLong (Nat.toDigits 10 n.natAbs).length) :=
  readNatural_toDigits n.natAbs

/-- An integer is read back from its numeral, if this is not too long. -/
theorem readInteger_toString (n : Int) :
    readInteger (toString n).toList = if InLimit n then .ok n
      else .error (.numeralTooLong (Nat.toDigits 10 n.natAbs).length) := by
  rcases toList_toString_cases n with ⟨hvalue, hn⟩ | ⟨hvalue, hn⟩
  · rw [hn, (readInteger_of_isNatural (isNatural_toDigits _)).2, readNatural_natAbs]
    split
    · exact congrArg Except.ok hvalue.symm
    · rfl
  · rw [hn, readInteger, readNatural_natAbs]
    split
    · exact congrArg Except.ok hvalue.symm
    · rfl

theorem not_blank_of_mem_toString {n : Int} {c : Char} (h : c ∈ (toString n).toList) :
    isBlank c = false := by
  have natural : c ∈ Nat.toDigits 10 n.natAbs → isBlank c = false := fun hc =>
    isBlank_of_isDigit
      (List.all_eq_true.mp ((Bool.and_eq_true _ _).mp (isNatural_toDigits _)).2 c hc)
  rcases toList_toString_cases n with ⟨-, hn⟩ | ⟨-, hn⟩
  · exact natural (hn ▸ h)
  · rcases List.mem_cons.mp (hn ▸ h) with rfl | h
    · decide
    · exact natural h

end Text

/-! ## The text of a range -/

/-- A range as it is written. -/
def rangeText (a b : Int) : List Char := (toString a).toList ++ ("..".toList ++ (toString b).toList)

section
variable {a b : Int}

theorem not_blank_of_mem_rangeText {c : Char} (h : c ∈ rangeText a b) : isBlank c = false := by
  rcases List.mem_append.mp h with h | h
  · exact not_blank_of_mem_toString h
  rcases List.mem_append.mp h with h | h
  · have hpoint : c = '.' := by simpa using h
    rw [hpoint]
    decide
  · exact not_blank_of_mem_toString h

theorem rangeText_ne_nil (a b : Int) : rangeText a b ≠ [] := by
  simp [rangeText]

theorem rangeParts?_rangeText (a b : Int) :
    rangeParts? (rangeText a b) = some ((toString a).toList, (toString b).toList) := by
  have htrim : trim (rangeText a b) = rangeText a b :=
    trim_eq_self (fun c hc => not_blank_of_mem_rangeText (List.mem_of_head? hc))
      fun c hc => not_blank_of_mem_rangeText (List.mem_of_getLast? hc)
  have hpoint : ∀ c ∈ (toString a).toList, (c != '.') = true := by
    intro c hc
    have hne : c ≠ '.' := by
      rintro rfl
      exact Build.not_mem_toString (by decide) (by decide) a hc
    simpa using hne
  have hlow : (rangeText a b).takeWhile (· != '.') = (toString a).toList := by
    rw [rangeText, List.takeWhile_append_of_pos hpoint]
    simp
  have hhigh : (rangeText a b).dropWhile (· != '.') = '.' :: '.' :: (toString b).toList := by
    rw [rangeText, List.dropWhile_append_of_pos hpoint]
    simp
  simp only [rangeParts?, htrim, hlow, hhigh, isInteger_toString, Bool.and_self, if_true]

/-- Both bounds are read, in the order in which they stand. -/
theorem readRange_rangeText (a b : Int) :
    (InLimit a ∧ InLimit b) ∧ readRange (rangeText a b) = .ok (some (a, b)) ∨
      ¬ (InLimit a ∧ InLimit b) ∧ ∃ f, readRange (rangeText a b) = .error f := by
  simp only [readRange, rangeParts?_rangeText, readInteger_toString]
  by_cases ha : InLimit a
  · by_cases hb : InLimit b
    · rw [if_pos ha, if_pos hb]
      exact .inl ⟨⟨ha, hb⟩, rfl⟩
    · rw [if_pos ha, if_neg hb]
      exact .inr ⟨fun h => hb h.2, _, rfl⟩
  · rw [if_neg ha]
    exact .inr ⟨fun h => ha h.1, _, rfl⟩

end

/-! ## Compiling the two statements -/

/-- The line that limits a variable to a range. -/
def limitLine (name : String) (a b : Int) : List Char :=
  "limit ".toList ++ (name.toList ++ (" to ".toList ++ rangeText a b))

/-- The line that sets a variable to a number drawn from a range. -/
def randomLine (name : String) (a b : Int) : List Char :=
  "pick random from ".toList ++ (rangeText a b ++ (" into ".toList ++ name.toList))

/-- In this session, `m` answers `x` if `p` holds, and otherwise it fails. -/
def Build.AnswersIf {α : Type} (p : Prop) (x : α) (m : Build α) (s : Session) : Prop :=
  (p ∧ ∃ t, m s = .ok x t) ∨ ¬ p ∧ ∃ f t, m s = .error f t

namespace Shape
variable {w : List Char} {c : Char}

theorem gap_space (hc : isBlank c = false) (cs : List Char) :
    gap (' ' :: c :: cs) = some ((), c :: cs) :=
  gap_append (List.cons_ne_nil ' ' []) (List.forall_mem_singleton.mpr rfl) hc cs

/-- A word is read to the next blank. -/
theorem word_append (hne : w ≠ []) (hw : ∀ d ∈ w, isBlank d = false) (cs : List Char)
    (hcs : ∀ d, cs.head? = some d → isBlank d = true) : word (w ++ cs) = some (w, cs) := by
  obtain ⟨d, ds, rfl⟩ := List.exists_cons_of_ne_nil hne
  have hpos : ∀ e ∈ d :: ds, (!isBlank e) = true := fun e he => by rw [hw e he]; rfl
  have htake : cs.takeWhile (!isBlank ·) = [] := by
    cases cs with
    | nil => rfl
    | cons e es => exact List.takeWhile_cons_of_neg (by simp [hcs e rfl])
  have hdrop : cs.dropWhile (!isBlank ·) = cs := by
    cases cs with
    | nil => rfl
    | cons e es => exact List.dropWhile_cons_of_neg (by simp [hcs e rfl])
  unfold word
  rw [List.takeWhile_append_of_pos hpos, List.dropWhile_append_of_pos hpos, htake, hdrop,
    List.append_nil]

/-- A name is read to the end of the line. -/
theorem name_of_word (hc : isNameStart c = true) (hw : ∀ d ∈ w, isWordChar d = true) :
    name (c :: w) = some (String.ofList (c :: w), []) := by
  simp only [name, hc, if_true]
  rw [List.takeWhile_eq_self_iff.mpr hw, List.dropWhile_eq_nil_iff.mpr hw]

end Shape

open Statement (Kind)

section
variable {name : String} {c : Char} {w r : List Char}

theorem limitShape_first? (hname : name.toList = c :: w) (hc : isNameStart c = true)
    (hw : ∀ d ∈ w, isWordChar d = true) (hne : r ≠ []) (hr : ∀ d ∈ r, isBlank d = false) :
    Statement.limitShape.first? ("limit ".toList ++ (name.toList ++ (" to ".toList ++ r))) =
      some (.limit name r) := by
  obtain ⟨d, ds, rfl⟩ := List.exists_cons_of_ne_nil hne
  have hword : word (d :: ds) = some (d :: ds, []) := by
    simpa using word_append hne hr [] nofun
  rw [hname, ← String.ofList_toList (s := name), hname]
  refine first?_eq_some.mpr ⟨[], ?_⟩
  refine bind_eq_some.mpr ⟨(), ' ' :: c :: (w ++ (" to ".toList ++ d :: ds)), rfl, ?_⟩
  refine bind_eq_some.mpr ⟨(), _, gap_space (isBlank_of_isNameStart hc) _, ?_⟩
  refine bind_eq_some.mpr ⟨_, _, name_append hc hw (by decide) _, ?_⟩
  refine bind_eq_some.mpr ⟨(), ' ' :: d :: ds, rfl, ?_⟩
  refine bind_eq_some.mpr ⟨(), _, gap_space (hr d List.mem_cons_self) _, ?_⟩
  exact bind_eq_some.mpr ⟨_, _, hword, bind_eq_some.mpr ⟨(), [], rfl, rfl⟩⟩

theorem randomShape_first? (hname : name.toList = c :: w) (hc : isNameStart c = true)
    (hw : ∀ d ∈ w, isWordChar d = true) (hne : r ≠ []) (hr : ∀ d ∈ r, isBlank d = false) :
    Statement.randomShape.first?
        ("pick random from ".toList ++ (r ++ (" into ".toList ++ name.toList))) =
      some (.random r name) := by
  obtain ⟨d, ds, rfl⟩ := List.exists_cons_of_ne_nil hne
  have hword : word (d :: (ds ++ (" into ".toList ++ c :: w))) =
      some (d :: ds, " into ".toList ++ c :: w) :=
    word_append hne hr (" into ".toList ++ c :: w) (by rintro e ⟨⟩; rfl)
  rw [hname, ← String.ofList_toList (s := name), hname]
  refine first?_eq_some.mpr ⟨[], ?_⟩
  refine bind_eq_some.mpr ⟨(), _, rfl, bind_eq_some.mpr ⟨(), _, rfl, ?_⟩⟩
  refine bind_eq_some.mpr ⟨(), _, rfl, ?_⟩
  refine bind_eq_some.mpr ⟨(), ' ' :: d :: (ds ++ (" into ".toList ++ c :: w)), rfl, ?_⟩
  refine bind_eq_some.mpr ⟨(), _, gap_space (hr d List.mem_cons_self) _, ?_⟩
  refine bind_eq_some.mpr ⟨_, _, hword, ?_⟩
  refine bind_eq_some.mpr ⟨_, [], bind_eq_some.mpr ⟨(), ' ' :: c :: w, rfl, ?_⟩, rfl⟩
  refine bind_eq_some.mpr ⟨(), _, gap_space (isBlank_of_isNameStart hc) _, ?_⟩
  exact bind_eq_some.mpr ⟨_, _, name_of_word hc hw, bind_eq_some.mpr ⟨(), [], rfl, rfl⟩⟩

end

/-- A kind that is a group by itself is what its lines are taken for. -/
theorem firstOf?_of_single {k : Kind} {code : List Char} {st : Statement}
    (hsingle : Kind.ofGroup k.group Kind.all = [k]) (h : k.shape.first? code = some st) :
    Kind.firstOf? Kind.all code = some (k, st) := by
  have hfits : k.shape.fits code = true := by
    obtain ⟨r, hr⟩ := first?_eq_some.mp h
    exact Option.isSome_iff_exists.mpr ⟨_, hr⟩
  rw [← Kind.firstOf?_ofGroup fun k' _ hk' => Kind.group_eq_of_fits hk' hfits, hsingle]
  simp [Kind.firstOf?, h]

/-- A name that may be a variable is a word, if no line feed ends it. -/
theorem exists_word_of_allows {s : Session} {name : String} (h : s.table.Allows name)
    (hline : '\n' ∉ name.toList) :
    ∃ c w, name.toList = c :: w ∧ isNameStart c = true ∧ ∀ d ∈ w, isWordChar d = true := by
  obtain ⟨c, w, bs, hword, hc, hw, rfl | rfl⟩ := exists_word_of_isIdentifier h.1
  · exact ⟨c, w, by simpa using hword, hc, hw⟩
  · exact absurd (by simp [hword]) hline

namespace Build
-- Comparing two runs must not evaluate the bound, a power of ten with thousands of digits.
attribute [local irreducible] writable

section
variable {s : Session} {name : String} {line : Int} {a b : Int} {p : Prop}

theorem writable_cases (n : Int) :
    InLimit n ∧ writable n = .ok n ∨ ¬ InLimit n ∧ ∃ f, writable n = .error f := by
  have hlimit : n.natAbs < Nat.pow 10 digitLimit ↔ InLimit n := by rw [InLimit, Nat.pow_eq]
  unfold writable
  split
  · next h => exact .inl ⟨hlimit.mp h, rfl⟩
  · next h => exact .inr ⟨fun hn => h (hlimit.mpr hn), _, rfl⟩

theorem compileLimit_rangeText (h : s.table.Allows name) (line : Int) (a b : Int) :
    AnswersIf (InLimit a ∧ InLimit b) [Instr.clampLow name a, .clampHigh name b]
      (compileLimit name (rangeText a b) line) s := by
  unfold compileLimit
  rcases readRange_rangeText a b with ⟨hab, hread⟩ | ⟨hab, f, hread⟩
  · obtain ⟨t, ht, -, -⟩ := observeVariable_of_allows h .long line
    refine .inl ⟨hab, t, ?_⟩
    rw [hread]
    exact bind_eq_ok.mpr ⟨_, s, rfl, bind_eq_ok.mpr ⟨true, t, ht, rfl⟩⟩
  · refine .inr ⟨hab, f, s, ?_⟩
    rw [hread]
    rfl

theorem compileRandom_rangeText (h : s.table.Allows name) (line : Int) (a b : Int) :
    AnswersIf (InLimit a ∧ InLimit b ∧ InLimit (max a b + 1))
      [Instr.random name (min a b) (max a b + 1)] (compileRandom (rangeText a b) name line) s := by
  unfold compileRandom
  rcases readRange_rangeText a b with ⟨hab, hread⟩ | ⟨hab, f, hread⟩
  · obtain ⟨t, ht, -, -⟩ := observeVariable_of_allows h .long line
    rw [hread]
    rcases writable_cases (max a b + 1) with ⟨hpast, hwrite⟩ | ⟨hpast, f, hwrite⟩
    · refine .inl ⟨⟨hab.1, hab.2, hpast⟩, t, ?_⟩
      refine bind_eq_ok.mpr ⟨_, s, rfl, bind_eq_ok.mpr ⟨true, t, ht, ?_⟩⟩
      exact bind_eq_ok.mpr ⟨_, t, by rw [hwrite]; rfl, rfl⟩
    · refine .inr ⟨fun hall => hpast hall.2.2, f, t, ?_⟩
      refine bind_eq_error.mpr (.inr ⟨_, s, rfl, bind_eq_error.mpr (.inr ⟨true, t, ht, ?_⟩)⟩)
      exact bind_eq_error.mpr (.inl (by rw [hwrite]; rfl))
  · refine .inr ⟨fun hall => hab ⟨hall.1, hall.2.1⟩, f, s, ?_⟩
    rw [hread]
    rfl

theorem dispatch_answers {k : Kind} {code : List Char} {st : Statement} {is : List Instr}
    (hfirst : Kind.firstOf? Kind.all code = some (k, st))
    (h : AnswersIf p is (statement line st) s) :
    AnswersIf p (some (k, is)) (dispatch Kind.all code line) s := by
  rcases h with ⟨hp, t, ht⟩ | ⟨hp, f, t, ht⟩
  · exact .inl ⟨hp, t, by rw [dispatch_of_some hfirst, ht]⟩
  · exact .inr ⟨hp, f, t, by rw [dispatch_of_some hfirst, ht]⟩

end
end Build

/-! ## Running the lines -/

/-- What the variables of a sketch hold. -/
abbrev Store := String → Int

namespace Instr

/-- What the variables may hold after a line, their values being integers. A meaning is given to the
lines `if (x < n) x = n;`, `if (x > n) x = n;` and `x = random(m, n);`, whose last bound is out of
reach. -/
def outcomes : Instr → Store → Set Store
  | clampLow name bound, σ => {if σ name < bound then Function.update σ name bound else σ}
  | clampHigh name bound, σ => {if bound < σ name then Function.update σ name bound else σ}
  | random name low pastHigh, σ => Function.update σ name '' {n | low ≤ n ∧ n < pastHigh}
  | _, _ => ∅

/-- What the variables may hold after one line after the other. -/
def outcomesOf : List Instr → Store → Set Store
  | [], σ => {σ}
  | i :: is, σ => {τ | ∃ ρ ∈ i.outcomes σ, τ ∈ outcomesOf is ρ}

theorem outcomes_clampLow (name : String) (bound : Int) (σ : Store) :
    (clampLow name bound).outcomes σ = {Function.update σ name (max bound (σ name))} := by
  rw [outcomes]
  split
  · next h => rw [max_eq_left h.le]
  · next h => rw [max_eq_right (not_lt.mp h), Function.update_eq_self]

theorem outcomes_clampHigh (name : String) (bound : Int) (σ : Store) :
    (clampHigh name bound).outcomes σ = {Function.update σ name (min bound (σ name))} := by
  rw [outcomes]
  split
  · next h => rw [min_eq_left h.le]
  · next h => rw [min_eq_right (not_lt.mp h), Function.update_eq_self]

/-- The second test sees what the first one has left. -/
theorem outcomesOf_clamp (name : String) (a b : Int) (σ : Store) :
    outcomesOf [.clampLow name a, .clampHigh name b] σ =
      {Function.update σ name (min b (max a (σ name)))} := by
  simp only [outcomesOf, outcomes_clampLow, outcomes_clampHigh, Set.mem_singleton_iff,
    exists_eq_left, Function.update_self, Function.update_idem, Set.ofPred_eq_eq_singleton]

theorem outcomesOf_random (name : String) (low pastHigh : Int) (σ : Store) :
    outcomesOf [.random name low pastHigh] σ =
      Function.update σ name '' {n | low ≤ n ∧ n < pastHigh} := by
  ext τ
  simp [outcomesOf, outcomes]

end Instr

/-- The number of a range that is nearest to `x`, whichever bound comes first. -/
def nearest (a b x : Int) : Int := max (min a b) (min x (max a b))

/-- The line compiles, and what it becomes sets the variable to one of the given values, which may
depend on the value that it has, and leaves the other variables alone. -/
def SetsTo (code : List Char) (line : Int) (s : Session) (name : String)
    (values : Int → Set Int) : Prop :=
  ∃ k is t, Build.dispatch Kind.all code line s = .ok (some (k, is)) t ∧
    ∀ σ, Instr.outcomesOf is σ = Function.update σ name '' values (σ name)

theorem setsTo_iff {code : List Char} {line : Int} {s : Session} {name : String} {p : Prop}
    {values : Int → Set Int} {k : Kind} {is : List Instr}
    (h : Build.AnswersIf p (some (k, is)) (Build.dispatch Kind.all code line) s) :
    SetsTo code line s name values ↔
      p ∧ ∀ σ, Instr.outcomesOf is σ = Function.update σ name '' values (σ name) := by
  constructor
  · rintro ⟨k', is', t', hrun, houtcomes⟩
    rcases h with ⟨hp, t, ht⟩ | ⟨-, f, t, ht⟩
    · cases ht.symm.trans hrun
      exact ⟨hp, houtcomes⟩
    · cases ht.symm.trans hrun
  · rintro ⟨hp, houtcomes⟩
    rcases h with ⟨-, t, ht⟩ | ⟨hno, -⟩
    · exact ⟨k, is, t, ht, houtcomes⟩
    · exact absurd hp hno

/-- A variable is set to the same values in every store if these are the same for every number. -/
theorem forall_update_image_iff (name : String) {values values' : Int → Set Int} :
    (∀ σ : Store, Function.update σ name '' values (σ name) =
      Function.update σ name '' values' (σ name)) ↔ ∀ x, values x = values' x := by
  constructor
  · intro h x
    exact (Set.image_eq_image (Function.update_injective (fun _ => x) name)).mp (h fun _ => x)
  · intro h σ
    rw [h]

section
variable {s : Session} {name : String} {values : Int → Set Int}

theorem limitLine_setsTo_iff (line : Int) (hname : s.table.Allows name)
    (hline : '\n' ∉ name.toList) (a b : Int) :
    SetsTo (limitLine name a b) line s name values ↔
      (InLimit a ∧ InLimit b) ∧ ∀ x, values x = {min b (max a x)} := by
  obtain ⟨c, w, hword, hc, hw⟩ := exists_word_of_allows hname hline
  have hfirst : Kind.firstOf? Kind.all (limitLine name a b) =
      some (.limit, .limit name (rangeText a b)) :=
    firstOf?_of_single (by decide) (limitShape_first? hword hc hw (rangeText_ne_nil a b)
      fun _ => not_blank_of_mem_rangeText)
  rw [setsTo_iff (Build.dispatch_answers hfirst (Build.compileLimit_rangeText hname line a b))]
  refine and_congr_right fun _ => ?_
  rw [← forall_update_image_iff name]
  simp only [Instr.outcomesOf_clamp, Set.image_singleton]
  exact forall_congr' fun σ => eq_comm

theorem randomLine_setsTo_iff (line : Int) (hname : s.table.Allows name)
    (hline : '\n' ∉ name.toList) (a b : Int) :
    SetsTo (randomLine name a b) line s name values ↔
      (InLimit a ∧ InLimit b ∧ InLimit (max a b + 1)) ∧ ∀ x, values x = Set.uIcc a b := by
  obtain ⟨c, w, hword, hc, hw⟩ := exists_word_of_allows hname hline
  have hfirst : Kind.firstOf? Kind.all (randomLine name a b) =
      some (.random, .random (rangeText a b) name) :=
    firstOf?_of_single (by decide) (randomShape_first? hword hc hw (rangeText_ne_nil a b)
      fun _ => not_blank_of_mem_rangeText)
  rw [setsTo_iff (Build.dispatch_answers hfirst (Build.compileRandom_rangeText hname line a b))]
  refine and_congr_right fun _ => ?_
  rw [← forall_update_image_iff name]
  simp only [Instr.outcomesOf_random]
  refine forall_congr' fun σ => ?_
  have hdrawn : {n | min a b ≤ n ∧ n < max a b + 1} = Set.uIcc a b :=
    Set.ext fun x => and_congr_right fun _ => Int.lt_add_one_iff
  rw [hdrawn, eq_comm]

end

/-- **The two readings of a range.** Limiting a variable leaves the number of the range that is
nearest to it exactly if the lower bound comes first. With the upper bound first it leaves the lower
bound, whatever the variable was. Drawing gives exactly the integers of the range, in whichever
order the bounds come. All this holds as far as the bounds, and for drawing the number past the
upper one, do not have too many digits; with too many, the line does not compile. -/
theorem ranges_limited_and_drawn {s : Session} {name : String} (line : Int)
    (hname : s.table.Allows name) (hline : '\n' ∉ name.toList) (a b : Int) :
    (SetsTo (limitLine name a b) line s name (fun x => {nearest a b x}) ↔
        a ≤ b ∧ InLimit a ∧ InLimit b) ∧
      (SetsTo (limitLine name a b) line s name (fun _ => {b}) ↔
        b ≤ a ∧ InLimit a ∧ InLimit b) ∧
      (SetsTo (randomLine name a b) line s name (fun _ => Set.uIcc a b) ↔
        InLimit a ∧ InLimit b ∧ InLimit (max a b + 1)) := by
  refine ⟨?_, ?_, ?_⟩
  · rw [limitLine_setsTo_iff line hname hline, and_comm]
    refine and_congr_left' ⟨fun h => ?_, fun h x => ?_⟩
    · have hupper := Set.singleton_eq_singleton_iff.mp (h a)
      unfold nearest at hupper
      omega
    · rw [Set.singleton_eq_singleton_iff]
      unfold nearest
      omega
  · rw [limitLine_setsTo_iff line hname hline, and_comm]
    refine and_congr_left' ⟨fun h => ?_, fun h x => ?_⟩
    · have hlower := Set.singleton_eq_singleton_iff.mp (h a)
      omega
    · rw [Set.singleton_eq_singleton_iff]
      omega
  · rw [randomLine_setsTo_iff line hname hline]
    exact and_iff_left fun _ => rfl

/-- A range with a negative bound, and the same range the other way round. -/
theorem ranges_limited_and_drawn_level :
    let s := Session.start .uno reservedWords
    s.table.Allows "level" ∧ '\n' ∉ "level".toList ∧
      SetsTo (limitLine "level" (-5) 7) 1 s "level" (fun x => {nearest (-5) 7 x}) ∧
      SetsTo (limitLine "level" 7 (-5)) 1 s "level" (fun _ => {-5}) ∧
      SetsTo (randomLine "level" 7 (-5)) 1 s "level" (fun _ => Set.uIcc 7 (-5)) := by
  intro s
  have hname : s.table.Allows "level" := by decide +kernel
  have hline : '\n' ∉ "level".toList := by decide
  have hlimit : InLimit (-5) ∧ InLimit 7 ∧ InLimit 8 := by decide +kernel
  obtain ⟨hlow, hhigh, hpast⟩ := hlimit
  have hup := ranges_limited_and_drawn 1 hname hline (-5) 7
  have hdown := ranges_limited_and_drawn 1 hname hline 7 (-5)
  exact ⟨hname, hline, hup.1.mpr ⟨by decide, hlow, hhigh⟩, hdown.2.1.mpr ⟨by decide, hhigh, hlow⟩,
    hdown.2.2.mpr ⟨hhigh, hlow, hpast⟩⟩

/-- A variable at 100 is set to 0 by a limit of 255 and 0, between which 100 lies. -/
theorem limit_turned_round :
    let s := Session.start .uno reservedWords
    let is : List Instr := [.clampLow "V" 255, .clampHigh "V" 0]
    s.table.Allows "V" ∧ '\n' ∉ "V".toList ∧
      (∃ t, Build.dispatch Kind.all (limitLine "V" 255 0) 1 s = .ok (some (.limit, is)) t) ∧
      Instr.outcomesOf is (fun _ => 100) = {Function.update (fun _ => 100) "V" 0} ∧
      nearest 255 0 100 = 100 ∧
      ¬ SetsTo (limitLine "V" 255 0) 1 s "V" (fun x => {nearest 255 0 x}) := by
  intro s is
  have hname : s.table.Allows "V" := by decide +kernel
  have hline : '\n' ∉ "V".toList := by decide
  have hlimit : InLimit 255 ∧ InLimit 0 := by decide +kernel
  have hfirst : Kind.firstOf? Kind.all (limitLine "V" 255 0) =
      some (.limit, .limit "V" (rangeText 255 0)) := by decide +kernel
  refine ⟨hname, hline, ?_, Instr.outcomesOf_clamp "V" 255 0 _, by decide, ?_⟩
  · rcases Build.dispatch_answers hfirst (Build.compileLimit_rangeText hname 1 255 0) with
      ⟨-, t, ht⟩ | ⟨hno, -⟩
    · exact ⟨t, ht⟩
    · exact absurd hlimit hno
  · rw [limitLine_setsTo_iff 1 hname hline]
    rintro ⟨-, h⟩
    exact absurd (Set.singleton_eq_singleton_iff.mp (h 100)) (by decide)

end PlainSketch
