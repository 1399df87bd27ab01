import Mathlib.Data.List.TakeWhile
import PlainSketch.Proofs.Spacing

/-!
# How both passes sort a line

Each pass sorts the code of a line in its own order. What one of them makes of a line says what the
other makes of it: a pin line of the second pass is one for the first unless it ends in `do:`, and a
statement that takes a variable as it finds it was a hint on that variable's type for the first,
with one exception: values that begin with the word `pwm`.
-/
namespace PlainSketch
open Text Shape Declaration

/-! ## The code of a line -/

/-- What the passes read of a line: only blanks are left out at its end, and it is one line. -/
structure Line.IsCode (code : List Char) : Prop where
  last : ∀ c, code.getLast? = some c → isBlank c = false
  oneLine : '\n' ∉ code

theorem Line.isCode_of_mem_numbered {source : String} {l : Int × List Char}
    (h : l ∈ Line.numbered (sourceLines source)) : Line.IsCode l.2 := by
  obtain ⟨raw, hraw, he⟩ := Line.mem_numberedFrom h
  rw [he]
  refine ⟨fun c hc => getLast?_trimRight hc, fun hmem => ?_⟩
  exact newline_not_mem_splitLines hraw ((Line.trimmedCode_isInfix raw).subset hmem)

theorem Line.IsCode.of_suffix {code r : List Char} (h : Line.IsCode code) (hr : r <:+ code) :
    Line.IsCode r :=
  ⟨fun c hc => h.last c (getLast?_of_suffix hr hc), fun hmem => h.oneLine (hr.subset hmem)⟩

namespace Shape

/-- After a gap, text to the end of the line is always there. -/
theorem leaveGap_textToEnd {cs : List Char} (h : Line.IsCode cs) (hne : cs ≠ []) :
    leaveGap textToEnd lineEnd cs = some ((trimLeft cs, ()), []) := by
  induction cs with
  | nil => exact absurd rfl hne
  | cons c cs ih =>
    rw [leaveGap]
    split
    · next hc =>
      have hcs : cs ≠ [] := by
        rintro rfl
        rw [h.last c rfl] at hc
        cases hc
      rw [ih (h.of_suffix (List.suffix_cons c cs)) hcs, trimLeft_cons_blank hc]
      rfl
    · next hc =>
      have htight : trimRight cs = cs :=
        trimRight_eq_self (h.of_suffix (List.suffix_cons c cs)).last
      rw [textToEnd, htight, if_neg (by simpa using h.oneLine),
        trimLeft_eq_self (by simpa using hc)]

/-- A value is all there is after a gap. -/
theorem value_eq {cs : List Char} (h : Line.IsCode cs) :
    value cs = (gap cs).map fun x => (x.2, []) := by
  cases cs with
  | nil => rfl
  | cons c cs =>
    by_cases hc : isBlank c = true
    · have hne : cs ≠ [] := by
        rintro rfl
        rw [h.last c rfl] at hc
        cases hc
      have hleave := leaveGap_textToEnd (h.of_suffix (List.suffix_cons c cs)) hne
      simp only [gap, hc, if_true, Option.map_some]
      refine bind_eq_some.mpr ⟨(trimLeft cs, ()), [], ?_, rfl⟩
      simp only [gapThen, hc, if_true, hleave]
    · simp [value, gapThen, gap, hc, bind, StateT.bind]

theorem value_of_gap {cs : List Char} (h : Line.IsCode cs) (hgap : gap.fits cs = true) :
    ∃ v, value cs = some (v, []) := by
  obtain ⟨⟨_, r⟩, hr⟩ := Option.isSome_iff_exists.mp hgap
  exact ⟨r, by rw [value_eq h, hr]; rfl⟩

/-- A value has a gap in front of it. -/
theorem gap_of_value {cs r v : List Char} (h : value cs = some (v, r)) : gap.fits cs = true := by
  obtain ⟨x, r', hx, -⟩ := bind_eq_some.mp h
  cases cs with
  | nil => cases hx
  | cons c cs =>
    simp only [gapThen] at hx
    split at hx
    · next hc => simp [fits, gap, hc]
    · cases hx

end Shape

/-! ## Pin lines -/

/-- A line about a pin, for the first pass. -/
def OutlineLine.isPin : OutlineLine → Bool
  | .pin _ | .pinAssignment .. => true
  | _ => false

section
variable {code : List Char}

theorem isPinLine_of_block (h : BlockLine.ofCode code = .pin) :
    isPinLine code = true ∧ isWord "setup:" code = false ∧ isWord "loop:" code = false ∧
      functionShape.first? code = none := by
  have hsort := BlockLine.isSort_ofCode code
  rw [h] at hsort
  cases hsort with
  | pin hsetup hloop hfunction hpin => exact ⟨hpin, hsetup, hloop, hfunction⟩

theorem pinAssignment_of_gap (hcode : Line.IsCode code)
    (h : (pinAssignmentHead >>= fun _ => gap).fits code = true) :
    ∃ n v, pinAssignmentShape.first? code = some (n, v) := by
  obtain ⟨⟨_, r⟩, hr⟩ := Option.isSome_iff_exists.mp h
  obtain ⟨n, rest, hhead, hgap⟩ := bind_eq_some.mp hr
  have hleaves : Leaves pinAssignmentHead :=
    (keyword_leaves _).bind fun _ => gap_leaves.bind fun _ => name_leaves.bind fun _ =>
      (nextKeyword_leaves _).bind fun _ => (nextKeyword_leaves _).bind fun _ => leaves_pure _
  have hfits : gap.fits rest = true := Option.isSome_iff_exists.mpr ⟨_, hgap⟩
  obtain ⟨v, hv⟩ := value_of_gap (hcode.of_suffix (hleaves _ _ _ hhead)) hfits
  refine ⟨n, v, ?_⟩
  have hshape : pinAssignmentShape code = some ((n, v), []) :=
    bind_eq_some.mpr ⟨n, rest, hhead, bind_eq_some.mpr ⟨v, [], hv, rfl⟩⟩
  rw [first?, hshape]
  rfl

/-- What the second pass leaves to the first as a pin line is one for the first, unless it ends in
`do:`; then the first pass leaves it to the second. -/
theorem outline_of_pin (hcode : Line.IsCode code) (h : BlockLine.ofCode code = .pin) :
    if endsWithWord "do:" code then OutlineLine.ofCode code = .neutral
    else (OutlineLine.ofCode code).isPin = true := by
  obtain ⟨hpin, hsetup, hloop, hfunction⟩ := isPinLine_of_block h
  have hbegins := beginsWith_of_isPinLine hpin
  have hend : isWord "end" code = false := hbegins.not_isWord (by decide) (by decide)
  have hotherwise := hbegins.not_isOtherwise (by decide) (by decide)
  have hopener : Opener.ofCode? code = none := by
    cases ho : Opener.ofCode? code with
    | none => rfl
    | some o => exact (hbegins.not_both (Opener.begins_of_ofCode? ho) (by decide)).elim
  unfold OutlineLine.ofCode
  rw [hsetup, hloop, hend, hotherwise, hopener, hfunction]
  simp only [Bool.or_self, Bool.false_eq_true, if_false, Option.isSome_none]
  split
  · rfl
  split
  · rfl
  · next hword =>
    have hgap : (pinAssignmentHead >>= fun _ => gap).fits code = true := by
      simpa [isPinLine, hword] using hpin
    obtain ⟨n, v, hshape⟩ := pinAssignment_of_gap hcode hgap
    rw [hshape]
    rfl

/-- An assignment to a pin has a gap in front of the value. -/
theorem gap_of_pinAssignment {x : String × List Char}
    (h : pinAssignmentShape.first? code = some x) :
    (pinAssignmentHead >>= fun _ => gap).fits code = true := by
  obtain ⟨⟨y, r⟩, hy, -⟩ := Option.map_eq_some_iff.mp h
  obtain ⟨m, rest, hhead, hrest⟩ := bind_eq_some.mp hy
  obtain ⟨w, r', hvalue, -⟩ := bind_eq_some.mp hrest
  obtain ⟨z, hgap⟩ := Option.isSome_iff_exists.mp (gap_of_value hvalue)
  exact Option.isSome_iff_exists.mpr ⟨z, bind_eq_some.mpr ⟨m, rest, hhead, hgap⟩⟩

/-- A pin line of the first pass is one of the second. -/
theorem block_of_outline_pin (h : (OutlineLine.ofCode code).isPin = true) :
    BlockLine.ofCode code = .pin := by
  -- both passes ask for functions first, and for the words of the two structural blocks
  have block : isWord "setup:" code = false → isWord "loop:" code = false →
      functionShape.first? code = none → isPinLine code = true → BlockLine.ofCode code = .pin := by
    intro hsetup hloop hfunction hpin
    simp only [BlockLine.ofCode, hsetup, hloop, hfunction, hpin, Bool.false_eq_true, if_false,
      if_true]
  have hsort := OutlineLine.isSort_ofCode code
  generalize OutlineLine.ofCode code = c at hsort h
  cases hsort with
  | pin hsetup hloop hfunction hword =>
    exact block hsetup hloop hfunction ((Bool.or_eq_true _ _).mpr (.inl hword))
  | pinAssignment hsetup hloop hfunction hshape =>
    have hgap := gap_of_pinAssignment hshape
    exact block hsetup hloop hfunction ((Bool.or_eq_true _ _).mpr (.inr hgap))
  | body | control | closer | neutral | function | writes | other => cases h

end

/-! ## Free text up to its last end -/

namespace Shape
variable {α : Type} {tail : Shape α}

theorem first?_eq_some {s : Shape α} {cs : List Char} {a : α} :
    s.first? cs = some a ↔ ∃ r, s cs = some (a, r) := by
  simp [first?, Option.map_eq_some_iff]

/-- A gap and free text take at least two characters, a blank being the first. -/
theorem textBefore_inside {cs r : List Char} {x : List Char × α}
    (h : textBefore tail cs = some (x, r)) :
    ∃ b c ds v, cs = b :: c :: ds ∧ isBlank b = true ∧ v <:+ ds ∧ tail v = some (x.2, r) := by
  obtain ⟨b, _, es, rfl, hb, ⟨u, rfl⟩, hread⟩ := readsUpTo_textUntil.of_gapThen h
  obtain ⟨v, rfl, hv⟩ := hread.exists_tail
  obtain ⟨c, t, ht⟩ := List.exists_cons_of_ne_nil (l := u ++ x.1) (by simp [hread.ne_nil])
  refine ⟨b, c, t ++ v, v, ?_, hb, List.suffix_append t v, hv⟩
  rw [← List.append_assoc, ht, List.cons_append]

/-- Wherever `tail` fits further on in the line, there is text up to the last such place. -/
theorem longTextUntil_fits {c : Char} {cs v : List Char} (hline : '\n' ∉ c :: cs) (hv : v <:+ cs)
    (ht : tail.fits v = true) : (longTextUntil tail).fits (c :: cs) = true := by
  induction cs generalizing c with
  | nil =>
    rw [List.suffix_nil.mp hv] at ht
    have hc : c ≠ '\n' := by simpa [eq_comm] using hline
    simpa [fits, longTextUntil, hc] using ht
  | cons d ds ih =>
    obtain ⟨hc, hds⟩ := not_or.mp (mt List.mem_cons.mpr hline)
    have hrest : (longTextUntil tail).fits (d :: ds) = true ∨ tail.fits (d :: ds) = true := by
      rcases List.suffix_cons_iff.mp hv with rfl | hv
      · exact .inr ht
      · exact .inl (ih hds hv)
    rw [fits, longTextUntil, if_neg (by simpa using Ne.symm hc)]
    simpa [fits] using hrest

theorem leaveGap_fits {c : Char} {cs v : List Char} (hline : '\n' ∉ c :: cs) (hv : v <:+ cs)
    (ht : tail.fits v = true) : (leaveGap (longTextUntil tail) tail).fits (c :: cs) = true := by
  induction cs generalizing c with
  | nil =>
    have hlong := longTextUntil_fits hline hv ht
    rw [List.suffix_nil.mp hv] at ht
    have hc : c ≠ '\n' := by simpa [eq_comm] using hline
    rw [fits, leaveGap]
    split
    · simpa [fits, leaveGap, hc] using ht
    · exact hlong
  | cons d ds ih =>
    have hlong := longTextUntil_fits hline hv ht
    obtain ⟨hc, hds⟩ := not_or.mp (mt List.mem_cons.mpr hline)
    have hrest : (leaveGap (longTextUntil tail) tail).fits (d :: ds) = true ∨
        tail.fits (d :: ds) = true := by
      rcases List.suffix_cons_iff.mp hv with rfl | hv
      · exact .inr ht
      · exact .inl (ih hds hv)
    rw [fits, leaveGap]
    split
    · rw [if_neg (by simpa using Ne.symm hc)]
      simpa [fits] using hrest
    · exact hlong

theorem longTextBefore_fits {b c : Char} {cs v : List Char} (hb : isBlank b = true)
    (hline : '\n' ∉ c :: cs) (hv : v <:+ cs) (ht : tail.fits v = true) :
    ∃ x r, longTextBefore tail (b :: c :: cs) = some (x, r) := by
  obtain ⟨⟨x, r⟩, hx⟩ := Option.isSome_iff_exists.mp (leaveGap_fits hline hv ht)
  exact ⟨x, r, by simp only [longTextBefore, gapThen, hb, if_true, hx]⟩

end Shape

/-! ## The name at the end of a line -/

/-- A class of characters that holds none of the blanks. -/
theorem Text.isBlank_of_class {p : Char → Bool}
    (hp : ∀ n ∈ List.range' 9 5 ++ List.range' 28 5 ++ [0x85, 0xA0, 0x1680] ++
      List.range' 0x2000 11 ++ [0x2028, 0x2029, 0x202F, 0x205F, 0x3000],
      p (Char.ofNat n) = false) {c : Char} (h : p c = true) : isBlank c = false := by
  rw [Bool.eq_false_iff]
  intro hb
  have hmem : c.toNat ∈ List.range' 9 5 ++ List.range' 28 5 ++ [0x85, 0xA0, 0x1680] ++
      List.range' 0x2000 11 ++ [0x2028, 0x2029, 0x202F, 0x205F, 0x3000] := by
    simpa [isBlank, or_assoc, List.mem_range'_1, Nat.lt_succ_iff] using hb
  have hnone := hp _ hmem
  rw [Char.ofNat_toNat, h] at hnone
  cases hnone

theorem Text.isBlank_of_isWordChar {c : Char} (h : isWordChar c = true) : isBlank c = false :=
  isBlank_of_class (by decide +kernel) h

theorem Text.isBlank_of_isDigit {c : Char} (h : isDigit c = true) : isBlank c = false :=
  isBlank_of_class (by decide +kernel) h

theorem Text.class_of_isBlank {p : Char → Bool} (hp : ∀ c, p c = true → isBlank c = false)
    {c : Char} (hc : isBlank c = true) : p c = false := by
  rw [Bool.eq_false_iff]
  intro h
  rw [hp c h] at hc
  cases hc

/-- The last word of a text, its words being separated by blanks. -/
def Text.lastWord (cs : List Char) : List Char :=
  ((cs.reverse.dropWhile isBlank).takeWhile (!isBlank ·)).reverse

theorem Text.lastWord_eq {u bs w e : List Char} {b : Char} (hb : isBlank b = true)
    (hbs : ∀ c ∈ bs, isBlank c = true) (hw : ∀ c ∈ w, isBlank c = false) (hne : w ≠ [])
    (he : allBlank e = true) : lastWord (u ++ b :: (bs ++ (w ++ e))) = w := by
  have hrev : (u ++ b :: (bs ++ (w ++ e))).reverse =
      e.reverse ++ (w.reverse ++ ((b :: bs).reverse ++ u.reverse)) := by simp
  obtain ⟨d, ds, hd⟩ := List.exists_cons_of_ne_nil (show (b :: bs).reverse ≠ [] by simp)
  have hblank : isBlank d = true := by
    have hmem : d ∈ b :: bs := by rw [← List.mem_reverse, hd]; exact List.mem_cons_self
    rcases List.mem_cons.mp hmem with rfl | hmem
    · exact hb
    · exact hbs d hmem
  obtain ⟨x, xs, hx⟩ := List.exists_cons_of_ne_nil (show w.reverse ≠ [] by simpa using hne)
  have hxb : isBlank x = false := hw x (by rw [← List.mem_reverse, hx]; exact List.mem_cons_self)
  have hleft : (e.reverse ++ (w.reverse ++ ((b :: bs).reverse ++ u.reverse))).dropWhile isBlank =
      w.reverse ++ (d :: ds ++ u.reverse) := by
    rw [List.dropWhile_append_of_pos (by simpa [allBlank] using he), hd, hx, List.cons_append,
      List.dropWhile_cons_of_neg (by simp [hxb])]
  rw [lastWord, hrev, hleft, List.takeWhile_append_of_pos (by simpa using hw),
    List.cons_append, List.takeWhile_cons_of_neg (by simp [hblank]), List.append_nil,
    List.reverse_reverse]

namespace Statement
open OutlineLine (readClock readInto)

/-- The name after `into` is the last word of the line. -/
theorem lastWord_of_intoName {v cs r : List Char} {n : String} (h : intoName v = some (n, r))
    (hv : v <:+ cs) : lastWord cs = n.toList := by
  obtain ⟨_, v₂, hinto, hlast⟩ := bind_eq_some.mp h
  obtain ⟨_, v₃, hgap, hname⟩ := bind_eq_some.mp hlast
  obtain ⟨m, v₄, hname, hrest⟩ := bind_eq_some.mp hname
  obtain ⟨_, v₅, hend, hpure⟩ := bind_eq_some.mp hrest
  cases hpure
  obtain ⟨u, hu⟩ := (nextKeyword_leaves _ _ _ _ hinto).trans hv
  obtain ⟨b, bs, rfl, hb, rfl⟩ := gap_eq_some hgap
  obtain ⟨c, ds, hbs, hc, hm, rfl⟩ := name_eq_some hname
  have hblank : allBlank (ds.dropWhile isWordChar) = true := (lineEnd_eq_some hend).1
  have hsplit : cs = u ++ b :: (bs.takeWhile isBlank ++
      ((c :: ds.takeWhile isWordChar) ++ ds.dropWhile isWordChar)) := by
    rw [List.cons_append, List.takeWhile_append_dropWhile, ← hbs, trimLeft,
      List.takeWhile_append_dropWhile, hu]
  rw [hsplit, hm]
  refine lastWord_eq hb (fun d hd => List.mem_takeWhile_imp hd) ?_ (by simp) hblank
  intro d hd
  rcases List.mem_cons.mp hd with rfl | hd
  · exact isBlank_of_isNameStart hc
  · exact isBlank_of_isWordChar (List.mem_takeWhile_imp hd)

/-- A reading whose name is found at the first `into` that fits has the same name at the last. -/
theorem longTextBefore_intoName {cs v r : List Char} {b c : Char} {n : String}
    (hcode : Line.IsCode (b :: c :: cs)) (hb : isBlank b = true) (hv : v <:+ cs)
    (h : intoName v = some (n, r)) :
    ∃ p r', longTextBefore intoName (b :: c :: cs) = some ((p, n), r') := by
  have hline := (hcode.of_suffix (List.suffix_cons b _)).oneLine
  have hfits : intoName.fits v = true := Option.isSome_iff_exists.mpr ⟨_, h⟩
  obtain ⟨⟨p, m⟩, r', hx⟩ := longTextBefore_fits hb hline hv hfits
  obtain ⟨w, hw, hread⟩ := readsUpTo_longTextUntil.exists_suffix hx
  have hv' : v <:+ b :: c :: cs := hv.trans ⟨[b, c], rfl⟩
  have hsame := (lastWord_of_intoName h hv').symm.trans (lastWord_of_intoName hread hw)
  rw [String.toList_inj.mp hsame]
  exact ⟨p, r', hx⟩

end Statement

/-! ## Hints on types -/

/-- The variable that a statement takes as it finds it, and the type that it has as a new one. -/
def Statement.taken? : Statement → Option (String × ValueType)
  | .readAnalog _ name | .readDigital _ name => some (name, .int)
  | .readTime name | .readMicros name => some (name, .unsignedLong)
  | .assign name value => some (name, .ofText value)
  | _ => none

theorem outline_of_command {code : List Char} (h : BlockLine.ofCode code = .command) :
    OutlineLine.ofCode code = OutlineLine.hint code := by
  have hsort := BlockLine.isSort_ofCode code
  rw [h] at hsort
  cases hsort with
  | command hsetup hloop hfunction hpin hotherwise hend hdo =>
    obtain ⟨hword, hhead⟩ : pinWord.fits code = false ∧
        (pinAssignmentHead >>= fun _ => gap).fits code = false := by simpa [isPinLine] using hpin
    have hassign : pinAssignmentShape.first? code = none := by
      cases hf : pinAssignmentShape.first? code with
      | none => rfl
      | some p =>
        rw [gap_of_pinAssignment hf] at hhead
        cases hhead
    simp [OutlineLine.ofCode, hsetup, hloop, hend, hotherwise, hdo, hfunction, hword, hassign]

namespace Statement
open OutlineLine (readClock readInto hint pwmWord)

/-- Shapes of statements that take no variable as they find it. -/
theorem yields_taken?_eq_none :
    ∀ s ∈ [pinModeShape, digitalWriteShape, toggleShape, pwmWriteShape] ++
        ([waitShape, serialBeginShape, printTextShape, printTextValueShape, printValueShape] ++
          [changeShape, mapShape, limitShape, randomShape, randomSeedShape, toneShape, noToneShape,
            callShape]), Yields (fun st => st.taken? = none) s := by
  simp only [List.cons_append, List.nil_append, List.forall_mem_cons]
  refine ⟨?_, ?_, ?_, ?_, ?_, ?_, ?_, ?_, ?_, ?_, ?_, ?_, ?_, ?_, ?_, ?_, ?_, by simp⟩ <;>
  · repeat refine yields_bind fun _ => ?_
    exact yields_pure rfl

variable {code : List Char} {st : Statement} {n : String} {type : ValueType}

/-- A statement that takes a variable as it finds it was read by one of five shapes. A pin is read
only if the line is none of the readings of the clock. -/
theorem shape_of_taken? (h : ofCode? code = some st) (ht : st.taken? ≠ none) :
    (readAnalogShape.first? code = some st ∨ readTimeShape.first? code = some st ∨
      readMicrosShape.first? code = some st) ∨
    (readTimeShape.first? code = none ∧ readMicrosShape.first? code = none ∧
      readDigitalShape.first? code = some st) ∨ assignShape.first? code = some st := by
  have skip : ∀ {ss : List (Shape Statement)}, (∀ s ∈ ss, Yields (fun st => st.taken? = none) s) →
      firstOf? ss code ≠ some st := fun hss hs => ht (firstOf?_yields hss hs)
  have hnone := yields_taken?_eq_none
  -- The shapes that can take a variable stand together but for the assignment.
  have hsplit : shapes = [pinModeShape, digitalWriteShape, toggleShape, pwmWriteShape] ++
      ([readAnalogShape, readTimeShape, readMicrosShape, readDigitalShape] ++
        ([waitShape, serialBeginShape, printTextShape, printTextValueShape, printValueShape] ++
          ([assignShape] ++ [changeShape, mapShape, limitShape, randomShape, randomSeedShape,
            toneShape, noToneShape, callShape]))) := rfl
  simp only [ofCode?, firstOf?, hsplit, List.findSome?_append, Option.or_eq_some_iff] at h
  rcases h with h | ⟨-, h | ⟨-, h | ⟨-, h | ⟨-, h⟩⟩⟩⟩
  · exact absurd h (skip fun s hs => hnone s (List.mem_append_left _ hs))
  · simp only [List.findSome?_cons, List.findSome?_nil] at h
    split at h
    · next ha =>
      cases h
      exact .inl (.inl ha)
    split at h
    · next hb =>
      cases h
      exact .inl (.inr (.inl hb))
    next htime =>
    split at h
    · next hc =>
      cases h
      exact .inl (.inr (.inr hc))
    next hmicros =>
    split at h
    · next hd =>
      cases h
      exact .inr (.inl ⟨htime, hmicros, hd⟩)
    · cases h
  · exact absurd h (skip fun s hs => hnone s (List.mem_append_right _ (List.mem_append_left _ hs)))
  · exact .inr (.inr (by simpa using h))
  · exact absurd h (skip fun s hs => hnone s (List.mem_append_right _ (List.mem_append_right _ hs)))

/-- No text goes on with one keyword after a gap, and with another. -/
theorem nextKeyword_eq_none {v w : String} {cs : List Char} (hv : (nextKeyword v).fits cs = true)
    (hascii : isAscii v.toList = true ∧ isAscii w.toList = true) (h : apart [v] [w] = true) :
    nextKeyword w cs = none := by
  cases hw : nextKeyword w cs with
  | none => rfl
  | some x =>
    obtain ⟨y, hy⟩ := Option.isSome_iff_exists.mp hv
    obtain ⟨_, r, hgap, hkey⟩ := bind_eq_some.mp hy
    obtain ⟨_, r', hgap', hkey'⟩ := bind_eq_some.mp hw
    rw [hgap] at hgap'
    cases hgap'
    have hbegins : BeginsWith [v] r := ⟨v, by simp, keyword_begins hascii.1 _ _ _ hkey⟩
    have hbegins' : BeginsWith [w] r := ⟨w, by simp, keyword_begins hascii.2 _ _ _ hkey'⟩
    exact (hbegins.not_both hbegins' h).elim

/-- A reading of the clock in the first pass. -/
theorem readClock_eq_some {r₁ r₂ r₃ : List Char} (hread : keyword "read" code = some ((), r₁))
    (hclock : either (nextKeyword "time") (nextKeyword "micros") r₁ = some ((), r₂))
    (hname : intoName r₂ = some (n, r₃)) : readClock.first? code = some n := by
  refine first?_eq_some.mpr ⟨r₃, ?_⟩
  exact bind_eq_some.mpr ⟨_, _, hread, bind_eq_some.mpr ⟨_, _, hclock, hname⟩⟩

theorem readClock_of_readTime (h : readTimeShape.first? code = some st) :
    ∃ n, st = .readTime n ∧ readClock.first? code = some n := by
  obtain ⟨r, hr⟩ := first?_eq_some.mp h
  obtain ⟨_, r₁, hread, hr⟩ := bind_eq_some.mp hr
  obtain ⟨_, r₂, htime, hr⟩ := bind_eq_some.mp hr
  obtain ⟨n, r₃, hname, hr⟩ := bind_eq_some.mp hr
  cases hr
  exact ⟨n, rfl, readClock_eq_some hread (by rw [either, htime]; rfl) hname⟩

theorem readClock_of_readMicros (h : readMicrosShape.first? code = some st) :
    ∃ n, st = .readMicros n ∧ readClock.first? code = some n := by
  obtain ⟨r, hr⟩ := first?_eq_some.mp h
  obtain ⟨_, r₁, hread, hr⟩ := bind_eq_some.mp hr
  obtain ⟨_, r₂, hmicros, hr⟩ := bind_eq_some.mp hr
  obtain ⟨n, r₃, hname, hr⟩ := bind_eq_some.mp hr
  cases hr
  have htime : nextKeyword "time" r₁ = none :=
    nextKeyword_eq_none (v := "micros") (Option.isSome_iff_exists.mpr ⟨_, hmicros⟩) (by decide)
      (by decide)
  exact ⟨n, rfl, readClock_eq_some hread (by rw [either, htime, hmicros]; rfl) hname⟩

theorem readClock_eq_none (htime : readTimeShape.first? code = none)
    (hmicros : readMicrosShape.first? code = none) : readClock.first? code = none := by
  cases h : readClock.first? code with
  | none => rfl
  | some n =>
    obtain ⟨r, hr⟩ := first?_eq_some.mp h
    obtain ⟨_, r₁, hread, hr⟩ := bind_eq_some.mp hr
    obtain ⟨_, r₂, hclock, hname⟩ := bind_eq_some.mp hr
    rcases (Option.orElse_eq_some _ _ _).mp hclock with hk | ⟨-, hk⟩
    · have hfirst : readTimeShape.first? code = some (.readTime n) := first?_eq_some.mpr ⟨r,
        bind_eq_some.mpr ⟨_, _, hread, bind_eq_some.mpr ⟨_, _, hk,
          bind_eq_some.mpr ⟨_, _, hname, rfl⟩⟩⟩⟩
      rw [htime] at hfirst
      cases hfirst
    · have hfirst : readMicrosShape.first? code = some (.readMicros n) := first?_eq_some.mpr ⟨r,
        bind_eq_some.mpr ⟨_, _, hread, bind_eq_some.mpr ⟨_, _, hk,
          bind_eq_some.mpr ⟨_, _, hname, rfl⟩⟩⟩⟩
      rw [hmicros] at hfirst
      cases hfirst

theorem readInto_eq_some {r₁ r₂ p : List Char} (hread : keyword "read" code = some ((), r₁))
    (hname : longTextBefore intoName r₁ = some ((p, n), r₂)) : readInto.first? code = some n :=
  first?_eq_some.mpr ⟨r₂, bind_eq_some.mpr ⟨_, _, hread, bind_eq_some.mpr ⟨_, _, hname, rfl⟩⟩⟩

/-- A keyword that is not empty takes at least one character. -/
theorem inside_of_nextKeyword {w : String} (hw : w.toList ≠ []) {cs r : List Char}
    (h : nextKeyword w cs = some ((), r)) :
    ∃ b c ds, cs = b :: c :: ds ∧ isBlank b = true ∧ r <:+ ds := by
  obtain ⟨_, r', hgap, hkey⟩ := bind_eq_some.mp h
  obtain ⟨r'', hdrop, he⟩ := Option.map_eq_some_iff.mp hkey
  cases he
  obtain ⟨b, ds, rfl, hb, rfl⟩ := gap_eq_some hgap
  obtain ⟨t, hspells, ht⟩ := dropKeyword_eq_some.mp hdrop
  obtain ⟨u, hu⟩ : trimLeft ds <:+ ds := List.dropWhile_suffix _
  have hne : t ≠ [] := by
    rintro rfl
    exact hw (List.forall₂_nil_right_iff.mp hspells)
  obtain ⟨c, v, hv⟩ := List.exists_cons_of_ne_nil (l := u ++ t) (by simp [hne])
  refine ⟨b, c, v ++ r, ?_, hb, List.suffix_append v r⟩
  rw [← hu, ← ht, ← List.append_assoc, hv, List.cons_append]

theorem hint_of_readAnalog (hcode : Line.IsCode code) (h : readAnalogShape.first? code = some st) :
    ∃ p n, st = .readAnalog p n ∧ hint code = .writes n .int := by
  obtain ⟨r, hr⟩ := first?_eq_some.mp h
  obtain ⟨_, r₁, hread, hr⟩ := bind_eq_some.mp hr
  obtain ⟨_, r₂, hanalog, hr⟩ := bind_eq_some.mp hr
  obtain ⟨⟨p, n⟩, r₃, htext, hr⟩ := bind_eq_some.mp hr
  cases hr
  have hother : ∀ w, isAscii w.toList = true → apart ["analog"] [w] = true →
      nextKeyword w r₁ = none := fun w hw hap =>
    nextKeyword_eq_none (v := "analog") (Option.isSome_iff_exists.mpr ⟨_, hanalog⟩)
      ⟨by decide, hw⟩ hap
  have hclock : readClock.first? code = none := by
    cases hc : readClock.first? code with
    | none => rfl
    | some m =>
      obtain ⟨r, hr⟩ := first?_eq_some.mp hc
      obtain ⟨_, r', hread', hr⟩ := bind_eq_some.mp hr
      rw [hread] at hread'
      cases hread'
      obtain ⟨_, r', heither, -⟩ := bind_eq_some.mp hr
      rw [either, hother "time" (by decide) (by decide), hother "micros" (by decide) (by decide)]
        at heither
      cases heither
  obtain ⟨b, c, ds, rfl, hb, hds⟩ := inside_of_nextKeyword (by decide) hanalog
  obtain ⟨v, hv, hname⟩ := readsUpTo_textUntil.exists_suffix htext
  have hcode₁ := hcode.of_suffix (keyword_leaves _ _ _ _ hread)
  obtain ⟨p', r', hlong⟩ := longTextBefore_intoName hcode₁ hb (hv.trans hds) hname
  refine ⟨p, n, rfl, ?_⟩
  rw [hint, hclock, readInto_eq_some hread hlong]

theorem hint_of_readDigital (hcode : Line.IsCode code) (hclock : readClock.first? code = none)
    (h : readDigitalShape.first? code = some st) :
    ∃ p n, st = .readDigital p n ∧ hint code = .writes n .int := by
  obtain ⟨r, hr⟩ := first?_eq_some.mp h
  obtain ⟨_, r₁, hread, hr⟩ := bind_eq_some.mp hr
  obtain ⟨⟨p, n⟩, r₂, htext, hr⟩ := bind_eq_some.mp hr
  cases hr
  obtain ⟨b, c, ds, v, rfl, hb, hv, hname⟩ := textBefore_inside htext
  have hcode₁ := hcode.of_suffix (keyword_leaves _ _ _ _ hread)
  obtain ⟨p', r', hlong⟩ := longTextBefore_intoName hcode₁ hb hv hname
  refine ⟨p, n, rfl, ?_⟩
  rw [hint, hclock, readInto_eq_some hread hlong]

theorem hint_of_assign (h : assignShape.first? code = some st) :
    ∃ n v, st = .assign n v ∧
      hint code = if pwmWord.fits v then .other else .writes n (ValueType.ofText v) := by
  obtain ⟨r, hr⟩ := first?_eq_some.mp h
  obtain ⟨_, r₁, hset, hr⟩ := bind_eq_some.mp hr
  obtain ⟨_, r₂, hgap, hr⟩ := bind_eq_some.mp hr
  obtain ⟨n, r₃, hname, hr⟩ := bind_eq_some.mp hr
  obtain ⟨_, r₄, hto, hr⟩ := bind_eq_some.mp hr
  obtain ⟨v, r₅, hvalue, hr⟩ := bind_eq_some.mp hr
  cases hr
  have hbegins : BeginsWith ["set"] code :=
    ⟨"set", by simp, keyword_begins (by decide) _ _ _ hset⟩
  have hread : ∀ {α : Type} {s : Shape α}, Begins "read" s → s.first? code = none := by
    intro α s hs
    cases hf : s.first? code with
    | none => rfl
    | some a =>
      have hbegins' : BeginsWith ["read"] code := ⟨"read", by simp, hs.first? hf⟩
      exact (hbegins.not_both hbegins' (by decide)).elim
  have hclock : readClock.first? code = none := hread (keyword_begins (by decide)).bind
  have hinto : readInto.first? code = none := hread (keyword_begins (by decide)).bind
  have hassign : OutlineLine.set.first? code = some (n, v) := by
    refine first?_eq_some.mpr ⟨r, bind_eq_some.mpr ⟨_, _, hset, bind_eq_some.mpr ⟨_, _, hgap, ?_⟩⟩⟩
    refine bind_eq_some.mpr ⟨_, _, hname, bind_eq_some.mpr ⟨_, _, hto, ?_⟩⟩
    exact bind_eq_some.mpr ⟨_, _, hvalue, rfl⟩
  refine ⟨n, v, rfl, ?_⟩
  rw [hint, hclock, hinto, hassign]

/-- The first pass takes the same variable from the line at the same type, unless the line assigns a
value that begins with the word `pwm`. -/
theorem hint_of_taken? (hcode : Line.IsCode code) (h : ofCode? code = some st)
    (ht : st.taken? = some (n, type)) :
    hint code = .writes n type ∨ ∃ v, st = .assign n v ∧ pwmWord.fits v = true := by
  rcases shape_of_taken? h (by rw [ht]; simp) with (h | h | h) | ⟨htime, hmicros, h⟩ | h
  · obtain ⟨p, m, rfl, hhint⟩ := hint_of_readAnalog hcode h
    cases ht
    exact .inl hhint
  · obtain ⟨m, rfl, hclock⟩ := readClock_of_readTime h
    cases ht
    exact .inl (by rw [hint, hclock])
  · obtain ⟨m, rfl, hclock⟩ := readClock_of_readMicros h
    cases ht
    exact .inl (by rw [hint, hclock])
  · obtain ⟨p, m, rfl, hhint⟩ := hint_of_readDigital hcode (readClock_eq_none htime hmicros) h
    cases ht
    exact .inl hhint
  · obtain ⟨m, v, rfl, hhint⟩ := hint_of_assign h
    cases ht
    cases hpwm : pwmWord.fits v with
    | true => exact .inr ⟨v, rfl, hpwm⟩
    | false =>
      rw [hpwm] at hhint
      exact .inl hhint

end Statement

theorem Text.trim_cons {c : Char} (hc : isBlank c = false) (cs : List Char) :
    trim (c :: cs) = c :: trimRight cs := by
  rw [trim, trimLeft, List.dropWhile_cons_of_neg (by simp [hc]), trimRight]
  split
  · next hnil => simp [hnil, hc]
  · next d ds hds => rw [hds]

theorem Text.eq_of_toLower_eq_p {c : Char} (h : c.toLower = 'p') : c = 'p' ∨ c = 'P' := by
  unfold Char.toLower at h
  split at h
  · next hc =>
    have hle : c.val.toNat ≤ 90 := UInt32.le_iff_toNat_le.mp hc.2
    have hv : (c.val + 32).toNat = 112 := congrArg (fun d => d.val.toNat) h
    have h32 : (32 : UInt32).toNat = 32 := rfl
    rw [UInt32.toNat_add, h32] at hv
    have hp : c.val.toNat = 80 := by omega
    exact .inr (Char.ext (UInt32.toNat_inj.mp hp))
  · exact .inl h

/-- A value that begins with the word `pwm` is neither text, nor a truth value, nor a number. -/
theorem ValueType.ofText_of_pwmWord {v : List Char} (h : OutlineLine.pwmWord.fits v = true) :
    ofText v = .long := by
  obtain ⟨⟨_, r⟩, hr⟩ := Option.isSome_iff_exists.mp h
  obtain ⟨_, r', hkey, -⟩ := bind_eq_some.mp hr
  obtain ⟨r'', hdrop, -⟩ := Option.map_eq_some_iff.mp hkey
  cases v with
  | nil => cases hdrop
  | cons c cs =>
    have hlower : c.toLower = 'p' := by
      have hdrop : (if standsFor 'p' c then dropKeyword ['w', 'm'] cs else none) = some r'' := hdrop
      split at hdrop
      · next hs => simpa [standsFor] using hs
      · cases hdrop
    obtain ⟨hblank, hdigit, hquote, hpoint, hminus⟩ : isBlank c = false ∧ isDigit c = false ∧
        c ≠ '"' ∧ c ≠ '.' ∧ c ≠ '-' := by
      rcases eq_of_toLower_eq_p hlower with rfl | rfl <;> decide
    rw [ofText, trim_cons hblank]
    have hstring : Line.isStringLiteral (c :: trimRight cs) = false := by
      rw [Line.isStringLiteral, trim_cons hblank]
      simp [quoted?, hquote]
    have hfloat : Line.isFloatLiteral (c :: trimRight cs) = false := by
      rw [Line.isFloatLiteral, trim_cons hblank, Line.splitsAtPoint]
      split
      · simp [hpoint, isInteger, hminus, isNatural, hdigit]
      · rfl
    have htrue : isWord "true" (c :: trimRight cs) = false := by
      simp [isWord, hlower]
    have hfalse : isWord "false" (c :: trimRight cs) = false := by
      simp [isWord, hlower]
    simp [hstring, hfloat, htrue, hfalse]

end PlainSketch
