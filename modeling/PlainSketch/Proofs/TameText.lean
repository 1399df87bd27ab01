import Mathlib.Algebra.Group.Nat.Defs
import PlainSketch.Proofs.NestingDepth

/-!
# Tame texts

A text is tame if it has none of the three letters outside ASCII that only a keyword can hold in
place of an `s` or an `i`, and no row of more than 4000 digits. Every part of a tame text is tame.
What the passes read from a script are parts of it: its lines, the code of a line, the words of an
operand, and whatever a shape reads. So the numerals of a tame script are short, and its units of
time are spelled in ASCII.
-/
namespace PlainSketch

namespace Text

/-- No letter that stands for an `s` or an `i` from outside ASCII, and no long row of digits. -/
structure Tame (cs : List Char) : Prop where
  letters : ∀ c ∈ cs, c ≠ '\u0130' ∧ c ≠ '\u0131' ∧ c ≠ '\u017F'
  digits : ∀ ds, ds <:+: cs → ds.all isDigit = true → ds.length ≤ 4000

section
variable {cs ds : List Char}

theorem Tame.of_infix (h : Tame cs) (hi : ds <:+: cs) : Tame ds :=
  ⟨fun c hc => h.letters c (hi.subset hc), fun es he => h.digits es (he.trans hi)⟩

theorem Tame.of_suffix (h : Tame cs) (hs : ds <:+ cs) : Tame ds := h.of_infix hs.isInfix

theorem Tame.of_prefix (h : Tame cs) (hp : ds <+: cs) : Tame ds := h.of_infix hp.isInfix

theorem tame_of_length_le (hl : cs.length ≤ 4000)
    (hc : ∀ c ∈ cs, c ≠ '\u0130' ∧ c ≠ '\u0131' ∧ c ≠ '\u017F') : Tame cs :=
  ⟨hc, fun _ hd _ => hd.length_le.trans hl⟩

theorem tame_nil : Tame [] := tame_of_length_le (Nat.zero_le _) nofun

/-! ### Parts of a text -/

theorem trim_isInfix (cs : List Char) : trim cs <:+: cs :=
  (trimRight_isPrefix _).isInfix.trans (List.dropWhile_suffix _).isInfix

theorem closeQuote?_append {r : List Char × List Char} (h : closeQuote? cs = some r) :
    r.1 ++ r.2 = cs := by
  fun_induction closeQuote? cs generalizing r with
  | case1 => cases h
  | case2 cs =>
    cases h
    rfl
  | case3 => cases h
  | case4 => cases h
  | case5 c cs _ ih =>
    obtain ⟨q, hq, rfl⟩ := Option.map_eq_some_iff.mp h
    rw [← ih hq]
    rfl
  | case6 c cs _ _ _ ih =>
    obtain ⟨q, hq, rfl⟩ := Option.map_eq_some_iff.mp h
    rw [← ih hq]
    rfl

theorem quoted?_append {r : List Char × List Char} (h : quoted? cs = some r) : r.1 ++ r.2 = cs := by
  unfold quoted? at h
  split at h
  · obtain ⟨q, hq, rfl⟩ := Option.map_eq_some_iff.mp h
    rw [← closeQuote?_append hq]
    rfl
  · cases h

/-- The first line is the beginning of the text, and the others are parts of it. -/
theorem splitLines_isInfix (cs : List Char) :
    ∃ l ls, splitLines (joinReturns cs) = l :: ls ∧ l <+: cs ∧ ∀ m ∈ ls, m <:+: cs := by
  fun_induction joinReturns cs with
  | case1 cs ih =>
    obtain ⟨l, ls, he, hl, hls⟩ := ih
    have hsuffix : cs <:+ '\r' :: '\n' :: cs := ⟨['\r', '\n'], rfl⟩
    refine ⟨[], l :: ls, by rw [splitLines_newline, he], List.nil_prefix, ?_⟩
    intro m hm
    rcases List.mem_cons.mp hm with rfl | hm
    · exact hl.isInfix.trans hsuffix.isInfix
    · exact (hls m hm).trans hsuffix.isInfix
  | case2 c cs _ ih =>
    obtain ⟨l, ls, he, hl, hls⟩ := ih
    have hsuffix : cs <:+ c :: cs := List.suffix_cons c cs
    by_cases hc : c = '\n'
    · refine ⟨[], l :: ls, by rw [hc, splitLines_newline, he], List.nil_prefix, ?_⟩
      intro m hm
      rcases List.mem_cons.mp hm with rfl | hm
      · exact hl.isInfix.trans hsuffix.isInfix
      · exact (hls m hm).trans hsuffix.isInfix
    · refine ⟨c :: l, ls, splitLines_cons hc he, List.cons_prefix_cons.mpr ⟨rfl, hl⟩, ?_⟩
      exact fun m hm => (hls m hm).trans hsuffix.isInfix
  | case3 => exact ⟨[], [], rfl, List.prefix_rfl, nofun⟩

end
end Text

namespace Line
open Text

theorem splitCommentFrom_isPrefix (before : Option Char) (inString : Bool) (cs : List Char) :
    (splitCommentFrom before inString cs).1 <+: cs := by
  fun_induction splitCommentFrom before inString cs with
  | case1 => exact List.prefix_rfl
  | case2 => exact List.nil_prefix
  | case3 before inString c cs _ _ _ ih => exact List.cons_prefix_cons.mpr ⟨rfl, ih⟩

theorem trimmedCode_isInfix (line : List Char) : trimmedCode line <:+: line :=
  (trim_isInfix _).trans (splitCommentFrom_isPrefix none false line).isInfix

theorem words_isInfix {cs w : List Char} (h : w ∈ words cs) : w <:+: cs := by
  fun_induction words cs with
  | case1 => cases h
  | case2 c cs _ ih => exact (ih h).trans (List.suffix_cons c cs).isInfix
  | case3 c cs _ r hr ih =>
    have happend := quoted?_append hr
    rcases List.mem_cons.mp h with rfl | h
    · exact (List.IsPrefix.isInfix ⟨r.2, happend⟩)
    · exact (ih h).trans (List.IsSuffix.isInfix ⟨r.1, happend⟩)
  | case4 c cs _ _ ih =>
    rcases List.mem_cons.mp h with rfl | h
    · exact (List.cons_prefix_cons.mpr ⟨rfl, List.takeWhile_prefix _⟩).isInfix
    · exact (ih h).trans ((List.dropWhile_suffix _).trans (List.suffix_cons c cs)).isInfix

end Line

/-- The numbered lines of a tame script are tame. -/
theorem tame_of_mem_numbered {source : String} (h : Text.Tame source.toList)
    {l : Int × List Char} (hl : l ∈ Line.numbered (sourceLines source)) : Text.Tame l.2 := by
  obtain ⟨raw, hraw, he⟩ := Line.mem_numberedFrom hl
  obtain ⟨first, rest, hsplit, hfirst, hrest⟩ := Text.splitLines_isInfix source.toList
  have hline : raw <:+: source.toList := by
    rw [sourceLines, hsplit] at hraw
    rcases List.mem_cons.mp hraw with rfl | hraw
    · exact hfirst.isInfix
    · exact hrest raw hraw
  rw [he]
  exact h.of_infix ((Line.trimmedCode_isInfix raw).trans hline)

/-! ## Numerals and units -/

namespace Text

section
variable {cs : List Char}

theorem digitValue?_lt {c : Char} {n : Nat} (h : digitValue? c = some n) : n < 10 := by
  obtain ⟨z, hz, rfl⟩ := Option.map_eq_some_iff.mp h
  have hrange := List.find?_some hz
  simp only [Bool.and_eq_true, decide_eq_true_eq] at hrange
  omega

/-- A row of digits denotes a number with at most as many digits. -/
theorem digitsValue_lt (cs : List Char) : digitsValue cs < 10 ^ cs.length := by
  have general : ∀ (cs : List Char) (n k : Nat), n < 10 ^ k →
      cs.foldl (fun n c => 10 * n + (digitValue? c).getD 0) n < 10 ^ (k + cs.length) := by
    intro cs
    induction cs with
    | nil => exact fun n k hn => hn
    | cons c cs ih =>
      intro n k hn
      have hdigit : (digitValue? c).getD 0 < 10 := by
        cases hc : digitValue? c with
        | none => decide
        | some d => exact digitValue?_lt hc
      have hstep : 10 * n + (digitValue? c).getD 0 < 10 ^ (k + 1) := by
        rw [Nat.pow_succ]
        omega
      have hrest := ih _ (k + 1) hstep
      rwa [Nat.add_assoc, Nat.add_comm 1, ← List.length_cons] at hrest
  have hall := general cs 0 0 Nat.one_pos
  rwa [Nat.zero_add] at hall

/-- An integer with at most 4000 digits. -/
def IsShort (n : Int) : Prop := ∃ k, k ≤ 4000 ∧ n.natAbs < 10 ^ k

theorem readNatural_ok (h : Tame cs) (hn : isNatural cs = true) :
    ∃ n : Nat, readNatural cs = .ok n ∧ IsShort n := by
  have hlen : cs.length ≤ 4000 := h.digits cs List.infix_rfl ((Bool.and_eq_true _ _).mp hn).2
  refine ⟨digitsValue cs, if_neg ?_, cs.length, hlen, digitsValue_lt cs⟩
  unfold digitLimit
  omega

theorem readInteger_ok (h : Tame cs) (hi : isInteger cs = true) :
    ∃ n, readInteger cs = .ok n ∧ IsShort n := by
  unfold isInteger at hi
  split at hi
  · next ds =>
    obtain ⟨n, hn, k, hk, hlt⟩ := readNatural_ok (h.of_suffix (List.suffix_cons _ _)) hi
    refine ⟨-n, ?_, k, hk, by rwa [Int.natAbs_neg]⟩
    rw [readInteger, hn]
    rfl
  · next hne =>
    obtain ⟨n, hn, hshort⟩ := readNatural_ok h hi
    refine ⟨n, ?_, hshort⟩
    unfold readInteger
    split
    · exact absurd rfl (hne _)
    · rw [hn]
      rfl

theorem lt_pow_of_le {m k limit : Nat} (hk : k ≤ limit) (h : m < 10 ^ k) :
    m < Nat.pow 10 limit := Nat.lt_of_lt_of_le h (Nat.pow_le_pow_right (by decide) hk)

/-- An integer that is short enough can be written. -/
theorem writable_ok {n : Int} {k : Nat} (hk : k ≤ digitLimit) (h : n.natAbs < 10 ^ k) :
    writable n = .ok n := if_pos (lt_pow_of_le hk h)

theorem writable_millis {n : Nat} (h : IsShort n) :
    writable (n * 1000) = .ok ((n : Int) * 1000) := by
  obtain ⟨k, hk, hlt⟩ := h
  refine writable_ok (k := k + 3) (by unfold digitLimit; omega) ?_
  rw [Nat.pow_add]
  omega

theorem writable_succ_max {a b : Int} (ha : IsShort a) (hb : IsShort b) :
    writable (max a b + 1) = .ok (max a b + 1) := by
  have one : ∀ {n : Int}, IsShort n → writable (n + 1) = .ok (n + 1) := by
    rintro n ⟨k, hk, hlt⟩
    refine writable_ok (k := k + 1) (by unfold digitLimit; omega) ?_
    rw [Nat.pow_succ]
    omega
  rw [Int.max_def]
  split
  · exact one hb
  · exact one ha

end
end Text

open Text

-- Comparing two runs must not evaluate the bound, a power of ten with thousands of digits.
attribute [local irreducible] writable

theorem Line.readRange_ok {cs : List Char} (h : Tame cs) :
    ∃ r, readRange cs = .ok r ∧ ∀ p ∈ r, IsShort p.1 ∧ IsShort p.2 := by
  unfold readRange
  split
  · exact ⟨none, rfl, nofun⟩
  · next low high hparts =>
    obtain ⟨hlow, hhigh⟩ :
        (Tame low ∧ isInteger low = true) ∧ Tame high ∧ isInteger high = true := by
      have ht := h.of_infix (trim_isInfix cs)
      simp only [rangeParts?] at hparts
      split at hparts
      · next rest hrest =>
        split at hparts
        · next hints =>
          cases hparts
          obtain ⟨hl, hr⟩ := (Bool.and_eq_true _ _).mp hints
          have hsuffix : high <:+ trim cs :=
            List.IsSuffix.trans ⟨['.', '.'], hrest.symm⟩ (List.dropWhile_suffix _)
          exact ⟨⟨ht.of_prefix (List.takeWhile_prefix _), hl⟩, ht.of_suffix hsuffix, hr⟩
        · cases hparts
      · cases hparts
    obtain ⟨l, hl, hls⟩ := readInteger_ok hlow.1 hlow.2
    obtain ⟨m, hm, hms⟩ := readInteger_ok hhigh.1 hhigh.2
    refine ⟨some (l, m), ?_, ?_⟩
    · rw [hl, hm]
      rfl
    · rintro p ⟨⟩
      exact ⟨hls, hms⟩

theorem timerInterval_ok {amount : List Char} (h : Tame amount) (hn : isNatural amount = true)
    (unit : List Char) : ∃ n, Assemble.timerInterval amount unit = .ok n := by
  obtain ⟨n, hread, hshort⟩ := readNatural_ok h hn
  have hplain : writable n = .ok (n : Int) := by
    obtain ⟨k, hk, hlt⟩ := hshort
    exact writable_ok (by unfold digitLimit; omega) hlt
  have hmillis := writable_millis hshort
  unfold Assemble.timerInterval timerMillis
  rw [hread]
  cases unit with
  | nil => exact ⟨n, hplain⟩
  | cons c cs =>
    by_cases hc : (c.toLower == 's') = true
    · exact ⟨n * 1000, by simp only [hc]; exact hmillis⟩
    · exact ⟨n, by simp only [hc]; exact hplain⟩

/-- Every spelling of a unit in ASCII names a unit. -/
theorem TimeUnit.read_ok {unit : List Char}
    (h : ∃ w ∈ Statement.pauseUnits, isWord w unit = true) : ∃ u, TimeUnit.read unit = .ok u := by
  obtain ⟨w, hw, hword⟩ := h
  have hnamed : ∀ {ws : List String}, w ∈ ws → ws.any (isWord · unit) = true :=
    fun hm => List.any_eq_true.mpr ⟨w, hm, hword⟩
  have hcover : ∀ w ∈ Statement.pauseUnits, w ∈ ["us", "microsecond", "microseconds"] ∨
      w ∈ ["ms", "millisecond", "milliseconds"] ∨ w ∈ ["s", "second", "seconds"] := by decide
  have hsome : (ofName? unit).isSome = true := by
    unfold ofName?
    rcases hcover w hw with hm | hm | hm
    · rw [if_pos (hnamed hm)]
      rfl
    · rw [hnamed hm]
      split <;> rfl
    · rw [hnamed hm]
      split
      · rfl
      · split <;> rfl
  obtain ⟨u, hu⟩ := Option.isSome_iff_exists.mp hsome
  exact ⟨u, by rw [read, hu]⟩

/-! ## Shapes -/

namespace Shape

section
variable {α β : Type} {P : α → Prop} {Q : β → Prop} {s : Shape α} {f : α → Shape β}

/-- Whatever the shape reads from a tame text has the property, and the text left is tame too. -/
def Within (P : α → Prop) (s : Shape α) : Prop :=
  ∀ cs a r, Tame cs → s cs = some (a, r) → P a ∧ Tame r

theorem within_pure {a : α} (h : P a) : Within P (pure a) := by
  intro cs b r ht hb
  cases hb
  exact ⟨h, ht⟩

theorem Within.bind (hs : Within P s) (hf : ∀ a, P a → Within Q (f a)) : Within Q (s >>= f) := by
  intro cs b r ht h
  obtain ⟨a, r', ha, hb⟩ := bind_eq_some.mp h
  obtain ⟨hP, hr'⟩ := hs cs a r' ht ha
  exact hf a hP r' b r hr' hb

theorem Leaves.within (hs : Leaves s) : Within (fun _ => True) s :=
  fun cs a r ht h => ⟨trivial, ht.of_suffix (hs cs a r h)⟩

/-- A part whose reading does not matter. -/
theorem Leaves.then (hs : Leaves s) (hf : ∀ a, Within Q (f a)) : Within Q (s >>= f) :=
  hs.within.bind fun a _ => hf a

theorem firstOf?_within {shapes : List (Shape α)} (h : ∀ s ∈ shapes, Within P s) {cs : List Char}
    (ht : Tame cs) {a : α} (ha : firstOf? shapes cs = some a) : P a := by
  obtain ⟨s, hs, hfirst⟩ := List.exists_of_findSome?_eq_some ha
  obtain ⟨⟨b, r⟩, hb, rfl⟩ := Option.map_eq_some_iff.mp hfirst
  exact (h s hs cs b r ht hb).1

theorem Within.first? (h : Within P s) {cs : List Char} (ht : Tame cs) {a : α}
    (ha : s.first? cs = some a) : P a := by
  obtain ⟨⟨b, r⟩, hb, rfl⟩ := Option.map_eq_some_iff.mp ha
  exact (h cs b r ht hb).1

end

/-! ### Parts without free text -/

theorem nextKeyword_leaves (w : String) : Leaves (nextKeyword w) :=
  gap_leaves.bind fun _ => keyword_leaves w

theorem either_leaves {α : Type} {s t : Shape α} (hs : Leaves s) (ht : Leaves t) :
    Leaves (either s t) := by
  intro cs a r h
  rcases (Option.orElse_eq_some _ _ _).mp h with h | ⟨-, h⟩
  · exact hs cs a r h
  · exact ht cs a r h

theorem wordEnd_leaves : Leaves wordEnd := by
  intro cs a r h
  rw [(wordEnd_eq_some h).1]

theorem lineEnd_leaves : Leaves lineEnd := by
  intro cs a r h
  rw [(lineEnd_eq_some h).2]
  exact List.nil_suffix

theorem name_leaves : Leaves name := by
  intro cs n r h
  obtain ⟨c, ds, rfl, -, -, rfl⟩ := name_eq_some h
  exact (List.dropWhile_suffix _).trans (List.suffix_cons c ds)

theorem lastName_leaves : Leaves lastName :=
  gap_leaves.bind fun _ => name_leaves.bind fun _ => lineEnd_leaves.bind fun _ => leaves_pure _

theorem intoName_leaves : Leaves intoName :=
  (nextKeyword_leaves _).bind fun _ => lastName_leaves

theorem betweenQuotes_leaves : Leaves betweenQuotes := by
  intro cs text r h
  obtain ⟨rfl, -⟩ := betweenQuotes_eq_some h
  exact ((List.suffix_cons _ _).trans (List.suffix_append _ _)).trans (List.suffix_cons _ _)

theorem digits_eq_some {cs ds r : List Char} (h : digits cs = some (ds, r)) :
    ds <+: cs ∧ isNatural ds = true := by
  simp only [digits] at h
  split at h
  · cases h
  · next d es hd =>
    cases h
    have hall : (d :: es).all isDigit = true := by rw [← hd, List.all_takeWhile]
    exact ⟨hd ▸ List.takeWhile_prefix _, by rw [isNatural, hall]; rfl⟩

theorem digits_within : Within (fun ds => Tame ds ∧ isNatural ds = true) digits := by
  intro cs ds r ht h
  obtain ⟨hp, hn⟩ := digits_eq_some h
  exact ⟨⟨ht.of_prefix hp, hn⟩, ht.of_suffix (digits_leaves cs ds r h)⟩

theorem isInteger_of_isNatural {ds : List Char} (h : isNatural ds = true) :
    isInteger ds = true := by
  unfold isInteger
  split
  · simp only [isNatural, List.all_cons, Bool.and_eq_true] at h
    exact absurd h.2.1 (by decide)
  · exact h

theorem signedDigits_within : Within (fun ds => Tame ds ∧ isInteger ds = true) signedDigits := by
  intro cs ds r ht h
  refine ⟨?_, ht.of_suffix (signedDigits_leaves cs ds r h)⟩
  simp only [signedDigits] at h
  split at h
  · obtain ⟨⟨x, r'⟩, hx, he⟩ := Option.map_eq_some_iff.mp h
    cases he
    obtain ⟨hp, hn⟩ := digits_eq_some hx
    exact ⟨ht.of_prefix (List.cons_prefix_cons.mpr ⟨rfl, hp⟩), hn⟩
  · obtain ⟨hp, hn⟩ := digits_eq_some h
    exact ⟨ht.of_prefix hp, isInteger_of_isNatural hn⟩

/-- In a tame text, a keyword without a `k` is spelled in ASCII. -/
theorem Spells.toLower_of_tame {ws t : List Char} (h : Spells ws t) (hk : 'k' ∉ ws)
    (ht : Tame t) : t.map Char.toLower = ws := by
  refine h.map_eq fun w hw c hc hstands => ?_
  obtain ⟨hdotted, hdotless, hlong⟩ := ht.letters c hc
  have hwk : w ≠ 'k' := fun he => hk (he ▸ hw)
  simpa [standsFor, hdotted, hdotless, hlong, hwk] using hstands

theorem spellingOf_within {ws : List String} (hk : ∀ w ∈ ws, 'k' ∉ w.toList) :
    Within (fun u => ∃ w ∈ ws, isWord w u = true) (spellingOf ws) := by
  intro cs u r ht h
  refine ⟨?_, ht.of_suffix (spellingOf_leaves ws cs u r h)⟩
  induction ws with
  | nil => cases h
  | cons w ws ih =>
    rcases (Option.orElse_eq_some _ _ _).mp h with h | ⟨-, h⟩
    · obtain ⟨r', hr, he⟩ := Option.map_eq_some_iff.mp h
      cases he
      refine ⟨w, List.mem_cons_self, ?_⟩
      obtain ⟨v, hspells, rfl⟩ := dropKeyword_eq_some.mp hr
      have hlower := hspells.toLower_of_tame (hk w List.mem_cons_self)
        (ht.of_prefix (List.prefix_append v r))
      rw [List.length_append, Nat.add_sub_cancel, List.take_left, isWord, hlower]
      exact beq_self_eq_true _
    · obtain ⟨v, hv, hword⟩ := ih (fun v hv => hk v (List.mem_cons_of_mem w hv)) h
      exact ⟨v, List.mem_cons_of_mem w hv, hword⟩

theorem word_within : Within Tame word := by
  intro cs w r ht h
  simp only [word] at h
  split at h
  · cases h
  · next c v hv =>
    cases h
    exact ⟨ht.of_prefix (hv ▸ List.takeWhile_prefix _), ht.of_suffix (List.dropWhile_suffix _)⟩

theorem optRest_within : Within Tame optRest := by
  intro cs a r ht h
  simp only [optRest] at h
  split at h
  · cases h
  · cases h
    exact ⟨ht.of_prefix (trimRight_isPrefix cs), tame_nil⟩

/-! ### Free text -/

section
variable {α : Type} {P : α → Prop} {tail : Shape α}

theorem gapThen_within {text : Shape (List Char × α)} (htext : ReadsUpTo tail text)
    (htail : Within P tail) : Within (fun x => Tame x.1 ∧ P x.2) (gapThen text tail) := by
  intro cs x r ht h
  obtain ⟨b, ds, es, rfl, -, hes, hread⟩ := htext.of_gapThen h
  obtain ⟨v, rfl, htailRead⟩ := hread.exists_tail
  have hrest : Tame (x.1 ++ v) := ht.of_suffix (hes.trans (List.suffix_cons b ds))
  obtain ⟨hP, hr⟩ := htail v x.2 r (hrest.of_suffix (List.suffix_append _ _)) htailRead
  exact ⟨⟨hrest.of_prefix (List.prefix_append _ _), hP⟩, hr⟩

theorem textBefore_within (htail : Within P tail) :
    Within (fun x => Tame x.1 ∧ P x.2) (textBefore tail) :=
  gapThen_within readsUpTo_textUntil htail

/-- Of the text before the last place where `tail` fits, only what follows it is needed. -/
theorem longTextBefore_leaves (htail : Leaves tail) : Leaves (longTextBefore tail) := by
  intro cs x r h
  obtain ⟨v, hv, hread⟩ := readsUpTo_longTextUntil.exists_suffix h
  exact (htail v x.2 r hread).trans hv

end

theorem value_within : Within Tame value :=
  (gapThen_within readsUpTo_textToEnd lineEnd_leaves.within).bind fun _ hx => within_pure hx.1

end Shape
/-! ## Lines -/

open Shape

/-- The operands of a statement that are read further are tame, and its numerals and units are in
order. -/
def Statement.IsTame : Statement → Prop
  | .pinMode operands | .digitalWrite operands | .toggle operands => Tame operands
  | .pwmWrite pin _ | .readAnalog pin _ | .readDigital pin _ | .tone _ pin | .noTone pin => Tame pin
  | .wait amount unit =>
    (Tame amount ∧ isNatural amount = true) ∧ ∃ w ∈ pauseUnits, isWord w unit = true
  | .serialBegin rate => Tame rate ∧ isNatural rate = true
  | .map _ fromRange toRange _ => Tame fromRange ∧ Tame toRange
  | .limit _ range | .random range _ => Tame range
  | _ => True

namespace Statement

theorem command_within (w : String) : Within Tame (command w) :=
  (keyword_leaves w).then fun _ => wordEnd_leaves.then fun _ => optGap_leaves.then fun _ =>
    optRest_within

theorem interval_within {units : List String} (hk : ∀ w ∈ units, 'k' ∉ w.toList) :
    Within (fun t => (Tame t.1 ∧ isNatural t.1 = true) ∧ ∃ w ∈ units, isWord w t.2 = true)
      (Opener.interval units) := by
  refine digits_within.bind fun amount hn => optGap_leaves.then fun _ => ?_
  exact (spellingOf_within hk).bind fun unit hu => within_pure ⟨hn, hu⟩

theorem shapes_within : ∀ s ∈ shapes, Within IsTame s := by
  -- Only an operand that is read further has to be tame; everything else just leaves a suffix.
  simp only [shapes, List.forall_mem_cons]
  refine ⟨(command_within _).bind fun _ h => within_pure h,
    (command_within _).bind fun _ h => within_pure h,
    (command_within _).bind fun _ h => within_pure h, ?pwmWrite, ?readAnalog, ?readTime,
    ?readMicros, ?readDigital, ?wait, ?serialBegin, ?printText, ?printTextValue, ?printValue,
    ?assign, ?change, ?map, ?limit, ?random, ?randomSeed, ?tone, ?noTone, ?call, by simp⟩
  case pwmWrite =>
    refine (keyword_leaves _).then fun _ => ?_
    refine (textBefore_within (P := Tame) ?_).bind fun _ h => within_pure h.1
    exact (nextKeyword_leaves _).then fun _ => (nextKeyword_leaves _).then fun _ => value_within
  case readAnalog =>
    refine (keyword_leaves _).then fun _ => (nextKeyword_leaves _).then fun _ => ?_
    exact (textBefore_within intoName_leaves.within).bind fun _ h => within_pure h.1
  case readTime | readMicros =>
    refine (keyword_leaves _).then fun _ => (nextKeyword_leaves _).then fun _ => ?_
    exact intoName_leaves.then fun _ => within_pure trivial
  case readDigital =>
    refine (keyword_leaves _).then fun _ => ?_
    exact (textBefore_within intoName_leaves.within).bind fun _ h => within_pure h.1
  case wait =>
    refine (keyword_leaves _).then fun _ => gap_leaves.then fun _ => ?_
    refine (interval_within (by decide)).bind fun _ ht => ?_
    exact lineEnd_leaves.then fun _ => within_pure ht
  case serialBegin =>
    refine (keyword_leaves _).then fun _ => (nextKeyword_leaves _).then fun _ => ?_
    refine (nextKeyword_leaves _).then fun _ => gap_leaves.then fun _ => ?_
    exact digits_within.bind fun _ hn => lineEnd_leaves.then fun _ => within_pure hn
  case printText =>
    refine (keyword_leaves _).then fun _ => gap_leaves.then fun _ => ?_
    exact betweenQuotes_leaves.then fun _ => lineEnd_leaves.then fun _ => within_pure trivial
  case printTextValue =>
    refine (keyword_leaves _).then fun _ => gap_leaves.then fun _ => ?_
    refine betweenQuotes_leaves.then fun _ => (nextKeyword_leaves _).then fun _ => ?_
    exact value_within.bind fun _ _ => within_pure trivial
  case printValue =>
    exact (keyword_leaves _).then fun _ => value_within.bind fun _ _ => within_pure trivial
  case assign | change =>
    refine (keyword_leaves _).then fun _ => gap_leaves.then fun _ => name_leaves.then fun _ => ?_
    refine (nextKeyword_leaves _).then fun _ => ?_
    exact value_within.bind fun _ _ => within_pure trivial
  case map =>
    refine (keyword_leaves _).then fun _ => gap_leaves.then fun _ => name_leaves.then fun _ => ?_
    refine (nextKeyword_leaves _).then fun _ => gap_leaves.then fun _ => ?_
    refine word_within.bind fun _ hfrom => ?_
    refine (nextKeyword_leaves _).then fun _ => gap_leaves.then fun _ => ?_
    refine word_within.bind fun _ hto => ?_
    exact intoName_leaves.then fun _ => within_pure ⟨hfrom, hto⟩
  case limit =>
    refine (keyword_leaves _).then fun _ => gap_leaves.then fun _ => name_leaves.then fun _ => ?_
    refine (nextKeyword_leaves _).then fun _ => gap_leaves.then fun _ => ?_
    exact word_within.bind fun _ hrange => lineEnd_leaves.then fun _ => within_pure hrange
  case random =>
    refine (keyword_leaves _).then fun _ => gap_leaves.then fun _ => ?_
    refine Leaves.then (either_leaves (keyword_leaves _) ?_) fun _ => ?_
    · exact (keyword_leaves _).bind fun _ => (nextKeyword_leaves _).bind fun _ =>
        nextKeyword_leaves _
    refine (nextKeyword_leaves _).then fun _ => gap_leaves.then fun _ => ?_
    exact word_within.bind fun _ hrange => intoName_leaves.then fun _ => within_pure hrange
  case randomSeed =>
    refine Leaves.then (either_leaves ?_ ?_) fun _ => value_within.bind fun _ _ =>
      within_pure trivial
    · exact (keyword_leaves _).bind fun _ => (nextKeyword_leaves _).bind fun _ =>
        nextKeyword_leaves _
    · exact (keyword_leaves _).bind fun _ => nextKeyword_leaves _
  case tone =>
    refine (keyword_leaves _).then fun _ => (nextKeyword_leaves _).then fun _ => ?_
    refine (textBefore_within ?_).bind fun _ h => within_pure h.2
    exact (nextKeyword_leaves _).then fun _ => value_within
  case noTone =>
    refine (keyword_leaves _).then fun _ => (nextKeyword_leaves _).then fun _ => ?_
    refine (nextKeyword_leaves _).then fun _ => ?_
    exact value_within.bind fun _ h => within_pure h
  case call =>
    exact (keyword_leaves _).then fun _ => lastName_leaves.then fun _ => within_pure trivial

theorem isTame_of_ofCode? {code : List Char} (ht : Tame code) {st : Statement}
    (h : ofCode? code = some st) : st.IsTame := firstOf?_within shapes_within ht h

end Statement

/-- The numerals of a control opener are in order. -/
def Opener.IsTame : Opener → Prop
  | .repeatTimes count => Tame count ∧ isInteger count = true
  | .every amount _ | .after amount _ => Tame amount ∧ isNatural amount = true
  | _ => True

namespace Opener

theorem doEnd_leaves : Leaves doEnd :=
  (nextKeyword_leaves _).bind fun _ => lineEnd_leaves

theorem shapes_within : ∀ s ∈ shapes, Within IsTame s := by
  simp only [shapes, List.forall_mem_cons]
  refine ⟨?ifDo, ?repeatTimes, ?forever, ?whileDo, ?every, ?after, by simp⟩
  case ifDo | whileDo =>
    refine (keyword_leaves _).then fun _ => ?_
    exact (longTextBefore_leaves doEnd_leaves).then fun _ => within_pure trivial
  case repeatTimes =>
    refine (keyword_leaves _).then fun _ => gap_leaves.then fun _ => ?_
    refine signedDigits_within.bind fun _ hcount => (nextKeyword_leaves _).then fun _ => ?_
    exact doEnd_leaves.then fun _ => within_pure hcount
  case forever =>
    exact (keyword_leaves _).then fun _ => doEnd_leaves.then fun _ => within_pure trivial
  case every | after =>
    refine (keyword_leaves _).then fun _ => gap_leaves.then fun _ => ?_
    refine (Statement.interval_within (by decide)).bind fun _ ht => ?_
    exact doEnd_leaves.then fun _ => within_pure ht.1

theorem isTame_of_ofCode? {code : List Char} (ht : Tame code) {o : Opener}
    (h : ofCode? code = some o) : o.IsTame := firstOf?_within shapes_within ht h

end Opener

/-- The value of a pin line is tame. -/
def OutlineLine.IsTame : OutlineLine → Prop
  | .pin (some p) => Tame p.2
  | .pinAssignment _ value => Tame value
  | _ => True

namespace OutlineLine
open Declaration

theorem pinShape_within : Within (fun p => Tame p.2) pinShape := by
  refine (keyword_leaves _).then fun _ => gap_leaves.then fun _ => name_leaves.then fun n => ?_
  exact (nextKeyword_leaves _).then fun _ => value_within.bind fun _ h => within_pure h

theorem pinAssignmentShape_within : Within (fun p => Tame p.2) pinAssignmentShape := by
  have hhead : Leaves pinAssignmentHead :=
    (keyword_leaves _).bind fun _ => gap_leaves.bind fun _ => name_leaves.bind fun _ =>
      (nextKeyword_leaves _).bind fun _ => (nextKeyword_leaves _).bind fun _ => leaves_pure _
  exact hhead.then fun _ => value_within.bind fun _ h => within_pure h

theorem isTame_of_ofCode {code : List Char} (ht : Tame code) : (ofCode code).IsTame := by
  have hsort := isSort_ofCode code
  generalize ofCode code = c at hsort ⊢
  cases hsort with
  | pin =>
    cases h : pinShape.first? code with
    | none => trivial
    | some p => exact pinShape_within.first? ht h
  | pinAssignment _ _ _ h => exact pinAssignmentShape_within.first? ht h
  | body | control | closer | neutral | function | writes | other => trivial

end OutlineLine
end PlainSketch
