import Mathlib.Data.List.Forall2
import Mathlib.Data.List.Infix
import PlainSketch.Declaration
import PlainSketch.Opener
import PlainSketch.Proofs.ShapeLaws

/-!
# First and last keywords of a line

Most shapes begin with a keyword, and no two of the keywords that matter here begin a text both,
whatever the case of its letters. Control openers also end in a keyword: a line without blanks at
its end that reads as one ends in `do:`.
-/
namespace PlainSketch

namespace Text

/-- The ASCII character in lower case that a character of a keyword stands for. -/
def baseLetter (c : Char) : Char :=
  if c = '\u017F' then 's'
  else if c = '\u212A' then 'k'
  else if c = '\u0130' ∨ c = '\u0131' then 'i'
  else c.toLower

/-- Made of ASCII characters. -/
def isAscii (cs : List Char) : Bool := cs.all fun c => c.toNat < 128

theorem baseLetter_eq_toLower {c : Char} (h : c.toLower.toNat < 128) :
    baseLetter c = c.toLower := by
  have hs : c ≠ '\u017F' := by rintro rfl; revert h; decide
  have hk : c ≠ '\u212A' := by rintro rfl; revert h; decide
  have hi : ¬ (c = '\u0130' ∨ c = '\u0131') := by
    rintro (rfl | rfl)
    · revert h; decide
    · revert h; decide
  rw [baseLetter, if_neg hs, if_neg hk, if_neg hi]

theorem baseLetter_of_standsFor {w c : Char} (hw : w.toNat < 128) (h : standsFor w c = true) :
    baseLetter c = w := by
  simp only [standsFor, Bool.or_eq_true, Bool.and_eq_true, beq_iff_eq] at h
  rcases h with ((rfl | ⟨rfl, rfl⟩) | ⟨rfl, rfl⟩) | ⟨rfl, rfl | rfl⟩
  · exact baseLetter_eq_toLower hw
  · decide
  · decide
  · decide
  · decide

theorem map_baseLetter_of_isWord {w : String} {cs : List Char} (hw : isAscii w.toList = true)
    (h : isWord w cs = true) : cs.map baseLetter = w.toList := by
  have hlower : cs.map Char.toLower = w.toList := by simpa [isWord] using h
  rw [← hlower]
  refine List.map_congr_left fun c hc => baseLetter_eq_toLower ?_
  have hmem : c.toLower ∈ w.toList := hlower ▸ List.mem_map_of_mem hc
  simpa using List.all_eq_true.mp hw _ hmem

theorem head?_trimRight {cs : List Char} {c : Char} (h : (trimRight cs).head? = some c) :
    cs.head? = some c := by
  cases cs with
  | nil => cases h
  | cons d ds =>
    rw [trimRight] at h
    split at h
    · split at h
      · cases h
      · exact h
    · exact h

theorem trim_trim (cs : List Char) : trim (trim cs) = trim cs := by
  refine trim_eq_self ?_ fun c hc => getLast?_trimRight hc
  intro c hc
  have hhead := List.head?_dropWhile_not isBlank cs
  rw [show cs.dropWhile isBlank = trimLeft cs from rfl, head?_trimRight hc] at hhead
  simpa using hhead

end Text

namespace Shape
open Text

variable {α β : Type}

/-! ### Spellings of a keyword -/

/-- The characters of a text stand for those of a word, one by one. -/
def Spells (ws t : List Char) : Prop := List.Forall₂ (fun w c => standsFor w c = true) ws t

section
variable {ws cs r t : List Char}

/-- A keyword is read as one of its spellings, and what comes after it is left. -/
theorem dropKeyword_eq_some :
    dropKeyword ws cs = some r ↔ ∃ t, Spells ws t ∧ t ++ r = cs := by
  induction ws generalizing cs with
  | nil =>
    constructor
    · intro h
      cases h
      exact ⟨[], .nil, rfl⟩
    · rintro ⟨_, ht, rfl⟩
      cases ht
      rfl
  | cons w ws ih =>
    cases cs with
    | nil =>
      refine ⟨nofun, ?_⟩
      rintro ⟨_, ht, he⟩
      cases ht
      cases he
    | cons c cs =>
      rw [dropKeyword]
      constructor
      · intro h
        split at h
        · next hc =>
          obtain ⟨t, ht, rfl⟩ := ih.mp h
          exact ⟨c :: t, .cons hc ht, rfl⟩
        · cases h
      · rintro ⟨_, ht, he⟩
        cases ht with
        | cons hc ht =>
          cases he
          rw [if_pos hc]
          exact ih.mpr ⟨_, ht, rfl⟩

theorem Spells.exists_of_mem (h : Spells ws t) {c : Char} (hc : c ∈ t) :
    ∃ w ∈ ws, standsFor w c = true := by
  induction h with
  | nil => cases hc
  | @cons w d ws t hd _ ih =>
    rcases List.mem_cons.mp hc with rfl | hc
    · exact ⟨w, List.mem_cons_self, hd⟩
    · obtain ⟨v, hv, hstands⟩ := ih hc
      exact ⟨v, List.mem_cons_of_mem w hv, hstands⟩

/-- A map that takes each character to the one that it stands for takes a spelling to the word. -/
theorem Spells.map_eq (h : Spells ws t) {f : Char → Char}
    (hf : ∀ w ∈ ws, ∀ c ∈ t, standsFor w c = true → f c = w) : t.map f = ws := by
  induction h with
  | nil => rfl
  | @cons w c ws t hc _ ih =>
    rw [List.map_cons, hf w List.mem_cons_self c List.mem_cons_self hc, ih fun v hv d hd =>
      hf v (List.mem_cons_of_mem w hv) d (List.mem_cons_of_mem c hd)]

theorem dropKeyword_suffix (h : dropKeyword ws cs = some r) : r <:+ cs := by
  obtain ⟨t, -, ht⟩ := dropKeyword_eq_some.mp h
  exact ⟨t, ht⟩

theorem dropKeyword_append (h : dropKeyword ws cs = some r) (ds : List Char) :
    dropKeyword ws (cs ++ ds) = some (r ++ ds) := by
  obtain ⟨t, ht, rfl⟩ := dropKeyword_eq_some.mp h
  exact dropKeyword_eq_some.mpr ⟨t, ht, (List.append_assoc t r ds).symm⟩

theorem dropKeyword_prefix (hw : isAscii ws = true) (h : dropKeyword ws cs = some r) :
    ws <+: cs.map baseLetter := by
  obtain ⟨t, ht, rfl⟩ := dropKeyword_eq_some.mp h
  have hbase : t.map baseLetter = ws := ht.map_eq fun w hmem c _ hc =>
    baseLetter_of_standsFor (by simpa using List.all_eq_true.mp hw w hmem) hc
  rw [List.map_append, hbase]
  exact List.prefix_append ws _

/-- No character outside ASCII stands for one of these. -/
def isUnambiguous (ws : List Char) : Bool := ws.all fun w => w != 's' && w != 'k' && w != 'i'

/-- A keyword that nothing outside ASCII stands for is read in any ASCII case only. -/
theorem dropKeyword_toLower (hw : isUnambiguous ws = true) (h : dropKeyword ws cs = some r) :
    cs.map Char.toLower = ws ++ r.map Char.toLower := by
  obtain ⟨t, ht, rfl⟩ := dropKeyword_eq_some.mp h
  have hlower : t.map Char.toLower = ws := by
    refine ht.map_eq fun w hmem c _ hc => ?_
    obtain ⟨⟨hs, hk⟩, hi⟩ : (w ≠ 's' ∧ w ≠ 'k') ∧ w ≠ 'i' := by
      simpa using List.all_eq_true.mp hw w hmem
    simpa [standsFor, hs, hk, hi] using hc
  rw [List.map_append, hlower]

end

/-- Whatever fits the shape begins with the keyword. -/
def Begins (w : String) (s : Shape α) : Prop :=
  ∀ cs a r, s cs = some (a, r) → w.toList <+: cs.map baseLetter

theorem keyword_begins {w : String} (hw : isAscii w.toList = true) : Begins w (keyword w) := by
  intro cs a r h
  obtain ⟨r', hr, -⟩ := Option.map_eq_some_iff.mp h
  exact dropKeyword_prefix hw hr

theorem Begins.bind {w : String} {s : Shape α} {f : α → Shape β} (h : Begins w s) :
    Begins w (s >>= f) := by
  intro cs b r hb
  obtain ⟨a, r', ha, -⟩ := bind_eq_some.mp hb
  exact h cs a r' ha

theorem Begins.first? {w : String} {s : Shape α} (h : Begins w s) {cs : List Char} {a : α}
    (ha : s.first? cs = some a) : w.toList <+: cs.map baseLetter := by
  obtain ⟨⟨b, r⟩, hb, rfl⟩ := Option.map_eq_some_iff.mp ha
  exact h cs b r hb

theorem Begins.fits {w : String} {s : Shape α} (h : Begins w s) {cs : List Char}
    (hf : s.fits cs = true) : w.toList <+: cs.map baseLetter := by
  obtain ⟨⟨a, r⟩, ha⟩ := Option.isSome_iff_exists.mp hf
  exact h cs a r ha

/-- Two keywords that begin the same text begin each other. -/
theorem not_both_begin {v w : String} {u : List Char} (hv : v.toList <+: u) (hw : w.toList <+: u)
    (hvw : ¬ v.toList <+: w.toList) (hwv : ¬ w.toList <+: v.toList) : False := by
  rcases List.prefix_or_prefix_of_prefix hv hw with h | h
  · exact hvw h
  · exact hwv h

/-! ## The end of a shape -/

/-- The shape reads from the front. -/
def Leaves (s : Shape α) : Prop := ∀ cs a r, s cs = some (a, r) → r <:+ cs

theorem keyword_leaves (w : String) : Leaves (keyword w) := by
  intro cs a r h
  obtain ⟨r', hr, he⟩ := Option.map_eq_some_iff.mp h
  cases he
  exact dropKeyword_suffix hr

theorem gap_leaves : Leaves gap := by
  intro cs a r h
  obtain ⟨b, ds, rfl, -, rfl⟩ := gap_eq_some h
  exact (List.dropWhile_suffix _).trans (List.suffix_cons b ds)

theorem optGap_leaves : Leaves optGap := by
  intro cs a r h
  cases h
  exact List.dropWhile_suffix _

theorem digits_leaves : Leaves digits := by
  intro cs a r h
  simp only [digits] at h
  split at h
  · cases h
  · cases h
    exact List.dropWhile_suffix _

theorem signedDigits_leaves : Leaves signedDigits := by
  intro cs a r h
  simp only [signedDigits] at h
  split at h
  · obtain ⟨⟨x, r'⟩, hx, he⟩ := Option.map_eq_some_iff.mp h
    cases he
    exact (digits_leaves _ _ _ hx).trans (List.suffix_cons _ _)
  · exact digits_leaves _ _ _ h

theorem spellingOf_leaves (ws : List String) : Leaves (spellingOf ws) := by
  induction ws with
  | nil =>
    intro cs a r h
    cases h
  | cons w ws ih =>
    intro cs a r h
    rcases (Option.orElse_eq_some _ _ _).mp h with h | ⟨-, h⟩
    · obtain ⟨r', hr, he⟩ := Option.map_eq_some_iff.mp h
      cases he
      exact dropKeyword_suffix hr
    · exact ih cs a r h

theorem Leaves.bind {s : Shape α} {f : α → Shape β} (hs : Leaves s) (hf : ∀ a, Leaves (f a)) :
    Leaves (s >>= f) := by
  intro cs b r h
  obtain ⟨a, r', ha, hb⟩ := bind_eq_some.mp h
  exact (hf a r' b r hb).trans (hs cs a r' ha)

theorem leaves_pure (a : α) : Leaves (pure a) := by
  intro cs b r h
  cases h
  exact List.suffix_rfl

/-- Wherever the shape fits, `tail` fits at some place further on. -/
def Ends (tail : Shape β) (s : Shape α) : Prop :=
  ∀ cs a r, s cs = some (a, r) → ∃ v, v <:+ cs ∧ tail.fits v = true

variable {γ : Type} {tail : Shape γ}

theorem Ends.bind {s : Shape α} {f : α → Shape β} (hs : Leaves s) (hf : ∀ a, Ends tail (f a)) :
    Ends tail (s >>= f) := by
  intro cs b r h
  obtain ⟨a, r', ha, hb⟩ := bind_eq_some.mp h
  obtain ⟨v, hv, hfits⟩ := hf a r' b r hb
  exact ⟨v, hv.trans (hs cs a r' ha), hfits⟩

theorem Ends.before {s : Shape α} {f : α → Shape β} (hs : Ends tail s) : Ends tail (s >>= f) := by
  intro cs b r h
  obtain ⟨a, r', ha, -⟩ := bind_eq_some.mp h
  exact hs cs a r' ha

theorem ends_self (tail : Shape γ) : Ends tail tail := by
  intro cs a r h
  exact ⟨cs, List.suffix_rfl, Option.isSome_iff_exists.mpr ⟨_, h⟩⟩

theorem longTextBefore_ends (tail : Shape γ) : Ends tail (longTextBefore tail) := by
  intro cs x r h
  obtain ⟨v, hv, ht⟩ := readsUpTo_longTextUntil.exists_suffix h
  exact ⟨v, hv, Option.isSome_iff_exists.mpr ⟨_, ht⟩⟩

end Shape

theorem getLast?_of_suffix {v cs : List Char} (h : v <:+ cs) {c : Char}
    (hc : v.getLast? = some c) : cs.getLast? = some c := by
  obtain ⟨u, rfl⟩ := h
  rw [List.getLast?_append, hc]
  rfl

namespace Opener
open Shape Text

/-- The words that control openers begin with. -/
def keywords : List String := ["if", "repeat", "forever", "while", "every", "after"]

theorem shapes_begin : ∀ s ∈ shapes, ∃ w ∈ keywords, Begins w s := by
  simp only [shapes, keywords, List.forall_mem_cons]
  exact ⟨⟨"if", by simp, (keyword_begins (by decide)).bind⟩,
    ⟨"repeat", by simp, (keyword_begins (by decide)).bind⟩,
    ⟨"forever", by simp, (keyword_begins (by decide)).bind⟩,
    ⟨"while", by simp, (keyword_begins (by decide)).bind⟩,
    ⟨"every", by simp, (keyword_begins (by decide)).bind⟩,
    ⟨"after", by simp, (keyword_begins (by decide)).bind⟩, by simp⟩

theorem interval_leaves (units : List String) : Leaves (interval units) :=
  digits_leaves.bind fun _ => optGap_leaves.bind fun _ =>
    (spellingOf_leaves units).bind fun _ => leaves_pure _

theorem shapes_end : ∀ s ∈ shapes, Ends doEnd s := by
  simp only [shapes, List.forall_mem_cons]
  refine ⟨?ifDo, ?repeatTimes, ?forever, ?whileDo, ?every, ?after, by simp⟩
  case ifDo | whileDo => exact .bind (keyword_leaves _) fun _ => (longTextBefore_ends doEnd).before
  case repeatTimes =>
    refine .bind (keyword_leaves _) fun _ => .bind gap_leaves fun _ => ?_
    refine .bind signedDigits_leaves fun _ => ?_
    exact .bind (gap_leaves.bind fun _ => keyword_leaves _) fun _ => (ends_self doEnd).before
  case forever => exact .bind (keyword_leaves _) fun _ => (ends_self doEnd).before
  case every | after =>
    refine .bind (keyword_leaves _) fun _ => .bind gap_leaves fun _ => ?_
    exact .bind (interval_leaves _) fun _ => (ends_self doEnd).before

theorem begins_of_ofCode? {code : List Char} {o : Opener} (h : ofCode? code = some o) :
    ∃ w ∈ keywords, w.toList <+: code.map baseLetter := by
  obtain ⟨s, hs, hfirst⟩ := List.exists_of_findSome?_eq_some h
  obtain ⟨w, hw, hbegins⟩ := shapes_begin s hs
  exact ⟨w, hw, hbegins.first? hfirst⟩

/-- Where `do:` is followed by blanks only, and by none of them, it is the end of the text. -/
theorem endsWithWord_of_doEnd {v : List Char} (hlast : ∀ c, v.getLast? = some c → isBlank c = false)
    (h : doEnd.fits v = true) : endsWithWord "do:" v = true := by
  obtain ⟨⟨u, e⟩, hdo⟩ := Option.isSome_iff_exists.mp h
  obtain ⟨u, r, hnext, hend⟩ := bind_eq_some.mp hdo
  obtain ⟨u, x, hgap, hkey⟩ := bind_eq_some.mp hnext
  obtain ⟨r', hdrop, he⟩ := Option.map_eq_some_iff.mp hkey
  cases he
  have hx := gap_leaves _ _ _ hgap
  have hblank : allBlank r = true := (lineEnd_eq_some hend).1
  have hnil : r = [] := by
    rcases List.eq_nil_or_concat r with hr | ⟨l, c, rfl⟩
    · exact hr
    · have hc := hlast c (getLast?_of_suffix ((dropKeyword_suffix hdrop).trans hx) (by simp))
      simp [allBlank, hc] at hblank
  subst hnil
  have hlower := dropKeyword_toLower (by decide) hdrop
  rw [List.map_nil, List.append_nil] at hlower
  rw [endsWithWord, List.isSuffixOf_iff_suffix, ← hlower]
  exact hx.map _

/-- A control opener without blanks at its end ends in `do:`. -/
theorem endsWithWord_of_ofCode? {code : List Char} {o : Opener}
    (hlast : ∀ c, code.getLast? = some c → isBlank c = false) (h : ofCode? code = some o) :
    endsWithWord "do:" code = true := by
  obtain ⟨s, hs, hfirst⟩ := List.exists_of_findSome?_eq_some h
  obtain ⟨⟨a, r⟩, ha, -⟩ := Option.map_eq_some_iff.mp hfirst
  obtain ⟨v, hv, hfits⟩ := shapes_end s hs code a r ha
  have hdo := endsWithWord_of_doEnd (fun c hc => hlast c (getLast?_of_suffix hv hc)) hfits
  rw [endsWithWord, List.isSuffixOf_iff_suffix] at hdo ⊢
  exact hdo.trans (hv.map _)

end Opener

end PlainSketch
