import PlainSketch.Proofs.PhraseSpacing

/-!
# Phrases in one scan

Phrases are replaced one after the other, each in the text that the earlier ones left. All the same
a single scan of the text does: wherever a word may begin, it takes the first phrase of the table
that stands there. The reason is that no replacement gets in the way of another. An operator has
neither letters nor blanks, so that no phrase can reach over it; it comes between characters that
belong to no word; and no phrase begins with a word that another one goes on with. Two scans
with different phrases are therefore one scan with all of them, and from this all else follows.
-/
namespace PlainSketch.Phrase
open Text Shape

/-- The first of the phrases that stands at the start of the text, and the number of characters that
it takes. -/
def stands? (ps : List Phrase) (cs : List Char) : Option (Phrase × Nat) :=
  ps.findSome? fun p => (p.length? cs).map (p, ·)

/-- Goes over a text once. Wherever a word may begin, the first of the phrases that stands there is
replaced by its operator, and all else is copied; `inWord` says that the text goes on a word. -/
def scanFrom (ps : List Phrase) (inWord : Bool) : List Char → List Char
  | [] => []
  | c :: cs =>
    match if inWord then none else stands? ps (c :: cs) with
    | some (p, n) => p.operator.toList ++ scanFrom ps true (cs.drop (n - 1))
    | none => c :: scanFrom ps (isWordChar c) cs
termination_by cs => cs.length
decreasing_by all_goals simp only [List.length_drop, List.length_cons]; omega

/-- The text does not begin with a character of a word. -/
def OpensNoWord (cs : List Char) : Prop := ∀ c, cs.head? = some c → isWordChar c = false

/-- The word, in whatever case, stands in the text as a word of its own. -/
def HasWord (w : String) (cs : List Char) : Prop :=
  ∃ before spelling behind, cs = before ++ (spelling ++ behind) ∧
    dropKeyword w.toList spelling = some [] ∧
    (∀ c, before.getLast? = some c → isWordChar c = false) ∧ OpensNoWord behind

/-- No text begins with both words. -/
def apart (v w : String) : Bool :=
  !v.toList.isPrefixOf w.toList && !w.toList.isPrefixOf v.toList

/-- Phrases that do not get in each other's way. -/
structure Separate (ps : List Phrase) : Prop where
  tidy : ∀ p ∈ ps, p.isTidy = true
  operators : ∀ p ∈ ps, ∀ c ∈ p.operator.toList, isWordChar c = false
  starts : ∀ p ∈ ps, ∀ q ∈ ps, ∀ w ∈ p.words.head?, ∀ v ∈ q.words.tail, apart w v = true

theorem separate_all : Separate all where
  tidy := isTidy_of_mem_all
  operators p hp c hc := by
    have hall : all.all (fun p => p.operator.toList.all (!isWordChar ·)) = true := by decide +kernel
    simpa using List.all_eq_true.mp (List.all_eq_true.mp hall p hp) c hc
  starts := by decide +kernel

/-! ## Where a phrase begins and ends -/

section
variable {cs r : List Char} {n : Nat}

theorem isAlpha_of_isLower {c : Char} (h : c.isLower = true) : c.isAlpha = true :=
  (Bool.or_eq_true _ _).mpr (.inr h)

theorem toNat_lt_of_isAlpha {c : Char} (h : c.isAlpha = true) : c.toNat < 128 :=
  Nat.lt_of_le_of_lt (toNat_of_isAlpha h).2 (by decide)

/-- A letter of a keyword is a character of a word. -/
theorem isWordChar_of_standsFor {w c : Char} (hw : w.isLower = true) (h : standsFor w c = true) :
    isWordChar c = true := by
  have hascii : ∀ d : Char, d.isAlpha = true → isWordChar d = true := by
    intro d hd
    rw [isWordChar, isAlphanumeric, if_pos (toNat_lt_of_isAlpha hd)]
    exact (Bool.or_eq_true _ _).mpr (.inr ((Bool.or_eq_true _ _).mpr (.inl hd)))
  simp only [standsFor, Bool.or_eq_true, Bool.and_eq_true, beq_iff_eq] at h
  rcases h with ((rfl | ⟨-, rfl⟩) | ⟨-, rfl⟩) | ⟨-, rfl | rfl⟩
  · refine hascii c ?_
    rcases toLower_cases c with hc | ⟨hc, -⟩
    · rw [hc] at hw
      exact isAlpha_of_isLower hw
    · refine (Bool.or_eq_true _ _).mpr (.inl (decide_eq_true ?_))
      exact ⟨UInt32.le_iff_toNat_le.mpr hc.1, UInt32.le_iff_toNat_le.mpr hc.2⟩
  · decide +kernel
  · decide +kernel
  · decide +kernel
  · decide +kernel

theorem lower_of_isTidyWord {w : String} (hw : isTidyWord w = true) :
    ∀ c ∈ w.toList, c.isLower = true :=
  List.all_eq_true.mp ((Bool.and_eq_true _ _).mp hw).2

theorem isAscii_of_isTidyWord {w : String} (hw : isTidyWord w = true) :
    isAscii w.toList = true := by
  refine List.all_eq_true.mpr fun c hc => decide_eq_true ?_
  exact toNat_lt_of_isAlpha (isAlpha_of_isLower (lower_of_isTidyWord hw c hc))

/-- Where a word of a phrase is read, a word begins. -/
theorem isWordChar_of_keyword {w : String} (hw : isTidyWord w = true)
    (h : keyword w cs = some ((), r)) : ∃ c, cs.head? = some c ∧ isWordChar c = true := by
  obtain ⟨r', hdrop, -⟩ := Option.map_eq_some_iff.mp h
  obtain ⟨t, hspells, rfl⟩ := dropKeyword_eq_some.mp hdrop
  generalize hws : w.toList = ws at hspells
  cases hspells with
  | nil => simp [isTidyWord, hws] at hw
  | @cons x c _ _ hc =>
    have hlower := lower_of_isTidyWord hw x (hws ▸ List.mem_cons_self)
    exact ⟨c, rfl, isWordChar_of_standsFor hlower hc⟩

theorem keyword_of_shapeOf {w : String} {ws : List String}
    (h : shapeOf (w :: ws) cs = some (n, r)) : ∃ r', keyword w cs = some ((), r') := by
  cases ws with
  | nil =>
    obtain ⟨_, r', hkey, -⟩ := bind_eq_some.mp h
    exact ⟨r', hkey⟩
  | cons v ws =>
    obtain ⟨_, r', hkey, -⟩ := bind_eq_some.mp h
    exact ⟨r', hkey⟩

/-- After a phrase no word goes on. -/
theorem opensNoWord_of_shapeOf {ws : List String} (h : shapeOf ws cs = some (n, r)) :
    OpensNoWord r := by
  have hend : ∀ {ds es : List Char} {a : Unit}, wordEnd ds = some (a, es) → OpensNoWord es := by
    intro ds es a hw
    obtain ⟨rfl, hopen⟩ := wordEnd_eq_some hw
    exact hopen
  induction ws generalizing cs n with
  | nil =>
    obtain ⟨_, r', hw, hpure⟩ := bind_eq_some.mp h
    cases hpure
    exact hend hw
  | cons w ws ih =>
    cases ws with
    | nil =>
      obtain ⟨_, r', -, hrest⟩ := bind_eq_some.mp h
      obtain ⟨_, r'', hw, hpure⟩ := bind_eq_some.mp hrest
      cases hpure
      exact hend hw
    | cons v ws =>
      obtain ⟨_, r₁, -, hrest⟩ := bind_eq_some.mp h
      obtain ⟨_, r₂, -, hrest⟩ := bind_eq_some.mp hrest
      obtain ⟨m, r₃, hmore, hpure⟩ := bind_eq_some.mp hrest
      cases hpure
      exact ih hmore

theorem length_lt_of_shapeOf {p : Phrase} (hp : p.isTidy = true)
    (h : shapeOf p.words cs = some (n, r)) : r.length < cs.length := by
  obtain ⟨d, t, rfl, -, -, -⟩ := exists_taken hp h
  rw [List.length_cons, List.length_append]
  omega

/-- Words that are apart are not read at the same place. -/
theorem shapeOf_eq_none_of_apart {v w : String} {vs ws : List String} (hv : isTidyWord v = true)
    (hw : isTidyWord w = true) (happart : apart w v = true)
    (h : shapeOf (w :: ws) cs = some (n, r)) : shapeOf (v :: vs) cs = none := by
  rw [Option.eq_none_iff_forall_ne_some]
  rintro ⟨m, r'⟩ h'
  obtain ⟨s, hs⟩ := keyword_of_shapeOf h
  obtain ⟨s', hs'⟩ := keyword_of_shapeOf h'
  simp only [apart, Bool.and_eq_true, Bool.not_eq_true', Bool.eq_false_iff, ne_eq,
    List.isPrefixOf_iff_prefix] at happart
  exact not_both_begin (keyword_begins (isAscii_of_isTidyWord hw) cs () s hs)
    (keyword_begins (isAscii_of_isTidyWord hv) cs () s' hs') happart.1 happart.2

/-- What begins with no character of a word begins with no phrase. -/
theorem shapeOf_eq_none_of_head {w : String} {ws : List String} (hw : isTidyWord w = true)
    (h : OpensNoWord cs) : shapeOf (w :: ws) cs = none := by
  rw [Option.eq_none_iff_forall_ne_some]
  rintro ⟨m, r'⟩ h'
  obtain ⟨s, hs⟩ := keyword_of_shapeOf h'
  obtain ⟨c, hc, hword⟩ := isWordChar_of_keyword hw hs
  rw [h c hc] at hword
  cases hword

theorem words_eq_cons {p : Phrase} (hp : p.isTidy = true) :
    ∃ w ws, p.words = w :: ws ∧ ∀ v ∈ w :: ws, isTidyWord v = true := by
  have hw := words_tidy hp
  cases hws : p.words with
  | nil => simp [isTidy, hws] at hp
  | cons w ws => exact ⟨w, ws, rfl, hws ▸ hw⟩

end

/-! ## One scan -/

section
variable {ps : List Phrase} {p : Phrase} {n : Nat} {inWord : Bool} {c : Char} {cs r : List Char}

theorem stands?_eq_some (h : stands? ps cs = some (p, n)) :
    p ∈ ps ∧ ∃ r, shapeOf p.words cs = some (n, r) := by
  obtain ⟨q, hq, hlength⟩ := List.exists_of_findSome?_eq_some h
  obtain ⟨m, hm, he⟩ := Option.map_eq_some_iff.mp hlength
  cases he
  exact ⟨hq, first?_eq_some.mp hm⟩

theorem stands?_eq_none : stands? ps cs = none ↔ ∀ p ∈ ps, shapeOf p.words cs = none := by
  simp [stands?, length?, first?]

theorem scanFrom_nil (ps : List Phrase) (inWord : Bool) : scanFrom ps inWord [] = [] := by
  unfold scanFrom
  rfl

/-- Where no phrase stands, or no word may begin, the text is copied. -/
theorem scanFrom_of_none (h : inWord = true ∨ stands? ps (c :: cs) = none) :
    scanFrom ps inWord (c :: cs) = c :: scanFrom ps (isWordChar c) cs := by
  have hnone : (if inWord then none else stands? ps (c :: cs)) = none := by
    rcases h with rfl | h
    · rfl
    · simp [h]
  conv_lhs => unfold scanFrom
  simp [hnone]

theorem scanFrom_no_phrases (inWord : Bool) (cs : List Char) : scanFrom [] inWord cs = cs := by
  induction cs generalizing inWord with
  | nil => exact scanFrom_nil [] inWord
  | cons c cs ih => rw [scanFrom_of_none (.inr rfl), ih]

theorem head?_scanFrom_true (ps : List Phrase) (cs : List Char) :
    (scanFrom ps true cs).head? = cs.head? := by
  cases cs with
  | nil => rw [scanFrom_nil]
  | cons c cs => rw [scanFrom_of_none (.inl rfl), List.head?_cons, List.head?_cons]

section
variable (hs : Separate ps)
include hs

/-- The phrase that stands at the start of a text gives way to its operator. -/
theorem scanFrom_of_some (h : stands? ps cs = some (p, n)) (hr : shapeOf p.words cs = some (n, r)) :
    scanFrom ps false cs = p.operator.toList ++ scanFrom ps true r := by
  obtain ⟨d, t, rfl, rfl, -, -⟩ := exists_taken (hs.tidy p (stands?_eq_some h).1) hr
  conv_lhs => unfold scanFrom
  simp [h]

theorem stands?_eq_none_of_opensNoWord (h : OpensNoWord cs) : stands? ps cs = none := by
  refine stands?_eq_none.mpr fun p hp => ?_
  obtain ⟨w, ws, hws, hw⟩ := words_eq_cons (hs.tidy p hp)
  rw [hws]
  exact shapeOf_eq_none_of_head (hw w List.mem_cons_self) h

theorem scanFrom_cons_of_not_word (hc : isWordChar c = false) (inWord : Bool) (cs : List Char) :
    scanFrom ps inWord (c :: cs) = c :: scanFrom ps false cs := by
  have hopen : OpensNoWord (c :: cs) := by
    rintro d ⟨⟩
    exact hc
  rw [scanFrom_of_none (.inr (stands?_eq_none_of_opensNoWord hs hopen)), hc]

/-- Characters that belong to no word are copied, and a word may begin after them. -/
theorem scanFrom_append {os : List Char} (ho : ∀ c ∈ os, isWordChar c = false) (hne : os ≠ [])
    (inWord : Bool) (cs : List Char) :
    scanFrom ps inWord (os ++ cs) = os ++ scanFrom ps false cs := by
  induction os generalizing inWord with
  | nil => exact absurd rfl hne
  | cons o os ih =>
    obtain ⟨hfirst, hrest⟩ := List.forall_mem_cons.mp ho
    rw [List.cons_append, scanFrom_cons_of_not_word hs hfirst, List.cons_append]
    by_cases hnil : os = []
    · rw [hnil]
      rfl
    · rw [ih hrest hnil]

/-- Where no word begins, it does not matter whether one may. -/
theorem scanFrom_of_opensNoWord (h : OpensNoWord cs) :
    scanFrom ps false cs = scanFrom ps true cs := by
  cases cs with
  | nil => rw [scanFrom_nil, scanFrom_nil]
  | cons c cs =>
    rw [scanFrom_cons_of_not_word hs (h c rfl), scanFrom_cons_of_not_word hs (h c rfl)]

theorem operator_eq_cons (hp : p ∈ ps) : ∃ o os, p.operator.toList = o :: os ∧
    isBlank o = false ∧ ∀ c ∈ o :: os, isWordChar c = false := by
  obtain ⟨o, os, ho, hbare⟩ := operator_tidy (hs.tidy p hp)
  exact ⟨o, os, ho, (hbare o List.mem_cons_self).1, ho ▸ hs.operators p hp⟩

theorem opensNoWord_operator (hp : p ∈ ps) (cs : List Char) :
    OpensNoWord (p.operator.toList ++ cs) := by
  obtain ⟨o, os, ho, -, hword⟩ := operator_eq_cons hs hp
  rw [ho]
  rintro c ⟨⟩
  exact hword o List.mem_cons_self

/-- A scan makes no blank at the start of a text. -/
theorem head?_scanFrom_not_blank (h : ∀ c, cs.head? = some c → isBlank c = false) :
    ∀ c, (scanFrom ps inWord cs).head? = some c → isBlank c = false := by
  intro c hc
  cases cs with
  | nil =>
    rw [scanFrom_nil] at hc
    cases hc
  | cons d ds =>
    by_cases hcopy : inWord = true ∨ stands? ps (d :: ds) = none
    · rw [scanFrom_of_none hcopy] at hc
      exact h c hc
    · simp only [not_or, Bool.not_eq_true] at hcopy
      obtain ⟨rfl, hsome⟩ := hcopy
      obtain ⟨⟨p, n⟩, hp⟩ := Option.ne_none_iff_exists'.mp hsome
      obtain ⟨hmem, r, hr⟩ := stands?_eq_some hp
      obtain ⟨o, os, ho, hblank, -⟩ := operator_eq_cons hs hmem
      rw [scanFrom_of_some hs hp hr, ho] at hc
      cases hc
      exact hblank

end
end

/-! ## A phrase in scanned text

A phrase that stands in scanned text stood in the text before, and the other way round. It is read
from the same characters: letters and blanks come out of a scan only by being copied. -/

section
variable {ps : List Phrase} {inWord : Bool} {cs : List Char}

/-- Inside a word the scan copies. -/
theorem dropKeyword_scanFrom {ws : List Char} (hw : ∀ c ∈ ws, c.isLower = true) (cs : List Char) :
    dropKeyword ws (scanFrom ps true cs) = (dropKeyword ws cs).map (scanFrom ps true) := by
  induction ws generalizing cs with
  | nil => rfl
  | cons w ws ih =>
    obtain ⟨hfirst, hrest⟩ := List.forall_mem_cons.mp hw
    cases cs with
    | nil =>
      rw [scanFrom_nil]
      rfl
    | cons c cs =>
      rw [scanFrom_of_none (.inl rfl), dropKeyword, dropKeyword]
      split
      · next hc => rw [isWordChar_of_standsFor hfirst hc, ih hrest]
      · rfl

theorem keyword_scanFrom {w : String} (hw : isTidyWord w = true)
    (h : inWord = true ∨ stands? ps cs = none) :
    keyword w (scanFrom ps inWord cs) =
      (keyword w cs).map fun x => (x.1, scanFrom ps true x.2) := by
  have hlower := lower_of_isTidyWord hw
  have hdrop : dropKeyword w.toList (scanFrom ps inWord cs) =
      (dropKeyword w.toList cs).map (scanFrom ps true) := by
    cases hw' : w.toList with
    | nil => simp [isTidyWord, hw'] at hw
    | cons x xs =>
      rw [hw'] at hlower
      obtain ⟨hfirst, hrest⟩ := List.forall_mem_cons.mp hlower
      cases cs with
      | nil =>
        rw [scanFrom_nil]
        rfl
      | cons c cs =>
        rw [scanFrom_of_none h, dropKeyword, dropKeyword]
        split
        · next hc => rw [isWordChar_of_standsFor hfirst hc, dropKeyword_scanFrom hrest]
        · rfl
  simp only [keyword, hdrop, Option.map_map, Function.comp_def]

theorem wordEnd_scanFrom (ps : List Phrase) (cs : List Char) : wordEnd (scanFrom ps true cs) =
    (wordEnd cs).map fun x => (x.1, scanFrom ps true x.2) := by
  cases cs with
  | nil =>
    rw [scanFrom_nil]
    simp [wordEnd, scanFrom_nil]
  | cons c cs =>
    rw [scanFrom_of_none (.inl rfl)]
    simp only [wordEnd]
    split
    · rfl
    · rw [Option.map_some, scanFrom_of_none (.inl rfl)]

section
variable (hs : Separate ps)
include hs

theorem gapSize_scanFrom (cs : List Char) : gapSize (scanFrom ps true cs) =
    (gapSize cs).map fun x => (x.1, scanFrom ps false x.2) := by
  have hblank : ∀ c ∈ cs.takeWhile isBlank, isBlank c = true := fun c => List.mem_takeWhile_imp
  have hhead : ∀ c, (cs.dropWhile isBlank).head? = some c → isBlank c = false :=
    fun c => head?_trimLeft cs
  have hsplit := List.takeWhile_append_dropWhile (p := isBlank) (l := cs)
  -- Stated for blanks `bs` before text `ds`, since the scan keeps the one and rewrites the other.
  have hsize : ∀ bs ds : List Char, (∀ c ∈ bs, isBlank c = true) →
      (∀ c, ds.head? = some c → isBlank c = false) →
      gapSize (bs ++ ds) = if bs = [] then none else some (bs.length, ds) := by
    intro bs ds hbs hds
    have hdrop : ds.dropWhile isBlank = ds := trimLeft_eq_self hds
    have htake : ds.takeWhile isBlank = [] := by
      cases ds with
      | nil => rfl
      | cons d ds => exact List.takeWhile_cons_of_neg (by simp [hds d rfl])
    rw [gapSize, List.takeWhile_append_of_pos hbs, List.dropWhile_append_of_pos hbs, htake, hdrop,
      List.append_nil]
    split
    · rfl
    · next hne => rw [if_neg hne]
  rw [← hsplit]
  generalize cs.takeWhile isBlank = bs at hblank
  generalize cs.dropWhile isBlank = ds at hhead
  rw [hsize bs ds hblank hhead]
  by_cases hnil : bs = []
  · subst hnil
    have hkept : ∀ c, (scanFrom ps true ds).head? = some c → isBlank c = false :=
      head?_scanFrom_not_blank hs hhead
    exact hsize [] _ hblank hkept
  · have hword : ∀ c ∈ bs, isWordChar c = false :=
      fun c hc => class_of_isBlank (fun _ => isBlank_of_isWordChar) (hblank c hc)
    rw [scanFrom_append hs hword hnil, hsize bs _ hblank (head?_scanFrom_not_blank hs hhead),
      if_neg hnil, if_neg hnil]
    rfl

/-- Words are read in scanned text as in the text, unless the scan replaces a phrase where they
begin. -/
theorem shapeOf_scanFrom {w : String} {ws : List String}
    (hw : ∀ v ∈ w :: ws, isTidyWord v = true)
    (hstarts : ∀ p ∈ ps, ∀ u ∈ p.words.head?, ∀ v ∈ ws, apart u v = true)
    (h : inWord = true ∨ stands? ps cs = none) :
    shapeOf (w :: ws) (scanFrom ps inWord cs) =
      (shapeOf (w :: ws) cs).map fun x => (x.1, scanFrom ps true x.2) := by
  induction ws generalizing w cs inWord with
  | nil =>
    show (keyword w _).bind _ = ((keyword w cs).bind _).map _
    rw [keyword_scanFrom (hw w List.mem_cons_self) h]
    cases keyword w cs with
    | none => rfl
    | some x =>
      show (wordEnd _).bind _ = ((wordEnd x.2).bind _).map _
      rw [wordEnd_scanFrom]
      cases wordEnd x.2 <;> rfl
  | cons v ws ih =>
    obtain ⟨hfirst, hrest⟩ := List.forall_mem_cons.mp hw
    show (keyword w _).bind _ = ((keyword w cs).bind _).map _
    rw [keyword_scanFrom hfirst h]
    cases keyword w cs with
    | none => rfl
    | some x =>
      show (gapSize _).bind _ = ((gapSize x.2).bind _).map _
      rw [gapSize_scanFrom hs]
      cases gapSize x.2 with
      | none => rfl
      | some y =>
        show (shapeOf (v :: ws) _).bind _ = ((shapeOf (v :: ws) y.2).bind _).map _
        have hmore : shapeOf (v :: ws) (scanFrom ps false y.2) =
            (shapeOf (v :: ws) y.2).map fun z => (z.1, scanFrom ps true z.2) := by
          cases hstand : stands? ps y.2 with
          | none =>
            refine ih hrest (fun p hp u hu z hz => ?_) (.inr hstand)
            exact hstarts p hp u hu z (List.mem_cons_of_mem v hz)
          | some q =>
            -- A phrase begins where the next word should: it is not read, before or after.
            obtain ⟨hq, r, hr⟩ := stands?_eq_some hstand
            obtain ⟨u, us, hus, hu⟩ := words_eq_cons (hs.tidy q.1 hq)
            have happart : apart u v = true :=
              hstarts q.1 hq u (by rw [hus]; rfl) v List.mem_cons_self
            have hv := hrest v List.mem_cons_self
            rw [scanFrom_of_some hs hstand hr,
              shapeOf_eq_none_of_head hv (opensNoWord_operator hs hq _),
              shapeOf_eq_none_of_apart hv (hu u List.mem_cons_self) happart (hus ▸ hr)]
            rfl
        rw [hmore]
        cases shapeOf (v :: ws) y.2 <;> rfl

end
end

/-! ## Scans one after the other -/

section
variable {ps qs : List Phrase}

theorem Separate.of_subset (h : Separate qs) (hsub : ∀ p ∈ ps, p ∈ qs) : Separate ps where
  tidy p hp := h.tidy p (hsub p hp)
  operators p hp := h.operators p (hsub p hp)
  starts p hp q hq := h.starts p (hsub p hp) q (hsub q hq)

theorem stands?_append (ps qs : List Phrase) (cs : List Char) :
    stands? (ps ++ qs) cs = (stands? ps cs).or (stands? qs cs) := List.findSome?_append

/-- A phrase that stands in scanned text, where the scan replaced nothing, stood there before. -/
theorem shapeOf_words_scanFrom (h : Separate (ps ++ qs)) {q : Phrase} (hq : q ∈ qs)
    {cs : List Char} (hnone : stands? ps cs = none) :
    shapeOf q.words (scanFrom ps false cs) =
      (shapeOf q.words cs).map fun x => (x.1, scanFrom ps true x.2) := by
  have hps : Separate ps := h.of_subset fun p => List.mem_append_left qs
  have hq' : q ∈ ps ++ qs := List.mem_append_right ps hq
  obtain ⟨w, ws, hws, hw⟩ := words_eq_cons (h.tidy q hq')
  rw [hws]
  refine shapeOf_scanFrom hps hw (fun p hp u hu v hv => ?_) (.inr hnone)
  exact h.starts p (List.mem_append_left qs hp) q hq' u hu v (by rw [hws]; exact hv)

theorem stands?_scanFrom (h : Separate (ps ++ qs)) {cs : List Char}
    (hnone : stands? ps cs = none) : stands? qs (scanFrom ps false cs) = stands? qs cs := by
  have hlength : ∀ q ∈ qs, q.length? (scanFrom ps false cs) = q.length? cs := by
    intro q hq
    rw [length?, first?, shapeOf_words_scanFrom h hq hnone, Option.map_map]
    rfl
  unfold stands?
  clear h
  induction qs with
  | nil => rfl
  | cons q qs ih =>
    obtain ⟨hq, hrest⟩ := List.forall_mem_cons.mp hlength
    rw [List.findSome?_cons, List.findSome?_cons, hq, ih hrest]

/-- Two scans one after the other are one scan with the phrases of both. -/
theorem scanFrom_scanFrom (h : Separate (ps ++ qs)) (inWord : Bool) (cs : List Char) :
    scanFrom qs inWord (scanFrom ps inWord cs) = scanFrom (ps ++ qs) inWord cs := by
  have hps : Separate ps := h.of_subset fun p => List.mem_append_left qs
  have hqs : Separate qs := h.of_subset fun q => List.mem_append_right ps
  -- By the length of the text, of which a phrase is taken in one piece.
  generalize hlen : cs.length = m
  induction m using Nat.strong_induction_on generalizing cs inWord with
  | _ m ih =>
    cases cs with
    | nil => rw [scanFrom_nil, scanFrom_nil, scanFrom_nil]
    | cons c cs =>
      have hcopied := ih cs.length (by simp [← hlen]) (isWordChar c) cs rfl
      have hstands := stands?_append ps qs (c :: cs)
      cases inWord with
      | true =>
        rw [scanFrom_of_none (.inl rfl), scanFrom_of_none (.inl rfl), hcopied,
          scanFrom_of_none (.inl rfl)]
      | false =>
        cases hp : stands? ps (c :: cs) with
        | some x =>
          obtain ⟨hmem, r, hr⟩ := stands?_eq_some hp
          have hshort : r.length < m := hlen ▸ length_lt_of_shapeOf (hps.tidy x.1 hmem) hr
          obtain ⟨o, os, ho, -, hword⟩ := operator_eq_cons hps hmem
          -- The second scan passes over the operator and finds no word right behind it.
          have hopen : OpensNoWord (scanFrom ps true r) := by
            intro d hd
            rw [head?_scanFrom_true] at hd
            exact opensNoWord_of_shapeOf hr d hd
          rw [hp, Option.some_or] at hstands
          rw [scanFrom_of_some hps hp hr, scanFrom_of_some h hstands hr, ho,
            scanFrom_append hqs hword (List.cons_ne_nil o os), scanFrom_of_opensNoWord hqs hopen,
            ih r.length hshort true r rfl]
        | none =>
          rw [hp, Option.none_or] at hstands
          have hsame := stands?_scanFrom h hp
          cases hq : stands? qs (c :: cs) with
          | some x =>
            obtain ⟨hmem, r, hr⟩ := stands?_eq_some hq
            have hshort : r.length < m := hlen ▸ length_lt_of_shapeOf (hqs.tidy x.1 hmem) hr
            have hr' := shapeOf_words_scanFrom h hmem hp
            rw [hr, Option.map_some] at hr'
            rw [hq] at hstands hsame
            rw [scanFrom_of_some hqs hsame hr', scanFrom_of_some h hstands hr,
              ih r.length hshort true r rfl]
          | none =>
            rw [hq] at hstands hsame
            rw [scanFrom_of_none (.inr hp)] at hsame ⊢
            rw [scanFrom_of_none (.inr hsame), hcopied, scanFrom_of_none (.inr hstands)]

/-- To replace one phrase is to scan for it. -/
theorem replaceFrom_eq_scanFrom (p : Phrase) (inWord : Bool) (cs : List Char) :
    p.replaceFrom inWord cs = scanFrom [p] inWord cs := by
  fun_induction replaceFrom p inWord cs with
  | case1 inWord => exact (scanFrom_nil [p] inWord).symm
  | case2 inWord c cs n h ih =>
    conv_rhs => unfold scanFrom
    cases inWord with
    | true => cases h
    | false =>
      have hlength : p.length? (c :: cs) = some n := by simpa using h
      simp [stands?, hlength, ih]
  | case3 inWord c cs h ih =>
    rw [ih, scanFrom_of_none]
    cases inWord with
    | true => exact .inl rfl
    | false =>
      have hlength : p.length? (c :: cs) = none := by simpa using h
      exact .inr (by simp [stands?, hlength])

theorem foldl_replace (h : Separate ps) (cs : List Char) :
    ps.foldl (fun t p => p.replace t) cs = scanFrom ps false cs := by
  induction ps generalizing cs with
  | nil => exact (scanFrom_no_phrases false cs).symm
  | cons p ps ih =>
    have hfirst : scanFrom ps false (scanFrom [p] false cs) = scanFrom (p :: ps) false cs :=
      scanFrom_scanFrom h false cs
    rw [List.foldl_cons, ih (h.of_subset fun q => List.mem_cons_of_mem p), replace,
      replaceFrom_eq_scanFrom, hfirst]

end

/-! ## What a scan leaves -/

/-- All that a scan knows of its phrases is which one stands at the start of a text. -/
theorem scanFrom_congr {ps qs : List Phrase} (h : ∀ cs, stands? ps cs = stands? qs cs)
    (inWord : Bool) (cs : List Char) : scanFrom ps inWord cs = scanFrom qs inWord cs := by
  fun_induction scanFrom ps inWord cs with
  | case1 inWord => exact (scanFrom_nil qs inWord).symm
  | case2 inWord c cs p n hsome ih =>
    conv_rhs => unfold scanFrom
    simp only [dite_eq_ite, h] at hsome
    simp only [hsome, ih]
  | case3 inWord c cs hnone ih =>
    conv_rhs => unfold scanFrom
    simp only [dite_eq_ite, h] at hnone
    simp only [hnone, ih]

section
variable {ps : List Phrase} (hs : Separate ps)
include hs

/-- A second scan changes nothing. -/
theorem scanFrom_self (inWord : Bool) (cs : List Char) :
    scanFrom ps inWord (scanFrom ps inWord cs) = scanFrom ps inWord cs := by
  have hdouble : Separate (ps ++ ps) := hs.of_subset fun p hp => by simpa using hp
  rw [scanFrom_scanFrom hdouble]
  refine scanFrom_congr (fun ds => ?_) inWord cs
  rw [stands?_append, Option.or_self]

/-- Where a scan changes nothing, no phrase stands at the start. -/
theorem stands?_eq_none_of_fixed {cs : List Char} (h : scanFrom ps false cs = cs) :
    stands? ps cs = none := by
  cases hstands : stands? ps cs with
  | none => rfl
  | some x =>
    obtain ⟨hmem, r, hr⟩ := stands?_eq_some hstands
    have hopen : OpensNoWord cs := by
      rw [← h, scanFrom_of_some hs hstands hr]
      exact opensNoWord_operator hs hmem _
    rw [stands?_eq_none_of_opensNoWord hs hopen] at hstands
    cases hstands

/-- Nor does one anywhere else where a word may begin. -/
theorem stands?_eq_none_of_append_fixed {inWord : Bool} {a x : List Char}
    (h : scanFrom ps inWord (a ++ x) = a ++ x) (hstart : a = [] → inWord = false)
    (hlast : ∀ c, a.getLast? = some c → isWordChar c = false) : stands? ps x = none := by
  induction a generalizing inWord with
  | nil =>
    rw [hstart rfl] at h
    exact stands?_eq_none_of_fixed hs h
  | cons c a ih =>
    have hcopy : inWord = true ∨ stands? ps (c :: (a ++ x)) = none := by
      cases inWord with
      | true => exact .inl rfl
      | false => exact .inr (stands?_eq_none_of_fixed hs h)
    rw [List.cons_append, scanFrom_of_none hcopy, List.cons_inj_right] at h
    refine ih h ?_ fun d hd => hlast d ?_
    · rintro rfl
      exact hlast c rfl
    · rw [List.getLast?_cons, hd, Option.getD_some]

/-- No word that is a phrase of its own is left by a scan. -/
theorem not_hasWord_scanFrom {p : Phrase} (hp : p ∈ ps) {w : String} (hw : p.words = [w])
    (cs : List Char) : ¬ HasWord w (scanFrom ps false cs) := by
  rintro ⟨before, spelling, behind, htext, hspelling, hbefore, hbehind⟩
  have hfixed := scanFrom_self hs false cs
  rw [htext] at hfixed
  have hnone := stands?_eq_none_of_append_fixed hs hfixed (fun _ => rfl) hbefore
  have hkey : keyword w (spelling ++ behind) = some ((), behind) := by
    rw [keyword, dropKeyword_append hspelling behind]
    rfl
  have hend : wordEnd behind = some ((), behind) := by
    cases behind with
    | nil => rfl
    | cons c cs => simp [wordEnd, hbehind c rfl]
  have hword : shapeOf [w] (spelling ++ behind) = some (w.length, behind) :=
    bind_eq_some.mpr ⟨(), behind, hkey, bind_eq_some.mpr ⟨(), behind, hend, rfl⟩⟩
  rw [← hw, stands?_eq_none.mp hnone p hp] at hword
  cases hword

end

/-- **The phrases of a condition are replaced in one scan.** To replace the phrases of the table one
after the other is to go over the text once and to replace, wherever a word may begin, the first
phrase of the table that stands there. What comes out has none of the words `is`, `equals`, `and`
and `or` as a word of its own, and replacing the phrases once more changes nothing. -/
theorem replaceAll_is_one_scan (cs : List Char) :
    replaceAll cs = scanFrom all false cs ∧
      (∀ w ∈ ["is", "equals", "and", "or"], ¬ HasWord w (replaceAll cs)) ∧
      replaceAll (replaceAll cs) = replaceAll cs := by
  have hscan : ∀ ds, replaceAll ds = scanFrom all false ds := foldl_replace separate_all
  refine ⟨hscan cs, fun w hw => ?_, ?_⟩
  · have hphrase : ∀ w ∈ ["is", "equals", "and", "or"], ∃ p ∈ all, p.words = [w] := by decide
    obtain ⟨p, hp, hwords⟩ := hphrase w hw
    rw [hscan]
    exact not_hasWord_scanFrom separate_all hp hwords cs
  · rw [hscan, hscan, scanFrom_self separate_all]

end PlainSketch.Phrase
