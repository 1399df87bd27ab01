import PlainSketch.Phrase
import PlainSketch.Proofs.FreeText

/-!
# Phrases and spacing

Phrases are made of letters and gaps, and the operators that replace them of neither quotes nor
blanks. So replacing a phrase leaves every quote where it is, in or out of a literal, and a squeezed
condition reads like the condition with its phrases replaced, squeezed.
-/
namespace PlainSketch.Phrase
open Text Shape
open Line (squeeze)

/-- Letters in lower case, at least one. -/
def isTidyWord (w : String) : Bool := !w.toList.isEmpty && w.toList.all Char.isLower

/-- Tidy words, and an operator without blanks, quotes and backslashes. -/
def isTidy (p : Phrase) : Bool :=
  !p.words.isEmpty && p.words.all isTidyWord && !p.operator.toList.isEmpty &&
    p.operator.toList.all fun c => !isBlank c && c != '"' && c != '\\'

theorem isTidy_of_mem_all : ∀ p ∈ all, p.isTidy = true := by decide

/-! ## What a phrase takes -/

/-- A character that neither opens nor closes a literal, nor escapes the one after it. -/
def IsBare (c : Char) : Prop := c ≠ '"' ∧ c ≠ '\\'

theorem plain_of_isLower {w : Char} (hw : w.isLower = true) : isBlank w = false ∧ w ≠ '"' := by
  refine ⟨isBlank_of_class (by decide +kernel) hw, ?_⟩
  rintro rfl
  cases hw

theorem isBare_of_standsFor {w c : Char} (hw : w.isLower = true) (h : standsFor w c = true) :
    isBlank c = false ∧ IsBare c := by
  obtain ⟨hblank, hquote⟩ := plain_of_standsFor (plain_of_isLower hw) h
  refine ⟨hblank, hquote, ?_⟩
  rintro rfl
  have hslash : '\\' = w := by simpa [standsFor] using h
  rw [← hslash] at hw
  cases hw

variable {cs r : List Char} {n : Nat}

theorem keyword_eq_some {w : String} (hw : isTidyWord w = true)
    (h : keyword w cs = some ((), r)) : ∃ d t, cs = d :: (t ++ r) ∧ t.length + 1 = w.length ∧
      (isBlank d = false ∧ IsBare d) ∧ ∀ c ∈ t, IsBare c := by
  obtain ⟨hne, hlower⟩ := (Bool.and_eq_true _ _).mp hw
  obtain ⟨_, hdrop, he⟩ := Option.map_eq_some_iff.mp h
  cases he
  obtain ⟨t, hspells, rfl⟩ := dropKeyword_eq_some.mp hdrop
  have hlen : t.length = w.length := by rw [← String.length_toList, hspells.length_eq]
  have ht : ∀ c ∈ t, isBlank c = false ∧ IsBare c := by
    intro c hc
    obtain ⟨v, hv, hstands⟩ := hspells.exists_of_mem hc
    exact isBare_of_standsFor (List.all_eq_true.mp hlower v hv) hstands
  cases t with
  | nil =>
    have hnil : w.toList = [] := by
      rw [← List.length_eq_zero_iff, String.length_toList, ← hlen]
      rfl
    simp [hnil] at hne
  | cons d t =>
    obtain ⟨hd, hrest⟩ := List.forall_mem_cons.mp ht
    exact ⟨d, t, rfl, hlen, hd, fun c hc => (hrest c hc).2⟩

theorem gapSize_eq_some (h : gapSize cs = some (n, r)) : ∃ t, cs = t ++ r ∧ t.length = n ∧
    ∀ c ∈ t, IsBare c := by
  refine ⟨cs.takeWhile isBlank, ?_⟩
  have hbare : ∀ c ∈ cs.takeWhile isBlank, IsBare c := fun c hc =>
    have hblank := List.mem_takeWhile_imp hc
    ⟨ne_of_isBlank hblank (by decide), ne_of_isBlank hblank (by decide)⟩
  unfold gapSize at h
  split at h
  · cases h
  · cases h
    exact ⟨List.takeWhile_append_dropWhile.symm, rfl, hbare⟩

theorem gapSize_bind {α : Type} (k : Shape α) : (gapSize >>= fun _ => k) = gap >>= fun _ => k := by
  funext cs
  show (gapSize cs).bind _ = (gap cs).bind _
  cases cs with
  | nil => rfl
  | cons c cs =>
    cases hc : isBlank c with
    | true => simp [gapSize, gap, hc, trimLeft]
    | false => simp [gapSize, gap, hc]

/-- A phrase takes its first letter, and bare characters after it. -/
theorem shapeOf_eq_some {w : String} {ws : List String}
    (hw : ∀ v ∈ w :: ws, isTidyWord v = true) (h : shapeOf (w :: ws) cs = some (n, r)) :
    ∃ d t, cs = d :: (t ++ r) ∧ t.length + 1 = n ∧ (isBlank d = false ∧ IsBare d) ∧
      ∀ c ∈ t, IsBare c := by
  induction ws generalizing w cs n with
  | nil =>
    obtain ⟨_, r₁, hkey, hrest⟩ := bind_eq_some.mp h
    obtain ⟨_, r₂, hend, hpure⟩ := bind_eq_some.mp hrest
    cases hpure
    cases (wordEnd_eq_some hend).1
    exact keyword_eq_some (hw w List.mem_cons_self) hkey
  | cons v ws ih =>
    obtain ⟨hfirst, hothers⟩ := List.forall_mem_cons.mp hw
    obtain ⟨_, r₁, hkey, hrest⟩ := bind_eq_some.mp h
    obtain ⟨b, r₂, hgap, hrest⟩ := bind_eq_some.mp hrest
    obtain ⟨m, r₃, hmore, hpure⟩ := bind_eq_some.mp hrest
    cases hpure
    obtain ⟨e, u, rfl, rfl, he, hu⟩ := ih hothers hmore
    obtain ⟨g, rfl, rfl, hg⟩ := gapSize_eq_some hgap
    obtain ⟨d, t, rfl, hlen, hd, ht⟩ := keyword_eq_some hfirst hkey
    refine ⟨d, t ++ (g ++ e :: u), by simp, ?_, hd, ?_⟩
    · simp only [List.length_append, List.length_cons]
      omega
    · intro c hc
      simp only [List.mem_append, List.mem_cons] at hc
      rcases hc with hc | hc | rfl | hc
      · exact ht c hc
      · exact hg c hc
      · exact he.2
      · exact hu c hc

theorem follows_shapeOf {φ : List Char → List Char} (hφ : Respaces φ) {ws : List String}
    (hw : ∀ w ∈ ws, isTidyWord w = true) :
    Follows φ id (shapeOf ws >>= fun _ => pure ()) (shapeOf ws >>= fun _ => pure ()) := by
  induction ws with
  | nil =>
    simp only [shapeOf, bind_assoc, pure_bind]
    exact (follows_wordEnd hφ).bind fun _ => follows_pure _ _ rfl
  | cons w ws ih =>
    obtain ⟨hfirst, hrest⟩ := List.forall_mem_cons.mp hw
    have hkey : Follows φ id (keyword w) (keyword w) := by
      refine follows_keyword hφ (List.all_eq_true.mpr fun c hc => ?_)
      have hlower : c.isLower = true :=
        List.all_eq_true.mp ((Bool.and_eq_true _ _).mp hfirst).2 c hc
      simpa using plain_of_isLower hlower
    cases ws with
    | nil =>
      simp only [shapeOf, bind_assoc, pure_bind]
      exact hkey.bind fun _ => (follows_wordEnd hφ).bind fun _ => follows_pure _ _ rfl
    | cons v ws =>
      simp only [shapeOf, bind_assoc, pure_bind, gapSize_bind]
      exact hkey.bind fun _ => (follows_gap hφ).bind fun _ => ih hrest

/-- The text left after the phrase is squeezed like the text. -/
theorem shapeOf_squeeze {ws : List String} (hw : ∀ w ∈ ws, isTidyWord w = true)
    (hcs : Line.IsCode cs) : (shapeOf ws (squeeze cs)).map Prod.snd =
      ((shapeOf ws cs).map Prod.snd).map squeeze := by
  have hsame : ((shapeOf ws (squeeze cs)).bind fun x => some ((), x.2)) =
      ((shapeOf ws cs).bind fun x => some ((), x.2)).map fun x => (x.1, squeeze x.2) :=
    (follows_shapeOf respaces_squeeze hw).eq hcs
  cases h : shapeOf ws (squeeze cs) with
  | none =>
    cases h' : shapeOf ws cs with
    | none => rfl
    | some y => simp [h, h'] at hsame
  | some x =>
    cases h' : shapeOf ws cs with
    | none => simp [h, h'] at hsame
    | some y => simpa [h, h'] using hsame

/-! ## Text that ends in a quote -/

/-- In a text that ends in a quote, the shape reads the same whatever follows it, and no further
than the quote. -/
def StaysInside {α : Type} (s : Shape α) : Prop := ∀ q x : List Char, q.getLast? = some '"' →
  s (q ++ x) = (s q).map (fun y => (y.1, y.2 ++ x)) ∧
    ∀ a r, s q = some (a, r) → r.getLast? = some '"'

theorem StaysInside.bind {α β : Type} {s : Shape α} {k : α → Shape β} (hs : StaysInside s)
    (hk : ∀ a, StaysInside (k a)) : StaysInside (s >>= k) := by
  intro q x hq
  obtain ⟨hsame, hlast⟩ := hs q x hq
  constructor
  · show (s (q ++ x)).bind _ = ((s q).bind _).map _
    rw [hsame]
    cases h : s q with
    | none => rfl
    | some y => exact (hk y.1 y.2 x (hlast y.1 y.2 h)).1
  · intro b r h
    obtain ⟨a, r₁, ha, hb⟩ := bind_eq_some.mp h
    exact (hk a r₁ x (hlast a r₁ ha)).2 b r hb

theorem staysInside_pure {α : Type} (a : α) : StaysInside (pure a : Shape α) := by
  intro q x hq
  refine ⟨rfl, ?_⟩
  rintro b r ⟨⟩
  exact hq

theorem staysInside_wordEnd : StaysInside wordEnd := by
  intro q x hq
  cases q with
  | nil => cases hq
  | cons c q =>
    constructor
    · simp only [wordEnd, List.cons_append]
      split <;> rfl
    · intro a r h
      rw [(wordEnd_eq_some h).1]
      exact hq

theorem staysInside_keyword {w : String} (hw : isTidyWord w = true) : StaysInside (keyword w) := by
  have hlower : ∀ c ∈ w.toList, c.isLower = true :=
    List.all_eq_true.mp ((Bool.and_eq_true _ _).mp hw).2
  have hdrop : ∀ (q x : List Char), q.getLast? = some '"' →
      dropKeyword w.toList (q ++ x) = (dropKeyword w.toList q).map (· ++ x) ∧
        ∀ r, dropKeyword w.toList q = some r → r.getLast? = some '"' := by
    generalize w.toList = ws at hlower
    induction ws with
    | nil =>
      intro q x hq
      refine ⟨rfl, ?_⟩
      rintro r ⟨⟩
      exact hq
    | cons w ws ih =>
      intro q x hq
      obtain ⟨hfirst, hrest⟩ := List.forall_mem_cons.mp hlower
      cases q with
      | nil => cases hq
      | cons c q =>
        simp only [List.cons_append, dropKeyword]
        split
        · next hc =>
          refine ih hrest q x ?_
          cases q with
          | nil =>
            cases hq
            exact absurd rfl (isBare_of_standsFor hfirst hc).2.1
          | cons d q => exact hq
        · exact ⟨rfl, fun r h => by cases h⟩
  intro q x hq
  obtain ⟨hsame, hlast⟩ := hdrop q x hq
  constructor
  · simp [keyword, hsame, Function.comp_def]
  · intro a r h
    obtain ⟨r', hr, he⟩ := Option.map_eq_some_iff.mp h
    cases he
    exact hlast _ hr

theorem staysInside_gapSize : StaysInside gapSize := by
  intro q x hq
  have htight : EndsTight q := by
    intro c hc
    rw [hq] at hc
    cases hc
    decide
  have hne : q ≠ [] := by
    rintro rfl
    cases hq
  have hdrop : (q ++ x).dropWhile isBlank = q.dropWhile isBlank ++ x := htight.trimLeft_append hne x
  have htake : (q ++ x).takeWhile isBlank = q.takeWhile isBlank := by
    have hsplit := List.takeWhile_append_dropWhile (p := isBlank) (l := q ++ x)
    rw [hdrop, ← List.append_assoc] at hsplit
    have hfront := List.append_cancel_right hsplit
    conv_rhs at hfront => rw [← List.takeWhile_append_dropWhile (p := isBlank) (l := q)]
    exact List.append_cancel_right hfront
  constructor
  · simp only [gapSize, htake, hdrop]
    split <;> rfl
  · intro a r h
    unfold gapSize at h
    split at h
    · cases h
    · cases h
      exact htight.getLast?_trimLeft.trans hq

theorem staysInside_shapeOf {ws : List String} (hw : ∀ w ∈ ws, isTidyWord w = true) :
    StaysInside (shapeOf ws) := by
  induction ws with
  | nil => exact staysInside_wordEnd.bind fun _ => staysInside_pure _
  | cons w ws ih =>
    obtain ⟨hfirst, hrest⟩ := List.forall_mem_cons.mp hw
    cases ws with
    | nil => exact (staysInside_keyword hfirst).bind fun _ => staysInside_wordEnd.bind fun _ =>
        staysInside_pure _
    | cons v ws => exact (staysInside_keyword hfirst).bind fun _ =>
        staysInside_gapSize.bind fun _ => (ih hrest).bind fun _ => staysInside_pure _

/-! ## Replacing one phrase -/

section
variable {p : Phrase} (hp : p.isTidy = true) {c : Char}
include hp

theorem words_tidy : ∀ w ∈ p.words, isTidyWord w = true := by
  simp only [isTidy, Bool.and_eq_true] at hp
  exact List.all_eq_true.mp hp.1.1.2

/-- What the phrase takes where it stands. -/
theorem exists_taken (h : shapeOf p.words cs = some (n, r)) :
    ∃ d t, cs = d :: (t ++ r) ∧ t.length + 1 = n ∧ (isBlank d = false ∧ IsBare d) ∧
      ∀ c ∈ t, IsBare c := by
  have hw := words_tidy hp
  cases hws : p.words with
  | nil => simp [isTidy, hws] at hp
  | cons w ws =>
    rw [hws] at h hw
    exact shapeOf_eq_some hw h

theorem operator_tidy : ∃ o os, p.operator.toList = o :: os ∧
    ∀ c ∈ o :: os, isBlank c = false ∧ IsBare c := by
  simp only [isTidy, Bool.and_eq_true] at hp
  obtain ⟨⟨⟨-, -⟩, hne⟩, hall⟩ := hp
  obtain ⟨o, os, ho⟩ := List.exists_cons_of_ne_nil (l := p.operator.toList) (by simpa using hne)
  refine ⟨o, os, ho, fun c hc => ?_⟩
  rw [← ho] at hc
  have hc := List.all_eq_true.mp hall c hc
  simp only [Bool.and_eq_true, Bool.not_eq_true', bne_iff_ne] at hc
  exact ⟨hc.1.1, hc.1.2, hc.2⟩

omit hp in
theorem replaceFrom_nil (inWord : Bool) : p.replaceFrom inWord [] = [] := by
  unfold replaceFrom
  rfl

/-- Where the phrase stands, its operator comes instead. -/
theorem replaceFrom_of_some (h : shapeOf p.words cs = some (n, r)) :
    p.replaceFrom false cs = p.operator.toList ++ p.replaceFrom true r := by
  have hlength : p.length? cs = some n := first?_eq_some.mpr ⟨r, h⟩
  obtain ⟨d, t, rfl, rfl, -, -⟩ := exists_taken hp h
  conv_lhs => unfold replaceFrom
  simp [hlength]

omit hp in
/-- Elsewhere the text stays. -/
theorem replaceFrom_of_none {inWord : Bool}
    (h : inWord = true ∨ shapeOf p.words (c :: cs) = none) :
    p.replaceFrom inWord (c :: cs) = c :: p.replaceFrom (isWordChar c) cs := by
  have hnone : (if inWord then none else p.length? (c :: cs)) = none := by
    rcases h with rfl | h
    · rfl
    · simp [length?, first?, h]
  conv_lhs => unfold replaceFrom
  simp [hnone]

/-- No phrase begins with a blank, a quote or a backslash. -/
theorem shapeOf_eq_none (hc : isBlank c = true ∨ ¬ IsBare c) (cs : List Char) :
    shapeOf p.words (c :: cs) = none := by
  cases h : shapeOf p.words (c :: cs) with
  | none => rfl
  | some x =>
    obtain ⟨d, t, he, -, ⟨hblank, hbare⟩, -⟩ := exists_taken hp h
    cases he
    rcases hc with hc | hc
    · rw [hblank] at hc
      cases hc
    · exact absurd hbare hc

/-- The two ways in which a text goes on where it is not at its end. -/
theorem replaceFrom_cases (inWord : Bool) (c : Char) (cs : List Char) :
    (∃ t r n, inWord = false ∧ shapeOf p.words (c :: cs) = some (n, r) ∧ cs = t ++ r ∧
      (isBlank c = false ∧ IsBare c) ∧ ∀ d ∈ t, IsBare d) ∨
    (inWord = true ∨ shapeOf p.words (c :: cs) = none) := by
  cases inWord with
  | true => exact .inr (.inl rfl)
  | false =>
    cases h : shapeOf p.words (c :: cs) with
    | none => exact .inr (.inr rfl)
    | some x =>
      obtain ⟨d, t, he, -, hd, ht⟩ := exists_taken hp h
      cases he
      exact .inl ⟨t, x.2, x.1, rfl, rfl, rfl, hd, ht⟩

/-- A text that ends in a quote is done with before the rest is looked at. -/
theorem replaceFrom_append (inWord : Bool) {q : List Char} (hq : q.getLast? = some '"')
    (x : List Char) :
    p.replaceFrom inWord (q ++ x) = p.replaceFrom inWord q ++ p.replaceFrom false x := by
  generalize hlen : q.length = m
  induction m using Nat.strong_induction_on generalizing q inWord with
  | _ m ih =>
    cases q with
    | nil => cases hq
    | cons c q =>
      obtain ⟨hsame, hlast⟩ := staysInside_shapeOf (words_tidy hp) (c :: q) x hq
      rcases replaceFrom_cases hp inWord c q with ⟨t, r, n, rfl, h, rfl, -, -⟩ | h
      · rw [h, Option.map_some] at hsame
        rw [replaceFrom_of_some hp hsame, replaceFrom_of_some hp h, List.append_assoc]
        congr 1
        refine ih r.length ?_ true (hlast n r h) rfl
        simp only [List.length_cons, List.length_append] at hlen
        omega
      · have h' : inWord = true ∨ shapeOf p.words (c :: (q ++ x)) = none :=
          h.imp_right fun h => by rw [← List.cons_append, hsame, h]; rfl
        rw [replaceFrom_of_none h, List.cons_append, replaceFrom_of_none h', List.cons_append]
        congr 1
        cases q with
        | nil =>
          cases hq
          rw [replaceFrom_nil]
          rfl
        | cons d q => exact ih _ (by simp only [List.length_cons] at hlen ⊢; omega) _ hq rfl

/-! ## Literals -/

/-- What follows the closing quote of a literal that is open. -/
def afterQuote? (cs : List Char) : Option (List Char) := (closeQuote? cs).map Prod.snd

omit hp in
theorem afterQuote?_escape (hc : c ≠ '\n') (cs : List Char) :
    afterQuote? ('\\' :: c :: cs) = afterQuote? cs := by
  simp [afterQuote?, closeQuote?_escape, hc, Function.comp_def]

omit hp in
theorem afterQuote?_append {t : List Char} (ht : ∀ d ∈ t, IsBare d) (cs : List Char) :
    afterQuote? (t ++ cs) = afterQuote? cs := by
  induction t with
  | nil => rfl
  | cons d t ih =>
    obtain ⟨⟨hquote, hslash⟩, hrest⟩ := List.forall_mem_cons.mp ht
    rw [← ih hrest]
    simp [afterQuote?, closeQuote?_other hquote hslash, Function.comp_def]

/-- Replacing phrases closes a literal where it was closed. -/
theorem afterQuote?_replaceFrom (inWord : Bool) (cs : List Char) :
    afterQuote? (p.replaceFrom inWord cs) = (afterQuote? cs).map (p.replaceFrom false) := by
  obtain ⟨o, os, ho, hbare⟩ := operator_tidy hp
  obtain ⟨⟨hoblank, -⟩, hos⟩ := List.forall_mem_cons.mp hbare
  generalize hlen : cs.length = m
  induction m using Nat.strong_induction_on generalizing cs inWord with
  | _ m ih =>
    cases cs with
    | nil =>
      rw [replaceFrom_nil]
      rfl
    | cons c cs =>
      by_cases hquote : c = '"'
      · subst hquote
        rw [replaceFrom_of_none (.inr (shapeOf_eq_none hp (.inr (by simp [IsBare])) cs))]
        rfl
      by_cases hslash : c = '\\'
      · subst hslash
        rw [replaceFrom_of_none (.inr (shapeOf_eq_none hp (.inr (by simp [IsBare])) cs)),
          show isWordChar '\\' = false from by decide]
        cases cs with
        | nil =>
          rw [replaceFrom_nil]
          rfl
        | cons d ds =>
          -- The backslash takes along the character after it, or the operator's first one.
          by_cases hline : d = '\n'
          · subst hline
            rw [replaceFrom_of_none (.inr (shapeOf_eq_none hp (.inl (by decide)) ds))]
            simp [afterQuote?, closeQuote?_escape]
          rw [afterQuote?_escape hline]
          rcases replaceFrom_cases hp false d ds with ⟨t, r, n, -, h, rfl, hd, ht⟩ | h
          · rw [replaceFrom_of_some hp h, ho, List.cons_append, afterQuote?_escape
              (ne_of_isBlank (by decide) hoblank).symm, afterQuote?_append fun e he => (hos e he).2,
              afterQuote?_append ht]
            refine ih r.length ?_ true r rfl
            simp only [List.length_cons, List.length_append] at hlen
            omega
          · rw [replaceFrom_of_none h, afterQuote?_escape hline]
            exact ih ds.length (by simp only [List.length_cons] at hlen; omega) _ ds rfl
      · rcases replaceFrom_cases hp inWord c cs with ⟨t, r, n, rfl, h, rfl, hc, ht⟩ | h
        · have htaken : ∀ d ∈ c :: t, IsBare d := List.forall_mem_cons.mpr ⟨hc.2, ht⟩
          have hop : ∀ d ∈ p.operator.toList, IsBare d := by
            rw [ho]
            exact fun d hd => (hbare d hd).2
          rw [replaceFrom_of_some hp h, afterQuote?_append hop, ← List.cons_append,
            afterQuote?_append htaken]
          refine ih r.length ?_ true r rfl
          simp only [List.length_cons, List.length_append] at hlen
          omega
        · have hone : ∀ d ∈ [c], IsBare d := by simp [IsBare, hquote, hslash]
          rw [replaceFrom_of_none h, ← List.singleton_append, afterQuote?_append hone,
            ← List.singleton_append, afterQuote?_append hone]
          exact ih cs.length (by simp only [List.length_cons] at hlen; omega) _ cs rfl

theorem closeQuote?_replaceFrom {l : List Char} (h : closeQuote? cs = some (l, r)) (inWord : Bool)
    (x : List Char) : closeQuote? (p.replaceFrom inWord l ++ x) =
      some (p.replaceFrom inWord l, x) := by
  have hl : afterQuote? (p.replaceFrom inWord l) = some [] := by
    have hclose := closeQuote?_append_right h []
    rw [List.append_nil] at hclose
    rw [afterQuote?_replaceFrom hp, afterQuote?, hclose, Option.map_some, Option.map_some,
      replaceFrom_nil]
  obtain ⟨y, hy, hnil⟩ := Option.map_eq_some_iff.mp hl
  have hfull := closeQuote?_append hy
  rw [hnil, List.append_nil] at hfull
  have hx := closeQuote?_append_left (l := y.1) (r := y.2) hy x
  rw [hx, hnil, hfull]
  rfl

theorem closeQuote?_replaceFrom_eq_none (h : closeQuote? cs = none) (inWord : Bool) :
    closeQuote? (p.replaceFrom inWord cs) = none := by
  have hnone := afterQuote?_replaceFrom hp inWord cs
  rw [afterQuote?, afterQuote?, h] at hnone
  exact Option.map_eq_none_iff.mp hnone

/-- A literal begins with its quote, whatever stands in front of it. -/
theorem replaceFrom_literal {cs l r : List Char} (h : quoted? cs = some (l, r)) (inWord : Bool)
    (x : List Char) : p.replaceFrom inWord l = p.replace l ∧
      quoted? (p.replaceFrom inWord l ++ x) = some (p.replaceFrom inWord l, x) := by
  obtain ⟨ds, m, rfl, rfl, hm⟩ := quoted?_eq_some h
  have hquote : ∀ b, p.replaceFrom b ('"' :: m) = '"' :: p.replaceFrom (isWordChar '"') m :=
    fun b => replaceFrom_of_none (.inr (shapeOf_eq_none hp (.inr (by simp [IsBare])) m))
  refine ⟨by rw [replace, hquote, hquote], ?_⟩
  rw [hquote, List.cons_append, quoted?_quote, closeQuote?_replaceFrom hp hm]
  rfl

/-- No literal begins where none did. -/
theorem quoted?_replaceFrom_eq_none {c : Char} (h : quoted? (c :: cs) = none) (inWord : Bool) :
    quoted? (c :: p.replaceFrom inWord cs) = none := by
  by_cases hquote : c = '"'
  · subst hquote
    rw [quoted?_quote, Option.map_eq_none_iff] at h ⊢
    exact closeQuote?_replaceFrom_eq_none hp h inWord
  · exact quoted?_other hquote _

/-! ## Spacing -/

theorem trimLeft_replaceFrom (cs : List Char) :
    trimLeft (p.replaceFrom false cs) = p.replaceFrom false (trimLeft cs) := by
  induction cs with
  | nil =>
    rw [replaceFrom_nil]
    exact (replaceFrom_nil false).symm
  | cons c cs ih =>
    cases hc : isBlank c with
    | true =>
      rw [replaceFrom_of_none (.inr (shapeOf_eq_none hp (.inl hc) cs)), trimLeft_cons_blank hc,
        trimLeft_cons_blank hc, class_of_isBlank (fun _ => isBlank_of_isWordChar) hc, ih]
    | false =>
      have hhead : trimLeft (c :: cs) = c :: cs := trimLeft_eq_self (by simp [hc])
      rw [hhead]
      refine trimLeft_eq_self fun d hd => ?_
      rcases replaceFrom_cases hp false c cs with ⟨t, r, n, -, h, -, -, -⟩ | h
      · obtain ⟨o, os, ho, hbare⟩ := operator_tidy hp
        rw [replaceFrom_of_some hp h, ho] at hd
        cases hd
        exact (hbare _ List.mem_cons_self).1
      · rw [replaceFrom_of_none h] at hd
        cases hd
        exact hc

omit hp in
theorem squeeze_append_of_bare {t : List Char} (ht : ∀ d ∈ t, isBlank d = false ∧ IsBare d)
    (cs : List Char) : squeeze (t ++ cs) = t ++ squeeze cs := by
  induction t with
  | nil => rfl
  | cons d t ih =>
    obtain ⟨⟨hblank, hquote, -⟩, hrest⟩ := List.forall_mem_cons.mp ht
    rw [List.cons_append, Line.squeeze_other hblank hquote, ih hrest, List.cons_append]

/-- The phrase is replaced in squeezed text as in the text. -/
theorem replaceFrom_squeeze (inWord : Bool) (hcs : Line.IsCode cs) :
    p.replaceFrom inWord (squeeze cs) = squeeze (p.replaceFrom inWord cs) := by
  -- By the length of the text: a phrase, a literal and a gap are each taken in one piece.
  generalize hlen : cs.length = m
  induction m using Nat.strong_induction_on generalizing cs inWord with
  | _ m ih =>
    cases cs with
    | nil => rw [Line.squeeze_nil, replaceFrom_nil, Line.squeeze_nil]
    | cons c cs =>
      have hrest : Line.IsCode cs := hcs.of_suffix (List.suffix_cons c cs)
      cases hc : isBlank c with
      | true =>
        have hleft : trimLeft cs <:+ cs := List.dropWhile_suffix _
        have hword : isWordChar c = false := class_of_isBlank (fun _ => isBlank_of_isWordChar) hc
        rw [Line.squeeze_cons_blank hc,
          replaceFrom_of_none (.inr (shapeOf_eq_none hp (.inl (by decide)) _)),
          replaceFrom_of_none (.inr (shapeOf_eq_none hp (.inl hc) cs)), hword,
          Line.squeeze_cons_blank hc, trimLeft_replaceFrom hp,
          show isWordChar ' ' = false from by decide]
        have hshort := hleft.length_le
        simp only [List.length_cons] at hlen
        rw [ih (trimLeft cs).length (by omega) false (hrest.of_suffix hleft) rfl]
      | false =>
        cases hq : quoted? (c :: cs) with
        | some x =>
          -- what the phrase becomes inside the literal does not close it
          have hsplit := quoted?_append hq
          have hlast := getLast?_of_quoted? hq
          have hr : Line.IsCode x.2 := hcs.of_suffix ⟨x.1, hsplit⟩
          have hliteral := (replaceFrom_literal hp hq inWord (p.replaceFrom false x.2)).2
          rw [Line.squeeze_of_quoted? hq, replaceFrom_append hp inWord hlast,
            ih x.2.length (hlen ▸ quoted?_length hq) false hr rfl]
          conv_rhs => rw [← hsplit, replaceFrom_append hp inWord hlast]
          rw [Line.squeeze_of_quoted? hliteral]
        | none =>
          -- the phrase stands in both texts or in neither, with its gaps squeezed
          have hsame := shapeOf_squeeze (words_tidy hp) hcs
          have hcons := Line.squeeze_cons hc hq
          rcases replaceFrom_cases hp inWord c cs with ⟨t, r, n, rfl, h, rfl, -, -⟩ | h
          · rw [h, Option.map_some, Option.map_some] at hsame
            obtain ⟨y, hy, hyr⟩ := Option.map_eq_some_iff.mp hsame
            obtain ⟨o, os, ho, hbare⟩ := operator_tidy hp
            have hr : Line.IsCode r := hrest.of_suffix (List.suffix_append t r)
            simp only [List.length_cons, List.length_append] at hlen
            rw [replaceFrom_of_some hp (n := y.1) (r := y.2) hy, hyr, replaceFrom_of_some hp h, ho,
              squeeze_append_of_bare hbare, ih r.length (by omega) true hr rfl]
          · have h' : inWord = true ∨ shapeOf p.words (c :: squeeze cs) = none := by
              refine h.imp_right fun h => ?_
              rw [h] at hsame
              rw [← hcons]
              exact Option.map_eq_none_iff.mp hsame
            have hopen := quoted?_replaceFrom_eq_none hp hq (isWordChar c)
            simp only [List.length_cons] at hlen
            rw [hcons, replaceFrom_of_none h', replaceFrom_of_none h, Line.squeeze_cons hc hopen,
              ih cs.length (by omega) _ hrest rfl]

theorem replaceFrom_eq_nil {inWord : Bool} (h : p.replaceFrom inWord cs = []) : cs = [] := by
  cases cs with
  | nil => rfl
  | cons c cs =>
    rcases replaceFrom_cases hp inWord c cs with ⟨t, r, n, rfl, h', -, -, -⟩ | h'
    · obtain ⟨o, os, ho, -⟩ := operator_tidy hp
      rw [replaceFrom_of_some hp h', ho] at h
      cases h
    · rw [replaceFrom_of_none h'] at h
      cases h

omit hp in
theorem isCode_append {t : List Char} (ht : ∀ d ∈ t, isBlank d = false) (hcs : Line.IsCode cs) :
    Line.IsCode (t ++ cs) := by
  constructor
  · intro d hd
    rw [List.getLast?_append, Option.or_eq_some_iff] at hd
    rcases hd with hd | ⟨-, hd⟩
    · exact hcs.last d hd
    · exact ht d (List.mem_of_getLast? hd)
  · intro hmem
    rcases List.mem_append.mp hmem with hmem | hmem
    · exact absurd (ht _ hmem) (by decide)
    · exact hcs.oneLine hmem

omit hp in
theorem isCode_cons {c : Char} {x : List Char} (hcs : Line.IsCode (c :: cs)) (hx : Line.IsCode x)
    (hnil : x = [] → cs = []) : Line.IsCode (c :: x) := by
  constructor
  · intro d hd
    cases x with
    | nil =>
      rw [hnil rfl] at hcs
      exact hcs.last d hd
    | cons e es => exact hx.last d hd
  · intro hmem
    rcases List.mem_cons.mp hmem with he | hmem
    · exact hcs.oneLine (he ▸ List.mem_cons_self)
    · exact hx.oneLine hmem

/-- Replacing a phrase leaves the code of one line. -/
theorem isCode_replaceFrom (inWord : Bool) (hcs : Line.IsCode cs) :
    Line.IsCode (p.replaceFrom inWord cs) := by
  generalize hlen : cs.length = m
  induction m using Nat.strong_induction_on generalizing cs inWord with
  | _ m ih =>
    cases cs with
    | nil =>
      rw [replaceFrom_nil]
      exact hcs
    | cons c cs =>
      have hrest : Line.IsCode cs := hcs.of_suffix (List.suffix_cons c cs)
      rcases replaceFrom_cases hp inWord c cs with ⟨t, r, n, rfl, h, rfl, -, -⟩ | h
      · obtain ⟨o, os, ho, hbare⟩ := operator_tidy hp
        simp only [List.length_cons, List.length_append] at hlen
        have hr := ih r.length (by omega) true (hrest.of_suffix (List.suffix_append t r)) rfl
        rw [replaceFrom_of_some hp h, ho]
        exact isCode_append (fun d hd => (hbare d hd).1) hr
      · simp only [List.length_cons] at hlen
        have htail := ih cs.length (by omega) (isWordChar c) hrest rfl
        rw [replaceFrom_of_none h]
        exact isCode_cons hcs htail (replaceFrom_eq_nil hp)

end

/-- Squeezed text reads like the text with its phrases replaced, squeezed. -/
theorem replaceAll_squeeze (hcs : Line.IsCode cs) :
    replaceAll (squeeze cs) = squeeze (replaceAll cs) ∧ Line.IsCode (replaceAll cs) := by
  have hall := isTidy_of_mem_all
  unfold replaceAll
  generalize all = ps at hall
  induction ps generalizing cs with
  | nil => exact ⟨rfl, hcs⟩
  | cons p ps ih =>
    obtain ⟨hp, hps⟩ := List.forall_mem_cons.mp hall
    rw [List.foldl_cons, List.foldl_cons, replace, replaceFrom_squeeze hp false hcs]
    exact ih (isCode_replaceFrom hp false hcs) hps

theorem trimLeft_replaceAll (cs : List Char) :
    trimLeft (replaceAll cs) = replaceAll (trimLeft cs) := by
  have hall := isTidy_of_mem_all
  unfold replaceAll
  generalize all = ps at hall
  induction ps generalizing cs with
  | nil => rfl
  | cons p ps ih =>
    obtain ⟨hp, hps⟩ := List.forall_mem_cons.mp hall
    rw [List.foldl_cons, List.foldl_cons, ih _ hps, replace, trimLeft_replaceFrom hp, replace]

end PlainSketch.Phrase
