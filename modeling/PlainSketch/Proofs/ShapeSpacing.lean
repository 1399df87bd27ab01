import PlainSketch.Proofs.LineSorts
import PlainSketch.Proofs.Spacing

/-!
# Shapes and spacing

Blanks can be respaced in two ways: `squeeze` spares what is quoted, `flat` spares nothing. Both
turn a gap into one space and leave everything else, so a shape made of keywords, gaps, names and
numerals reads the same before and after. `Follows` says so of a shape, and there is one lemma for
each way in which shapes are put together.
-/
namespace PlainSketch
open Text Shape

/-- Turns gaps into single spaces, and nothing else outside quotes. -/
structure Text.Respaces (φ : List Char → List Char) : Prop where
  nil : φ [] = []
  blank : ∀ {c : Char}, isBlank c = true → ∀ cs, φ (c :: cs) = ' ' :: φ (trimLeft cs)
  other : ∀ {c : Char}, isBlank c = false → c ≠ '"' → ∀ cs, φ (c :: cs) = c :: φ cs
  quote : ∀ cs, ∃ ds, φ ('"' :: cs) = '"' :: ds
  isCode : ∀ {cs}, Line.IsCode cs → Line.IsCode (φ cs)

namespace Text

theorem respaces_flat : Respaces flat where
  nil := rfl
  blank := flat_cons_blank
  other hc _ := flat_cons hc
  quote cs := ⟨flat cs, flat_cons (by decide) cs⟩
  isCode h := by
    refine ⟨fun c hc => h.last c (by rwa [getLast?_flat h.last] at hc), fun hmem => ?_⟩
    rcases mem_flat hmem with hspace | hmem
    · cases hspace
    · exact h.oneLine hmem

theorem respaces_squeeze : Respaces Line.squeeze where
  nil := Line.squeeze_nil
  blank := Line.squeeze_cons_blank
  other := Line.squeeze_other
  quote cs := by
    have hhead : (Line.squeeze ('"' :: cs)).head? = some '"' := Line.head?_squeeze (by simp; decide)
    obtain ⟨ds, hds⟩ := List.head?_eq_some_iff.mp hhead
    exact ⟨ds, hds⟩
  isCode h := ⟨Line.endsTight_squeeze h.last, Line.newline_not_mem_squeeze h.oneLine⟩

namespace Respaces
variable {φ : List Char → List Char} (hφ : Respaces φ)
include hφ

/-- The first character is the same, but for the kind of a blank. -/
theorem exists_cons (c : Char) (cs : List Char) :
    ∃ ds, φ (c :: cs) = (if isBlank c then ' ' else c) :: ds := by
  by_cases hc : isBlank c = true
  · exact ⟨_, by rw [if_pos hc, hφ.blank hc]⟩
  · rw [if_neg hc]
    by_cases hq : c = '"'
    · rw [hq]
      exact hφ.quote cs
    · exact ⟨_, hφ.other (by simpa using hc) hq cs⟩

theorem eq_nil_iff {cs : List Char} : φ cs = [] ↔ cs = [] := by
  constructor
  · intro h
    cases cs with
    | nil => rfl
    | cons c cs =>
      obtain ⟨ds, hds⟩ := hφ.exists_cons c cs
      rw [h] at hds
      cases hds
  · rintro rfl
    exact hφ.nil

theorem trimLeft_eq (cs : List Char) : trimLeft (φ cs) = φ (trimLeft cs) := by
  have tight : ∀ ds : List Char, (∀ c, ds.head? = some c → isBlank c = false) →
      trimLeft (φ ds) = φ ds := by
    intro ds hds
    cases ds with
    | nil => rw [hφ.nil]; rfl
    | cons c ds =>
      obtain ⟨es, hes⟩ := hφ.exists_cons c ds
      have hc : isBlank c = false := hds c rfl
      rw [hes, if_neg (by simp [hc])]
      exact trimLeft_eq_self (by simpa using hc)
  cases cs with
  | nil => rw [hφ.nil]; exact hφ.nil.symm
  | cons c cs =>
    by_cases hc : isBlank c = true
    · rw [hφ.blank hc, trimLeft_cons_blank (by decide), trimLeft_cons_blank hc,
        tight _ fun d hd => head?_trimLeft cs hd]
    · have hhead : ∀ d, (c :: cs).head? = some d → isBlank d = false := by
        rintro d ⟨⟩
        simpa using hc
      rw [tight _ hhead, trimLeft_eq_self hhead]

section
variable {p : Char → Bool} (hp : ∀ c, p c = true → isBlank c = false ∧ c ≠ '"')
include hp

/-- A row of characters that are neither blanks nor quotes stays, and so does what follows it. -/
theorem takeWhile_eq (cs : List Char) :
    (φ cs).takeWhile p = cs.takeWhile p ∧ (φ cs).dropWhile p = φ (cs.dropWhile p) := by
  have stop : p ' ' = false ∧ p '"' = false := by
    constructor
    · rw [Bool.eq_false_iff]
      intro h
      cases (hp _ h).1
    · rw [Bool.eq_false_iff]
      intro h
      exact (hp _ h).2 rfl
  induction cs with
  | nil => rw [hφ.nil]; exact ⟨rfl, hφ.nil.symm⟩
  | cons c cs ih =>
    by_cases hc : p c = true
    · rw [hφ.other (hp c hc).1 (hp c hc).2, List.takeWhile_cons_of_pos hc,
        List.dropWhile_cons_of_pos hc, List.takeWhile_cons_of_pos hc, List.dropWhile_cons_of_pos hc,
        ih.1]
      exact ⟨rfl, ih.2⟩
    · obtain ⟨ds, hds⟩ := hφ.exists_cons c cs
      have hhead : p (if isBlank c then ' ' else c) = false := by
        split
        · exact stop.1
        · simpa using hc
      rw [List.takeWhile_cons_of_neg hc, List.dropWhile_cons_of_neg hc, hds,
        List.takeWhile_cons_of_neg (by simp [hhead]), List.dropWhile_cons_of_neg (by simp [hhead])]
      exact ⟨rfl, rfl⟩

end
end Respaces
end Text

/-! ## Shapes -/

namespace Shape

/-- What `s` reads in the code of a line, `t` reads in the respaced code, up to `f`. -/
structure Follows {α β : Type} (φ : List Char → List Char) (f : α → β) (s : Shape α)
    (t : Shape β) : Prop where
  leaves : Leaves s
  eq : ∀ {cs}, Line.IsCode cs → t (φ cs) = (s cs).map fun x => (f x.1, φ x.2)

variable {α β γ δ : Type} {φ : List Char → List Char} {f : α → β} {g : γ → δ}

theorem follows_pure (a : α) (b : β) (h : b = f a) : Follows φ f (pure a) (pure b) :=
  ⟨leaves_pure a, fun _ => by rw [h]; rfl⟩

theorem Follows.bind {s : Shape α} {t : Shape β} {k : α → Shape γ} {l : β → Shape δ}
    (hs : Follows φ f s t) (hk : ∀ a, Follows φ g (k a) (l (f a))) :
    Follows φ g (s >>= k) (t >>= l) where
  leaves := hs.leaves.bind fun a => (hk a).leaves
  eq {cs} hcs := by
    show ((t (φ cs)).bind fun x => l x.1 x.2) = ((s cs).bind fun x => k x.1 x.2).map _
    rw [hs.eq hcs]
    cases h : s cs with
    | none => rfl
    | some x => exact (hk x.1).eq (hcs.of_suffix (hs.leaves cs x.1 x.2 h))

theorem Follows.either {s s' : Shape α} {t t' : Shape β} (hs : Follows φ f s t)
    (hs' : Follows φ f s' t') : Follows φ f (either s s') (either t t') where
  leaves := either_leaves hs.leaves hs'.leaves
  eq {cs} hcs := by
    show (t (φ cs) <|> t' (φ cs)) = (s cs <|> s' cs).map _
    rw [hs.eq hcs, hs'.eq hcs]
    cases s cs <;> rfl

theorem Follows.first? {s : Shape α} {t : Shape β} (h : Follows φ f s t) {cs : List Char}
    (hcs : Line.IsCode cs) : t.first? (φ cs) = (s.first? cs).map f := by
  rw [Shape.first?, h.eq hcs, Shape.first?]
  cases s cs <;> rfl

theorem Follows.fits {s : Shape α} {t : Shape β} (h : Follows φ f s t) {cs : List Char}
    (hcs : Line.IsCode cs) : t.fits (φ cs) = s.fits cs := by
  rw [Shape.fits, h.eq hcs, Shape.fits, Option.isSome_map]

section
variable (hφ : Respaces φ)
include hφ

theorem follows_gap : Follows φ id gap gap where
  leaves := gap_leaves
  eq {cs} _ := by
    cases cs with
    | nil => rw [hφ.nil]; rfl
    | cons c cs =>
      by_cases hc : isBlank c = true
      · rw [hφ.blank hc]
        simp only [gap, hc, if_true, show isBlank ' ' = true from rfl, hφ.trimLeft_eq]
        rw [trimLeft_eq_self fun d hd => head?_trimLeft cs hd]
        rfl
      · obtain ⟨ds, hds⟩ := hφ.exists_cons c cs
        rw [if_neg hc] at hds
        rw [hds]
        simp [gap, hc]

theorem follows_optGap : Follows φ id optGap optGap where
  leaves := optGap_leaves
  eq {cs} _ := by
    rw [optGap, hφ.trimLeft_eq]
    rfl

theorem follows_wordEnd : Follows φ id wordEnd wordEnd where
  leaves := wordEnd_leaves
  eq {cs} _ := by
    cases cs with
    | nil => rw [hφ.nil]; simp [wordEnd, hφ.nil]
    | cons c cs =>
      obtain ⟨ds, hds⟩ := hφ.exists_cons c cs
      have hword : isWordChar (if isBlank c then ' ' else c) = isWordChar c := by
        split
        · next hc =>
          rw [Bool.eq_iff_iff]
          refine ⟨fun h => absurd h (by decide +kernel), fun h => ?_⟩
          rw [isBlank_of_isWordChar h] at hc
          cases hc
        · rfl
      rw [hds]
      simp only [wordEnd, hword]
      split
      · rfl
      · rw [← hds]; rfl

theorem follows_name : Follows φ id name name where
  leaves := name_leaves
  eq {cs} _ := by
    have hword : ∀ c, isWordChar c = true → isBlank c = false ∧ c ≠ '"' := by
      intro c hc
      refine ⟨isBlank_of_isWordChar hc, ?_⟩
      rintro rfl
      revert hc
      decide
    cases cs with
    | nil => rw [hφ.nil]; rfl
    | cons c cs =>
      by_cases hc : isNameStart c = true
      · have hq : c ≠ '"' := by
          rintro rfl
          revert hc
          decide
        obtain ⟨htake, hdrop⟩ := hφ.takeWhile_eq hword cs
        rw [hφ.other (isBlank_of_isNameStart hc) hq]
        simp only [name, hc, if_true, htake, hdrop]
        rfl
      · obtain ⟨ds, hds⟩ := hφ.exists_cons c cs
        have hhead : isNameStart (if isBlank c then ' ' else c) = false := by
          split
          · decide
          · simpa using hc
        rw [hds]
        simp [name, hhead, hc]

theorem follows_digits : Follows φ id digits digits where
  leaves := digits_leaves
  eq {cs} _ := by
    have hdigit : ∀ c, isDigit c = true → isBlank c = false ∧ c ≠ '"' := by
      intro c hc
      refine ⟨isBlank_of_isDigit hc, ?_⟩
      rintro rfl
      revert hc
      decide +kernel
    obtain ⟨htake, hdrop⟩ := hφ.takeWhile_eq hdigit cs
    simp only [digits, htake, hdrop]
    split <;> rfl

theorem follows_signedDigits : Follows φ id signedDigits signedDigits where
  leaves := signedDigits_leaves
  eq {cs} hcs := by
    cases cs with
    | nil => rw [hφ.nil]; simp [signedDigits, digits]
    | cons c cs =>
      by_cases hc : c = '-'
      · rw [hc, hφ.other (by decide) (by decide)]
        have hrest := (follows_digits hφ).eq (hcs.of_suffix (List.suffix_cons c cs))
        simp only [signedDigits, hrest, Option.map_map]
        rfl
      · obtain ⟨ds, hds⟩ := hφ.exists_cons c cs
        have hminus : (if isBlank c then ' ' else c) ≠ '-' := by
          split
          · decide
          · exact hc
        have plain : ∀ (d : Char) (es : List Char), d ≠ '-' →
            signedDigits (d :: es) = digits (d :: es) := by
          intro d es hd
          rw [signedDigits]
          intro r hr
          exact hd (List.cons.inj hr).1
        rw [plain c cs hc, hds, plain _ _ hminus, ← hds]
        exact (follows_digits hφ).eq hcs

/-! ### Keywords -/

/-- A keyword without blanks and quotes. -/
def isPlain (w : String) : Bool := w.toList.all fun c => !isBlank c && c != '"'

omit hφ in
theorem plain_of_standsFor {w c : Char} (hw : isBlank w = false ∧ w ≠ '"')
    (h : standsFor w c = true) : isBlank c = false ∧ c ≠ '"' := by
  simp only [standsFor, Bool.or_eq_true, Bool.and_eq_true, beq_iff_eq] at h
  rcases h with ((h | ⟨-, rfl⟩) | ⟨-, rfl⟩) | ⟨-, rfl | rfl⟩
  · refine ⟨by rw [← isBlank_toLower, h]; exact hw.1, ?_⟩
    rintro rfl
    exact hw.2 h.symm
  · decide
  · decide
  · decide
  · decide

/-- A keyword stays where it is. -/
theorem dropKeyword_eq {ws : List Char} (hw : ∀ w ∈ ws, isBlank w = false ∧ w ≠ '"')
    (cs : List Char) :
    dropKeyword ws (φ cs) = (dropKeyword ws cs).map φ ∧
      ∀ r, dropKeyword ws cs = some r → ∃ h, cs = h ++ r ∧ φ cs = h ++ φ r := by
  induction ws generalizing cs with
  | nil =>
    refine ⟨rfl, ?_⟩
    rintro r ⟨⟩
    exact ⟨[], rfl, rfl⟩
  | cons w ws ih =>
    cases cs with
    | nil => rw [hφ.nil]; exact ⟨rfl, nofun⟩
    | cons c cs =>
      obtain ⟨hfirst, hrest⟩ := List.forall_mem_cons.mp hw
      by_cases hc : standsFor w c = true
      · obtain ⟨hblank, hquote⟩ := plain_of_standsFor hfirst hc
        obtain ⟨hdrop, hsplit⟩ := ih hrest cs
        rw [hφ.other hblank hquote]
        simp only [dropKeyword, hc, if_true]
        refine ⟨hdrop, fun r hr => ?_⟩
        obtain ⟨h, rfl, hh⟩ := hsplit r hr
        exact ⟨c :: h, rfl, by rw [hh]; rfl⟩
      · obtain ⟨ds, hds⟩ := hφ.exists_cons c cs
        have hhead : standsFor w (if isBlank c then ' ' else c) = false := by
          split
          · rw [Bool.eq_false_iff]
            intro h
            have hspace := (plain_of_standsFor hfirst h).1
            cases hspace
          · simpa using hc
        rw [hds]
        simp [dropKeyword, hhead, hc]

theorem dropKeyword_word {w : String} (hw : isPlain w = true) (cs : List Char) :
    dropKeyword w.toList (φ cs) = (dropKeyword w.toList cs).map φ ∧
      ∀ r, dropKeyword w.toList cs = some r → ∃ h, cs = h ++ r ∧ φ cs = h ++ φ r :=
  dropKeyword_eq hφ (fun c hc => by simpa using List.all_eq_true.mp hw c hc) cs

theorem follows_keyword {w : String} (hw : isPlain w = true) :
    Follows φ id (keyword w) (keyword w) where
  leaves := keyword_leaves w
  eq {cs} _ := by
    rw [keyword, (dropKeyword_word hφ hw cs).1, keyword]
    cases dropKeyword w.toList cs <;> rfl

theorem follows_nextKeyword {w : String} (hw : isPlain w = true) :
    Follows φ id (nextKeyword w) (nextKeyword w) :=
  (follows_gap hφ).bind fun _ => follows_keyword hφ hw

theorem follows_spellingOf {ws : List String} (hw : ∀ w ∈ ws, isPlain w = true) :
    Follows φ id (spellingOf ws) (spellingOf ws) where
  leaves := spellingOf_leaves ws
  eq {cs} hcs := by
    induction ws with
    | nil => rfl
    | cons w ws ih =>
      obtain ⟨hfirst, hrest⟩ := List.forall_mem_cons.mp hw
      have hspelling : spelling w (φ cs) = (spelling w cs).map fun x => (id x.1, φ x.2) := by
        obtain ⟨hdrop, hsplit⟩ := dropKeyword_word hφ hfirst cs
        rw [spelling, hdrop, spelling]
        cases hr : dropKeyword w.toList cs with
        | none => rfl
        | some r =>
          obtain ⟨h, hcs, hh⟩ := hsplit r hr
          rw [hh, hcs]
          simp
      show (spelling w (φ cs) <|> spellingOf ws (φ cs)) = (spelling w cs <|> spellingOf ws cs).map _
      rw [hspelling, ih hrest]
      cases spelling w cs <;> rfl

/-! ### The end of a line -/

omit hφ in
theorem allBlank_eq_isEmpty {cs : List Char} (h : Line.IsCode cs) : allBlank cs = cs.isEmpty := by
  by_cases hne : cs = []
  · rw [hne]
    rfl
  · have hlast := h.last _ (List.getLast?_eq_some_getLast hne)
    rw [List.isEmpty_eq_false_iff.mpr hne, allBlank, Bool.eq_false_iff]
    intro hall
    rw [List.all_eq_true.mp hall _ (List.getLast_mem hne)] at hlast
    cases hlast

theorem follows_lineEnd : Follows φ id lineEnd lineEnd where
  leaves := lineEnd_leaves
  eq {cs} hcs := by
    have hempty : (φ cs).isEmpty = cs.isEmpty := by
      rw [Bool.eq_iff_iff, List.isEmpty_iff, List.isEmpty_iff]
      exact hφ.eq_nil_iff
    rw [lineEnd, lineEnd, allBlank_eq_isEmpty (hφ.isCode hcs), allBlank_eq_isEmpty hcs, hempty]
    split
    · rw [Option.map_some, hφ.nil]
    · rfl

theorem follows_lastName : Follows φ id lastName lastName :=
  (follows_gap hφ).bind fun _ => (follows_name hφ).bind fun _ =>
    (follows_lineEnd hφ).bind fun _ => follows_pure _ _ rfl

theorem follows_intoName : Follows φ id intoName intoName :=
  (follows_nextKeyword hφ (by decide)).bind fun _ => follows_lastName hφ

omit hφ in
theorem optRest_eq {cs : List Char} (h : Line.IsCode cs) : optRest cs = some (cs, []) := by
  rw [optRest, trimRight_eq_self h.last]
  exact if_neg (by simpa using h.oneLine)

omit hφ in
theorem optRest_leaves : Leaves optRest := by
  intro cs a r h
  simp only [optRest] at h
  split at h
  · cases h
  · cases h
    exact List.nil_suffix

theorem follows_optRest : Follows φ φ optRest optRest where
  leaves := optRest_leaves
  eq {cs} hcs := by
    rw [optRest_eq hcs, optRest_eq (hφ.isCode hcs)]
    simp [hφ.nil]

omit hφ in
theorem value_leaves : Leaves value := by
  intro cs v r h
  obtain ⟨x, r', hx, hr⟩ := bind_eq_some.mp h
  cases hr
  obtain ⟨u, hu, hend⟩ := readsUpTo_textToEnd.exists_suffix hx
  exact (lineEnd_leaves _ _ _ hend).trans hu

theorem follows_value : Follows φ φ value value where
  leaves := value_leaves
  eq {cs} hcs := by
    rw [value_eq hcs, value_eq (hφ.isCode hcs), (follows_gap hφ).eq hcs, Option.map_map,
      Option.map_map]
    simp [Function.comp_def, hφ.nil]

end
end Shape
end PlainSketch
