import PlainSketch.Expression
import PlainSketch.Proofs.FreeText

/-!
# Operands of squeezed lines

Squeezing an operand changes neither the type of a value nor the names that it uses, and phrases are
replaced before or after it alike: phrases hold no quotes, so a literal stays one when they are
replaced inside it. Of words that name a pin, blanks matter from the first quote on only.
-/
namespace PlainSketch
open Text
open Line (squeeze hollow isStringLiteral isFloatLiteral splitsAtPoint words)

/-! ## Types -/

namespace Line
variable {cs : List Char}

/-- Text without blanks is the same squeezed. -/
theorem trim_squeeze_of_not_blank
    (h : (∀ c ∈ trim cs, isBlank c = false) ∨ ∀ c ∈ trim (squeeze cs), isBlank c = false) :
    trim (squeeze cs) = trim cs := by
  rw [← squeeze_trim] at h ⊢
  exact squeeze_of_not_blank (h.elim id not_blank_of_squeeze)

/-- A test that no text with blanks passes does not mind squeezing. -/
theorem test_trim_squeeze {p : List Char → Bool}
    (hp : ∀ ds, p ds = true → ∀ c ∈ ds, isBlank c = false) (cs : List Char) :
    p (trim (squeeze cs)) = p (trim cs) := by
  cases h : p (trim cs) with
  | true => rw [trim_squeeze_of_not_blank (.inl (hp _ h)), h]
  | false =>
    cases h' : p (trim (squeeze cs)) with
    | false => rfl
    | true =>
      rw [trim_squeeze_of_not_blank (.inr (hp _ h')), h] at h'
      cases h'

theorem not_blank_of_isNatural (h : isNatural cs = true) : ∀ c ∈ cs, isBlank c = false := by
  intro c hc
  obtain ⟨-, hall⟩ := (Bool.and_eq_true _ _).mp h
  exact isBlank_of_isDigit (List.all_eq_true.mp hall c hc)

theorem not_blank_of_isInteger (h : isInteger cs = true) : ∀ c ∈ cs, isBlank c = false := by
  unfold isInteger at h
  split at h
  · exact List.forall_mem_cons.mpr ⟨by decide, not_blank_of_isNatural h⟩
  · exact not_blank_of_isNatural h

theorem not_blank_of_analogLabel? (h : (analogLabel? cs).isSome = true) :
    ∀ c ∈ trim cs, isBlank c = false := by
  unfold analogLabel? at h
  split at h
  · next d ds htrim =>
    split at h
    · next hd =>
      obtain ⟨hletter, hdigits⟩ := (Bool.and_eq_true _ _).mp hd
      rw [htrim]
      refine List.forall_mem_cons.mpr ⟨?_, not_blank_of_isNatural hdigits⟩
      rcases (Bool.or_eq_true _ _).mp hletter with hA | ha
      · rw [beq_iff_eq.mp hA]
        decide
      · rw [beq_iff_eq.mp ha]
        decide
    · cases h
  · cases h

theorem not_blank_of_splitsAtPoint (h : splitsAtPoint isInteger isNatural cs = true) :
    ∀ c ∈ cs, isBlank c = false := by
  unfold splitsAtPoint at h
  split at h
  · next d r hr =>
    obtain ⟨hlow, hhigh⟩ := (Bool.and_eq_true _ _).mp h
    have hd : d = '.' := by
      have hstop := List.head?_dropWhile_not (· != '.') cs
      rw [hr] at hstop
      simpa using hstop
    intro c hc
    rw [← List.takeWhile_append_dropWhile (p := (· != '.')) (l := cs), hr] at hc
    rcases List.mem_append.mp hc with hc | hc
    · exact not_blank_of_isInteger hlow c hc
    · rcases List.mem_cons.mp hc with rfl | hc
      · rw [hd]
        decide
      · exact not_blank_of_isNatural hhigh c hc
  · cases h

theorem mem_of_mem_trim {c : Char} (h : c ∈ trim cs) : c ∈ cs := by
  obtain ⟨bs, es, hsplit, -, -⟩ := exists_trim cs
  rw [hsplit]
  simp [h]

theorem isStringLiteral_squeeze (hn : '\n' ∉ cs) :
    isStringLiteral (squeeze cs) = isStringLiteral cs := by
  rw [isStringLiteral, ← squeeze_trim, isStringLiteral]
  cases hq : quoted? (trim cs) with
  | some x =>
    rw [squeeze_of_quoted? hq, quoted?_append_right hq]
    show (squeeze x.2).isEmpty = x.2.isEmpty
    rw [Bool.eq_iff_iff, List.isEmpty_iff, List.isEmpty_iff, respaces_squeeze.eq_nil_iff]
  | none =>
    cases ht : trim cs with
    | nil =>
      rw [squeeze_nil]
      rfl
    | cons c ds =>
      have hc : isBlank c = false := head?_trim cs (by rw [ht]; rfl)
      have hds : '\n' ∉ ds := fun hmem => hn (mem_of_mem_trim (by rw [ht]; simp [hmem]))
      rw [ht] at hq
      rw [squeeze_cons hc hq, quoted?_squeeze hds hq]

end Line

theorem ValueType.ofText_squeeze {cs : List Char} (hn : '\n' ∉ cs) :
    ofText (squeeze cs) = ofText cs := by
  have hn' : '\n' ∉ trim cs := fun hmem => hn (Line.mem_of_mem_trim hmem)
  have hfloat : isFloatLiteral (squeeze (trim cs)) = isFloatLiteral (trim cs) :=
    Line.test_trim_squeeze (fun _ => Line.not_blank_of_splitsAtPoint) _
  rw [ofText, ← Line.squeeze_trim, ofText, Line.isStringLiteral_squeeze hn', hfloat,
    Line.isWord_squeeze (by decide), Line.isWord_squeeze (by decide)]

/-! ## Names -/

namespace Line
variable {cs : List Char}

theorem hollow_of_quoted? {l r : List Char} (h : quoted? cs = some (l, r)) :
    hollow cs = '"' :: '"' :: hollow r := by
  obtain ⟨ds, m, rfl, rfl, hm⟩ := quoted?_eq_some h
  conv_lhs => unfold hollow
  split
  · next x hx =>
    rw [h] at hx
    cases hx
    rfl
  · next hx =>
    rw [h] at hx
    cases hx

theorem hollow_cons {c : Char} (h : quoted? (c :: cs) = none) :
    hollow (c :: cs) = c :: hollow cs := by
  conv_lhs => unfold hollow
  split
  · next x hx =>
    rw [h] at hx
    cases hx
  · rfl

theorem hollow_blank {c : Char} (hc : isBlank c = true) (cs : List Char) :
    hollow (c :: cs) = c :: hollow cs :=
  hollow_cons (quoted?_other (ne_of_isBlank hc (by decide)) cs)

theorem takeWhile_hollow_squeeze {p : Char → Bool} (hblank : ∀ c, isBlank c = true → p c = false)
    (hquote : p '"' = false) (hn : '\n' ∉ cs) :
    (hollow (squeeze cs)).takeWhile p = (hollow cs).takeWhile p := by
  induction cs using spacing_induction with
  | nil => rw [squeeze_nil]
  | blank c cs hc ih =>
    rw [squeeze_cons_blank hc, hollow_blank (by decide), hollow_blank hc,
      List.takeWhile_cons_of_neg (by simp [hblank ' ' (by decide)]),
      List.takeWhile_cons_of_neg (by simp [hblank c hc])]
  | literal l r hq ih =>
    rw [squeeze_of_quoted? hq, hollow_of_quoted? (quoted?_append_right hq _), hollow_of_quoted? hq,
      List.takeWhile_cons_of_neg (by simp [hquote]), List.takeWhile_cons_of_neg (by simp [hquote])]
  | other c cs hc hq ih =>
    have hn' := List.not_mem_of_not_mem_cons hn
    rw [squeeze_cons hc hq, hollow_cons (quoted?_squeeze hn' hq), hollow_cons hq,
      List.takeWhile_cons, List.takeWhile_cons, ih hn']

end Line

namespace Expression
open Line
variable {cs : List Char}

theorem namesFrom_cons_of_not_head {c : Char} (hhead : isNameHead c = false)
    (hword : isWordChar c = false) (inWord : Bool) (cs : List Char) :
    namesFrom inWord (c :: cs) = namesFrom false cs := by
  rw [namesFrom, hhead, hword]
  simp

theorem not_head_of_isBlank {c : Char} (hc : isBlank c = true) :
    isNameHead c = false ∧ isWordChar c = false :=
  ⟨class_of_isBlank (fun _ => isBlank_of_class (by decide +kernel)) hc,
    class_of_isBlank (fun _ => isBlank_of_isWordChar) hc⟩

theorem namesFrom_hollow_trimLeft (cs : List Char) :
    namesFrom false (hollow (trimLeft cs)) = namesFrom false (hollow cs) := by
  refine apply_trimLeft (f := fun cs => namesFrom false (hollow cs)) (fun c cs hc => ?_) cs
  obtain ⟨hhead, hword⟩ := not_head_of_isBlank hc
  rw [hollow_blank hc, namesFrom_cons_of_not_head hhead hword]

theorem namesFrom_hollow_squeeze (inWord : Bool) (hn : '\n' ∉ cs) :
    namesFrom inWord (hollow (squeeze cs)) = namesFrom inWord (hollow cs) := by
  induction cs using spacing_induction generalizing inWord with
  | nil => rw [squeeze_nil]
  | blank c cs hc ih =>
    obtain ⟨hhead, hword⟩ := not_head_of_isBlank hc
    have hn' := newline_not_mem_trimLeft (List.not_mem_of_not_mem_cons hn)
    rw [squeeze_cons_blank hc, hollow_blank (by decide), hollow_blank hc,
      namesFrom_cons_of_not_head (by decide) (by decide), namesFrom_cons_of_not_head hhead hword,
      ih _ hn', namesFrom_hollow_trimLeft]
  | literal l r hq ih =>
    have hn' : '\n' ∉ r := fun hmem => hn (List.mem_append_right l hmem)
    rw [squeeze_of_quoted? hq, hollow_of_quoted? (quoted?_append_right hq _), hollow_of_quoted? hq]
    simp only [namesFrom_cons_of_not_head (c := '"') (by decide) (by decide), ih _ hn']
  | other c cs hc hq ih =>
    have hn' := List.not_mem_of_not_mem_cons hn
    have htake : (hollow (squeeze cs)).takeWhile isNameChar = (hollow cs).takeWhile isNameChar := by
      refine takeWhile_hollow_squeeze (fun d hd => ?_) (by decide) hn'
      exact class_of_isBlank (fun _ => isBlank_of_class (by decide +kernel)) hd
    rw [squeeze_cons hc hq, hollow_cons (quoted?_squeeze hn' hq), hollow_cons hq, namesFrom,
      namesFrom, htake, ih _ hn']

/-- A squeezed text uses the same names. -/
theorem names_squeeze (reserved : List String) (hn : '\n' ∉ cs) :
    names reserved (squeeze cs) = names reserved cs := by
  rw [names, namesFrom_hollow_squeeze false hn, names]

end Expression

/-! ## Words -/

namespace Line

/-- The same words, up to the first one that begins with a quote. -/
inductive SameWords : List (List Char) → List (List Char) → Prop
  | nil : SameWords [] []
  | cons (w : List Char) {ws ws' : List (List Char)} (h : SameWords ws ws') :
      SameWords (w :: ws) (w :: ws')
  | quote (w w' : List Char) (ws ws' : List (List Char)) :
      SameWords (('"' :: w) :: ws) (('"' :: w') :: ws')

variable {c : Char} {cs : List Char}

theorem words_nil : words [] = [] := by
  unfold words
  rfl

theorem words_trimLeft (cs : List Char) : words (trimLeft cs) = words cs := by
  refine apply_trimLeft (fun c cs hc => ?_) cs
  rw [words.eq_def (c :: cs)]
  exact if_pos hc

theorem words_cons (hc : isBlank c = false) (hq : quoted? (c :: cs) = none) :
    words (c :: cs) = (c :: cs.takeWhile (!isBlank ·)) :: words (cs.dropWhile (!isBlank ·)) := by
  conv_lhs => unfold words
  rw [if_neg (by simp [hc])]
  split
  · next x hx =>
    rw [hq] at hx
    cases hx
  · rfl

theorem words_of_quoted? {l r : List Char} (h : quoted? cs = some (l, r)) :
    words cs = l :: words r := by
  obtain ⟨ds, m, rfl, rfl, hm⟩ := quoted?_eq_some h
  conv_lhs => unfold words
  rw [if_neg (by decide)]
  split
  · next x hx =>
    rw [h] at hx
    cases hx
    rfl
  · next hx =>
    rw [h] at hx
    cases hx

theorem words_quote (cs : List Char) : ∃ w ws, words ('"' :: cs) = ('"' :: w) :: ws := by
  cases hq : quoted? ('"' :: cs) with
  | none => exact ⟨_, _, words_cons (by decide) hq⟩
  | some x =>
    obtain ⟨ds, m, -, hl, -⟩ := quoted?_eq_some hq
    exact ⟨m, words x.2, by rw [words_of_quoted? hq, hl]⟩

theorem takeWhile_append_blanks {bs : List Char} (hb : ∀ b ∈ bs, isBlank b = true)
    (cs : List Char) : (cs ++ bs).takeWhile (!isBlank ·) = cs.takeWhile (!isBlank ·) ∧
      (cs ++ bs).dropWhile (!isBlank ·) = cs.dropWhile (!isBlank ·) ++ bs := by
  induction cs with
  | nil =>
    cases bs with
    | nil => exact ⟨rfl, rfl⟩
    | cons b bs => simp [hb b List.mem_cons_self]
  | cons c cs ih =>
    cases hc : isBlank c with
    | true => simp [hc]
    | false => simpa [hc] using ih

theorem words_append_blanks {bs : List Char} (hb : ∀ b ∈ bs, isBlank b = true) (cs : List Char) :
    words (cs ++ bs) = words cs := by
  have hquote : '"' ∉ bs := fun hmem => absurd (hb _ hmem) (by decide)
  have hleft : trimLeft bs = [] := List.dropWhile_eq_nil_iff.mpr hb
  induction cs using words.induct with
  | case1 => rw [List.nil_append, ← words_trimLeft bs, hleft]
  | case2 c cs hc ih =>
    rw [← words_trimLeft, ← words_trimLeft (c :: cs), List.cons_append, trimLeft_cons_blank hc,
      trimLeft_cons_blank hc, words_trimLeft, words_trimLeft, ih]
  | case3 c cs hc x hx ih =>
    have hmore : quoted? (c :: cs ++ bs) = some (x.1, x.2 ++ bs) := by
      rw [← quoted?_append hx, List.append_assoc]
      exact quoted?_append_right hx _
    rw [words_of_quoted? hmore, words_of_quoted? hx, ih]
  | case4 c cs hc hx ih =>
    have hc' : isBlank c = false := by simpa using hc
    have hmore : quoted? (c :: (cs ++ bs)) = none := by
      by_cases hq : c = '"'
      · subst hq
        rw [quoted?_quote, Option.map_eq_none_iff] at hx ⊢
        exact closeQuote?_append_eq_none hx hquote
      · exact quoted?_other hq _
    obtain ⟨htake, hdrop⟩ := takeWhile_append_blanks hb cs
    rw [List.cons_append, words_cons hc' hmore, words_cons hc' hx, htake, hdrop, ih]

theorem words_trim (cs : List Char) : words (trim cs) = words cs := by
  obtain ⟨es, hsplit, hes⟩ : ∃ es, trimLeft cs = trim cs ++ es ∧ ∀ c ∈ es, isBlank c = true := by
    refine ⟨(trimLeft cs).rtakeWhile isBlank, ?_, fun c hc => List.mem_rtakeWhile_imp hc⟩
    rw [trim, trimRight_eq_rdropWhile, List.rdropWhile_append_rtakeWhile]
  rw [← words_trimLeft cs, hsplit, words_append_blanks hes]

/-- Blanks alone do not tell words apart, as long as nothing is quoted. -/
theorem sameWords_of_flat {u u' : List Char} (h : flat u' = flat u) :
    SameWords (words u) (words u') := by
  generalize hlen : u.length = n
  induction n using Nat.strong_induction_on generalizing u u' with
  | _ n ih =>
    have hleft : flat (trimLeft u') = flat (trimLeft u) := by
      rw [← respaces_flat.trimLeft_eq, h, respaces_flat.trimLeft_eq]
    rw [← words_trimLeft u, ← words_trimLeft u']
    cases hu : trimLeft u with
    | nil =>
      rw [hu, flat_nil, flat_eq_nil_iff] at hleft
      rw [hleft, words_nil]
      exact .nil
    | cons c cs =>
      have hc : isBlank c = false := head?_trimLeft u (by rw [hu]; rfl)
      cases hu' : trimLeft u' with
      | nil =>
        rw [hu, hu', flat_nil, eq_comm, flat_eq_nil_iff] at hleft
        cases hleft
      | cons c' cs' =>
        have hc' : isBlank c' = false := head?_trimLeft u' (by rw [hu']; rfl)
        rw [hu, hu', flat_cons hc, flat_cons hc'] at hleft
        obtain ⟨rfl, hrest⟩ := List.cons.inj hleft
        -- From a quote on, the flat form no longer tells where a word ends.
        by_cases hq : c' = '"'
        · subst hq
          obtain ⟨w, ws, hw⟩ := words_quote cs
          obtain ⟨w', ws', hw'⟩ := words_quote cs'
          rw [hw, hw']
          exact .quote w w' ws ws'
        · rw [words_cons hc (quoted?_other hq cs), words_cons hc (quoted?_other hq cs'),
            ← (Shape.takeWhile_flat cs).1, ← (Shape.takeWhile_flat cs').1, hrest]
          refine .cons _ (ih _ ?_ ?_ rfl)
          · have hdrop : (cs.dropWhile (!isBlank ·)).length ≤ cs.length :=
              (List.dropWhile_sublist _).length_le
            have hshort : (trimLeft u).length ≤ u.length := (List.dropWhile_sublist _).length_le
            rw [hu, List.length_cons] at hshort
            omega
          · rw [← (Shape.takeWhile_flat cs).2, ← (Shape.takeWhile_flat cs').2, hrest]

end Line

end PlainSketch
