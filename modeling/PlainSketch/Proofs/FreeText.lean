import PlainSketch.Proofs.ShapeSpacing

/-!
# Free text and spacing

Free text ends where the rest of the line fits, and so it ends at the same place however the line is
spaced. Its flat form says so for every text. What is quoted in it may only start in it: the text of
a squeezed line is then not the squeezed text, but squeezing makes the two the same.
-/
namespace PlainSketch
open Text Shape

/-! ## Parts of a squeezed text -/

namespace Line

section
variable {c : Char} {cs ds p q : List Char}

theorem trimLeft_of_isPrefix_squeeze (h : q <+: squeeze (trimLeft cs)) : trimLeft q = q := by
  refine trimLeft_eq_self fun d hd => ?_
  obtain ⟨z, hz⟩ := h
  have hhead : (squeeze (trimLeft cs)).head? = some d := by
    rw [← hz, List.head?_append, hd]
    rfl
  rw [head?_squeeze fun e => head?_trimLeft cs] at hhead
  exact head?_trimLeft cs hhead

/-- Two beginnings of a text with the same flat form are the same if they do not end in a blank. -/
theorem eq_of_flat_eq_of_isPrefix (hflat : flat p = flat q) (hp : p <+: cs) (hq : q <+: cs)
    (htight : EndsTight p) (htight' : EndsTight q) : p = q := by
  rcases List.prefix_or_prefix_of_prefix hp hq with hpq | hqp
  · exact eq_of_flat_eq hflat htight hpq
  · exact (eq_of_flat_eq hflat.symm htight' hqp).symm

/-- The beginning of a squeezed text is a beginning of the text, but for its blanks. -/
theorem squeeze_eq_of_isPrefix (hn : '\n' ∉ cs) (hp : p <+: cs) (hq : q <+: squeeze cs)
    (hflat : flat p = flat q) (htight : EndsTight p) (htight' : EndsTight q) :
    squeeze p = squeeze q := by
  induction cs using spacing_induction generalizing p q with
  | nil =>
    rw [squeeze_nil] at hq
    rw [List.prefix_nil.mp hp, List.prefix_nil.mp hq]
  | blank c cs hc ih =>
    rw [squeeze_cons_blank hc] at hq
    rcases List.prefix_cons_iff.mp hp with rfl | ⟨p, rfl, hp'⟩
    · rw [flat_eq_nil_iff.mp hflat.symm]
    rcases List.prefix_cons_iff.mp hq with rfl | ⟨q, rfl, hq'⟩
    · rw [flat_eq_nil_iff.mp hflat]
    have hne : p ≠ [] := by
      rintro rfl
      rw [htight c rfl] at hc
      cases hc
    have hptight := htight.of_suffix (List.suffix_cons c p)
    have hleft : trimLeft p <+: trimLeft cs := by
      obtain ⟨z, rfl⟩ := hp'
      exact ⟨z, (hptight.trimLeft_append hne z).symm⟩
    have hqhead : trimLeft q = q := trimLeft_of_isPrefix_squeeze hq'
    rw [flat_cons_blank hc, flat_cons_blank (by decide), hqhead] at hflat
    rw [squeeze_cons_blank hc, squeeze_cons_blank (by decide), hqhead]
    refine congrArg (' ' :: ·) (ih ?_ hleft hq' (List.cons.inj hflat).2 ?_ ?_)
    · exact newline_not_mem_trimLeft (List.not_mem_of_not_mem_cons hn)
    · exact hptight.of_suffix (List.dropWhile_suffix _)
    · exact htight'.of_suffix (List.suffix_cons _ q)
  | literal l r hl ih =>
    rw [squeeze_of_quoted? hl] at hq
    -- Unless both go on behind the literal, both are beginnings of the same text.
    rcases List.prefix_or_prefix_of_prefix hp (List.prefix_append l r) with hpl | ⟨p, rfl⟩
    · have hpr := hpl.trans (List.prefix_append l (squeeze r))
      rw [eq_of_flat_eq_of_isPrefix hflat hpr hq htight htight']
    rcases List.prefix_or_prefix_of_prefix hq (List.prefix_append l (squeeze r)) with hql | ⟨q, rfl⟩
    · have hqr := hql.trans (List.prefix_append l r)
      rw [eq_of_flat_eq_of_isPrefix hflat hp hqr htight htight']
    · have hltight := endsTight_of_quoted? hl
      rw [flat_append hltight, flat_append hltight] at hflat
      rw [squeeze_of_quoted? (quoted?_append_right hl p),
        squeeze_of_quoted? (quoted?_append_right hl q)]
      refine congrArg (l ++ ·) (ih (fun hmem => hn (List.mem_append_right l hmem))
        ((List.prefix_append_right_inj l).mp hp) ((List.prefix_append_right_inj l).mp hq)
        (List.append_cancel_left hflat) ?_ ?_)
      · exact htight.of_suffix (List.suffix_append l p)
      · exact htight'.of_suffix (List.suffix_append l q)
  | other c cs hc hl ih =>
    rw [squeeze_cons hc hl] at hq
    have hn' := List.not_mem_of_not_mem_cons hn
    rcases List.prefix_cons_iff.mp hp with rfl | ⟨p, rfl, hp'⟩
    · rw [flat_eq_nil_iff.mp hflat.symm]
    rcases List.prefix_cons_iff.mp hq with rfl | ⟨q, rfl, hq'⟩
    · rw [flat_eq_nil_iff.mp hflat]
    rw [flat_cons hc, flat_cons hc] at hflat
    rw [squeeze_cons hc (quoted?_eq_none_of_isPrefix hl (List.cons_prefix_cons.mpr ⟨rfl, hp'⟩)),
      squeeze_cons hc (quoted?_eq_none_of_isPrefix (quoted?_squeeze hn' hl)
        (List.cons_prefix_cons.mpr ⟨rfl, hq'⟩))]
    exact congrArg (c :: ·) (ih hn' hp' hq' (List.cons.inj hflat).2
      (htight.of_suffix (List.suffix_cons c p)) (htight'.of_suffix (List.suffix_cons c q)))

/-- Two ends of a text with the same flat form are the same if they do not begin with a blank. -/
theorem eq_of_flat_eq_of_isSuffix (hflat : flat p = flat q) (hp : p <:+ cs) (hq : q <:+ cs)
    (hphead : ∀ c, p.head? = some c → isBlank c = false)
    (hqhead : ∀ c, q.head? = some c → isBlank c = false) : p = q := by
  have shorter : ∀ {u v : List Char}, flat u = flat v → u <:+ v →
      (∀ c, u.head? = some c → isBlank c = false) → u = v := by
    rintro u v h ⟨y, rfl⟩ hhead
    rw [flat_append_of_head hhead, List.self_eq_append_left, flat_eq_nil_iff] at h
    rw [h, List.nil_append]
  rcases List.suffix_or_suffix_of_suffix hp hq with h | h
  · exact shorter hflat h hphead
  · exact (shorter hflat.symm h hqhead).symm

/-- Every quote that opens in the text is closed in it. -/
def closed : List Char → Bool
  | [] => true
  | c :: cs =>
    match _h : quoted? (c :: cs) with
    | some r => closed r.2
    | none => c != '"' && closed cs
termination_by cs => cs.length
decreasing_by
  · exact quoted?_length _h
  · simp

theorem closed_of_quoted? {l r : List Char} (h : quoted? cs = some (l, r)) :
    closed cs = closed r := by
  obtain ⟨ds, m, rfl, rfl, hm⟩ := quoted?_eq_some h
  conv_lhs => unfold closed
  split
  · next hq =>
    rw [h] at hq
    cases hq
    rfl
  · next hq =>
    rw [h] at hq
    cases hq

theorem closed_cons (h : quoted? (c :: cs) = none) :
    closed (c :: cs) = (c != '"' && closed cs) := by
  conv_lhs => unfold closed
  split
  · next hq =>
    rw [h] at hq
    cases hq
  · rfl

theorem closed_of_not_mem (h : '"' ∉ cs) : closed cs = true := by
  induction cs with
  | nil => unfold closed; rfl
  | cons c cs ih =>
    have hc : c ≠ '"' := fun he => h (he ▸ List.mem_cons_self)
    rw [closed_cons (quoted?_eq_none h), ih (List.not_mem_of_not_mem_cons h)]
    simpa using hc

theorem closed_append_of_not_mem (h : closed cs = true) (hd : '"' ∉ ds) :
    closed (cs ++ ds) = true := by
  induction cs using hollow.induct with
  | case1 => exact closed_of_not_mem hd
  | case2 c cs q hq ih =>
    rw [closed_of_quoted? hq] at h
    have happend : quoted? (c :: cs ++ ds) = some (q.1, q.2 ++ ds) := by
      rw [← quoted?_append hq, List.append_assoc]
      exact quoted?_append_right hq _
    rw [closed_of_quoted? happend]
    exact ih h
  | case3 c cs hq ih =>
    rw [closed_cons hq, Bool.and_eq_true, bne_iff_ne] at h
    rw [List.cons_append, closed_cons (quoted?_other h.1 _), Bool.and_eq_true, bne_iff_ne]
    exact ⟨h.1, ih h.2⟩

theorem trimLeft_append_of_head (h : ∀ c, ds.head? = some c → isBlank c = false) :
    trimLeft (cs ++ ds) = trimLeft cs ++ ds := by
  induction cs with
  | nil => exact trimLeft_eq_self h
  | cons c cs ih =>
    by_cases hc : isBlank c = true
    · rw [List.cons_append, trimLeft_cons_blank hc, trimLeft_cons_blank hc, ih]
    · rw [trimLeft_eq_self (by simpa using hc), trimLeft_eq_self (by simpa using hc)]

theorem closed_trimLeft (h : closed cs = true) : closed (trimLeft cs) = true := by
  induction cs with
  | nil => exact h
  | cons c cs ih =>
    by_cases hc : isBlank c = true
    · have hquote := ne_of_isBlank hc (show isBlank '"' = false from rfl)
      rw [closed_cons (quoted?_other hquote cs)] at h
      rw [trimLeft_cons_blank hc]
      exact ih (by simpa [hquote] using h)
    · rwa [trimLeft_eq_self (by simpa using hc)]

/-- A text is squeezed apart from what stands before it, unless a literal starts there and ends in
it. -/
theorem squeeze_append_of_head (h : closed cs = true ∨ '"' ∉ ds)
    (hhead : ∀ c, ds.head? = some c → isBlank c = false) :
    squeeze (cs ++ ds) = squeeze cs ++ squeeze ds := by
  induction cs using spacing_induction with
  | nil => simp
  | blank c cs hc ih =>
    have hquote := ne_of_isBlank hc (show isBlank '"' = false from rfl)
    have hrest : closed (trimLeft cs) = true ∨ '"' ∉ ds := by
      rw [closed_cons (quoted?_other hquote cs)] at h
      exact h.imp_left fun h => closed_trimLeft (by simpa [hquote] using h)
    rw [List.cons_append, squeeze_cons_blank hc, trimLeft_append_of_head hhead, ih hrest,
      squeeze_cons_blank hc, List.cons_append]
  | literal l r hl ih =>
    rw [closed_of_quoted? hl] at h
    rw [List.append_assoc, squeeze_of_quoted? (quoted?_append_right hl _), ih h,
      squeeze_of_quoted? hl, List.append_assoc]
  | other c cs hc hl ih =>
    rw [closed_cons hl, Bool.and_eq_true, bne_iff_ne] at h
    have hopen : quoted? (c :: (cs ++ ds)) = none := by
      by_cases hquote : c = '"'
      · subst hquote
        rw [quoted?_quote, Option.map_eq_none_iff] at hl ⊢
        exact closeQuote?_append_eq_none hl (h.resolve_left fun hclosed => hclosed.1 rfl)
      · exact quoted?_other hquote _
    rw [List.cons_append, squeeze_cons hc hopen, ih (h.imp_left And.right), squeeze_cons hc hl,
      List.cons_append]

end
end Line

/-! ## Flat free text -/

namespace Shape
variable {α : Type} {tail : Shape α} {f : α → α} {c d : Char} {cs : List Char}

/-- The shape begins with a gap, and it is all the same how long the gap is. -/
structure StartsAtGap (tail : Shape α) : Prop where
  stop : ∀ {cs}, (∀ c, cs.head? = some c → isBlank c = false) → tail cs = none
  skip : ∀ {c d cs}, isBlank c = true → isBlank d = true → tail (c :: d :: cs) = tail (d :: cs)

theorem startsAtGap_gap : StartsAtGap gap where
  stop {cs} h := by
    cases cs with
    | nil => rfl
    | cons c cs => simp [gap, h c rfl]
  skip {c d cs} hc hd := by
    simp only [gap, hc, hd, if_true]
    rw [trimLeft_cons_blank hd]

theorem StartsAtGap.bind {β : Type} {k : α → Shape β} (h : StartsAtGap tail) :
    StartsAtGap (tail >>= k) where
  stop hcs := by
    show (tail _).bind _ = none
    rw [h.stop hcs]
    rfl
  skip {c d cs} hc hd := by
    show (tail _).bind _ = (tail _).bind _
    rw [h.skip hc hd]

theorem textUntil_cons (h : '\n' ∉ c :: cs) : textUntil tail (c :: cs) =
    (((tail cs).map fun r => (([c], r.1), r.2)) <|>
      (textUntil tail cs).map fun r => ((c :: r.1.1, r.1.2), r.2)) := by
  rw [textUntil, if_neg fun he => h (by simp [beq_iff_eq.mp he])]

theorem longTextUntil_cons (h : '\n' ∉ c :: cs) : longTextUntil tail (c :: cs) =
    (((longTextUntil tail cs).map fun r => ((c :: r.1.1, r.1.2), r.2)) <|>
      (tail cs).map fun r => (([c], r.1), r.2)) := by
  rw [longTextUntil, if_neg fun he => h (by simp [beq_iff_eq.mp he])]

theorem flat_cons_cons (hc : isBlank c = true) (d : Char) (ds : List Char) :
    flat (c :: d :: ds) = if isBlank d then flat (d :: ds) else ' ' :: flat (d :: ds) := by
  rw [flat, if_pos hc]
  rfl

/-- Flat text up to a gap is the text up to that gap, flat. -/
theorem textUntil_flat (hg : StartsAtGap tail) (ht : Follows flat f tail tail)
    (hcs : Line.IsCode cs)
    (h : tail cs = none ∨ ∀ c, cs.head? = some c → isBlank c = false) :
    textUntil tail (flat cs) =
      (textUntil tail cs).map fun y => ((flat y.1.1, f y.1.2), flat y.2) := by
  induction cs with
  | nil => rfl
  | cons c cs ih =>
    have hrest := hcs.of_suffix (List.suffix_cons c cs)
    have hflat := (respaces_flat.isCode hcs).oneLine
    by_cases hc : isBlank c = true
    · -- No tail starts inside a gap, or it would have started where the gap does.
      have hnone : tail (c :: cs) = none := h.resolve_right fun hhead => by
        rw [hhead c rfl] at hc
        cases hc
      rw [textUntil_cons hcs.oneLine]
      cases cs with
      | nil =>
        rw [hcs.last c rfl] at hc
        cases hc
      | cons d ds =>
        by_cases hd : isBlank d = true
        · rw [hg.skip hc hd] at hnone
          rw [flat_cons_cons hc, if_pos hd, hnone, ih hrest (.inl hnone)]
          cases htext : textUntil tail (d :: ds) with
          | none => rfl
          | some y =>
            obtain ⟨t, hy⟩ := (readsUpTo_textUntil _ _ _ htext).exists_cons
            simp [hy, flat_cons_cons hc, hd]
        · have hhead : ∀ e, (d :: ds).head? = some e → isBlank e = false := by
            rintro e ⟨⟩
            simpa using hd
          rw [flat_cons_cons hc, if_neg hd] at hflat ⊢
          rw [textUntil_cons hflat, ht.eq hrest, hg.stop hhead, ih hrest (.inr hhead)]
          cases htext : textUntil tail (d :: ds) with
          | none => rfl
          | some y =>
            obtain ⟨t, hy⟩ := (readsUpTo_textUntil _ _ _ htext).exists_cons
            simp [hy, flat_cons_cons hc, hd]
    · have hc' : isBlank c = false := by simpa using hc
      rw [flat_cons hc'] at hflat ⊢
      rw [textUntil_cons hcs.oneLine, textUntil_cons hflat, ht.eq hrest]
      cases htail : tail cs with
      | some x => simp [flat_cons hc']
      | none =>
        rw [ih hrest (.inl htail)]
        cases textUntil tail cs with
        | none => rfl
        | some y => simp [flat_cons hc']

/-- If the text is only a part of a gap, then the tail fits where the gap begins. -/
theorem tail_of_longTextUntil (hg : StartsAtGap tail) (hline : '\n' ∉ cs) {x : List Char × α}
    {r : List Char} (h : longTextUntil tail cs = some (x, r)) (hx : allBlank x.1 = true) :
    tail cs = some (x.2, r) := by
  have skip : ∀ {c : Char} {ds : List Char} {z}, isBlank c = true → tail ds = some z →
      tail (c :: ds) = some z := by
    intro c ds z hc hz
    cases ds with
    | nil =>
      rw [hg.stop (by simp)] at hz
      cases hz
    | cons d ds =>
      by_cases hd : isBlank d = true
      · rw [hg.skip hc hd, hz]
      · rw [hg.stop (by simpa using hd)] at hz
        cases hz
  induction cs generalizing x r with
  | nil => cases h
  | cons c cs ih =>
    rw [longTextUntil_cons hline] at h
    rcases (Option.orElse_eq_some _ _ _).mp h with h | ⟨-, h⟩
    · obtain ⟨⟨y, r'⟩, hy, he⟩ := Option.map_eq_some_iff.mp h
      cases he
      obtain ⟨hc, hall⟩ := (Bool.and_eq_true _ _).mp (List.all_cons.symm.trans hx)
      have htail := ih (List.not_mem_of_not_mem_cons hline) hy hall
      exact skip hc htail
    · obtain ⟨y, hy, he⟩ := Option.map_eq_some_iff.mp h
      cases he
      exact skip (by simpa [allBlank] using hx) hy

theorem allBlank_nil : allBlank [] = true := rfl

theorem allBlank_cons (c : Char) (cs : List Char) :
    allBlank (c :: cs) = (isBlank c && allBlank cs) := rfl

/-- Flat text up to the last gap is the text up to that gap, flat, unless there is only the gap. -/
theorem longTextUntil_flat (hg : StartsAtGap tail) (ht : Follows flat f tail tail)
    (hcs : Line.IsCode cs) : longTextUntil tail (flat cs) = (longTextUntil tail cs).bind fun y =>
      if allBlank y.1.1 then none else some ((trimRight (flat y.1.1), f y.1.2), flat y.2) := by
  induction cs with
  | nil => rfl
  | cons c cs ih =>
    have hrest := hcs.of_suffix (List.suffix_cons c cs)
    have hflat := (respaces_flat.isCode hcs).oneLine
    rw [longTextUntil_cons hcs.oneLine]
    by_cases hc : isBlank c = true
    · cases cs with
      | nil =>
        rw [hcs.last c rfl] at hc
        cases hc
      | cons d ds =>
        by_cases hd : isBlank d = true
        · rw [flat_cons_cons hc, if_pos hd, ih hrest]
          cases htext : longTextUntil tail (d :: ds) with
          | none =>
            cases tail (d :: ds) with
            | none => rfl
            | some x => simp [allBlank_cons, allBlank_nil, hc]
          | some y =>
            obtain ⟨t, hy⟩ := (readsUpTo_longTextUntil _ _ _ htext).exists_cons
            simp [hy, flat_cons_cons hc, hd, allBlank_cons, hc]
        · have hd' : isBlank d = false := by simpa using hd
          have hhead : ∀ e, (d :: ds).head? = some e → isBlank e = false := by
            rintro e ⟨⟩
            exact hd'
          rw [flat_cons_cons hc, if_neg hd] at hflat ⊢
          rw [longTextUntil_cons hflat, ht.eq hrest, hg.stop hhead, ih hrest]
          cases htext : longTextUntil tail (d :: ds) with
          | none => rfl
          | some y =>
            obtain ⟨t, hy⟩ := (readsUpTo_longTextUntil _ _ _ htext).exists_cons
            have hne : trimRight (d :: flat t) ≠ [] := by simp [trimRight_cons_of_not_blank hd']
            have htrim : trimRight (' ' :: d :: flat t) = ' ' :: d :: trimRight (flat t) := by
              rw [← trimRight_cons_of_not_blank hd', ← List.singleton_append,
                trimRight_append_of_ne_nil hne, List.singleton_append]
            simp [hy, flat_cons_cons hc, hd, allBlank_cons, flat_cons hd', htrim,
              trimRight_cons_of_not_blank hd']
    · have hc' : isBlank c = false := by simpa using hc
      rw [flat_cons hc'] at hflat ⊢
      rw [longTextUntil_cons hflat, ht.eq hrest, ih hrest]
      cases htext : longTextUntil tail cs with
      | none =>
        cases tail cs with
        | none => rfl
        | some x => simp [allBlank_cons, hc', flat_cons hc', trimRight]
      | some y =>
        have hall : allBlank (c :: y.1.1) = false := by simp [allBlank_cons, hc']
        -- What is found further on may lie in the gap behind `c` alone; the flat text then ends
        -- at `c`.
        by_cases hy : allBlank y.1.1 = true
        · have htail := tail_of_longTextUntil hg hrest.oneLine htext hy
          have hnil : trimRight (flat y.1.1) = [] := by
            rw [← flat_trimRight, trimRight_eq_nil_iff.mpr (List.all_eq_true.mp hy), flat_nil]
          simp [hy, htail, hall, flat_cons hc', trimRight_cons_of_not_blank hc', hnil]
        · simp [hy, hall, flat_cons hc', trimRight_cons_of_not_blank hc']

/-! ## Free text of a squeezed line -/

/-- A way to read text up to a tail, which finds the same places in a squeezed line. -/
structure FreeText (f : α → α) (text : Shape (List Char × α)) (tail : Shape α) : Prop where
  nil : text [] = none
  append : ∀ {cs x r}, text cs = some (x, r) → ∃ v, x.1 ++ v = cs ∧ tail v = some (x.2, r)
  squeeze : ∀ {cs}, Line.IsCode cs → (∀ c, cs.head? = some c → isBlank c = false) →
    (text (Line.squeeze cs)).map (fun y => (trimRight (flat y.1.1), f y.1.2)) =
      (text cs).map fun y => (trimRight (flat y.1.1), f y.1.2)

theorem freeText_textUntil (hg : StartsAtGap tail) (ht : Follows flat f tail tail) :
    FreeText f (textUntil tail) tail where
  nil := rfl
  append h := (readsUpTo_textUntil _ _ _ h).exists_tail
  squeeze {cs} hcs hhead := by
    have hhead' : ∀ c, (Line.squeeze cs).head? = some c → isBlank c = false := by
      rwa [Line.head?_squeeze hhead]
    have hsame := textUntil_flat hg ht (respaces_squeeze.isCode hcs) (.inr hhead')
    rw [Line.flat_squeeze, textUntil_flat hg ht hcs (.inr hhead)] at hsame
    have hmap := congrArg (Option.map fun y => (trimRight y.1.1, y.1.2)) hsame
    simpa only [Option.map_map, Function.comp_def] using hmap.symm

theorem freeText_longTextUntil (hg : StartsAtGap tail) (ht : Follows flat f tail tail) :
    FreeText f (longTextUntil tail) tail where
  nil := rfl
  append h := (readsUpTo_longTextUntil _ _ _ h).exists_tail
  squeeze {cs} hcs hhead := by
    have flatText : ∀ {ds}, Line.IsCode ds → (∀ c, ds.head? = some c → isBlank c = false) →
        (longTextUntil tail (flat ds)).map (fun y => (y.1.1, y.1.2)) =
          (longTextUntil tail ds).map fun y => (trimRight (flat y.1.1), f y.1.2) := by
      intro ds hds hhead
      rw [longTextUntil_flat hg ht hds]
      cases htext : longTextUntil tail ds with
      | none => rfl
      | some y =>
        have hall : allBlank y.1.1 = false := by
          cases ds with
          | nil => cases htext
          | cons d ds =>
            obtain ⟨t, hy⟩ := (readsUpTo_longTextUntil _ _ _ htext).exists_cons
            simp [hy, allBlank, hhead d rfl]
        simp [hall]
    have hhead' : ∀ c, (Line.squeeze cs).head? = some c → isBlank c = false := by
      rwa [Line.head?_squeeze hhead]
    rw [← flatText (respaces_squeeze.isCode hcs) hhead', Line.flat_squeeze, flatText hcs hhead]

section
variable {text : Shape (List Char × α)} {x : List Char × α} {r : List Char}

theorem leaveGap_of_text (hne : trimLeft cs ≠ []) {q} (h : text (trimLeft cs) = some q) :
    leaveGap text tail cs = some q := by
  induction cs with
  | nil => exact absurd rfl hne
  | cons c cs ih =>
    by_cases hc : isBlank c = true
    · rw [trimLeft_cons_blank hc] at hne h
      rw [leaveGap, if_pos hc, ih hne h]
      rfl
    · rw [trimLeft_eq_self (by simpa using hc)] at h
      rw [leaveGap, if_neg hc, h]

/-- Where no text fits after the gap, a blank of the gap is the text. -/
theorem allBlank_of_leaveGap (hnone : text (trimLeft cs) = none)
    (h : leaveGap text tail cs = some (x, r)) : allBlank x.1 = true := by
  induction cs with
  | nil => cases h
  | cons c cs ih =>
    by_cases hc : isBlank c = true
    · rw [trimLeft_cons_blank hc] at hnone
      rw [leaveGap, if_pos hc] at h
      rcases (Option.orElse_eq_some _ _ _).mp h with h | ⟨-, h⟩
      · exact ih hnone h
      · split at h
        · cases h
        · obtain ⟨y, -, he⟩ := Option.map_eq_some_iff.mp h
          cases he
          simp [allBlank, hc]
    · rw [trimLeft_eq_self (by simpa using hc)] at hnone
      rw [leaveGap, if_neg hc, hnone] at h
      cases h

theorem leaveGap_eq_text (hnil : text [] = none)
    (h : ∀ c, cs.head? = some c → isBlank c = false) : leaveGap text tail cs = text cs := by
  cases cs with
  | nil => rw [hnil, leaveGap]
  | cons c cs => rw [leaveGap, if_neg (by simp [h c rfl])]

/-- What was read from a line, and what is read from the line squeezed. Both are followed by their
tails, and the text is the same up to its blanks. -/
structure Reread (f : α → α) (tail : Shape α) (x x' : List Char × α) : Prop where
  text : Line.collapse x'.1 = Line.collapse x.1
  value : f x'.2 = f x.2
  exists_tails : ∃ u v v', Line.IsCode u ∧ u = x.1 ++ v ∧ Line.squeeze u = x'.1 ++ v' ∧
    (∃ r, tail v = some (x.2, r)) ∧ ∃ r, tail v' = some (x'.2, r)

theorem collapse_eq_of_squeeze {p q : List Char}
    (h : Line.squeeze (trimRight p) = Line.squeeze (trimRight q)) :
    Line.collapse p = Line.collapse q := by
  have hends : ∀ t, Line.collapse t = trimLeft (Line.squeeze (trimRight t)) := by
    intro t
    rw [Line.squeeze_trimRight, trimLeft_trimRight]
    rfl
  rw [hends, hends, h]

/-- What stands in front of the same tail is the same text up to its blanks. -/
theorem FreeText.reread (ht : FreeText f text tail) {u r r' : List Char} {x x' : List Char × α}
    (hu : Line.IsCode u) (h : text u = some (x, r)) (h' : text (Line.squeeze u) = some (x', r'))
    (hflat : trimRight (flat x'.1) = trimRight (flat x.1)) (hvalue : f x'.2 = f x.2) :
    Reread f tail x x' := by
  obtain ⟨v, hv, htail⟩ := ht.append h
  obtain ⟨v', hv', htail'⟩ := ht.append h'
  refine ⟨?_, hvalue, u, v, v', hu, hv.symm, hv'.symm, ⟨r, htail⟩, r', htail'⟩
  refine (collapse_eq_of_squeeze (Line.squeeze_eq_of_isPrefix hu.oneLine ?_ ?_ ?_
    (endsTight_trimRight _) (endsTight_trimRight _))).symm
  · exact (trimRight_isPrefix _).trans ⟨v, hv⟩
  · exact (trimRight_isPrefix _).trans ⟨v', hv'⟩
  · rw [flat_trimRight, flat_trimRight, hflat]

/-- A gap and text after it are found in the squeezed line too. -/
theorem gapThen_squeeze (ht : FreeText f text tail) (hcs : Line.IsCode cs) :
    (gapThen text tail cs = none → gapThen text tail (Line.squeeze cs) = none) ∧
      ∀ x r, gapThen text tail cs = some (x, r) → allBlank x.1 = false →
        ∃ x' r', gapThen text tail (Line.squeeze cs) = some (x', r') ∧ Reread f tail x x' := by
  cases cs with
  | nil =>
    rw [Line.squeeze_nil]
    exact ⟨id, fun x r h => by cases h⟩
  | cons b cs =>
    by_cases hb : isBlank b = true
    · have hu : Line.IsCode (trimLeft cs) :=
        hcs.of_suffix ((List.dropWhile_suffix _).trans (List.suffix_cons b cs))
      have hhead : ∀ c, (trimLeft cs).head? = some c → isBlank c = false :=
        fun c => head?_trimLeft cs
      have hhead' : ∀ c, (Line.squeeze (trimLeft cs)).head? = some c → isBlank c = false := by
        rwa [Line.head?_squeeze hhead]
      have hsame := ht.squeeze hu hhead
      have hleft : gapThen text tail (b :: cs) = leaveGap text tail cs := by
        simp only [gapThen, hb, if_true]
      have hright : gapThen text tail (Line.squeeze (b :: cs)) =
          text (Line.squeeze (trimLeft cs)) := by
        rw [Line.squeeze_cons_blank hb, ← leaveGap_eq_text ht.nil hhead']
        rfl
      rw [hleft, hright]
      cases htext : text (trimLeft cs) with
      | none =>
        -- no text stands behind the gap, so a reading takes blanks of the gap itself
        rw [htext, Option.map_none, Option.map_eq_none_iff] at hsame
        refine ⟨fun _ => hsame, fun x r hx hall => ?_⟩
        rw [allBlank_of_leaveGap htext hx] at hall
        cases hall
      | some q =>
        have hne : trimLeft cs ≠ [] := by
          intro hnil
          rw [hnil, ht.nil] at htext
          cases htext
        rw [leaveGap_of_text hne htext]
        refine ⟨fun h => (Option.some_ne_none _ h).elim, fun x r hx _ => ?_⟩
        cases hx
        rw [htext, Option.map_some, Option.map_eq_some_iff] at hsame
        obtain ⟨⟨x', r'⟩, hx', hboth⟩ := hsame
        obtain ⟨hflat, hvalue⟩ := Prod.mk.inj hboth
        exact ⟨x', r', hx', ht.reread hu htext hx' hflat hvalue⟩
    · have hnone : ∀ {c : Char} {ds : List Char}, isBlank c = false →
          gapThen text tail (c :: ds) = none := by
        intro c ds hc
        simp [gapThen, hc]
      obtain ⟨ds, hds⟩ := respaces_squeeze.exists_cons b cs
      rw [hds, if_neg hb, hnone (by simpa using hb), hnone (by simpa using hb)]
      exact ⟨id, fun x r h => by cases h⟩

end

/-! ## Words and quoted text -/

theorem word_leaves : Leaves word := by
  intro cs a r h
  simp only [word] at h
  split at h
  · cases h
  · cases h
    exact List.dropWhile_suffix _

theorem takeWhile_flat (cs : List Char) :
    (flat cs).takeWhile (!isBlank ·) = cs.takeWhile (!isBlank ·) ∧
      (flat cs).dropWhile (!isBlank ·) = flat (cs.dropWhile (!isBlank ·)) := by
  induction cs with
  | nil => exact ⟨rfl, rfl⟩
  | cons c cs ih =>
    by_cases hc : isBlank c = true
    · rw [flat_cons_blank hc]
      simp [hc, flat_cons_blank hc, show isBlank ' ' = true from rfl]
    · have hc' : isBlank c = false := by simpa using hc
      simp [flat_cons hc', hc', ih]

/-- Words are read the same in flat text, with whatever quotes they have. -/
theorem follows_word : Follows flat id word word where
  leaves := word_leaves
  eq {cs} _ := by
    simp only [word, takeWhile_flat]
    split <;> rfl

section
variable {text r : List Char}

theorem betweenQuotes_append (h : '"' ∉ text) (r : List Char) :
    betweenQuotes ('"' :: (text ++ '"' :: r)) = some (text, r) := by
  have hall : ∀ c ∈ text, (c != '"') = true := by
    intro c hc
    simpa using fun he : c = '"' => h (he ▸ hc)
  simp only [betweenQuotes, List.takeWhile_append_of_pos hall, List.dropWhile_append_of_pos hall]
  simp

theorem exists_betweenQuotes {ds : List Char} (h : '"' ∈ ds) :
    ∃ text r, ds = text ++ '"' :: r ∧ '"' ∉ text := by
  induction ds with
  | nil => cases h
  | cons d ds ih =>
    by_cases hd : d = '"'
    · exact ⟨[], ds, by rw [hd]; rfl, List.not_mem_nil⟩
    · obtain ⟨text, r, rfl, hn⟩ := ih ((List.mem_cons.mp h).resolve_left (Ne.symm hd))
      exact ⟨d :: text, r, rfl, by simp [Ne.symm hd, hn]⟩

theorem follows_betweenQuotes : Follows flat flat betweenQuotes betweenQuotes where
  leaves := betweenQuotes_leaves
  eq {cs} _ := by
    cases h : betweenQuotes cs with
    | some x =>
      obtain ⟨hcs, hn⟩ := betweenQuotes_eq_some h
      have hquote : ∀ c, ('"' :: x.2).head? = some c → isBlank c = false := by
        rintro c ⟨⟩
        decide
      have hn' : '"' ∉ flat x.1 := fun hmem => (mem_flat hmem).elim nofun hn
      rw [hcs, flat_cons (by decide), flat_append_of_head hquote, flat_cons (by decide),
        betweenQuotes_append hn']
      rfl
    | none =>
      cases hflat : betweenQuotes (flat cs) with
      | none => rfl
      | some x =>
        obtain ⟨hcs, -⟩ := betweenQuotes_eq_some hflat
        cases cs with
        | nil => cases hcs
        | cons c cs =>
          by_cases hc : isBlank c = true
          · rw [flat_cons_blank hc] at hcs
            cases hcs
          · rw [flat_cons (by simpa using hc)] at hcs
            obtain ⟨rfl, htext⟩ := List.cons.inj hcs
            have hmem : '"' ∈ cs := (mem_flat (htext ▸ by simp)).resolve_left (by decide)
            obtain ⟨text, r, rfl, hn⟩ := exists_betweenQuotes hmem
            rw [betweenQuotes_append hn] at h
            cases h

/-- Text that is one literal with its quotes is spared. -/
theorem betweenQuotes_squeeze (h : betweenQuotes cs = some (text, r))
    (hliteral : Line.isStringLiteral ('"' :: (text ++ ['"'])) = true) :
    betweenQuotes (Line.squeeze cs) = some (text, Line.squeeze r) := by
  obtain ⟨rfl, hn⟩ := betweenQuotes_eq_some h
  have htrim : trim ('"' :: (text ++ ['"'])) = '"' :: (text ++ ['"']) := by
    refine trim_eq_self ?_ ?_
    · rintro c ⟨⟩
      decide
    · intro c hc
      rw [← List.cons_append, List.getLast?_concat] at hc
      cases hc
      decide
  rw [Line.isStringLiteral, htrim] at hliteral
  split at hliteral
  · next q hq =>
    have hend : q.2 = [] := List.isEmpty_iff.mp hliteral
    have hall : q.1 = '"' :: (text ++ ['"']) := by
      rw [← quoted?_append hq, hend, List.append_nil]
    have hquoted : quoted? ('"' :: (text ++ '"' :: r)) = some ('"' :: (text ++ ['"']), r) := by
      have happend := quoted?_append_right hq r
      rw [hall] at happend
      simpa using happend
    rw [Line.squeeze_of_quoted? hquoted, List.cons_append, List.append_assoc]
    exact betweenQuotes_append hn _
  · cases hliteral

end

/-! ## Values behind free text -/

/-- The shape reads no quote. -/
def Plain (s : Shape α) : Prop :=
  ∀ cs a r, s cs = some (a, r) → ∃ p, cs = p ++ r ∧ '"' ∉ p

theorem Plain.bind {β : Type} {s : Shape α} {k : α → Shape β} (hs : Plain s)
    (hk : ∀ a, Plain (k a)) : Plain (s >>= k) := by
  intro cs b r h
  obtain ⟨a, r', ha, hb⟩ := bind_eq_some.mp h
  obtain ⟨p, rfl, hp⟩ := hs cs a r' ha
  obtain ⟨q, rfl, hq⟩ := hk a r' b r hb
  exact ⟨p ++ q, by rw [List.append_assoc], by simp [hp, hq]⟩

theorem plain_gap : Plain gap := by
  intro cs a r h
  obtain ⟨b, ds, rfl, hb, rfl⟩ := gap_eq_some h
  refine ⟨b :: ds.takeWhile isBlank, ?_, fun hmem => ?_⟩
  · exact congrArg (b :: ·) List.takeWhile_append_dropWhile.symm
  · rcases List.mem_cons.mp hmem with rfl | hmem
    · cases hb
    · have hblank := List.mem_takeWhile_imp hmem
      cases hblank

theorem plain_keyword {w : String} (hw : isPlain w = true) : Plain (keyword w) := by
  intro cs a r h
  obtain ⟨r', hr, he⟩ := Option.map_eq_some_iff.mp h
  cases he
  obtain ⟨t, hspells, rfl⟩ := dropKeyword_eq_some.mp hr
  refine ⟨t, rfl, fun hmem => ?_⟩
  obtain ⟨v, hv, hstands⟩ := hspells.exists_of_mem hmem
  have hplain : isBlank v = false ∧ v ≠ '"' := by simpa using List.all_eq_true.mp hw v hv
  exact (plain_of_standsFor hplain hstands).2 rfl

theorem plain_nextKeyword {w : String} (hw : isPlain w = true) : Plain (nextKeyword w) :=
  plain_gap.bind fun _ => plain_keyword hw

/-- A value goes on to the end of the line, and there is no quote in the gap before it. -/
theorem exists_append_of_value {v r : List Char} (hcs : Line.IsCode cs)
    (h : value cs = some (v, r)) : ∃ p, cs = p ++ v ∧ '"' ∉ p ∧
      ∀ c, v.head? = some c → isBlank c = false := by
  rw [value_eq hcs] at h
  obtain ⟨⟨a, r'⟩, hgap, he⟩ := Option.map_eq_some_iff.mp h
  cases he
  obtain ⟨p, hcs, hp⟩ := plain_gap _ _ _ hgap
  obtain ⟨b, ds, -, -, rfl⟩ := gap_eq_some hgap
  exact ⟨p, hcs, hp, fun c hc => head?_trimLeft ds hc⟩

theorem isCode_of_value {v r : List Char} (hcs : Line.IsCode cs) (h : value cs = some (v, r)) :
    Line.IsCode v ∧ ∀ c, v.head? = some c → isBlank c = false := by
  obtain ⟨p, rfl, -, hhead⟩ := exists_append_of_value hcs h
  exact ⟨hcs.of_suffix (List.suffix_append p v), hhead⟩

end Shape
end PlainSketch
