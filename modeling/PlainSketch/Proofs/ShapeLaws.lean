import Mathlib.Data.List.DropRight
import Mathlib.Data.Option.Basic
import PlainSketch.Shape

/-!
# Laws of shapes

What a shape reads is followed through its parts: `Yields P` says that everything a shape reads has
the property `P`, and there is one lemma for each way in which shapes are put together. Free text is
known by what comes after it: a reading of `textBefore` is a reading of its tail further on.
-/
namespace PlainSketch

namespace Text

theorem trimRight_concat (cs : List Char) (c : Char) :
    trimRight (cs ++ [c]) = if isBlank c then trimRight cs else cs ++ [c] := by
  induction cs with
  | nil => simp [trimRight]
  | cons d ds ih =>
    rw [List.cons_append, trimRight, ih]
    by_cases hc : isBlank c = true
    · simp only [hc, if_true]
      rw [trimRight]
    · simp only [hc]
      cases ds <;> rfl

/-- Trimming at the right is the library's. -/
theorem trimRight_eq_rdropWhile (cs : List Char) : trimRight cs = cs.rdropWhile isBlank := by
  induction cs using List.reverseRecOn with
  | nil => rfl
  | append_singleton cs c ih => rw [trimRight_concat, List.rdropWhile_concat, ih]

theorem trimRight_isPrefix (cs : List Char) : trimRight cs <+: cs := by
  rw [trimRight_eq_rdropWhile]
  exact List.rdropWhile_prefix _ _

theorem getLast?_trimRight {cs : List Char} {c : Char} (h : (trimRight cs).getLast? = some c) :
    isBlank c = false := by
  rw [trimRight_eq_rdropWhile] at h
  obtain ⟨hne, rfl⟩ := List.mem_getLast?_eq_getLast h
  simpa using List.rdropWhile_last_not isBlank cs hne

theorem trimRight_eq_self {cs : List Char} (h : ∀ c, cs.getLast? = some c → isBlank c = false) :
    trimRight cs = cs := by
  rw [trimRight_eq_rdropWhile, List.rdropWhile_eq_self_iff]
  intro hne
  simp [h _ (List.getLast?_eq_some_getLast hne)]

/-- A text without blanks at its ends is left as it is. -/
theorem trim_eq_self {cs : List Char} (hhead : ∀ c, cs.head? = some c → isBlank c = false)
    (hlast : ∀ c, cs.getLast? = some c → isBlank c = false) : trim cs = cs := by
  have hleft : trimLeft cs = cs := by
    cases cs with
    | nil => rfl
    | cons c cs => exact List.dropWhile_cons_of_neg (by simp [hhead c rfl])
  rw [trim, hleft, trimRight_eq_self hlast]

theorem toNat_of_isAlpha {c : Char} (h : c.isAlpha = true) : 65 ≤ c.toNat ∧ c.toNat ≤ 122 := by
  rcases (Bool.or_eq_true _ _).mp h with h | h
  · obtain ⟨hl, hr⟩ := of_decide_eq_true h
    have hl' : 65 ≤ c.toNat := UInt32.le_iff_toNat_le.mp hl
    have hr' : c.toNat ≤ 90 := UInt32.le_iff_toNat_le.mp hr
    omega
  · obtain ⟨hl, hr⟩ := (Bool.and_eq_true _ _).mp h
    have hl' : 97 ≤ c.toNat := UInt32.le_iff_toNat_le.mp (of_decide_eq_true hl)
    have hr' : c.toNat ≤ 122 := UInt32.le_iff_toNat_le.mp (of_decide_eq_true hr)
    omega

theorem isBlank_of_isNameStart {c : Char} (h : isNameStart c = true) : isBlank c = false := by
  have hletter : c.isAlpha = true → isBlank c = false := by
    intro ha
    have hn := toNat_of_isAlpha ha
    simp only [isBlank, Bool.or_eq_false_iff, Bool.and_eq_false_iff, decide_eq_false_iff_not,
      beq_eq_false_iff_ne]
    omega
  simp only [isNameStart, Bool.or_eq_true, beq_iff_eq] at h
  rcases h with ((((ha | rfl) | rfl) | rfl) | rfl) | rfl
  · exact hletter ha
  · decide
  · decide
  · decide
  · decide
  · decide

end Text

namespace Shape
open Text

variable {α β : Type} {P : α → Prop} {Q : β → Prop}

theorem bind_eq_some {s : Shape α} {f : α → Shape β} {cs r : List Char} {b : β} :
    (s >>= f) cs = some (b, r) ↔ ∃ a r', s cs = some (a, r') ∧ f a r' = some (b, r) := by
  simp only [bind, StateT.bind, Option.bind_eq_some_iff, Prod.exists]

/-- Whatever the shape reads has the property. -/
def Yields (P : α → Prop) (s : Shape α) : Prop := ∀ cs a r, s cs = some (a, r) → P a

theorem yields_pure {a : α} (h : P a) : Yields P (pure a) := by
  intro cs b r hb
  cases hb
  exact h

theorem Yields.bind {s : Shape α} {f : α → Shape β} (hs : Yields P s)
    (hf : ∀ a, P a → Yields Q (f a)) : Yields Q (s >>= f) := by
  intro cs b r h
  obtain ⟨a, r', ha, hb⟩ := bind_eq_some.mp h
  exact hf a (hs cs a r' ha) r' b r hb

/-- A part whose reading does not matter. -/
theorem yields_bind {s : Shape α} {f : α → Shape β} (hf : ∀ a, Yields Q (f a)) :
    Yields Q (s >>= f) := by
  intro cs b r h
  obtain ⟨a, r', -, hb⟩ := bind_eq_some.mp h
  exact hf a r' b r hb

theorem firstOf?_yields {shapes : List (Shape α)} (h : ∀ s ∈ shapes, Yields P s)
    {cs : List Char} {a : α} (ha : firstOf? shapes cs = some a) : P a := by
  obtain ⟨s, hs, hfirst⟩ := List.exists_of_findSome?_eq_some ha
  obtain ⟨⟨b, r⟩, hb, rfl⟩ := Option.map_eq_some_iff.mp hfirst
  exact h s hs cs b r hb

/-! ## Free text

Free text is a stretch of one line, one character or more, and `tail` goes on where it ends. This
holds whichever end is chosen, and it is all that most proofs need of a reading. -/

section Text
variable {tail : Shape α} {text : Shape (List Char × α)} {c : Char} {cs r : List Char}
  {x : List Char × α}

/-- A reading of free text, and what `tail` reads after it. -/
structure ReadsText (tail : Shape α) (x : List Char × α) (r cs : List Char) : Prop where
  ne_nil : x.1 ≠ []
  oneLine : '\n' ∉ x.1
  exists_tail : ∃ v, x.1 ++ v = cs ∧ tail v = some (x.2, r)

/-- Whatever the shape reads is free text in front of `tail`. -/
def ReadsUpTo (tail : Shape α) (text : Shape (List Char × α)) : Prop :=
  ∀ cs x r, text cs = some (x, r) → ReadsText tail x r cs

theorem ReadsText.single {a : α} (hc : ¬ (c == '\n') = true) (h : tail cs = some (a, r)) :
    ReadsText tail ([c], a) r (c :: cs) := by
  refine ⟨List.cons_ne_nil _ _, ?_, cs, rfl, h⟩
  rw [List.mem_singleton]
  exact fun he => hc (by simp [← he])

theorem ReadsText.cons (hc : ¬ (c == '\n') = true) (h : ReadsText tail x r cs) :
    ReadsText tail (c :: x.1, x.2) r (c :: cs) := by
  obtain ⟨-, hline, v, rfl, hv⟩ := h
  have hne : '\n' ≠ c := fun he => hc (by simp [← he])
  exact ⟨List.cons_ne_nil _ _, List.not_mem_cons_of_ne_of_not_mem hne hline, v, rfl, hv⟩

/-- The tail has read what is left further on. -/
theorem ReadsText.exists_suffix (h : ReadsText tail x r cs) :
    ∃ v, v <:+ cs ∧ tail v = some (x.2, r) := by
  obtain ⟨v, hv, ht⟩ := h.exists_tail
  exact ⟨v, ⟨x.1, hv⟩, ht⟩

theorem ReadsText.exists_cons (h : ReadsText tail x r (c :: cs)) : ∃ t, x.1 = c :: t := by
  obtain ⟨d, t, ht⟩ := List.exists_cons_of_ne_nil h.ne_nil
  obtain ⟨v, hv, -⟩ := h.exists_tail
  rw [ht] at hv
  cases hv
  exact ⟨t, ht⟩

theorem readsUpTo_textUntil : ReadsUpTo tail (textUntil tail) := by
  intro cs
  induction cs with
  | nil =>
    intro x r h
    cases h
  | cons c cs ih =>
    intro x r h
    simp only [textUntil] at h
    split at h
    · cases h
    · next hc =>
      rcases (Option.orElse_eq_some _ _ _).mp h with h | ⟨-, h⟩
      · obtain ⟨y, hy, he⟩ := Option.map_eq_some_iff.mp h
        cases he
        exact .single hc hy
      · obtain ⟨y, hy, he⟩ := Option.map_eq_some_iff.mp h
        cases he
        exact (ih _ _ hy).cons hc

theorem readsUpTo_longTextUntil : ReadsUpTo tail (longTextUntil tail) := by
  intro cs
  induction cs with
  | nil =>
    intro x r h
    cases h
  | cons c cs ih =>
    intro x r h
    simp only [longTextUntil] at h
    split at h
    · cases h
    · next hc =>
      rcases (Option.orElse_eq_some _ _ _).mp h with h | ⟨-, h⟩
      · obtain ⟨y, hy, he⟩ := Option.map_eq_some_iff.mp h
        cases he
        exact (ih _ _ hy).cons hc
      · obtain ⟨y, hy, he⟩ := Option.map_eq_some_iff.mp h
        cases he
        exact .single hc hy

theorem readsUpTo_textToEnd : ReadsUpTo lineEnd textToEnd := by
  intro cs x r h
  cases cs with
  | nil => cases h
  | cons c cs =>
    simp only [textToEnd] at h
    split at h
    · cases h
    · next hline =>
      cases h
      refine ⟨List.cons_ne_nil _ _, by simpa using hline, cs.rtakeWhile isBlank, ?_, ?_⟩
      · rw [trimRight_eq_rdropWhile, List.cons_append, List.rdropWhile_append_rtakeWhile]
      · have hblank : allBlank (cs.rtakeWhile isBlank) = true :=
          List.all_eq_true.mpr fun d => List.mem_rtakeWhile_imp
        simp [lineEnd, hblank]

/-- Text after a gap is text further on: if all else fails, it is a blank of the gap. -/
theorem ReadsUpTo.of_leaveGap (ht : ReadsUpTo tail text)
    (h : leaveGap text tail cs = some (x, r)) : ∃ ds, ds <:+ cs ∧ ReadsText tail x r ds := by
  induction cs with
  | nil => cases h
  | cons c cs ih =>
    simp only [leaveGap] at h
    split at h
    · rcases (Option.orElse_eq_some _ _ _).mp h with h | ⟨-, h⟩
      · obtain ⟨ds, hds, hread⟩ := ih h
        exact ⟨ds, hds.trans (List.suffix_cons c cs), hread⟩
      · split at h
        · cases h
        · next hc =>
          obtain ⟨y, hy, he⟩ := Option.map_eq_some_iff.mp h
          cases he
          exact ⟨c :: cs, List.suffix_rfl, .single hc hy⟩
    · exact ⟨c :: cs, List.suffix_rfl, ht _ _ _ h⟩

/-- A gap and text start with a blank, and the text comes after it. -/
theorem ReadsUpTo.of_gapThen (ht : ReadsUpTo tail text) (h : gapThen text tail cs = some (x, r)) :
    ∃ b ds es, cs = b :: ds ∧ isBlank b = true ∧ es <:+ ds ∧ ReadsText tail x r es := by
  cases cs with
  | nil => cases h
  | cons b cs =>
    simp only [gapThen] at h
    split at h
    · next hb =>
      obtain ⟨es, hes, hread⟩ := ht.of_leaveGap h
      exact ⟨b, cs, es, rfl, hb, hes, hread⟩
    · cases h

theorem ReadsUpTo.exists_suffix (ht : ReadsUpTo tail text)
    (h : gapThen text tail cs = some (x, r)) : ∃ v, v <:+ cs ∧ tail v = some (x.2, r) := by
  obtain ⟨b, ds, es, rfl, -, hes, hread⟩ := ht.of_gapThen h
  obtain ⟨v, hv, htail⟩ := hread.exists_suffix
  exact ⟨v, (hv.trans hes).trans (List.suffix_cons b ds), htail⟩

theorem textBefore_yields (h : Yields P tail) : Yields (fun x => P x.2) (textBefore tail) := by
  intro cs x r hx
  obtain ⟨v, -, hv⟩ := readsUpTo_textUntil.exists_suffix hx
  exact h v x.2 r hv

/-- Text after a gap stays on its line. -/
theorem ReadsUpTo.oneLine (ht : ReadsUpTo tail text) :
    Yields (fun x => '\n' ∉ x.1) (gapThen text tail) := by
  intro cs x r h
  obtain ⟨-, -, es, -, -, -, hread⟩ := ht.of_gapThen h
  exact hread.oneLine

end Text

/-! ## Gaps, names and ends -/

section
variable {cs r : List Char} {u : Unit}

theorem gap_eq_some (h : gap cs = some (u, r)) :
    ∃ b ds, cs = b :: ds ∧ isBlank b = true ∧ r = trimLeft ds := by
  cases cs with
  | nil => cases h
  | cons b ds =>
    simp only [gap] at h
    split at h
    · next hb =>
      cases h
      exact ⟨b, ds, rfl, hb, rfl⟩
    · cases h

theorem lineEnd_eq_some (h : lineEnd cs = some (u, r)) : allBlank cs = true ∧ r = [] := by
  unfold lineEnd at h
  split at h
  · next hblank =>
    cases h
    exact ⟨hblank, rfl⟩
  · cases h

theorem wordEnd_eq_some (h : wordEnd cs = some (u, r)) :
    r = cs ∧ ∀ c, cs.head? = some c → isWordChar c = false := by
  cases cs with
  | nil =>
    cases h
    exact ⟨rfl, nofun⟩
  | cons d ds =>
    simp only [wordEnd] at h
    split at h
    · cases h
    · next hd =>
      cases h
      refine ⟨rfl, fun c hc => ?_⟩
      cases hc
      simpa using hd

theorem name_eq_some {n : String} (h : name cs = some (n, r)) :
    ∃ c ds, cs = c :: ds ∧ isNameStart c = true ∧ n.toList = c :: ds.takeWhile isWordChar ∧
      r = ds.dropWhile isWordChar := by
  cases cs with
  | nil => cases h
  | cons c ds =>
    simp only [name] at h
    split at h
    · next hc =>
      cases h
      exact ⟨c, ds, rfl, hc, String.toList_ofList, rfl⟩
    · cases h

theorem betweenQuotes_eq_some {text : List Char} (h : betweenQuotes cs = some (text, r)) :
    cs = '"' :: (text ++ '"' :: r) ∧ '"' ∉ text := by
  unfold betweenQuotes at h
  split at h
  · next ds =>
    split at h
    · next rest hrest =>
      cases h
      have hsplit := List.takeWhile_append_dropWhile (p := (· != '"')) (l := ds)
      rw [hrest] at hsplit
      refine ⟨by rw [hsplit], fun hmem => ?_⟩
      simpa using List.mem_takeWhile_imp hmem
    · cases h
  · cases h

end

/-- The text begins as names do in statements. -/
def IsName (n : String) : Prop := ∃ c cs, n.toList = c :: cs ∧ isNameStart c = true

theorem name_yields : Yields IsName name := by
  intro cs n r h
  obtain ⟨c, ds, -, hc, hn, -⟩ := name_eq_some h
  exact ⟨c, _, hn, hc⟩

theorem lastName_yields : Yields IsName lastName :=
  yields_bind fun _ => name_yields.bind fun _ hn => yields_bind fun _ => yields_pure hn

theorem intoName_yields : Yields IsName intoName := yields_bind fun _ => lastName_yields

end Shape
end PlainSketch
