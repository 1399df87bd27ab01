import Mathlib.Data.List.DropRight
import PlainSketch.Proofs.TameText

/-!
# Blanks and quoted literals

`squeeze` keeps quoted literals as they are and makes one space of every other run of blanks. Where
a literal starts and ends is not changed by that: a literal is read by its own characters alone, and
a quote that opens none before opens none after. So squeezing twice is squeezing once, and trimming
may come before or after. `flat` disregards quotes and makes one space of every run of blanks; it is
what two texts have in common that differ in the length and the kind of their blanks only.
-/
namespace PlainSketch

namespace Text

section
variable {c : Char} {cs ds : List Char}

/-! ## Trimming -/

theorem ne_of_isBlank {d : Char} (hc : isBlank c = true) (hd : isBlank d = false) : c ≠ d := by
  rintro rfl
  rw [hc] at hd
  cases hd

theorem trimRight_cons_of_not_blank (hc : isBlank c = false) (cs : List Char) :
    trimRight (c :: cs) = c :: trimRight cs := by
  rw [trimRight]
  split
  · next hnil => simp [hnil, hc]
  · next d ds hds => rw [hds]

theorem trimRight_append_of_ne_nil (h : trimRight ds ≠ []) :
    trimRight (cs ++ ds) = cs ++ trimRight ds := by
  induction cs with
  | nil => rfl
  | cons c cs ih =>
    obtain ⟨d, es, hes⟩ := List.exists_cons_of_ne_nil (by simp [h] : cs ++ trimRight ds ≠ [])
    rw [List.cons_append, trimRight, ih, hes, List.cons_append, hes]

theorem trimRight_append_of_all_blank (h : ∀ d ∈ ds, isBlank d = true) :
    trimRight (cs ++ ds) = trimRight cs := by
  induction ds using List.reverseRecOn with
  | nil => rw [List.append_nil]
  | append_singleton ds d ih =>
    rw [← List.append_assoc, trimRight_concat, if_pos (h d (by simp))]
    exact ih fun e he => h e (List.mem_append_left _ he)

theorem trimRight_eq_nil_iff : trimRight cs = [] ↔ ∀ c ∈ cs, isBlank c = true := by
  rw [trimRight_eq_rdropWhile, List.rdropWhile_eq_nil_iff]

theorem head?_trimLeft (cs : List Char) (hc : (trimLeft cs).head? = some c) :
    isBlank c = false := by
  have hhead := List.head?_dropWhile_not isBlank cs
  rw [show cs.dropWhile isBlank = trimLeft cs from rfl, hc] at hhead
  simpa using hhead

theorem head?_trim (cs : List Char) (hc : (trim cs).head? = some c) : isBlank c = false :=
  head?_trimLeft cs (head?_trimRight hc)

theorem trimLeft_eq_self (h : ∀ c, cs.head? = some c → isBlank c = false) : trimLeft cs = cs := by
  cases cs with
  | nil => rfl
  | cons c cs => exact List.dropWhile_cons_of_neg (by simp [h c rfl])

theorem trimLeft_cons_blank (hc : isBlank c = true) (cs : List Char) :
    trimLeft (c :: cs) = trimLeft cs := List.dropWhile_cons_of_pos hc

/-- What skips a blank in front does not see whether blanks were trimmed there. -/
theorem apply_trimLeft {α : Type} {f : List Char → α}
    (h : ∀ c cs, isBlank c = true → f (c :: cs) = f cs) (cs : List Char) :
    f (trimLeft cs) = f cs := by
  induction cs with
  | nil => rfl
  | cons c cs ih =>
    by_cases hc : isBlank c = true
    · rw [trimLeft_cons_blank hc, ih, h c cs hc]
    · rw [trimLeft_eq_self]
      intro d hd
      cases hd
      simpa using hc

theorem trimLeft_append_of_all_blank (h : ∀ c ∈ cs, isBlank c = true) :
    trimLeft (cs ++ ds) = trimLeft ds := List.dropWhile_append_of_pos h

/-- The two ends of a text may be trimmed in either order. -/
theorem trimLeft_trimRight (cs : List Char) :
    trimLeft (trimRight cs) = trimRight (trimLeft cs) := by
  induction cs with
  | nil => rfl
  | cons c cs ih =>
    by_cases hc : isBlank c = true
    · rw [trimLeft_cons_blank hc, ← ih, trimRight]
      split
      · next hnil => simp [hc, hnil]
      · next d ds hds => rw [hds, trimLeft_cons_blank hc]
    · have hc' : isBlank c = false := by simpa using hc
      have hleft : ∀ ds, trimLeft (c :: ds) = c :: ds :=
        fun ds => List.dropWhile_cons_of_neg (by simp [hc'])
      rw [trimRight_cons_of_not_blank hc', hleft, hleft, trimRight_cons_of_not_blank hc']

theorem trim_between {bs es : List Char} (hbs : ∀ c ∈ bs, isBlank c = true)
    (hes : ∀ c ∈ es, isBlank c = true) (cs : List Char) : trim (bs ++ (cs ++ es)) = trim cs := by
  rw [trim, trimLeft_append_of_all_blank hbs, ← trimLeft_trimRight,
    trimRight_append_of_all_blank hes, trimLeft_trimRight, trim]

/-- A text is what trimming leaves of it, with blanks around. -/
theorem exists_trim (cs : List Char) : ∃ bs es, cs = bs ++ (trim cs ++ es) ∧
    (∀ c ∈ bs, isBlank c = true) ∧ ∀ c ∈ es, isBlank c = true := by
  refine ⟨cs.takeWhile isBlank, (trimLeft cs).rtakeWhile isBlank, ?_, ?_, ?_⟩
  · rw [trim, trimRight_eq_rdropWhile, List.rdropWhile_append_rtakeWhile, trimLeft,
      List.takeWhile_append_dropWhile]
  · exact fun c hc => List.mem_takeWhile_imp hc
  · exact fun c hc => List.mem_rtakeWhile_imp hc

/-- The text does not end in a blank. -/
def EndsTight (cs : List Char) : Prop := ∀ c, cs.getLast? = some c → isBlank c = false

theorem endsTight_nil : EndsTight [] := nofun

theorem endsTight_trimRight (cs : List Char) : EndsTight (trimRight cs) :=
  fun _ hc => getLast?_trimRight hc

theorem EndsTight.of_suffix (h : EndsTight cs) (hs : ds <:+ cs) : EndsTight ds :=
  fun c hc => h c (getLast?_of_suffix hs hc)

theorem EndsTight.append (h : EndsTight ds) (hne : ds ≠ []) (cs : List Char) :
    EndsTight (cs ++ ds) := by
  intro c hc
  rw [List.getLast?_append_of_ne_nil _ hne] at hc
  exact h c hc

theorem EndsTight.trimLeft_ne_nil (h : EndsTight cs) (hne : cs ≠ []) : trimLeft cs ≠ [] := by
  intro hnil
  have hall : ∀ c ∈ cs, isBlank c = true := by
    simpa [trimLeft, List.dropWhile_eq_nil_iff] using hnil
  have hblank := hall _ (List.getLast_mem hne)
  rw [h _ (List.getLast?_eq_some_getLast hne)] at hblank
  cases hblank

theorem EndsTight.trimLeft_append (h : EndsTight cs) (hne : cs ≠ []) (ds : List Char) :
    trimLeft (cs ++ ds) = trimLeft cs ++ ds := by
  have hleft := h.trimLeft_ne_nil hne
  unfold trimLeft at hleft ⊢
  rw [List.dropWhile_append]
  simp [hleft]

theorem EndsTight.getLast?_trimLeft (h : EndsTight cs) : (trimLeft cs).getLast? = cs.getLast? := by
  by_cases hne : cs = []
  · rw [hne]
    rfl
  have hleft := h.trimLeft_ne_nil hne
  obtain ⟨x, hx⟩ := List.dropWhile_suffix (l := cs) isBlank
  conv_rhs => rw [← hx, List.getLast?_append]
  rw [show cs.dropWhile isBlank = trimLeft cs from rfl, List.getLast?_eq_some_getLast hleft]
  rfl

/-! ## Lower case -/

theorem toLower_cases (c : Char) :
    c.toLower = c ∨ (65 ≤ c.toNat ∧ c.toNat ≤ 90) ∧ c.toLower.toNat = c.toNat + 32 := by
  unfold Char.toLower
  split
  · next hc =>
    have hlow : 65 ≤ c.val.toNat := UInt32.le_iff_toNat_le.mp hc.1
    have hhigh : c.val.toNat ≤ 90 := UInt32.le_iff_toNat_le.mp hc.2
    refine .inr ⟨⟨hlow, hhigh⟩, ?_⟩
    show (c.val + 32).toNat = c.val.toNat + 32
    rw [UInt32.toNat_add, show (32 : UInt32).toNat = 32 from rfl]
    omega
  · exact .inl rfl

theorem isBlank_toLower (c : Char) : isBlank c.toLower = isBlank c := by
  rcases toLower_cases c with h | ⟨hc, h⟩
  · rw [h]
  · have letter : ∀ d : Char, 65 ≤ d.toNat → d.toNat ≤ 122 → isBlank d = false := by
      intro d hlow hhigh
      simp only [isBlank, Bool.or_eq_false_iff, Bool.and_eq_false_iff, decide_eq_false_iff_not,
        beq_eq_false_iff_ne]
      omega
    rw [letter c hc.1 (by omega), letter c.toLower (by omega) (by omega)]

/-- What is no letter is not the lower case of anything else. -/
theorem eq_of_toLower_eq {d : Char} (h : c.toLower = d) (hd : d.toNat < 97) : c = d := by
  rcases toLower_cases c with hc | ⟨hc, hlower⟩
  · rw [← h, hc]
  · rw [h] at hlower
    omega

/-! ## Quoted literals -/

@[simp]
theorem closeQuote?_quote (cs : List Char) : closeQuote? ('"' :: cs) = some (['"'], cs) := rfl

theorem closeQuote?_escape (c : Char) (cs : List Char) :
    closeQuote? ('\\' :: c :: cs) =
      if c = '\n' then none else (closeQuote? cs).map fun r => ('\\' :: c :: r.1, r.2) := by
  rw [closeQuote?]
  simp

theorem closeQuote?_other (hq : c ≠ '"') (hs : c ≠ '\\') (cs : List Char) :
    closeQuote? (c :: cs) = (closeQuote? cs).map fun r => (c :: r.1, r.2) := by
  rw [closeQuote?]
  · exact hq
  · exact fun h _ => hs h
  · exact fun _ _ h _ => hs h

/-- Texts as a literal reads them: a backslash takes the next character along. -/
@[elab_as_elim]
theorem literal_induction {P : List Char → Prop} (nil : P []) (quote : ∀ cs, P ('"' :: cs))
    (slash : P ['\\']) (escape : ∀ c cs, P cs → P ('\\' :: c :: cs))
    (other : ∀ c cs, c ≠ '"' → c ≠ '\\' → P cs → P (c :: cs)) : ∀ cs, P cs
  | [] => nil
  | [c] => by
    by_cases hq : c = '"'
    · exact hq ▸ quote []
    by_cases hs : c = '\\'
    · exact hs ▸ slash
    exact other c [] hq hs nil
  | c :: d :: cs => by
    by_cases hq : c = '"'
    · exact hq ▸ quote (d :: cs)
    by_cases hs : c = '\\'
    · exact hs ▸ escape d cs (literal_induction nil quote slash escape other cs)
    exact other c (d :: cs) hq hs (literal_induction nil quote slash escape other (d :: cs))

/-- Where a literal ends is read from the literal alone. -/
theorem closeQuote?_append_right {l r : List Char} (h : closeQuote? cs = some (l, r))
    (x : List Char) : closeQuote? (l ++ x) = some (l, x) := by
  induction cs using literal_induction generalizing l r with
  | nil => cases h
  | quote cs =>
    cases h
    rfl
  | slash => cases h
  | escape c cs ih =>
    rw [closeQuote?_escape] at h
    split at h
    · cases h
    next hc =>
    obtain ⟨q, hq, he⟩ := Option.map_eq_some_iff.mp h
    cases he
    simp [closeQuote?_escape, hc, ih hq]
  | other c cs hq hs ih =>
    rw [closeQuote?_other hq hs] at h
    obtain ⟨q, hq', he⟩ := Option.map_eq_some_iff.mp h
    cases he
    simp [closeQuote?_other hq hs, ih hq']

theorem closeQuote?_append_left {l r : List Char} (h : closeQuote? cs = some (l, r))
    (x : List Char) : closeQuote? (cs ++ x) = some (l, r ++ x) := by
  rw [← closeQuote?_append h, List.append_assoc]
  exact closeQuote?_append_right h (r ++ x)

theorem closeQuote?_eq_none_of_cons (hq : c ≠ '"') (hs : c ≠ '\\')
    (h : closeQuote? (c :: cs) = none) : closeQuote? cs = none := by
  simpa [closeQuote?_other hq hs] using h

/-- Without a quote nothing is closed. -/
theorem closeQuote?_eq_none_of_not_mem (h : '"' ∉ cs) : closeQuote? cs = none := by
  induction cs using literal_induction with
  | nil | slash => rfl
  | quote cs => simp at h
  | escape c cs ih =>
    simp only [List.mem_cons, not_or] at h
    simp [closeQuote?_escape, ih h.2.2]
  | other c cs hq hs ih =>
    simp only [List.mem_cons, not_or] at h
    simp [closeQuote?_other hq hs, ih h.2]

/-- What has no quote in it closes none. -/
theorem closeQuote?_append_eq_none (h : closeQuote? cs = none) (hd : '"' ∉ ds) :
    closeQuote? (cs ++ ds) = none := by
  induction cs using literal_induction with
  | nil => exact closeQuote?_eq_none_of_not_mem hd
  | quote cs => cases h
  | slash => exact closeQuote?_eq_none_of_not_mem (by simpa using hd)
  | escape c cs ih =>
    rw [closeQuote?_escape] at h
    rw [List.cons_append, List.cons_append, closeQuote?_escape]
    split at h
    · next hc => rw [if_pos hc]
    · next hc => rw [if_neg hc, ih (Option.map_eq_none_iff.mp h)]; rfl
  | other c cs hq hs ih =>
    rw [List.cons_append, closeQuote?_other hq hs, ih (closeQuote?_eq_none_of_cons hq hs h)]
    rfl

theorem closeQuote?_trimLeft (h : closeQuote? cs = none) : closeQuote? (trimLeft cs) = none := by
  induction cs with
  | nil => exact h
  | cons c cs ih =>
    by_cases hc : isBlank c = true
    · rw [trimLeft_cons_blank hc]
      exact ih (closeQuote?_eq_none_of_cons (ne_of_isBlank hc rfl) (ne_of_isBlank hc rfl) h)
    · rw [trimLeft_eq_self (by simpa using hc)]
      exact h

theorem getLast?_of_closeQuote? {l r : List Char} (h : closeQuote? cs = some (l, r)) :
    l.getLast? = some '"' := by
  induction cs using literal_induction generalizing l r with
  | nil | slash => cases h
  | quote cs =>
    cases h
    rfl
  | escape c cs ih =>
    rw [closeQuote?_escape] at h
    split at h
    · cases h
    obtain ⟨q, hq, he⟩ := Option.map_eq_some_iff.mp h
    cases he
    simp [List.getLast?_cons, ih hq]
  | other c cs hq hs ih =>
    rw [closeQuote?_other hq hs] at h
    obtain ⟨q, hq', he⟩ := Option.map_eq_some_iff.mp h
    cases he
    simp [List.getLast?_cons, ih hq']

theorem quoted?_quote (cs : List Char) :
    quoted? ('"' :: cs) = (closeQuote? cs).map fun r => ('"' :: r.1, r.2) := rfl

theorem quoted?_other (hc : c ≠ '"') (cs : List Char) : quoted? (c :: cs) = none := by
  rw [quoted?]
  intro ds hds
  exact hc (List.cons.inj hds).1

theorem quoted?_eq_some {l r : List Char} (h : quoted? cs = some (l, r)) :
    ∃ ds m, cs = '"' :: ds ∧ l = '"' :: m ∧ closeQuote? ds = some (m, r) := by
  unfold quoted? at h
  split at h
  · next ds =>
    obtain ⟨q, hq, he⟩ := Option.map_eq_some_iff.mp h
    cases he
    exact ⟨ds, q.1, rfl, rfl, hq⟩
  · cases h

theorem quoted?_append_right {l r : List Char} (h : quoted? cs = some (l, r)) (x : List Char) :
    quoted? (l ++ x) = some (l, x) := by
  obtain ⟨ds, m, rfl, rfl, hm⟩ := quoted?_eq_some h
  rw [List.cons_append, quoted?_quote, closeQuote?_append_right hm]
  rfl

theorem quoted?_eq_none_of_isPrefix (h : quoted? cs = none) (hp : ds <+: cs) :
    quoted? ds = none := by
  obtain ⟨x, rfl⟩ := hp
  cases hd : quoted? ds with
  | none => rfl
  | some q =>
    rw [← quoted?_append hd, List.append_assoc, quoted?_append_right hd] at h
    cases h

theorem getLast?_of_quoted? {l r : List Char} (h : quoted? cs = some (l, r)) :
    l.getLast? = some '"' := by
  obtain ⟨ds, m, rfl, rfl, hm⟩ := quoted?_eq_some h
  rw [List.getLast?_cons, getLast?_of_closeQuote? hm]
  rfl

theorem endsTight_of_quoted? {l r : List Char} (h : quoted? cs = some (l, r)) : EndsTight l := by
  intro c hc
  rw [getLast?_of_quoted? h] at hc
  cases hc
  decide

end

/-! ## Texts without regard to their spacing -/

/-- Every run of blanks, also in quotes, becomes one space. -/
def flat : List Char → List Char
  | [] => []
  | c :: cs =>
    if isBlank c then
      if cs.head?.any isBlank then flat cs else ' ' :: flat cs
    else c :: flat cs

section
variable {c : Char} {cs ds : List Char}

@[simp]
theorem flat_nil : flat [] = [] := rfl

theorem flat_cons (hc : isBlank c = false) (cs : List Char) : flat (c :: cs) = c :: flat cs := by
  simp [flat, hc]

theorem flat_cons_blank (hc : isBlank c = true) (cs : List Char) :
    flat (c :: cs) = ' ' :: flat (trimLeft cs) := by
  induction cs generalizing c with
  | nil => simp [flat, hc, trimLeft]
  | cons d ds ih =>
    by_cases hd : isBlank d = true
    · rw [trimLeft_cons_blank hd, ← ih hd, flat]
      simp [hc, hd]
    · rw [trimLeft_eq_self (by simpa using hd), flat]
      simp [hc, hd]

/-- A text that does not end in a blank is flattened apart from what follows it. -/
theorem flat_append (h : EndsTight cs) (ds : List Char) :
    flat (cs ++ ds) = flat cs ++ flat ds := by
  induction cs with
  | nil => rfl
  | cons c cs ih =>
    cases cs with
    | nil => rw [List.singleton_append, flat_cons (h c rfl), flat_cons (h c rfl)]; rfl
    | cons d es =>
      have hrest := ih (h.of_suffix (List.suffix_cons c _))
      rw [List.cons_append] at hrest
      by_cases hc : isBlank c = true
      · by_cases hd : isBlank d = true
        · simp [flat, hc, hd] at hrest ⊢
          exact hrest
        · simp [flat, hc, hd] at hrest ⊢
          exact hrest
      · simp only [List.cons_append, flat_cons (by simpa using hc : isBlank c = false), hrest]

theorem getLast?_flat (h : EndsTight cs) : (flat cs).getLast? = cs.getLast? := by
  induction cs with
  | nil => rfl
  | cons c cs ih =>
    cases cs with
    | nil => rw [flat_cons (h c rfl), flat_nil]
    | cons d ds =>
      have hrest := ih (h.of_suffix (List.suffix_cons c _))
      have hlast : ∀ e : Char, (e :: flat (d :: ds)).getLast? = (c :: d :: ds).getLast? := by
        intro e
        rw [List.getLast?_cons, hrest]
        simp [List.getLast?_cons]
      by_cases hc : isBlank c = true
      · by_cases hd : isBlank d = true
        · rw [flat, if_pos hc, if_pos (by simpa using hd), hrest]
          simp [List.getLast?_cons]
        · rw [flat, if_pos hc, if_neg (by simpa using hd), hlast]
      · rw [flat_cons (by simpa using hc), hlast]

theorem mem_flat (h : c ∈ flat cs) : c = ' ' ∨ c ∈ cs := by
  induction cs with
  | nil => cases h
  | cons d ds ih =>
    rw [flat] at h
    split at h
    · split at h
      · exact (ih h).imp_right (List.mem_cons_of_mem d)
      · rcases List.mem_cons.mp h with rfl | h
        · exact .inl rfl
        · exact (ih h).imp_right (List.mem_cons_of_mem d)
    · rcases List.mem_cons.mp h with rfl | h
      · exact .inr List.mem_cons_self
      · exact (ih h).imp_right (List.mem_cons_of_mem d)

theorem flat_eq_nil_iff : flat cs = [] ↔ cs = [] := by
  cases cs with
  | nil => simp
  | cons c cs =>
    by_cases hc : isBlank c = true
    · simp [flat_cons_blank hc]
    · simp [flat_cons (by simpa using hc)]

/-- A text that does not begin with a blank is flattened apart from what stands before it. -/
theorem flat_append_of_head (h : ∀ c, ds.head? = some c → isBlank c = false) :
    flat (cs ++ ds) = flat cs ++ flat ds := by
  induction cs with
  | nil => rfl
  | cons c cs ih =>
    have hhead : (cs ++ ds).head?.any isBlank = cs.head?.any isBlank := by
      cases cs with
      | nil =>
        cases ds with
        | nil => rfl
        | cons d ds => simp [h d rfl]
      | cons d cs => rfl
    simp only [List.cons_append, flat, hhead, ih]
    split
    · split <;> rfl
    · rfl

theorem flat_trimRight (cs : List Char) : flat (trimRight cs) = trimRight (flat cs) := by
  have hblank : ∀ c ∈ flat (cs.rtakeWhile isBlank), isBlank c = true := by
    intro c hc
    rcases mem_flat hc with rfl | hc
    · rfl
    · exact List.mem_rtakeWhile_imp hc
  have hsplit : cs = trimRight cs ++ cs.rtakeWhile isBlank := by
    rw [trimRight_eq_rdropWhile, List.rdropWhile_append_rtakeWhile]
  have htight : EndsTight (flat (trimRight cs)) := by
    intro c hc
    rw [getLast?_flat (endsTight_trimRight cs)] at hc
    exact endsTight_trimRight cs c hc
  conv_rhs =>
    rw [hsplit, flat_append (endsTight_trimRight cs), trimRight_append_of_all_blank hblank,
      trimRight_eq_self htight]

/-- Of two texts with the same flat form, the shorter one ends in a blank. -/
theorem eq_of_flat_eq (h : flat cs = flat ds) (hcs : EndsTight cs) (hp : cs <+: ds) : cs = ds := by
  obtain ⟨es, rfl⟩ := hp
  rw [flat_append hcs, List.self_eq_append_right, flat_eq_nil_iff] at h
  rw [h, List.append_nil]

theorem flat_map_toLower (cs : List Char) :
    flat (cs.map Char.toLower) = (flat cs).map Char.toLower := by
  induction cs with
  | nil => rfl
  | cons c cs ih =>
    have hhead : (cs.map Char.toLower).head?.any isBlank = cs.head?.any isBlank := by
      cases cs <;> simp [isBlank_toLower]
    simp only [List.map_cons, flat, isBlank_toLower, hhead, ih]
    split
    · split <;> rfl
    · rfl

end
end Text

namespace Line
open Text

section
variable {c : Char} {cs ds : List Char}

@[simp]
theorem squeeze_nil : squeeze [] = [] := by
  unfold squeeze
  rfl

theorem squeeze_cons_blank (hc : isBlank c = true) (cs : List Char) :
    squeeze (c :: cs) = ' ' :: squeeze (trimLeft cs) := by
  rw [squeeze.eq_def]
  exact if_pos hc

theorem squeeze_of_quoted? {l r : List Char} (h : quoted? cs = some (l, r)) :
    squeeze cs = l ++ squeeze r := by
  obtain ⟨ds, m, rfl, rfl, hm⟩ := quoted?_eq_some h
  conv_lhs => unfold squeeze
  rw [if_neg (by decide)]
  split
  · next q hq =>
    rw [h] at hq
    cases hq
    rfl
  · next hq =>
    rw [h] at hq
    cases hq

theorem squeeze_cons (hc : isBlank c = false) (hq : quoted? (c :: cs) = none) :
    squeeze (c :: cs) = c :: squeeze cs := by
  conv_lhs => unfold squeeze
  rw [if_neg (by simp [hc])]
  split
  · next q hq' =>
    rw [hq] at hq'
    cases hq'
  · rfl

/-- Texts as squeezing reads them: runs of blanks, literals, and all other characters. -/
@[elab_as_elim]
theorem spacing_induction {P : List Char → Prop} (nil : P [])
    (blank : ∀ c cs, isBlank c = true → P (trimLeft cs) → P (c :: cs))
    (literal : ∀ l r, quoted? (l ++ r) = some (l, r) → P r → P (l ++ r))
    (other : ∀ c cs, isBlank c = false → quoted? (c :: cs) = none → P cs → P (c :: cs))
    (cs : List Char) : P cs := by
  induction cs using squeeze.induct with
  | case1 => exact nil
  | case2 c cs hc ih => exact blank c cs hc ih
  | case3 c cs hc q hq ih =>
    have happend := quoted?_append hq
    rw [← happend] at hq ⊢
    exact literal q.1 q.2 hq ih
  | case4 c cs hc hq ih => exact other c cs (by simpa using hc) hq ih

/-- A squeezed text begins with a blank only if the text does. -/
theorem head?_squeeze (h : ∀ c, cs.head? = some c → isBlank c = false) :
    (squeeze cs).head? = cs.head? := by
  induction cs using spacing_induction with
  | nil => simp
  | blank c cs hc =>
    have hc' := h c rfl
    rw [hc] at hc'
    cases hc'
  | literal l r hq =>
    obtain ⟨ds, m, -, rfl, -⟩ := quoted?_eq_some hq
    rw [squeeze_of_quoted? hq]
    rfl
  | other c cs hc hq => rw [squeeze_cons hc hq]; rfl

theorem trimLeft_squeeze_of_head (h : ∀ c, cs.head? = some c → isBlank c = false) :
    trimLeft (squeeze cs) = squeeze cs := by
  refine trimLeft_eq_self fun c hc => ?_
  rw [head?_squeeze h] at hc
  exact h c hc

theorem squeeze_trimLeft (cs : List Char) : squeeze (trimLeft cs) = trimLeft (squeeze cs) := by
  cases cs with
  | nil => simp [trimLeft]
  | cons c cs =>
    by_cases hc : isBlank c = true
    · rw [trimLeft_cons_blank hc, squeeze_cons_blank hc, trimLeft_cons_blank (by decide),
        trimLeft_squeeze_of_head fun d hd => head?_trimLeft cs hd]
    · have hhead : ∀ d, (c :: cs).head? = some d → isBlank d = false := by
        rintro d ⟨⟩
        simpa using hc
      rw [trimLeft_eq_self hhead, trimLeft_squeeze_of_head hhead]

theorem squeeze_quote (h : closeQuote? cs = none) : squeeze ('"' :: cs) = '"' :: squeeze cs :=
  squeeze_cons (by decide) (by rw [quoted?_quote, h]; rfl)

theorem squeeze_other (hc : isBlank c = false) (hq : c ≠ '"') (cs : List Char) :
    squeeze (c :: cs) = c :: squeeze cs := squeeze_cons hc (quoted?_other hq cs)

/-- A quote that nothing closes is not closed by squeezing. -/
theorem closeQuote?_squeeze (hn : '\n' ∉ cs) (h : closeQuote? cs = none) :
    closeQuote? (squeeze cs) = none := by
  induction cs using literal_induction with
  | nil => simpa using h
  | quote cs => cases h
  | slash => simp [squeeze_other (c := '\\') (by decide) (by decide), closeQuote?]
  | escape c cs ih =>
    simp only [List.mem_cons, not_or] at hn
    rw [closeQuote?_escape, if_neg (Ne.symm hn.2.1), Option.map_eq_none_iff] at h
    have hcs := ih hn.2.2 h
    rw [squeeze_other (by decide) (by decide)]
    by_cases hc : isBlank c = true
    · rw [squeeze_cons_blank hc, squeeze_trimLeft, closeQuote?_escape]
      simp [closeQuote?_trimLeft hcs]
    by_cases hq : c = '"'
    · rw [hq, squeeze_quote h, closeQuote?_escape]
      simp [hcs]
    rw [squeeze_other (by simpa using hc) hq, closeQuote?_escape]
    simp [hcs]
  | other c cs hq hs ih =>
    simp only [List.mem_cons, not_or] at hn
    have hcs := ih hn.2 (closeQuote?_eq_none_of_cons hq hs h)
    by_cases hc : isBlank c = true
    · rw [squeeze_cons_blank hc, squeeze_trimLeft, closeQuote?_other (by decide) (by decide)]
      simp [closeQuote?_trimLeft hcs]
    rw [squeeze_other (by simpa using hc) hq, closeQuote?_other hq hs]
    simp [hcs]

theorem quoted?_squeeze (hn : '\n' ∉ cs) (h : quoted? (c :: cs) = none) :
    quoted? (c :: squeeze cs) = none := by
  by_cases hq : c = '"'
  · subst hq
    rw [quoted?_quote, Option.map_eq_none_iff] at h ⊢
    exact closeQuote?_squeeze hn h
  · exact quoted?_other hq _

theorem newline_not_mem_trimLeft (h : '\n' ∉ cs) : '\n' ∉ trimLeft cs :=
  fun hmem => h ((List.dropWhile_sublist _).subset hmem)

theorem newline_not_mem_squeeze (h : '\n' ∉ cs) : '\n' ∉ squeeze cs := by
  induction cs using spacing_induction with
  | nil => simp
  | blank c cs hc ih =>
    rw [squeeze_cons_blank hc]
    have hrest := ih (newline_not_mem_trimLeft (List.not_mem_of_not_mem_cons h))
    simpa using hrest
  | literal l r hq ih =>
    rw [squeeze_of_quoted? hq]
    simp only [List.mem_append, not_or] at h ⊢
    exact ⟨h.1, ih h.2⟩
  | other c cs hc hq ih =>
    rw [squeeze_cons hc hq]
    simp only [List.mem_cons, not_or] at h ⊢
    exact ⟨h.1, ih h.2⟩

/-- Squeezing a squeezed line changes nothing. -/
theorem squeeze_squeeze (h : '\n' ∉ cs) : squeeze (squeeze cs) = squeeze cs := by
  induction cs using spacing_induction with
  | nil => simp
  | blank c cs hc ih =>
    have hrest := ih (newline_not_mem_trimLeft (List.not_mem_of_not_mem_cons h))
    rw [squeeze_cons_blank hc, squeeze_cons_blank (by decide),
      trimLeft_squeeze_of_head fun d hd => head?_trimLeft cs hd, hrest]
  | literal l r hq ih =>
    simp only [List.mem_append, not_or] at h
    rw [squeeze_of_quoted? hq, squeeze_of_quoted? (quoted?_append_right hq _), ih h.2]
  | other c cs hc hq ih =>
    have hcs := List.not_mem_of_not_mem_cons h
    rw [squeeze_cons hc hq, squeeze_cons hc (quoted?_squeeze hcs hq), ih hcs]

/-- A squeezed text ends in a blank only if the text does. -/
theorem getLast?_squeeze (h : EndsTight cs) : (squeeze cs).getLast? = cs.getLast? := by
  induction cs using spacing_induction with
  | nil => simp
  | blank c cs hc ih =>
    have hcs := h.of_suffix (List.suffix_cons c cs)
    rw [squeeze_cons_blank hc, List.getLast?_cons, ih (hcs.of_suffix (List.dropWhile_suffix _)),
      hcs.getLast?_trimLeft]
    cases hl : cs.getLast? with
    | none =>
      rw [List.getLast?_eq_none_iff.mp hl] at h
      rw [h c rfl] at hc
      cases hc
    | some d => rw [List.getLast?_cons, hl]; rfl
  | literal l r hq ih =>
    rw [squeeze_of_quoted? hq, List.getLast?_append, List.getLast?_append,
      ih (h.of_suffix (List.suffix_append l r))]
  | other c cs hc hq ih =>
    rw [squeeze_cons hc hq, List.getLast?_cons, List.getLast?_cons,
      ih (h.of_suffix (List.suffix_cons c cs))]

theorem endsTight_squeeze (h : EndsTight cs) : EndsTight (squeeze cs) := by
  intro c hc
  rw [getLast?_squeeze h] at hc
  exact h c hc

/-- Text without quotes is squeezed apart from what stands before it. -/
theorem squeeze_append (h : EndsTight cs) (hd : '"' ∉ ds) :
    squeeze (cs ++ ds) = squeeze cs ++ squeeze ds := by
  induction cs using spacing_induction with
  | nil => simp
  | blank c cs hc ih =>
    have hcs := h.of_suffix (List.suffix_cons c cs)
    have hne : cs ≠ [] := by
      rintro rfl
      rw [h c rfl] at hc
      cases hc
    rw [List.cons_append, squeeze_cons_blank hc, squeeze_cons_blank hc, hcs.trimLeft_append hne,
      ih (hcs.of_suffix (List.dropWhile_suffix _)), List.cons_append]
  | literal l r hq ih =>
    rw [List.append_assoc, squeeze_of_quoted? (quoted?_append_right hq _),
      ih (h.of_suffix (List.suffix_append l r)), squeeze_of_quoted? hq, List.append_assoc]
  | other c cs hc hq ih =>
    have hq' : quoted? (c :: (cs ++ ds)) = none := by
      by_cases he : c = '"'
      · subst he
        rw [quoted?_quote, Option.map_eq_none_iff] at hq ⊢
        exact closeQuote?_append_eq_none hq hd
      · exact quoted?_other he _
    rw [List.cons_append, squeeze_cons hc hq', ih (h.of_suffix (List.suffix_cons c cs)),
      squeeze_cons hc hq, List.cons_append]

theorem squeeze_of_all_blank (h : ∀ c ∈ cs, isBlank c = true) :
    squeeze cs = if cs = [] then [] else [' '] := by
  cases cs with
  | nil => simp
  | cons c cs =>
    have hrest : trimLeft cs = [] := by
      simpa [trimLeft, List.dropWhile_eq_nil_iff] using fun d hd => h d (List.mem_cons_of_mem c hd)
    rw [squeeze_cons_blank (h c List.mem_cons_self), hrest]
    simp

/-- Blanks at the end of a text belong to no literal. -/
theorem squeeze_trimRight (cs : List Char) : squeeze (trimRight cs) = trimRight (squeeze cs) := by
  have hblank : ∀ c ∈ cs.rtakeWhile isBlank, isBlank c = true :=
    fun c hc => List.mem_rtakeWhile_imp hc
  have hsplit : cs = trimRight cs ++ cs.rtakeWhile isBlank := by
    rw [trimRight_eq_rdropWhile, List.rdropWhile_append_rtakeWhile]
  have htight := endsTight_trimRight cs
  conv_rhs => rw [hsplit, squeeze_append htight fun hq => ne_of_isBlank (hblank _ hq) rfl rfl,
    squeeze_of_all_blank hblank]
  split
  · rw [List.append_nil, trimRight_eq_self (endsTight_squeeze htight)]
  · rw [trimRight_append_of_all_blank (by simp [show isBlank ' ' = true by decide]),
      trimRight_eq_self (endsTight_squeeze htight)]

theorem squeeze_trim (cs : List Char) : squeeze (trim cs) = trim (squeeze cs) := by
  rw [trim, squeeze_trimRight, squeeze_trimLeft, trim]

theorem collapse_eq (cs : List Char) : collapse cs = squeeze (trim cs) := (squeeze_trim cs).symm

theorem squeeze_collapse (h : '\n' ∉ cs) : squeeze (collapse cs) = collapse cs := by
  rw [collapse, squeeze_trim, squeeze_squeeze h]

/-- Squeezing does nothing that flattening would not do. -/
theorem flat_squeeze (cs : List Char) : flat (squeeze cs) = flat cs := by
  induction cs using spacing_induction with
  | nil => simp
  | blank c cs hc ih =>
    rw [squeeze_cons_blank hc, flat_cons_blank hc, flat_cons_blank (by decide),
      trimLeft_squeeze_of_head fun d hd => head?_trimLeft cs hd, ih]
  | literal l r hq ih =>
    have htight := endsTight_of_quoted? hq
    rw [squeeze_of_quoted? hq, flat_append htight, flat_append htight, ih]
  | other c cs hc hq ih => rw [squeeze_cons hc hq, flat_cons hc, flat_cons hc, ih]

theorem squeeze_of_not_blank (h : ∀ c ∈ cs, isBlank c = false) : squeeze cs = cs := by
  induction cs using spacing_induction with
  | nil => simp
  | blank c cs hc =>
    rw [h c List.mem_cons_self] at hc
    cases hc
  | literal l r hq ih =>
    rw [squeeze_of_quoted? hq, ih fun c hc => h c (List.mem_append_right l hc)]
  | other c cs hc hq ih =>
    rw [squeeze_cons hc hq, ih fun d hd => h d (List.mem_cons_of_mem c hd)]

/-- Squeezing leaves a blank wherever there were some. -/
theorem not_blank_of_squeeze (h : ∀ c ∈ squeeze cs, isBlank c = false) :
    ∀ c ∈ cs, isBlank c = false := by
  induction cs using spacing_induction with
  | nil => nofun
  | blank c cs hc =>
    have hspace := h ' ' (by rw [squeeze_cons_blank hc]; exact List.mem_cons_self)
    cases hspace
  | literal l r hq ih =>
    rw [squeeze_of_quoted? hq] at h
    intro c hc
    rcases List.mem_append.mp hc with hc | hc
    · exact h c (List.mem_append_left _ hc)
    · exact ih (fun d hd => h d (List.mem_append_right l hd)) c hc
  | other c cs hc hq ih =>
    rw [squeeze_cons hc hq] at h
    exact List.forall_mem_cons.mpr ⟨hc, ih fun d hd => h d (List.mem_cons_of_mem c hd)⟩

theorem quoted?_eq_none (h : '"' ∉ cs) : quoted? cs = none := by
  cases cs with
  | nil => rfl
  | cons c cs => exact quoted?_other (fun he => h (he ▸ List.mem_cons_self)) cs

/-- Without quotes there is nothing that squeezing spares. -/
theorem squeeze_eq_flat (h : '"' ∉ cs) : squeeze cs = flat cs := by
  induction cs using spacing_induction with
  | nil => simp
  | blank c cs hc ih =>
    have hrest : '"' ∉ trimLeft cs :=
      fun hmem => h (List.mem_cons_of_mem c ((List.dropWhile_suffix _).subset hmem))
    rw [squeeze_cons_blank hc, flat_cons_blank hc, ih hrest]
  | literal l r hq =>
    rw [quoted?_eq_none h] at hq
    cases hq
  | other c cs hc hq ih =>
    rw [squeeze_cons hc hq, flat_cons hc, ih (List.not_mem_of_not_mem_cons h)]

/-- A word without blanks is the same word squeezed, and nothing else squeezes to it. -/
theorem isWord_squeeze {w : String} (hw : w.toList.all (!isBlank ·) = true) (cs : List Char) :
    isWord w (squeeze cs) = isWord w cs := by
  have hblank : ∀ {ds : List Char}, isWord w ds = true → ∀ c ∈ ds, isBlank c = false := by
    intro ds hds c hc
    have hmem : c.toLower ∈ w.toList := beq_iff_eq.mp hds ▸ List.mem_map_of_mem hc
    rw [← isBlank_toLower]
    simpa using List.all_eq_true.mp hw _ hmem
  rw [Bool.eq_iff_iff]
  constructor
  · intro h
    rwa [squeeze_of_not_blank (not_blank_of_squeeze (hblank h))] at h
  · intro h
    rwa [squeeze_of_not_blank (hblank h)]

/-- A phrase with single spaces is the same phrase squeezed. -/
theorem isWord_squeeze_of_isWord {w : String} (hflat : flat w.toList = w.toList)
    (hw : '"' ∉ w.toList) (h : isWord w cs = true) : isWord w (squeeze cs) = true := by
  have hlower : cs.map Char.toLower = w.toList := beq_iff_eq.mp h
  have hquote : '"' ∉ cs := by
    intro hmem
    exact hw (hlower ▸ List.mem_map_of_mem (f := Char.toLower) hmem)
  rw [squeeze_eq_flat hquote, isWord, ← flat_map_toLower, hlower, hflat, beq_self_eq_true]

end
end Line
end PlainSketch
