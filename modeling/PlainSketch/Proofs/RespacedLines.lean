import PlainSketch.Proofs.FreeText

/-!
# Statements and openers of squeezed lines

A squeezed line is read by the same shape as the line, with the same names and numbers and with
operands that differ in their blanks only. Three kinds of statements make an exception: text that is
not one literal in its quotes is printed, a literal runs from the pin of a PWM output into its
value, and a blank stands where a pin should. `Statement.Steady` leaves them out.
-/
namespace PlainSketch
open Text Shape
open Line (squeeze collapse closed isStringLiteral)

namespace Shape
variable {α β : Type} {P : α → Prop} {R : α → α → Prop} {s : Shape α} {cs : List Char}

/-- What the shape reads in a line, if it is in order, it reads in the squeezed line too, up to
`R`. -/
structure Rereads (P : α → Prop) (R : α → α → Prop) (s : Shape α) : Prop where
  fails : ∀ {cs}, Line.IsCode cs → s cs = none → s (squeeze cs) = none
  reads : ∀ {cs a r}, Line.IsCode cs → s cs = some (a, r) → P a →
    ∃ a' r', s (squeeze cs) = some (a', r') ∧ R a a'

theorem none_of_flat {g : α → α} (h : Follows flat g s s) (hcs : Line.IsCode cs)
    (hs : s cs = none) : s (squeeze cs) = none := by
  have hsame := h.eq (respaces_squeeze.isCode hcs)
  rw [Line.flat_squeeze, h.eq hcs, hs, Option.map_none] at hsame
  exact Option.map_eq_none_iff.mp hsame.symm

/-- A shape that reads the squeezed line as it reads the line. Reading twice squeezed lines shows
that the operands cannot be squeezed any further. -/
theorem rereads_of_follows {g : α → α} (h : Follows squeeze g s s)
    (hR : ∀ a, g (g a) = g a → R a (g a)) : Rereads P R s where
  fails hcs hs := by rw [h.eq hcs, hs]; rfl
  reads {cs a r} hcs hs _ := by
    have honce : s (squeeze cs) = some (g a, squeeze r) := by rw [h.eq hcs, hs]; rfl
    have htwice := h.eq (respaces_squeeze.isCode hcs)
    rw [Line.squeeze_squeeze hcs.oneLine, honce] at htwice
    exact ⟨g a, _, honce, hR a (congrArg Prod.fst (Option.some.inj htwice)).symm⟩

/-- A shape that reads flat lines as it reads the line reads the same in squeezed ones. -/
theorem rereads_of_flat (h : Follows flat id s s) (hR : ∀ a, R a a) : Rereads P R s where
  fails := none_of_flat h
  reads {cs a r} hcs hs _ := by
    have hsame := h.eq (respaces_squeeze.isCode hcs)
    rw [Line.flat_squeeze, h.eq hcs, hs, Option.map_some] at hsame
    obtain ⟨⟨a', r'⟩, hread, he⟩ := Option.map_eq_some_iff.mp hsame.symm
    obtain rfl : a' = a := congrArg Prod.fst he
    exact ⟨a', r', hread, hR a'⟩

theorem Rereads.after {t : Shape β} {k : β → Shape α} (ht : Follows squeeze id t t)
    (hk : ∀ b, Rereads P R (k b)) : Rereads P R (t >>= k) where
  fails {cs} hcs h := by
    show (t (squeeze cs)).bind _ = none
    rw [ht.eq hcs]
    cases hread : t cs with
    | none => rfl
    | some x =>
      have hrest : k x.1 x.2 = none := by
        have hbind : (t cs).bind (fun x => k x.1 x.2) = none := h
        rw [hread] at hbind
        exact hbind
      exact (hk x.1).fails (hcs.of_suffix (ht.leaves cs x.1 x.2 hread)) hrest
  reads {cs a r} hcs h ha := by
    obtain ⟨b, r₁, hb, hrest⟩ := bind_eq_some.mp h
    obtain ⟨a', r', hread, hR⟩ := (hk b).reads (hcs.of_suffix (ht.leaves cs b r₁ hb)) hrest ha
    refine ⟨a', r', bind_eq_some.mpr ⟨b, squeeze r₁, ?_, hread⟩, hR⟩
    rw [ht.eq hcs, hb]
    rfl

theorem Rereads.map {Q : β → Prop} {T : β → β → Prop} {g : α → β} (h : Rereads P R s)
    (hP : ∀ a, Q (g a) → P a) (hR : ∀ a a', Q (g a) → R a a' → T (g a) (g a')) :
    Rereads Q T (s >>= fun a => pure (g a)) where
  fails {cs} hcs hs := by
    have hnone : s cs = none := by
      cases hread : s cs with
      | none => rfl
      | some x =>
        have hbind : (s cs).bind (fun x => some (g x.1, x.2)) = none := hs
        rw [hread] at hbind
        cases hbind
    show (s (squeeze cs)).bind _ = none
    rw [h.fails hcs hnone]
    rfl
  reads {cs b r} hcs hs hb := by
    obtain ⟨a, r₁, ha, hpure⟩ := bind_eq_some.mp hs
    cases hpure
    obtain ⟨a', r', hread, hrel⟩ := h.reads hcs ha (hP a hb)
    exact ⟨g a', r', bind_eq_some.mpr ⟨a', r', hread, rfl⟩, hR a a' hb hrel⟩

theorem rereads_gapThen {f : α → α} {text : Shape (List Char × α)} {tail : Shape α}
    (ht : FreeText f text tail) :
    Rereads (fun x => allBlank x.1 = false) (Reread f tail) (gapThen text tail) where
  fails hcs := (gapThen_squeeze ht hcs).1
  reads hcs hs hx := (gapThen_squeeze ht hcs).2 _ _ hs hx

/-- The first shape that fits is the same in the squeezed line. -/
theorem firstOf?_squeeze {shapes : List (Shape α)} (h : ∀ s ∈ shapes, Rereads P R s)
    (hcs : Line.IsCode cs) {a : α} (ha : firstOf? shapes cs = some a) (hP : P a) :
    ∃ a', firstOf? shapes (squeeze cs) = some a' ∧ R a a' := by
  induction shapes with
  | nil => cases ha
  | cons s shapes ih =>
    obtain ⟨hs, hrest⟩ := List.forall_mem_cons.mp h
    simp only [firstOf?, List.findSome?_cons, first?] at ha ih ⊢
    cases hread : s cs with
    | none =>
      rw [hread] at ha
      rw [hs.fails hcs hread]
      exact ih hrest ha
    | some x =>
      rw [hread] at ha
      cases ha
      obtain ⟨a', r', hread', hR⟩ := hs.reads hcs hread hP
      rw [hread']
      exact ⟨a', rfl, hR⟩

theorem firstOf?_squeeze_eq_none {shapes : List (Shape α)} (h : ∀ s ∈ shapes, Rereads P R s)
    (hcs : Line.IsCode cs) (hnone : firstOf? shapes cs = none) :
    firstOf? shapes (squeeze cs) = none := by
  simp only [firstOf?, List.findSome?_eq_none_iff, first?, Option.map_eq_none_iff] at hnone ⊢
  exact fun s hs => (h s hs).fails hcs (hnone s hs)

end Shape

/-! ## Openers -/

namespace Opener

theorem follows_interval {φ : List Char → List Char} (hφ : Respaces φ) {units : List String}
    (hu : ∀ w ∈ units, isPlain w = true) : Follows φ id (interval units) (interval units) :=
  (follows_digits hφ).bind fun _ => (follows_optGap hφ).bind fun _ =>
    (follows_spellingOf hφ hu).bind fun _ => follows_pure _ _ rfl

theorem follows_doEnd {φ : List Char → List Char} (hφ : Respaces φ) : Follows φ id doEnd doEnd :=
  (follows_nextKeyword hφ (by decide)).bind fun _ => follows_lineEnd hφ

/-- The same opener, with other blanks in its condition. -/
inductive Respaced : Opener → Opener → Prop
  | same (o : Opener) : Respaced o o
  | ifDo {c c'} (h : collapse c' = collapse c) : Respaced (ifDo c) (ifDo c')
  | whileDo {c c'} (h : collapse c' = collapse c) : Respaced (whileDo c) (whileDo c')

/-- The condition is there. -/
def Steady : Opener → Prop
  | ifDo condition | whileDo condition => allBlank condition = false
  | _ => True

theorem freeText_doEnd : FreeText id (longTextUntil doEnd) doEnd :=
  freeText_longTextUntil startsAtGap_gap.bind.bind (follows_doEnd respaces_flat)

theorem shapes_reread : ∀ s ∈ shapes, Rereads Steady Respaced s := by
  have hφ := respaces_squeeze
  have plain : ∀ {s : Shape Opener}, Follows squeeze id s s → Rereads Steady Respaced s :=
    fun h => rereads_of_follows h fun o _ => .same o
  simp only [shapes, List.forall_mem_cons]
  refine ⟨?ifDo, ?repeatTimes, ?forever, ?whileDo, ?every, ?after, by simp⟩
  case ifDo =>
    exact .after (follows_keyword hφ (by decide)) fun _ =>
      (rereads_gapThen freeText_doEnd).map (fun x hx => hx) fun x x' _ hre => .ifDo hre.text
  case whileDo =>
    exact .after (follows_keyword hφ (by decide)) fun _ =>
      (rereads_gapThen freeText_doEnd).map (fun x hx => hx) fun x x' _ hre => .whileDo hre.text
  case repeatTimes =>
    exact plain <| (follows_keyword hφ (by decide)).bind fun _ => (follows_gap hφ).bind fun _ =>
      (follows_signedDigits hφ).bind fun _ => (follows_nextKeyword hφ (by decide)).bind fun _ =>
        (follows_doEnd hφ).bind fun _ => follows_pure _ _ rfl
  case forever =>
    exact plain <| (follows_keyword hφ (by decide)).bind fun _ =>
      (follows_doEnd hφ).bind fun _ => follows_pure _ _ rfl
  case every | after =>
    exact plain <| (follows_keyword hφ (by decide)).bind fun _ => (follows_gap hφ).bind fun _ =>
      (follows_interval hφ (by decide)).bind fun _ =>
        (follows_doEnd hφ).bind fun _ => follows_pure _ _ rfl

theorem ofCode?_squeeze {code : List Char} (hcode : Line.IsCode code) {o : Opener}
    (h : ofCode? code = some o) (ho : o.Steady) :
    ∃ o', ofCode? (squeeze code) = some o' ∧ Respaced o o' :=
  firstOf?_squeeze shapes_reread hcode h ho

theorem ofCode?_squeeze_eq_none {code : List Char} (hcode : Line.IsCode code)
    (h : ofCode? code = none) : ofCode? (squeeze code) = none :=
  firstOf?_squeeze_eq_none shapes_reread hcode h

end Opener

/-! ## Statements -/

namespace Statement

/-- Changes the operands that may hold blanks. -/
def mapText (φ : List Char → List Char) : Statement → Statement
  | pinMode p => pinMode (φ p)
  | digitalWrite p => digitalWrite (φ p)
  | toggle p => toggle (φ p)
  | pwmWrite p v => pwmWrite (φ p) (φ v)
  | readAnalog p n => readAnalog (φ p) n
  | readDigital p n => readDigital (φ p) n
  | printTextValue t v => printTextValue t (φ v)
  | printValue v => printValue (φ v)
  | assign n v => assign n (φ v)
  | change n v => change n (φ v)
  | randomSeed v => randomSeed (φ v)
  | tone f p => tone (φ f) (φ p)
  | noTone p => noTone (φ p)
  | st => st

/-- The same statement, with other blanks in its operands. Of a pin it does not matter what is
quoted. -/
inductive Respaced : Statement → Statement → Prop
  | same (st : Statement) : Respaced st st
  | pinMode {p p'} (h : flat (trim p') = flat (trim p)) : Respaced (pinMode p) (pinMode p')
  | digitalWrite {p p'} (h : flat (trim p') = flat (trim p)) :
      Respaced (digitalWrite p) (digitalWrite p')
  | toggle {p p'} (h : flat (trim p') = flat (trim p)) : Respaced (toggle p) (toggle p')
  | pwmWrite {p p' v v'} (hp : flat (trim p') = flat (trim p)) (hv : collapse v' = collapse v) :
      Respaced (pwmWrite p v) (pwmWrite p' v')
  | readAnalog {p p'} (n : String) (h : flat (trim p') = flat (trim p)) :
      Respaced (readAnalog p n) (readAnalog p' n)
  | readDigital {p p'} (n : String) (h : flat (trim p') = flat (trim p)) :
      Respaced (readDigital p n) (readDigital p' n)
  | printTextValue {v v'} (t : List Char) (h : collapse v' = collapse v) :
      Respaced (printTextValue t v) (printTextValue t v')
  | printValue {v v'} (h : collapse v' = collapse v) : Respaced (printValue v) (printValue v')
  | assign {v v'} (n : String) (h : collapse v' = collapse v) : Respaced (assign n v) (assign n v')
  | change {v v'} (n : String) (h : collapse v' = collapse v) : Respaced (change n v) (change n v')
  | randomSeed {v v'} (h : collapse v' = collapse v) : Respaced (randomSeed v) (randomSeed v')
  | tone {f f' p p'} (hf : collapse f' = collapse f) (hp : flat (trim p') = flat (trim p)) :
      Respaced (tone f p) (tone f' p')
  | noTone {p p'} (h : flat (trim p') = flat (trim p)) : Respaced (noTone p) (noTone p')

theorem collapse_squeeze {u : List Char} (h : squeeze (squeeze u) = squeeze u) :
    collapse (squeeze u) = collapse u := by
  rw [collapse, h, collapse]

theorem flat_trim_of_collapse {u u' : List Char} (h : collapse u' = collapse u) :
    flat (trim u') = flat (trim u) := by
  rw [← Line.flat_squeeze, ← Line.collapse_eq, h, Line.collapse_eq, Line.flat_squeeze]

theorem flat_trim_of_flat {u u' : List Char} (h : flat u' = flat u) :
    flat (trim u') = flat (trim u) := by
  have htrim : ∀ t, flat (trim t) = trim (flat t) := by
    intro t
    rw [trim, flat_trimRight, ← respaces_flat.trimLeft_eq, trim]
  rw [htrim, htrim, h]

/-- Operands that cannot be squeezed any further differ from the operands in blanks only. -/
theorem respaced_mapText {st : Statement}
    (h : (st.mapText squeeze).mapText squeeze = st.mapText squeeze) :
    Respaced st (st.mapText squeeze) := by
  have hpin : ∀ {u : List Char}, squeeze (squeeze u) = squeeze u →
      flat (trim (squeeze u)) = flat (trim u) :=
    fun hu => flat_trim_of_collapse (collapse_squeeze hu)
  cases st with
  | pinMode => exact .pinMode (hpin (pinMode.inj h))
  | digitalWrite => exact .digitalWrite (hpin (digitalWrite.inj h))
  | toggle => exact .toggle (hpin (toggle.inj h))
  | pwmWrite =>
    obtain ⟨hp, hv⟩ := pwmWrite.inj h
    exact .pwmWrite (hpin hp) (collapse_squeeze hv)
  | readAnalog => exact .readAnalog _ (hpin (readAnalog.inj h).1)
  | readDigital => exact .readDigital _ (hpin (readDigital.inj h).1)
  | printTextValue => exact .printTextValue _ (collapse_squeeze (printTextValue.inj h).2)
  | printValue => exact .printValue (collapse_squeeze (printValue.inj h))
  | assign => exact .assign _ (collapse_squeeze (assign.inj h).2)
  | change => exact .change _ (collapse_squeeze (change.inj h).2)
  | randomSeed => exact .randomSeed (collapse_squeeze (randomSeed.inj h))
  | tone =>
    obtain ⟨hf, hp⟩ := tone.inj h
    exact .tone (collapse_squeeze hf) (hpin hp)
  | noTone => exact .noTone (hpin (noTone.inj h))
  | readTime | readMicros | wait | serialBegin | printText | map | limit | random | call =>
    exact .same _

/-- Quotes are read alike by the statement and by the layout, and no operand is missing. -/
def Steady : Statement → Prop
  | pwmWrite pin value => allBlank pin = false ∧ (closed pin = true ∨ '"' ∉ value)
  | readAnalog pin _ | readDigital pin _ => allBlank pin = false
  | tone frequency _ => allBlank frequency = false
  | printText text | printTextValue text _ => isStringLiteral ('"' :: (text ++ ['"'])) = true
  | _ => True

/-! ### Shapes of statements -/

section
variable {φ : List Char → List Char} (hφ : Respaces φ)
include hφ

theorem follows_command {w : String} (hw : isPlain w = true) :
    Follows φ φ (command w) (command w) :=
  (follows_keyword hφ hw).bind fun _ => (follows_wordEnd hφ).bind fun _ =>
    (follows_optGap hφ).bind fun _ => follows_optRest hφ

/-- A statement that ends in a value. -/
theorem follows_valued {make : List Char → Statement}
    (hmake : ∀ v, (make v).mapText φ = make (φ v)) :
    Follows φ (mapText φ) (value >>= fun v => pure (make v)) (value >>= fun v => pure (make v)) :=
  (follows_value hφ).bind fun v => follows_pure _ _ (hmake v).symm

end

/-- The shapes without free text, quotes and words follow a squeezed line. -/
theorem rereads_plain {s : Shape Statement} (h : Follows squeeze (mapText squeeze) s s) :
    Rereads Steady Respaced s :=
  rereads_of_follows h fun _ => respaced_mapText

/-- What follows the pin of a PWM output. -/
def pwmTail : Shape (List Char) := do
  nextKeyword "to"
  nextKeyword "pwm"
  value

/-- What follows the frequency of a tone. -/
def toneTail : Shape (List Char) := do
  nextKeyword "on"
  value

theorem freeText_pwmTail : FreeText flat (textUntil pwmTail) pwmTail :=
  freeText_textUntil startsAtGap_gap.bind.bind <|
    (follows_nextKeyword respaces_flat (by decide)).bind fun _ =>
      (follows_nextKeyword respaces_flat (by decide)).bind fun _ => follows_value respaces_flat

theorem freeText_toneTail : FreeText flat (textUntil toneTail) toneTail :=
  freeText_textUntil startsAtGap_gap.bind.bind <|
    (follows_nextKeyword respaces_flat (by decide)).bind fun _ => follows_value respaces_flat

theorem freeText_intoName : FreeText id (textUntil intoName) intoName :=
  freeText_textUntil startsAtGap_gap.bind.bind (follows_intoName respaces_flat)

theorem exists_append_of_pwmTail {cs v r : List Char} (hcs : Line.IsCode cs)
    (h : pwmTail cs = some (v, r)) : ∃ p, cs = p ++ v ∧ '"' ∉ p ∧
      ∀ c, v.head? = some c → isBlank c = false := by
  obtain ⟨_, r₁, hto, hrest⟩ := bind_eq_some.mp h
  obtain ⟨_, r₂, hpwm, hvalue⟩ := bind_eq_some.mp hrest
  obtain ⟨p, rfl, hp⟩ := plain_nextKeyword (by decide) _ _ _ hto
  obtain ⟨q, rfl, hq⟩ := plain_nextKeyword (by decide) _ _ _ hpwm
  obtain ⟨o, rfl, ho, hhead⟩ := exists_append_of_value
    (hcs.of_suffix ((List.suffix_append q r₂).trans (List.suffix_append p _))) hvalue
  exact ⟨p ++ (q ++ o), by simp, by simp [hp, hq, ho], hhead⟩

/-- The value of a PWM output is squeezed by itself, if no literal runs into it. -/
theorem rereads_pwmWrite : Rereads Steady Respaced pwmWriteShape := by
  refine .after (follows_keyword respaces_squeeze (by decide)) fun _ =>
    (rereads_gapThen freeText_pwmTail).map (fun x hx => hx.1) fun x x' hx hre => ?_
  refine .pwmWrite (flat_trim_of_collapse hre.text) ?_
  obtain ⟨u, v, v', hu, rfl, hsqueeze, ⟨r, hv⟩, r', hv'⟩ := hre.exists_tails
  have hu' : Line.IsCode (squeeze (x.1 ++ v)) := respaces_squeeze.isCode hu
  rw [hsqueeze] at hu'
  obtain ⟨p, rfl, hp, hhead⟩ :=
    exists_append_of_pwmTail (hu.of_suffix (List.suffix_append x.1 v)) hv
  obtain ⟨p', rfl, -, hhead'⟩ :=
    exists_append_of_pwmTail (hu'.of_suffix (List.suffix_append x'.1 v')) hv'
  have hclosed : closed (x.1 ++ p) = true ∨ '"' ∉ x.2 :=
    hx.2.imp_left fun hpin => Line.closed_append_of_not_mem hpin hp
  rw [← List.append_assoc, Line.squeeze_append_of_head hclosed hhead, ← List.append_assoc]
    at hsqueeze
  have hsuffix : x'.2 <:+ squeeze (x.1 ++ p) ++ squeeze x.2 := by
    rw [hsqueeze]
    exact List.suffix_append _ _
  have hvalue : x'.2 = squeeze x.2 := by
    refine Line.eq_of_flat_eq_of_isSuffix ?_ hsuffix (List.suffix_append _ _) hhead' ?_
    · rw [Line.flat_squeeze]
      exact hre.value
    · rwa [Line.head?_squeeze hhead]
  have hline : '\n' ∉ x.2 := fun hmem => hu.oneLine (by simp [hmem])
  rw [hvalue]
  exact collapse_squeeze (Line.squeeze_squeeze hline)

theorem rereads_tone : Rereads Steady Respaced toneShape := by
  refine .after (follows_keyword respaces_squeeze (by decide)) fun _ =>
    .after (follows_nextKeyword respaces_squeeze (by decide)) fun _ =>
      (rereads_gapThen freeText_toneTail).map (fun x hx => hx) fun x x' hx hre => ?_
  exact .tone hre.text (flat_trim_of_flat hre.value)

theorem rereads_readAnalog : Rereads Steady Respaced readAnalogShape := by
  refine .after (follows_keyword respaces_squeeze (by decide)) fun _ =>
    .after (follows_nextKeyword respaces_squeeze (by decide)) fun _ =>
      (rereads_gapThen freeText_intoName).map (fun x hx => hx) fun x x' hx hre => ?_
  rw [show x'.2 = x.2 from hre.value]
  exact .readAnalog _ (flat_trim_of_collapse hre.text)

theorem rereads_readDigital : Rereads Steady Respaced readDigitalShape := by
  refine .after (follows_keyword respaces_squeeze (by decide)) fun _ =>
    (rereads_gapThen freeText_intoName).map (fun x hx => hx) fun x x' hx hre => ?_
  rw [show x'.2 = x.2 from hre.value]
  exact .readDigital _ (flat_trim_of_collapse hre.text)

/-- The text that a statement prints, flat. -/
def flatText : Statement → Statement
  | printText t => printText (flat t)
  | printTextValue t v => printTextValue (flat t) (flat v)
  | st => st

/-- A statement that prints a text, and goes on as `k` says. -/
theorem rereads_quoted {k : List Char → Shape Statement}
    (hflat : ∀ t, Follows flat flatText (k t) (k (flat t)))
    (hk : ∀ t, Follows squeeze (mapText squeeze) (k t) (k t))
    (hsteady : ∀ t,
      Yields (fun st => st.Steady → isStringLiteral ('"' :: (t ++ ['"'])) = true) (k t)) :
    Rereads Steady Respaced (betweenQuotes >>= k) where
  fails := none_of_flat (follows_betweenQuotes.bind hflat)
  reads {cs st r} hcs h hst := by
    obtain ⟨t, r₁, ht, hrest⟩ := bind_eq_some.mp h
    have hr₁ := hcs.of_suffix (betweenQuotes_leaves _ _ _ ht)
    obtain ⟨st', r', hread, hre⟩ := (rereads_plain (hk t)).reads hr₁ hrest hst
    refine ⟨st', r', bind_eq_some.mpr ⟨t, squeeze r₁, ?_, hread⟩, hre⟩
    exact betweenQuotes_squeeze ht (hsteady t _ _ _ hrest hst)

theorem rereads_printText : Rereads Steady Respaced printTextShape := by
  refine .after (follows_keyword respaces_squeeze (by decide)) fun _ =>
    .after (follows_gap respaces_squeeze) fun _ => rereads_quoted ?_ ?_ ?_
  · exact fun t => (follows_lineEnd respaces_flat).bind fun _ => follows_pure _ _ rfl
  · exact fun t => (follows_lineEnd respaces_squeeze).bind fun _ => follows_pure _ _ rfl
  · exact fun t => yields_bind fun _ => yields_pure id

theorem rereads_printTextValue : Rereads Steady Respaced printTextValueShape := by
  refine .after (follows_keyword respaces_squeeze (by decide)) fun _ =>
    .after (follows_gap respaces_squeeze) fun _ => rereads_quoted ?_ ?_ ?_
  · exact fun t => (follows_nextKeyword respaces_flat (by decide)).bind fun _ =>
      (follows_value respaces_flat).bind fun v => follows_pure _ _ rfl
  · exact fun t => (follows_nextKeyword respaces_squeeze (by decide)).bind fun _ =>
      follows_valued respaces_squeeze fun _ => rfl
  · exact fun t => yields_bind fun _ => yields_bind fun _ => yields_pure id

theorem follows_randomWords {φ : List Char → List Char} (hφ : Respaces φ) :
    Follows φ id randomWords randomWords :=
  (follows_keyword hφ (by decide)).either <|
    (follows_keyword hφ (by decide)).bind fun _ =>
      (follows_nextKeyword hφ (by decide)).bind fun _ => follows_nextKeyword hφ (by decide)

theorem follows_seedWords {φ : List Char → List Char} (hφ : Respaces φ) :
    Follows φ id seedWords seedWords :=
  Follows.either
    ((follows_keyword hφ (by decide)).bind fun _ =>
      (follows_nextKeyword hφ (by decide)).bind fun _ => follows_nextKeyword hφ (by decide))
    ((follows_keyword hφ (by decide)).bind fun _ => follows_nextKeyword hφ (by decide))

/-- Every statement is read again in the squeezed line. -/
theorem shapes_reread : ∀ s ∈ shapes, Rereads Steady Respaced s := by
  have hφ := respaces_squeeze
  have hflat := respaces_flat
  simp only [shapes, List.forall_mem_cons]
  refine ⟨?pinMode, ?digitalWrite, ?toggle, rereads_pwmWrite, rereads_readAnalog, ?readTime,
    ?readMicros, rereads_readDigital, ?wait, ?serialBegin, rereads_printText,
    rereads_printTextValue, ?printValue, ?assign, ?change, ?map, ?limit, ?random, ?randomSeed,
    rereads_tone, ?noTone, ?call, by simp⟩
  case pinMode | digitalWrite | toggle =>
    exact rereads_plain ((follows_command hφ (by decide)).bind fun _ => follows_pure _ _ rfl)
  case readTime | readMicros =>
    exact rereads_plain <| (follows_keyword hφ (by decide)).bind fun _ =>
      (follows_nextKeyword hφ (by decide)).bind fun _ =>
        (follows_intoName hφ).bind fun _ => follows_pure _ _ rfl
  case wait =>
    exact rereads_plain <| (follows_keyword hφ (by decide)).bind fun _ =>
      (follows_gap hφ).bind fun _ => (Opener.follows_interval hφ (by decide)).bind fun _ =>
        (follows_lineEnd hφ).bind fun _ => follows_pure _ _ rfl
  case serialBegin =>
    exact rereads_plain <| (follows_keyword hφ (by decide)).bind fun _ =>
      (follows_nextKeyword hφ (by decide)).bind fun _ =>
        (follows_nextKeyword hφ (by decide)).bind fun _ => (follows_gap hφ).bind fun _ =>
          (follows_digits hφ).bind fun _ => (follows_lineEnd hφ).bind fun _ => follows_pure _ _ rfl
  case printValue =>
    exact rereads_plain <| (follows_keyword hφ (by decide)).bind fun _ =>
      follows_valued hφ fun _ => rfl
  case assign | change =>
    exact rereads_plain <| (follows_keyword hφ (by decide)).bind fun _ =>
      (follows_gap hφ).bind fun _ => (follows_name hφ).bind fun _ =>
        (follows_nextKeyword hφ (by decide)).bind fun _ => follows_valued hφ fun _ => rfl
  -- A range is one word, and a word ends at a blank even between quotes, where squeezing keeps the
  -- blanks: statements with ranges are compared on the flat line.
  case map =>
    exact rereads_of_flat ((follows_keyword hflat (by decide)).bind fun _ =>
      (follows_gap hflat).bind fun _ => (follows_name hflat).bind fun _ =>
        (follows_nextKeyword hflat (by decide)).bind fun _ => (follows_gap hflat).bind fun _ =>
          follows_word.bind fun _ => (follows_nextKeyword hflat (by decide)).bind fun _ =>
            (follows_gap hflat).bind fun _ => follows_word.bind fun _ =>
              (follows_intoName hflat).bind fun _ => follows_pure _ _ rfl) .same
  case limit =>
    exact rereads_of_flat ((follows_keyword hflat (by decide)).bind fun _ =>
      (follows_gap hflat).bind fun _ => (follows_name hflat).bind fun _ =>
        (follows_nextKeyword hflat (by decide)).bind fun _ => (follows_gap hflat).bind fun _ =>
          follows_word.bind fun _ => (follows_lineEnd hflat).bind fun _ =>
            follows_pure _ _ rfl) .same
  case random =>
    exact rereads_of_flat ((follows_keyword hflat (by decide)).bind fun _ =>
      (follows_gap hflat).bind fun _ => (follows_randomWords hflat).bind fun _ =>
        (follows_nextKeyword hflat (by decide)).bind fun _ => (follows_gap hflat).bind fun _ =>
          follows_word.bind fun _ => (follows_intoName hflat).bind fun _ =>
            follows_pure _ _ rfl) .same
  case randomSeed =>
    exact rereads_plain <| (follows_seedWords hφ).bind fun _ => follows_valued hφ fun _ => rfl
  case noTone =>
    exact rereads_plain <| (follows_keyword hφ (by decide)).bind fun _ =>
      (follows_nextKeyword hφ (by decide)).bind fun _ =>
        (follows_nextKeyword hφ (by decide)).bind fun _ => follows_valued hφ fun _ => rfl
  case call =>
    exact rereads_plain <| (follows_keyword hφ (by decide)).bind fun _ =>
      (follows_lastName hφ).bind fun _ => follows_pure _ _ rfl

theorem ofCode?_squeeze {code : List Char} (hcode : Line.IsCode code) {st : Statement}
    (h : ofCode? code = some st) (hst : st.Steady) :
    ∃ st', ofCode? (squeeze code) = some st' ∧ Respaced st st' :=
  firstOf?_squeeze shapes_reread hcode h hst

end Statement
end PlainSketch
