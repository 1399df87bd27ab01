import PlainSketch.Proofs.BlockRuns
import PlainSketch.Proofs.Namespaces
import PlainSketch.Proofs.PhraseSpacing
import PlainSketch.Proofs.RespacedSorts
import PlainSketch.Proofs.SketchSpacing

/-!
# Compiling respaced statements

A statement that compiles without errors compiles alike with other blanks in its operands: it
changes the session in the same way, and the lines that it becomes differ in their blanks only. What
blanks could change is reported as an error anyway, such as a pin with quotes in it.
-/
namespace PlainSketch
open Text Shape
open Line (squeeze collapse words SameWords isStringLiteral closed)

/-! ## Operands -/

namespace Shape
theorem value_oneLine : Yields (fun v => '\n' ∉ v) value :=
  readsUpTo_textToEnd.oneLine.bind fun _ hx => yields_pure hx

theorem name_unquoted : Yields (fun n => '"' ∉ n.toList) name := by
  intro cs n r h
  obtain ⟨c, ds, -, hc, hn, -⟩ := name_eq_some h
  rw [hn]
  refine List.not_mem_cons_of_ne_of_not_mem ?_ ?_
  · rintro rfl
    exact absurd hc (by decide)
  · intro hmem
    exact absurd (List.mem_takeWhile_imp hmem) (by decide)

end Shape

/-- No line feeds in values, and no quotes in the names before them. -/
def Statement.IsClean : Statement → Prop
  | pwmWrite _ value | printTextValue _ value | printValue value | randomSeed value
  | tone value _ => '\n' ∉ value
  | assign name value | change name value => '"' ∉ name.toList ∧ '\n' ∉ value
  | _ => True

theorem Statement.shapes_clean : ∀ s ∈ shapes, Yields IsClean s := by
  simp only [shapes, List.forall_mem_cons]
  have valued : ∀ {make : List Char → Statement}, (∀ v, '\n' ∉ v → (make v).IsClean) →
      Yields IsClean (value >>= fun v => pure (make v)) :=
    fun h => value_oneLine.bind fun v hv => yields_pure (h v hv)
  refine ⟨?pinMode, ?digitalWrite, ?toggle, ?pwmWrite, ?readAnalog, ?readTime, ?readMicros,
    ?readDigital, ?wait, ?serialBegin, ?printText, ?printTextValue, ?printValue, ?assign, ?change,
    ?map, ?limit, ?random, ?randomSeed, ?tone, ?noTone, ?call, by simp⟩
  case pwmWrite =>
    have tail : Yields (fun v => '\n' ∉ v) (do nextKeyword "to"; nextKeyword "pwm"; value) :=
      yields_bind fun _ => yields_bind fun _ => value_oneLine
    exact yields_bind fun _ => (textBefore_yields tail).bind fun r hr => yields_pure hr
  case printTextValue =>
    exact yields_bind fun _ => yields_bind fun _ => yields_bind fun _ => yields_bind fun _ =>
      valued fun _ hv => hv
  case printValue => exact yields_bind fun _ => valued fun _ hv => hv
  case assign | change =>
    exact yields_bind fun _ => yields_bind fun _ => name_unquoted.bind fun _ hn =>
      yields_bind fun _ => valued fun _ hv => ⟨hn, hv⟩
  case randomSeed => exact yields_bind fun _ => valued fun _ hv => hv
  case tone =>
    exact yields_bind fun _ => yields_bind fun _ =>
      readsUpTo_textUntil.oneLine.bind fun r hr => yields_pure hr
  -- the others have no values
  all_goals
    repeat refine yields_bind fun _ => ?_
    exact yields_pure trivial

/-- No line feeds in conditions. -/
def Opener.IsClean : Opener → Prop
  | ifDo condition | whileDo condition => '\n' ∉ condition
  | _ => True

theorem Opener.shapes_clean : ∀ s ∈ shapes, Yields IsClean s := by
  simp only [shapes, List.forall_mem_cons]
  refine ⟨?ifDo, ?repeatTimes, ?forever, ?whileDo, ?every, ?after, by simp⟩
  case ifDo | whileDo =>
    exact yields_bind fun _ =>
      readsUpTo_longTextUntil.oneLine.bind fun _ hr => yields_pure hr
  all_goals
    repeat refine yields_bind fun _ => ?_
    exact yields_pure trivial

/-! ## Steps on the session -/

namespace Build
open Session

section
variable {α β : Type} {m m' : Build α} {f f' : α → Build β} {R : α → α → Prop} {Q : β → β → Prop}

/-- Where `m` comes through without errors, `m'` leads to the same session, and the answers are
related. -/
def Mirrors (R : α → α → Prop) (m m' : Build α) : Prop :=
  ∀ ⦃s a t⦄, s.table.Exclusive → m s = .ok a t → t.Accepted → ∃ a', m' s = .ok a' t ∧ R a a'

theorem mirrors_refl (m : Build α) : Mirrors Eq m m := fun _ a _ _ hm _ => ⟨a, hm, rfl⟩

theorem mirrors_pure {a a' : α} (h : R a a') : Mirrors R (pure a : Build α) (pure a') := by
  intro s b t _ hm _
  cases hm
  exact ⟨a', rfl, h⟩

/-- An error in place of what would be done has nothing to mirror it. -/
theorem mirrors_refusal {line : Int} {p : Problem} (hp : p.severity = .error) (a : α)
    (m' : Build α) : Mirrors R (report line p >>= fun _ => pure a) m' := by
  intro s b t _ hm hacc
  cases hm
  exact absurd hacc (not_accepted_reported hp)

/-- A step that both do, and what follows it. -/
theorem mirrors_bind (hext : Elementary m) (h : ∀ a, Mirrors Q (f a) (f' a)) :
    Mirrors Q (m >>= f) (m >>= f') := by
  intro s b u hs hrun hacc
  obtain ⟨a, t, ha, hb⟩ := bind_eq_ok.mp hrun
  obtain ⟨b', hb', hQ⟩ := h a (hs.grows (hext.extending.ok ha).table) hb hacc
  exact ⟨b', bind_eq_ok.mpr ⟨a, t, ha, hb'⟩, hQ⟩

theorem Mirrors.bind (hm : Mirrors R m m') (hext : Extending m) (hf : ∀ a, Extending (f a))
    (h : ∀ a a', R a a' → Mirrors Q (f a) (f' a')) : Mirrors Q (m >>= f) (m' >>= f') := by
  intro s b u hs hrun hacc
  obtain ⟨a, t, ha, hb⟩ := bind_eq_ok.mp hrun
  have ht : t.Accepted := hacc.of_isPrefix ((hf a).ok hb).findings
  obtain ⟨a', ha', hR⟩ := hm hs ha ht
  obtain ⟨b', hb', hQ⟩ := h a a' hR (hs.grows (hext.ok ha).table) hb hacc
  exact ⟨b', bind_eq_ok.mpr ⟨a', t, ha', hb'⟩, hQ⟩

/-- Both are there, and related. -/
inductive Found {α : Type} (R : α → α → Prop) : Option α → Option α → Prop
  | intro {a a' : α} (h : R a a') : Found R (some a) (some a')

theorem Mirrors.found_bind {m m' : Build (Option α)} {f f' : Option α → Build β}
    (hm : Mirrors (Found R) m m') (hext : Elementary m) (hnone : Elementary (f none))
    (hsome : ∀ a, Elementary (f (some a)))
    (h : ∀ a a', R a a' → Mirrors Q (f (some a)) (f' (some a'))) :
    Mirrors Q (m >>= f) (m' >>= f') := by
  refine hm.bind hext.extending ?_ ?_
  · rintro (_ | a)
    · exact hnone.extending
    · exact (hsome a).extending
  · rintro _ _ ⟨hR⟩
    exact h _ _ hR

end

/-! ### Values and conditions -/

theorem useNames_congr {u u' : List Char}
    (h : ∀ reserved, Expression.names reserved u' = Expression.names reserved u) (line : Int) :
    useNames u' line = useNames u line := by
  simp only [useNames, h]

theorem expression_eq {cs : List Char} (h : trim cs ≠ []) (line : Int) :
    expression cs line = useNames (trim cs) line >>= fun _ => pure (some (trim cs)) := by
  unfold expression
  cases ht : trim cs with
  | nil => exact absurd ht h
  | cons c r => rfl

theorem condition_eq {cs : List Char} (h : trim cs ≠ []) (line : Int) :
    condition cs line = useNames (Phrase.replaceAll (trim cs)) line >>= fun _ =>
      pure (some (Phrase.replaceAll (trim cs))) := by
  unfold condition
  cases ht : trim cs with
  | nil => exact absurd ht h
  | cons c r => rfl

theorem names_congr {u u' : List Char} (h : squeeze u' = squeeze u) (hn : '\n' ∉ u)
    (hn' : '\n' ∉ u') (reserved : List String) :
    Expression.names reserved u' = Expression.names reserved u := by
  rw [← Expression.names_squeeze reserved hn', h, Expression.names_squeeze reserved hn]

theorem trim_ne_nil {v v' : List Char} (h : collapse v' = collapse v) (hv : trim v ≠ []) :
    trim v' ≠ [] := by
  intro hnil
  have hflat := Statement.flat_trim_of_collapse h
  rw [hnil, flat_nil, eq_comm, flat_eq_nil_iff] at hflat
  exact hv hflat

variable {line : Int} {v v' p p' : List Char}

theorem expression_mirrors (h : collapse v' = collapse v) (hn : '\n' ∉ v) (hn' : '\n' ∉ v') :
    Mirrors (Found Line.Alike) (expression v line) (expression v' line) := by
  by_cases hv : trim v = []
  · unfold expression
    rw [hv]
    exact mirrors_refusal rfl _ _
  · have halike := Line.alike_trim h hn hn'
    have huse : useNames (trim v') line = useNames (trim v) line :=
      useNames_congr (names_congr halike.squeezed halike.oneLine halike.oneLine') line
    rw [expression_eq hv, expression_eq (trim_ne_nil h hv), huse]
    exact mirrors_bind (useNames_elementary _ line) fun _ => mirrors_pure ⟨halike⟩

theorem head?_replaceAll {cs : List Char} (h : ∀ c, cs.head? = some c → isBlank c = false) :
    ∀ c, (Phrase.replaceAll cs).head? = some c → isBlank c = false := by
  intro c hc
  rw [← trimLeft_eq_self h, ← Phrase.trimLeft_replaceAll] at hc
  exact head?_trimLeft _ hc

theorem condition_mirrors (h : collapse v' = collapse v) (hn : '\n' ∉ v) (hn' : '\n' ∉ v') :
    Mirrors (Found Line.Alike) (condition v line) (condition v' line) := by
  by_cases hv : trim v = []
  · unfold condition
    rw [hv]
    exact mirrors_refusal rfl _ _
  · have hcode : ∀ {u : List Char}, '\n' ∉ u → Line.IsCode (trim u) := fun hu =>
      ⟨fun c hc => getLast?_trimRight hc, fun hm => hu (Line.mem_of_mem_trim hm)⟩
    obtain ⟨hsqueeze, htest⟩ := Phrase.replaceAll_squeeze (hcode hn)
    obtain ⟨hsqueeze', htest'⟩ := Phrase.replaceAll_squeeze (hcode hn')
    have halike := Line.alike_trim h hn hn'
    have htests : Line.Alike (Phrase.replaceAll (trim v)) (Phrase.replaceAll (trim v')) :=
      ⟨by rw [← hsqueeze', halike.squeezed, hsqueeze], head?_replaceAll halike.head,
        head?_replaceAll halike.head', htest.oneLine, htest'.oneLine⟩
    rw [condition_eq hv, condition_eq (trim_ne_nil h hv),
      useNames_congr (names_congr htests.squeezed htest.oneLine htest'.oneLine)]
    exact mirrors_bind (useNames_elementary _ line) fun _ => mirrors_pure ⟨htests⟩

/-! ### Pins -/

theorem not_mem_repr {c : Char} (hc : c.isDigit = false) (n : Nat) : c ∉ n.repr.toList := by
  intro hmem
  rw [Nat.toList_repr] at hmem
  have hdigit := Nat.isDigit_of_mem_toDigits (by omega) (by omega) hmem
  rw [hc] at hdigit
  cases hdigit

theorem not_mem_toString {c : Char} (hc : c.isDigit = false) (hminus : c ≠ '-') (n : Int) :
    c ∉ (toString n).toList := by
  rw [Int.toString_eq_repr]
  cases n with
  | ofNat n => exact not_mem_repr hc n
  | negSucc n =>
    rw [Int.repr, String.toList_append, List.mem_append]
    rintro (hmem | hmem)
    · exact hminus (by simpa using hmem)
    · exact not_mem_repr hc _ hmem

theorem not_mem_label {c : Char} (hc : isDigit c = false) (hA : c ≠ 'A') {ds : List Char}
    (h : isNatural ds = true) : c ∉ 'A' :: ds := by
  refine List.not_mem_cons_of_ne_of_not_mem hA fun hmem => ?_
  have hdigit := List.all_eq_true.mp ((Bool.and_eq_true _ _).mp h).2 _ hmem
  rw [hc] at hdigit
  cases hdigit

theorem isNameChar_of_isIdentifier {cs : List Char} (h : Line.isIdentifier cs = true) :
    ∀ c ∈ cs, Line.isNameChar c = true ∨ c = '\n' := by
  cases cs with
  | nil => exact fun c hc => absurd hc List.not_mem_nil
  | cons d cs =>
    simp only [Line.isIdentifier, Bool.and_eq_true, Bool.or_eq_true, beq_iff_eq] at h
    intro c hc
    rcases List.mem_cons.mp hc with rfl | hc
    · refine .inl ?_
      have hhead := h.1
      simp only [Line.isNameHead, Line.isNameChar, Char.isAlphanum, Bool.or_eq_true] at hhead ⊢
      tauto
    · rw [← List.takeWhile_append_dropWhile (p := Line.isNameChar) (l := cs),
        List.mem_append] at hc
      rcases hc with hc | hc
      · exact .inl (List.mem_takeWhile_imp hc)
      · refine .inr ?_
        rcases h.2 with hnil | hline
        · rw [hnil] at hc
          cases hc
        · rw [hline] at hc
          exact List.mem_singleton.mp hc

theorem quote_not_mem_of_isIdentifier {cs : List Char} (h : Line.isIdentifier cs = true) :
    '"' ∉ cs :=
  fun hmem => absurd (isNameChar_of_isIdentifier h _ hmem) (by decide)

theorem quote_not_mem_target {t : SymbolTable} (ht : t.Exclusive) {target : PinTarget}
    {kind : PinKind} {number : Option Int} (h : t.Resolves target kind number) :
    '"' ∉ target.text.toList := by
  cases h with
  | number n => exact not_mem_toString (by decide) (by decide) n
  | label hd =>
    rw [PinTarget.text, String.toList_ofList]
    exact not_mem_label (by decide) (by decide) hd
  | named hp =>
    rename_i p
    refine quote_not_mem_of_isIdentifier (ht.identifiers p.name ?_)
    exact SymbolTable.mem_names.mpr (.inl (SymbolTable.isPin_iff.mpr ⟨p, hp, rfl⟩))

theorem pinOfWord_some {s t : Session} {token : List Char} {ref : PinRef}
    (h : pinOfWord token line s = .ok (some ref) t) : ref.consumed = 1 ∧
      (Line.isAnalogLiteral token = true ∨ Line.isIntLiteral token = true ∨
        ∃ pin ∈ s.table.pins, pin.name = String.ofList (trim token)) := by
  rw [pinOfWord, table_bind] at h
  cases hl : Line.analogLabel? token with
  | some label =>
    rw [hl] at h
    refine ⟨?_, .inl (by rw [Line.isAnalogLiteral, hl]; rfl)⟩
    dsimp only at h
    split at h <;> (cases h; rfl)
  | none =>
    rw [hl] at h
    dsimp only at h
    split at h
    · next hint =>
      obtain ⟨n, s', -, h⟩ := bind_eq_ok.mp h
      refine ⟨?_, .inr (.inl hint)⟩
      split at h <;> (cases h; rfl)
    · obtain ⟨hr, -⟩ := EStateM.Result.ok.inj h
      obtain ⟨pin, hpin, rfl⟩ := Option.map_eq_some_iff.mp hr
      refine ⟨rfl, .inr (.inr ⟨pin, List.mem_of_find?_eq_some hpin, ?_⟩)⟩
      simpa using List.find?_some hpin

theorem trim_quote (w : List Char) : ∃ u, trim ('"' :: w) = '"' :: u := by
  rw [trim, trimLeft_eq_self (by simp; decide), trimRight]
  cases trimRight w with
  | nil => exact ⟨[], rfl⟩
  | cons d ds => exact ⟨d :: ds, rfl⟩

/-- No pin begins with a quote. -/
theorem pinOfWord_quote {s t : Session} {w : List Char} {r : Option PinRef}
    (hs : s.table.Exclusive) (h : pinOfWord ('"' :: w) line s = .ok r t) : r = none := by
  obtain ⟨u, hu⟩ := trim_quote w
  cases r with
  | none => rfl
  | some ref =>
    obtain ⟨-, hl | hint | ⟨pin, hpin, hname⟩⟩ := pinOfWord_some h
    · simp [Line.isAnalogLiteral, Line.analogLabel?, hu] at hl
    · rw [Line.isIntLiteral, hu] at hint
      have hnat : isNatural ('"' :: u) = true := hint
      have hall := ((Bool.and_eq_true _ _).mp hnat).2
      rw [List.all_cons, Bool.and_eq_true] at hall
      exact absurd hall.1 (by decide)
    · have hmem : pin.name ∈ s.table.names :=
        SymbolTable.mem_names.mpr (.inl (SymbolTable.isPin_iff.mpr ⟨pin, hpin, rfl⟩))
      refine absurd (quote_not_mem_of_isIdentifier (hs.identifiers _ hmem)) ?_
      rw [hname, String.toList_ofList, hu]
      simp

/-- Two readings of a pin, with the words that are left. -/
def SamePin (x x' : PinRef × List (List Char)) : Prop :=
  x'.1 = x.1 ∧ SameWords x.2 x'.2 ∧ '"' ∉ x.1.target.text.toList

theorem mirrors_pinOfWord {β : Type} {Q : β → β → Prop} {w : List Char}
    {f f' : Option PinRef → Build β}
    (hnone : Mirrors Q (f none) (f' none))
    (hsome : ∀ ref, ref.consumed = 1 → '"' ∉ ref.target.text.toList →
      Mirrors Q (f (some ref)) (f' (some ref))) :
    Mirrors Q (pinOfWord w line >>= f) (pinOfWord w line >>= f') := by
  intro s b u hs hrun hacc
  obtain ⟨r, t, hr, hb⟩ := bind_eq_ok.mp hrun
  have ht : t.table.Exclusive :=
    hs.grows ((pinOfWord_elementary w line).extending.ok hr).table
  suffices hQ : Mirrors Q (f r) (f' r) by
    obtain ⟨b', hb', hQ⟩ := hQ ht hb hacc
    exact ⟨b', bind_eq_ok.mpr ⟨r, t, hr, hb'⟩, hQ⟩
  cases r with
  | none => exact hnone
  | some ref =>
    exact hsome ref (pinOfWord_some hr).1
      (quote_not_mem_target hs ((pinOfWord_ok hr).2 ref rfl))

theorem mirrors_pinOfWord_quote {β : Type} {Q : β → β → Prop} {w : List Char}
    {f : Option PinRef → Build β} {m' : Build β} {p : Problem} {b : β} (hp : p.severity = .error)
    (hnone : f none = (report line p >>= fun _ => pure b)) :
    Mirrors Q (pinOfWord ('"' :: w) line >>= f) m' := by
  intro s c u hs hrun hacc
  obtain ⟨r, t, hr, hb⟩ := bind_eq_ok.mp hrun
  rw [pinOfWord_quote hs hr, hnone] at hb
  cases hb
  exact absurd hacc (not_accepted_reported hp)

theorem resolvePin_mirrors {ws ws' : List (List Char)} (h : SameWords ws ws') :
    Mirrors (Found fun r r' => SamePin (r, ws.drop r.consumed) (r', ws'.drop r'.consumed))
      (resolvePin ws line) (resolvePin ws' line) := by
  cases h with
  | nil => exact mirrors_refusal rfl _ _
  | quote w w' ws ws' =>
    unfold resolvePin
    dsimp only
    rw [if_neg (by simp [isWord]), if_neg (by simp [isWord])]
    exact mirrors_pinOfWord_quote rfl rfl
  | @cons w ws ws' h =>
    unfold resolvePin
    dsimp only
    split
    · cases h with
      | nil => exact mirrors_refusal rfl _ _
      | quote w w' ws ws' => exact mirrors_pinOfWord_quote rfl rfl
      | cons x h =>
        refine mirrors_pinOfWord (mirrors_refusal rfl _ _) fun ref _ hquote => ?_
        exact mirrors_pure ⟨rfl, h, hquote⟩
    · refine mirrors_pinOfWord (mirrors_refusal rfl _ _) fun ref hone hquote => ?_
      refine mirrors_pure ⟨rfl, ?_, hquote⟩
      rw [hone]
      exact h

theorem pinOperand_mirrors (h : flat (trim p') = flat (trim p)) :
    Mirrors (Found SamePin) (pinOperand p line) (pinOperand p' line) := by
  have hwords : SameWords (words p) (words p') := by
    rw [← Line.words_trim p, ← Line.words_trim p']
    exact Line.sameWords_of_flat h
  refine (resolvePin_mirrors hwords).found_bind (resolvePin_elementary _ line)
    (elementary_pure none) (fun _ => elementary_pure _) ?_
  exact fun r r' hr => mirrors_pure ⟨hr⟩

/-! ### Statements -/

theorem mem_joinWords {ws : List (List Char)} {w : List Char} {c : Char} (hw : w ∈ ws)
    (hc : c ∈ w) : c ∈ joinWords ws := by
  induction ws with
  | nil => cases hw
  | cons x ws ih =>
    cases ws with
    | nil =>
      rw [List.mem_singleton.mp hw] at hc
      simpa [joinWords, List.intercalate] using hc
    | cons y ws =>
      have hcons : joinWords (x :: y :: ws) = x ++ ' ' :: joinWords (y :: ws) := by
        simp [joinWords, List.intercalate]
      rw [hcons, List.mem_append, List.mem_cons]
      rcases List.mem_cons.mp hw with rfl | hw
      · exact .inl hc
      · exact .inr (.inr (ih hw))

theorem sameWords_eq {ws ws' : List (List Char)} (h : SameWords ws ws')
    (hq : '"' ∉ joinWords ws) : ws' = ws := by
  have hwords : ∀ w ∈ ws, '"' ∉ w := fun w hw hmem => hq (mem_joinWords hw hmem)
  clear hq
  induction h with
  | nil => rfl
  | cons w h ih => rw [ih fun u hu => hwords u (List.mem_cons_of_mem w hu)]
  | quote w w' ws ws' => exact absurd List.mem_cons_self (hwords _ List.mem_cons_self)

theorem quote_not_mem_of_isWord {w : String} {cs : List Char} (hw : '"' ∉ w.toList)
    (h : isWord w cs = true) : '"' ∉ cs := by
  intro hmem
  rw [isWord, beq_iff_eq] at h
  exact hw (h ▸ List.mem_map.mpr ⟨'"', hmem, by decide⟩)

theorem quote_not_mem_of_pinMode? {ws : List (List Char)} {mode : PinMode}
    (h : pinMode? ws = some mode) : '"' ∉ joinWords ws := by
  simp only [pinMode?] at h
  split at h
  · next hw => exact quote_not_mem_of_isWord (by simp) hw
  split at h
  · next hw => exact quote_not_mem_of_isWord (by simp) hw
  split at h
  · next hw =>
    obtain ⟨w, hmem, hw⟩ := List.any_eq_true.mp hw
    refine quote_not_mem_of_isWord ?_ hw
    simp only [List.mem_cons, List.not_mem_nil, or_false] at hmem
    rcases hmem with rfl | rfl | rfl <;> simp
  · cases h

theorem quote_not_mem_of_level? {ws : List (List Char)} {high : Bool} (h : level? ws = some high) :
    '"' ∉ joinWords ws := by
  simp only [level?] at h
  split at h
  · next hw => exact quote_not_mem_of_isWord (by simp) hw
  split at h
  · next hw => exact quote_not_mem_of_isWord (by simp) hw
  · cases h

/-- The same lines but for their blanks. -/
def SameLines (is is' : List Instr) : Prop := is'.map Instr.bare = is.map Instr.bare

theorem withPin_mirrors (h : flat (trim p') = flat (trim p)) (f : PinRef → List Instr) :
    Mirrors SameLines
      (do
        let some (ref, _) ← pinOperand p line | return []
        return f ref)
      (do
        let some (ref, _) ← pinOperand p' line | return []
        return f ref) := by
  refine (pinOperand_mirrors h).found_bind (pinOperand_elementary p line) (elementary_pure [])
    (fun _ => elementary_pure _) ?_
  rintro ⟨ref, ws⟩ ⟨_, ws'⟩ ⟨rfl, -, -⟩
  exact mirrors_pure rfl

theorem withValue_mirrors (h : collapse v' = collapse v) (hn : '\n' ∉ v) (hn' : '\n' ∉ v')
    {f : List Char → List Instr} (hf : ∀ {u u'}, Line.Alike u u' → SameLines (f u) (f u')) :
    Mirrors SameLines
      (do
        let some value ← expression v line | return []
        return f value)
      (do
        let some value ← expression v' line | return []
        return f value) := by
  refine (expression_mirrors h hn hn').found_bind (expression_elementary v line)
    (elementary_pure []) (fun _ => elementary_pure _) ?_
  exact fun u u' hu => mirrors_pure (hf hu)

theorem compilePinMode_mirrors (h : flat (trim p') = flat (trim p)) :
    Mirrors SameLines (compilePinMode p line) (compilePinMode p' line) := by
  refine (pinOperand_mirrors h).found_bind (pinOperand_elementary p line) (elementary_pure []) ?_ ?_
  · rintro ⟨ref, ws⟩
    dsimp only
    split
    · exact elementary_pure _
    · exact (report_elementary line rfl).bind fun _ => elementary_pure []
  · rintro ⟨_, ws⟩ ⟨ref, ws'⟩ ⟨rfl, hws, -⟩
    dsimp only at hws ⊢
    cases hmode : pinMode? ws with
    | none => exact mirrors_refusal rfl _ _
    | some mode =>
      rw [sameWords_eq hws (quote_not_mem_of_pinMode? hmode), hmode]
      exact mirrors_pure rfl

theorem compileDigitalWrite_mirrors (h : flat (trim p') = flat (trim p)) :
    Mirrors SameLines (compileDigitalWrite p line) (compileDigitalWrite p' line) := by
  refine (pinOperand_mirrors h).found_bind (pinOperand_elementary p line) (elementary_pure []) ?_ ?_
  · rintro ⟨ref, ws⟩
    dsimp only
    split
    · exact elementary_pure _
    · exact (report_elementary line rfl).bind fun _ => elementary_pure []
  · rintro ⟨_, ws⟩ ⟨ref, ws'⟩ ⟨rfl, hws, -⟩
    dsimp only at hws ⊢
    cases hhigh : level? ws with
    | none => exact mirrors_refusal rfl _ _
    | some high =>
      rw [sameWords_eq hws (quote_not_mem_of_level? hhigh), hhigh]
      exact mirrors_pure rfl

theorem compilePwmWrite_mirrors (hp : flat (trim p') = flat (trim p))
    (hv : collapse v' = collapse v) (hn : '\n' ∉ v) (hn' : '\n' ∉ v') :
    Mirrors SameLines (compilePwmWrite p v line) (compilePwmWrite p' v' line) := by
  have rest : ∀ ref e, Elementary (checkPwm ref line >>= fun _ =>
      (pure [.analogWrite ref.target e] : Build (List Instr))) := fun ref e =>
    (checkPwm_elementary ref line).bind fun _ => elementary_pure _
  refine (pinOperand_mirrors hp).found_bind (pinOperand_elementary p line)
    (elementary_pure []) ?_ ?_
  · rintro ⟨ref, ws⟩
    refine (expression_elementary v line).bind ?_
    rintro (_ | e)
    · exact elementary_pure []
    · exact rest ref e
  rintro ⟨_, ws⟩ ⟨ref, ws'⟩ ⟨rfl, -, hquote⟩
  refine (expression_mirrors hv hn hn').found_bind (expression_elementary v line)
    (elementary_pure []) (rest ref) fun e e' he => ?_
  refine mirrors_bind (checkPwm_elementary ref line) fun _ => mirrors_pure ?_
  rw [SameLines, List.map_singleton, List.map_singleton, Instr.bare_analogWrite he hquote]

theorem compileReadAnalog_mirrors (h : flat (trim p') = flat (trim p)) (name : String) :
    Mirrors SameLines (compileReadAnalog p name line) (compileReadAnalog p' name line) := by
  refine mirrors_bind (writeTarget_elementary name .int line) fun ok => ?_
  split
  · exact mirrors_pure rfl
  refine (pinOperand_mirrors h).found_bind (pinOperand_elementary p line) (elementary_pure []) ?_ ?_
  · rintro ⟨ref, ws⟩
    dsimp only
    split
    · exact elementary_pure _
    · exact (report_elementary line rfl).bind fun _ => elementary_pure []
  · rintro ⟨_, ws⟩ ⟨ref, ws'⟩ ⟨rfl, -, -⟩
    dsimp only
    split
    · exact mirrors_pure rfl
    · exact mirrors_refusal rfl _ _

theorem compileReadDigital_mirrors (h : flat (trim p') = flat (trim p)) (name : String) :
    Mirrors SameLines (compileReadDigital p name line) (compileReadDigital p' name line) := by
  refine mirrors_bind (writeTarget_elementary name .int line) fun ok => ?_
  split
  · exact mirrors_pure rfl
  · exact withPin_mirrors h fun ref => [.readDigital name ref.target]

theorem compileAssign_mirrors {name : String} (hname : '"' ∉ name.toList)
    (h : collapse v' = collapse v) (hn : '\n' ∉ v) (hn' : '\n' ∉ v') :
    Mirrors SameLines (compileAssign name v line) (compileAssign name v' line) := by
  have halike := Line.alike_trim h hn hn'
  have hv := halike.oneLine
  have hv' := halike.oneLine'
  have htype : ValueType.ofText (trim v') = ValueType.ofText (trim v) := by
    rw [← ValueType.ofText_squeeze hv', halike.squeezed, ValueType.ofText_squeeze hv]
  have hliteral : isStringLiteral (trim v') = isStringLiteral (trim v) := by
    rw [← Line.isStringLiteral_squeeze hv', halike.squeezed, Line.isStringLiteral_squeeze hv]
  have hlines : ∀ {u u'}, Line.Alike u u' → SameLines [.assign name u] [.assign name u'] := by
    intro u u' hu
    rw [SameLines, List.map_singleton, List.map_singleton, Instr.bare_assign hu hname]
  have hcollapse : collapse (trim v') = collapse (trim v) := by
    rw [Line.collapse_eq, Line.collapse_eq, trim_trim, trim_trim, halike.squeezed]
  simp only [compileAssign, htype, hliteral]
  refine mirrors_bind (writeTarget_elementary name _ line) fun ok => ?_
  split
  · exact mirrors_pure rfl
  split
  · exact mirrors_pure (hlines halike)
  · exact withValue_mirrors hcollapse hv hv' hlines

theorem compileChange_mirrors {name : String} (hname : '"' ∉ name.toList)
    (h : collapse v' = collapse v) (hn : '\n' ∉ v) (hn' : '\n' ∉ v') :
    Mirrors SameLines (compileChange name v line) (compileChange name v' line) := by
  refine (expression_mirrors h hn hn').found_bind (expression_elementary v line)
    (elementary_pure []) (fun e => ?_) fun e e' he => ?_
  · refine (observeVariable_elementary name .long line).bind fun ok => ?_
    split <;> exact elementary_pure _
  · refine mirrors_bind (observeVariable_elementary name .long line) fun ok => ?_
    split
    · refine mirrors_pure ?_
      rw [SameLines, List.map_singleton, List.map_singleton, Instr.bare_increase he hname]
    · exact mirrors_pure rfl

theorem compileTone_mirrors (hf : collapse v' = collapse v) (hn : '\n' ∉ v) (hn' : '\n' ∉ v')
    (hp : flat (trim p') = flat (trim p)) :
    Mirrors SameLines (compileTone v p line) (compileTone v' p' line) := by
  refine (expression_mirrors hf hn hn').found_bind (expression_elementary v line)
    (elementary_pure []) (fun e => ?_) fun e e' he => ?_
  · refine (pinOperand_elementary p line).bind ?_
    rintro (_ | ⟨ref, ws⟩) <;> exact elementary_pure _
  · refine (pinOperand_mirrors hp).found_bind (pinOperand_elementary p line) (elementary_pure [])
      (fun _ => elementary_pure _) ?_
    rintro ⟨_, ws⟩ ⟨ref, ws'⟩ ⟨rfl, -, hquote⟩
    refine mirrors_pure ?_
    rw [SameLines, List.map_singleton, List.map_singleton, Instr.bare_tone he hquote]

/-- A statement with other blanks in its operands does the same to the session, and becomes the same
lines but for their blanks. -/
theorem statement_mirrors {st st' : Statement} (h : st.Respaced st') (hst : st.IsClean)
    (hst' : st'.IsClean) (line : Int) :
    Mirrors SameLines (statement line st) (statement line st') := by
  cases h with
  | same => exact fun s is t _ hrun _ => ⟨is, hrun, rfl⟩
  | pinMode h => exact compilePinMode_mirrors h
  | digitalWrite h => exact compileDigitalWrite_mirrors h
  | toggle h => exact withPin_mirrors h fun ref => [.toggle ref.target]
  | noTone h => exact withPin_mirrors h fun ref => [.noTone ref.target]
  | pwmWrite hp hv => exact compilePwmWrite_mirrors hp hv hst hst'
  | readAnalog name h => exact compileReadAnalog_mirrors h name
  | readDigital name h => exact compileReadDigital_mirrors h name
  | printTextValue text h =>
    refine withValue_mirrors h hst hst' fun {u u'} hu => ?_
    rw [SameLines, List.map_cons, List.map_singleton, List.map_cons, List.map_singleton,
      Instr.bare_println hu]
  | printValue h =>
    refine withValue_mirrors h hst hst' fun {u u'} hu => ?_
    rw [SameLines, List.map_singleton, List.map_singleton, Instr.bare_println hu]
  | randomSeed h =>
    refine withValue_mirrors h hst hst' fun {u u'} hu => ?_
    rw [SameLines, List.map_singleton, List.map_singleton, Instr.bare_randomSeed hu]
  | assign name h => exact compileAssign_mirrors hst.1 h hst.2 hst'.2
  | change name h => exact compileChange_mirrors hst.1 h hst.2 hst'.2
  | tone hf hp => exact compileTone_mirrors hf hst hst' hp

/-! ### Operands that are missing -/

theorem trim_of_allBlank {cs : List Char} (h : allBlank cs = true) : trim cs = [] := by
  rw [trim, trimLeft, List.dropWhile_eq_nil_iff.mpr fun c hc => List.all_eq_true.mp h c hc]
  rfl

theorem words_of_allBlank {cs : List Char} (h : allBlank cs = true) : words cs = [] := by
  rw [← Line.words_trim, trim_of_allBlank h, Line.words_nil]

/-- Without errors there is a condition. -/
theorem allBlank_of_condition {s t : Session} {x : Option (List Char)}
    (h : condition v line s = .ok x t) (hacc : t.Accepted) : allBlank v = false := by
  rw [Bool.eq_false_iff]
  intro hblank
  rw [condition, trim_of_allBlank hblank] at h
  cases h
  exact not_accepted_reported rfl hacc

end Build

/-- The layout reads the quotes of the statement as the statement does, and a reading gives its
pin. -/
def Statement.isSettled : Statement → Bool
  | pwmWrite pin value => closed pin || !value.contains '"'
  | readAnalog pin _ | readDigital pin _ => !allBlank pin
  | printText text | printTextValue text _ => isStringLiteral ('"' :: (text ++ ['"']))
  | _ => true

theorem Statement.steady_of_isSettled {st : Statement} (h : st.isSettled = true) {line : Int}
    {s t : Session} {is : List Instr} (hrun : Build.statement line st s = .ok is t)
    (hacc : t.Accepted) : st.Steady := by
  cases st with
  | pwmWrite pin value =>
    refine ⟨?_, by simpa [isSettled] using h⟩
    rw [Bool.eq_false_iff]
    intro hblank
    rw [Build.statement, Build.compilePwmWrite, Build.pinOperand,
      Build.words_of_allBlank hblank] at hrun
    cases hrun
    exact Build.not_accepted_reported rfl hacc
  | tone frequency pin =>
    refine Bool.eq_false_iff.mpr fun hblank => ?_
    rw [Build.statement, Build.compileTone, Build.expression, Build.trim_of_allBlank hblank] at hrun
    cases hrun
    exact Build.not_accepted_reported rfl hacc
  | readAnalog | readDigital => exact (Bool.not_eq_true' _).mp h
  | printText | printTextValue => exact h
  | _ => trivial

end PlainSketch
