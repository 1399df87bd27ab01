import PlainSketch.Proofs.LayoutDepth
import PlainSketch.Proofs.RespacedLines
import PlainSketch.Proofs.RespacedText

/-!
# Sorts of squeezed lines

Both passes sort a squeezed line as they sort the line. Only the literal that a pin line gives and
the condition of an opener may differ, and those in their blanks alone. A line that ends in `do:`
and opens nothing is left out: squeezed, it may be an `otherwise`.
-/
namespace PlainSketch
open Text Shape Declaration
open Line (squeeze)

namespace Text
variable {cs v : List Char}

theorem flat_of_not_blank (h : ∀ c ∈ cs, isBlank c = false) : flat cs = cs := by
  induction cs with
  | nil => rfl
  | cons c cs ih =>
    obtain ⟨hc, hrest⟩ := List.forall_mem_cons.mp h
    rw [flat_cons hc, ih hrest]

theorem not_blank_of_flat (h : ∀ c ∈ flat cs, isBlank c = false) : ∀ c ∈ cs, isBlank c = false := by
  induction cs with
  | nil => exact h
  | cons c cs ih =>
    cases hc : isBlank c with
    | true =>
      rw [flat_cons_blank hc] at h
      exact absurd (h ' ' List.mem_cons_self) (by decide)
    | false =>
      rw [flat_cons hc] at h
      exact List.forall_mem_cons.mpr ⟨hc, ih (List.forall_mem_cons.mp h).2⟩

/-- A text without blanks ends a flat text if it ends the text. -/
theorem isSuffix_flat_iff (hv : ∀ c ∈ v, isBlank c = false) : v <:+ flat cs ↔ v <:+ cs := by
  constructor
  · intro h
    induction cs with
    | nil => exact h
    | cons c cs ih =>
      by_cases hfull : v = flat (c :: cs)
      · rw [hfull] at hv ⊢
        rw [flat_of_not_blank (not_blank_of_flat hv)]
      · have htail : v <:+ flat cs := by
          cases hc : isBlank c with
          | false =>
            rw [flat_cons hc] at h hfull
            exact (List.suffix_cons_iff.mp h).resolve_left hfull
          | true =>
            rw [flat_cons_blank hc] at h hfull
            have hleft := (List.suffix_cons_iff.mp h).resolve_left hfull
            rw [← respaces_flat.trimLeft_eq] at hleft
            exact hleft.trans (List.dropWhile_suffix _)
        exact (ih htail).trans (List.suffix_cons c cs)
  · rintro ⟨u, rfl⟩
    have hhead : ∀ c, v.head? = some c → isBlank c = false :=
      fun c hc => hv c (List.mem_of_head? hc)
    rw [flat_append_of_head hhead, flat_of_not_blank hv]
    exact List.suffix_append _ _

theorem endsWithWord_squeeze {w : String} (hw : w.toList.all (!isBlank ·) = true)
    (cs : List Char) : endsWithWord w (squeeze cs) = endsWithWord w cs := by
  have hblank : ∀ c ∈ w.toList, isBlank c = false := by simpa using hw
  have hflat : ∀ ds : List Char, w.toList <:+ ds.map Char.toLower ↔
      w.toList <:+ (flat ds).map Char.toLower := fun ds => by
    rw [← flat_map_toLower, isSuffix_flat_iff hblank]
  rw [Bool.eq_iff_iff, endsWithWord, endsWithWord, List.isSuffixOf_iff_suffix,
    List.isSuffixOf_iff_suffix, hflat, Line.flat_squeeze, ← hflat]

end Text

/-! ## Declarations -/

namespace Declaration
variable {φ : List Char → List Char} (hφ : Respaces φ)
include hφ

theorem follows_functionShape : Follows φ id functionShape functionShape :=
  (follows_keyword hφ (by decide)).bind fun _ => (follows_gap hφ).bind fun _ =>
    (follows_name hφ).bind fun _ => (follows_optGap hφ).bind fun _ =>
      (follows_keyword hφ (by decide)).bind fun _ => (follows_lineEnd hφ).bind fun _ =>
        follows_pure _ _ rfl

theorem follows_pinWord : Follows φ id pinWord pinWord :=
  (follows_keyword hφ (by decide)).bind fun _ => follows_wordEnd hφ

theorem follows_pinShape : Follows φ (Prod.map id φ) pinShape pinShape :=
  (follows_keyword hφ (by decide)).bind fun _ => (follows_gap hφ).bind fun _ =>
    (follows_name hφ).bind fun _ => (follows_nextKeyword hφ (by decide)).bind fun _ =>
      (follows_value hφ).bind fun _ => follows_pure _ _ rfl

theorem follows_pinAssignmentHead : Follows φ id pinAssignmentHead pinAssignmentHead :=
  (follows_keyword hφ (by decide)).bind fun _ => (follows_gap hφ).bind fun _ =>
    (follows_name hφ).bind fun _ => (follows_nextKeyword hφ (by decide)).bind fun _ =>
      (follows_nextKeyword hφ (by decide)).bind fun _ => follows_pure _ _ rfl

theorem follows_pinAssignmentShape :
    Follows φ (Prod.map id φ) pinAssignmentShape pinAssignmentShape :=
  (follows_pinAssignmentHead hφ).bind fun _ => (follows_value hφ).bind fun _ =>
    follows_pure _ _ rfl

theorem isPinLine_eq {code : List Char} (hcode : Line.IsCode code) :
    isPinLine (φ code) = isPinLine code := by
  have hhead := (follows_pinAssignmentHead hφ).bind (k := fun _ => gap) (l := fun _ => gap)
    fun _ => follows_gap hφ
  rw [isPinLine, (follows_pinWord hφ).fits hcode, hhead.fits hcode, isPinLine]

end Declaration

/-! ## The second pass -/

section
variable {code : List Char}

theorem functionShape_squeeze (hcode : Line.IsCode code) :
    functionShape.first? (squeeze code) = functionShape.first? code := by
  rw [(follows_functionShape respaces_squeeze).first? hcode, Option.map_id]
  rfl

/-- Squeezing makes an `otherwise` of a line only where the line ends in `do:` and is none. -/
theorem isOtherwise_squeeze_of_known (hhead : ∀ c, code.head? = some c → isBlank c = false)
    (hknown : BlockLine.ofCode code ≠ .unknown) :
    isOtherwise (squeeze code) = isOtherwise code := by
  cases hotherwise : isOtherwise code with
  | true =>
    rcases (Bool.or_eq_true _ _).mp hotherwise with h | h
    · simp [isOtherwise, Line.isWord_squeeze_of_isWord (by decide) (by decide) h]
    · simp [isOtherwise, Line.isWord_squeeze_of_isWord (by decide) (by decide) h]
  | false =>
    rw [Bool.eq_false_iff]
    intro h
    have hbegins := beginsWith_of_isOtherwise hhead h
    have hend : isWord "end" code = false := hbegins.not_isWord (by decide) (by decide)
    have hdo : endsWithWord "do:" code = false := by
      rw [ofCode_of_beginsWith hbegins (by decide), hotherwise, hend] at hknown
      simpa using hknown
    rcases (Bool.or_eq_true _ _).mp h with h | h
    · have hends : endsWithWord "do:" (squeeze code) = true := by
        rw [endsWithWord, beq_iff_eq.mp h]
        rfl
      rw [endsWithWord_squeeze (by decide), hdo] at hends
      cases hends
    · rw [Line.isWord_squeeze (by decide)] at h
      simp [isOtherwise, h] at hotherwise

end

namespace BlockLine

/-- The same sort, with other blanks in the condition of an opener. -/
inductive Respaced : BlockLine → BlockLine → Prop
  | same (c : BlockLine) : Respaced c c
  | control {o o' : Opener} (h : o.Respaced o') : Respaced (control o) (control o')

variable {code : List Char} (hcode : Line.IsCode code)
  (hhead : ∀ c, code.head? = some c → isBlank c = false) (hknown : ofCode code ≠ .unknown)
include hcode hhead hknown

theorem ofCode_squeeze_of_none (h : Opener.ofCode? code = none) :
    ofCode (squeeze code) = ofCode code := by
  rw [ofCode, ofCode, Line.isWord_squeeze (by decide), Line.isWord_squeeze (by decide),
    Line.isWord_squeeze (by decide), endsWithWord_squeeze (by decide), functionShape_squeeze hcode,
    isPinLine_eq respaces_squeeze hcode, h, Opener.ofCode?_squeeze_eq_none hcode h,
    isOtherwise_squeeze_of_known hhead hknown]

/-- A squeezed line is of the same sort. -/
theorem ofCode_squeeze (hopener : ∀ o, ofCode code = .control o → o.Steady) :
    Respaced (ofCode code) (ofCode (squeeze code)) := by
  cases h : Opener.ofCode? code with
  | none =>
    rw [ofCode_squeeze_of_none hcode hhead hknown h]
    exact .same _
  | some o =>
    have hblock := (sorts_of_opener hcode.last h).2
    obtain ⟨o', h', hre⟩ := Opener.ofCode?_squeeze hcode h (hopener o hblock)
    rw [hblock, (sorts_of_opener (respaces_squeeze.isCode hcode).last h').2]
    exact .control hre

end BlockLine

/-! ## The first pass -/

namespace Statement
open OutlineLine (readClock readInto hint pwmWord)

/-- Statements that begin with `read`. -/
def isReading : Statement → Bool
  | readAnalog .. | readTime _ | readMicros _ | readDigital .. => true
  | _ => false

theorem shapes_reading : ∀ s ∈ shapes, Yields (fun st => st.isReading = true) s ∨
    ∃ ws, apart ws ["read"] = true ∧ ∀ cs x, s cs = some x → BeginsWith ws cs := by
  have begins : ∀ {w : String} {s : Shape Statement}, Begins w s → apart [w] ["read"] = true →
      ∃ ws, apart ws ["read"] = true ∧ ∀ cs x, s cs = some x → BeginsWith ws cs :=
    fun {w s} hs hw => ⟨[w], hw, fun cs x hx => ⟨w, by simp, hs cs x.1 x.2 hx⟩⟩
  simp only [shapes, List.forall_mem_cons]
  refine ⟨?pinMode, ?digitalWrite, ?toggle, ?pwmWrite, ?readAnalog, ?readTime, ?readMicros,
    ?readDigital, ?wait, ?serialBegin, ?printText, ?printTextValue, ?printValue, ?assign, ?change,
    ?map, ?limit, ?random, ?randomSeed, ?tone, ?noTone, ?call, by simp⟩
  case readAnalog | readTime | readMicros | readDigital =>
    left
    repeat refine yields_bind fun _ => ?_
    exact yields_pure rfl
  case pinMode | digitalWrite | toggle =>
    exact .inr (begins (keyword_begins (by decide)).bind.bind (by decide))
  case pwmWrite | wait | serialBegin | printText | printTextValue | printValue | assign | change |
      map | limit | random | tone | noTone | call =>
    exact .inr (begins (keyword_begins (by decide)).bind (by decide))
  case randomSeed =>
    refine .inr ⟨["seed", "random"], by decide, fun cs x hx => ?_⟩
    obtain ⟨_, r, hwords, -⟩ := bind_eq_some.mp hx
    rcases (Option.orElse_eq_some _ _ _).mp hwords with h | ⟨-, h⟩
    · obtain ⟨_, r', hseed, -⟩ := bind_eq_some.mp h
      exact ⟨"seed", by simp, keyword_begins (by decide) _ _ _ hseed⟩
    · obtain ⟨_, r', hrandom, -⟩ := bind_eq_some.mp h
      exact ⟨"random", by simp, keyword_begins (by decide) _ _ _ hrandom⟩

variable {code : List Char} {st st' : Statement}

theorem isReading_of_beginsWith (h : ofCode? code = some st) (hread : BeginsWith ["read"] code) :
    st.isReading = true := by
  obtain ⟨s, hs, hfirst⟩ := List.exists_of_findSome?_eq_some h
  obtain ⟨r, hr⟩ := first?_eq_some.mp hfirst
  rcases shapes_reading s hs with hyields | ⟨ws, hws, hbegins⟩
  · exact hyields code st r hr
  · exact ((hbegins code _ hr).not_both hread hws).elim

/-- What a reading reads, the first pass takes from its line. -/
theorem hint_of_isReading (hcode : Line.IsCode code) (h : ofCode? code = some st)
    (hst : st.isReading = true) :
    ∃ n type, st.taken? = some (n, type) ∧ hint code = .writes n type := by
  obtain ⟨n, type, ht⟩ : ∃ n type, st.taken? = some (n, type) := by
    cases st with
    | readAnalog | readTime | readMicros | readDigital => exact ⟨_, _, rfl⟩
    | _ => cases hst
  refine ⟨n, type, ht, (hint_of_taken? hcode h ht).resolve_right ?_⟩
  rintro ⟨v, rfl, -⟩
  cases hst

theorem Respaced.taken?_eq (h : Respaced st st') (hst : st.isReading = true) :
    st'.isReading = true ∧ st'.taken? = st.taken? := by
  cases h with
  | same | readAnalog | readDigital => exact ⟨hst, rfl⟩
  | _ => cases hst

theorem readClock_squeeze (hcode : Line.IsCode code) :
    readClock.first? (squeeze code) = readClock.first? code := by
  have hφ := respaces_squeeze
  have hshape : Follows squeeze id readClock readClock :=
    (follows_keyword hφ (by decide)).bind fun _ =>
      ((follows_nextKeyword hφ (by decide)).either (follows_nextKeyword hφ (by decide))).bind
        fun _ => follows_intoName hφ
  rw [hshape.first? hcode, Option.map_id]
  rfl

/-- Where no reading stands, squeezing makes none. -/
theorem readInto_squeeze (hcode : Line.IsCode code) (h : readInto.first? code = none) :
    readInto.first? (squeeze code) = none := by
  have hshape : Rereads (fun _ => False) (fun _ _ => True) readInto :=
    .after (follows_keyword respaces_squeeze (by decide)) fun _ =>
      (rereads_gapThen (freeText_longTextUntil startsAtGap_gap.bind.bind
        (follows_intoName respaces_flat))).map (fun _ => False.elim) fun _ _ _ _ => trivial
  rw [first?, hshape.fails hcode (Option.map_eq_none_iff.mp h)]
  rfl

theorem set_squeeze (hcode : Line.IsCode code) : OutlineLine.set.first? (squeeze code) =
    (OutlineLine.set.first? code).map (Prod.map id squeeze) := by
  have hφ := respaces_squeeze
  have hshape : Follows squeeze (Prod.map id squeeze) OutlineLine.set OutlineLine.set :=
    (follows_keyword hφ (by decide)).bind fun _ => (follows_gap hφ).bind fun _ =>
      (follows_name hφ).bind fun _ => (follows_nextKeyword hφ (by decide)).bind fun _ =>
        (follows_value hφ).bind fun _ => follows_pure _ _ rfl
  exact hshape.first? hcode

theorem isCode_of_set (hcode : Line.IsCode code) {n : String} {v : List Char}
    (h : OutlineLine.set.first? code = some (n, v)) : Line.IsCode v := by
  obtain ⟨r, hr⟩ := first?_eq_some.mp h
  obtain ⟨_, r₁, hset, hr⟩ := bind_eq_some.mp hr
  obtain ⟨_, r₂, hgap, hr⟩ := bind_eq_some.mp hr
  obtain ⟨m, r₃, hname, hr⟩ := bind_eq_some.mp hr
  obtain ⟨_, r₄, hto, hr⟩ := bind_eq_some.mp hr
  obtain ⟨u, r₅, hvalue, hr⟩ := bind_eq_some.mp hr
  cases hr
  have hcode₄ := (((hcode.of_suffix (keyword_leaves _ _ _ _ hset)).of_suffix
    (gap_leaves _ _ _ hgap)).of_suffix (name_leaves _ _ _ hname)).of_suffix
      (nextKeyword_leaves _ _ _ _ hto)
  exact (isCode_of_value hcode₄ hvalue).1

/-- The first pass takes the same from a squeezed statement. -/
theorem hint_squeeze (hcode : Line.IsCode code) (h : ofCode? code = some st) (hst : st.Steady) :
    hint (squeeze code) = hint code := by
  cases hread : readInto.first? code with
  | some n =>
    have hbegins : Begins "read" readInto := (keyword_begins (by decide)).bind
    have hreading := isReading_of_beginsWith h ⟨"read", by simp, hbegins.first? hread⟩
    obtain ⟨st', h', hre⟩ := ofCode?_squeeze hcode h hst
    obtain ⟨hreading', htaken⟩ := hre.taken?_eq hreading
    obtain ⟨n, type, ht, hhint⟩ := hint_of_isReading hcode h hreading
    obtain ⟨n', type', ht', hhint'⟩ :=
      hint_of_isReading (respaces_squeeze.isCode hcode) h' hreading'
    rw [htaken, ht] at ht'
    cases ht'
    rw [hhint, hhint']
  | none =>
    rw [hint, hint, readClock_squeeze hcode, hread, readInto_squeeze hcode hread, set_squeeze hcode]
    cases hset : OutlineLine.set.first? code with
    | none => rfl
    | some x =>
      have hvalue : Line.IsCode x.2 := isCode_of_set hcode hset
      have hpwm : Follows squeeze id pwmWord pwmWord :=
        (follows_keyword respaces_squeeze (by decide)).bind fun _ =>
          follows_wordEnd respaces_squeeze
      simp [Prod.map, hpwm.fits hvalue, ValueType.ofText_squeeze hvalue.oneLine]

end Statement

namespace OutlineLine

/-- Changes the literals that pin lines give. -/
def mapText (φ : List Char → List Char) : OutlineLine → OutlineLine
  | pin parts => pin (parts.map (Prod.map id φ))
  | pinAssignment name value => pinAssignment name (φ value)
  | c => c

theorem mapText_hint (φ : List Char → List Char) (code : List Char) :
    (hint code).mapText φ = hint code := by
  obtain h | ⟨name, type, h⟩ := hint_eq code
  · rw [h]
    rfl
  · rw [h]
    rfl

variable {code : List Char} (hcode : Line.IsCode code)
  (hhead : ∀ c, code.head? = some c → isBlank c = false)
  (hknown : BlockLine.ofCode code ≠ .unknown)
include hcode hhead hknown

/-- The first pass sees the same in a squeezed line, but for the literals of pin lines. -/
theorem ofCode_squeeze (hopener : ∀ o, BlockLine.ofCode code = .control o → o.Steady)
    (hhint : BlockLine.ofCode code = .command → hint (squeeze code) = hint code) :
    ofCode (squeeze code) = (ofCode code).mapText squeeze := by
  cases ho : Opener.ofCode? code with
  | some o =>
    obtain ⟨houtline, hblock⟩ := sorts_of_opener hcode.last ho
    obtain ⟨o', ho', -⟩ := Opener.ofCode?_squeeze hcode ho (hopener o hblock)
    rw [houtline, (sorts_of_opener (respaces_squeeze.isCode hcode).last ho').1]
    rfl
  | none =>
    have hblock := BlockLine.ofCode_squeeze_of_none hcode hhead hknown ho
    by_cases hcommand : BlockLine.ofCode code = .command
    · rw [outline_of_command hcommand, outline_of_command (hblock.trans hcommand), hhint hcommand,
        mapText_hint]
    · have hpinWord := (follows_pinWord respaces_squeeze).fits hcode
      have hpin := (follows_pinShape respaces_squeeze).first? hcode
      have hassign := (follows_pinAssignmentShape respaces_squeeze).first? hcode
      unfold ofCode
      rw [Line.isWord_squeeze (by decide), Line.isWord_squeeze (by decide),
        Line.isWord_squeeze (by decide), endsWithWord_squeeze (by decide),
        isOtherwise_squeeze_of_known hhead hknown, functionShape_squeeze hcode, ho,
        Opener.ofCode?_squeeze_eq_none hcode ho, hpinWord, hpin, hassign]
      split
      · rfl
      next hstructure =>
      split
      · rfl
      next hend =>
      split
      · rfl
      next hotherwise =>
      split
      · rfl
      next hdo =>
      split
      · rfl
      next hfunction =>
      split
      · rfl
      next hword =>
      cases hshape : pinAssignmentShape.first? code with
      | some x => rfl
      | none =>
        -- Nothing is left but a statement.
        have hline : isPinLine code = false := by
          rw [Bool.eq_false_iff]
          intro hline
          obtain ⟨n, v, h⟩ := pinAssignment_of_gap hcode (by simpa [isPinLine, hword] using hline)
          rw [hshape] at h
          cases h
        simp only [Bool.or_eq_true, not_or] at hstructure
        exact absurd (by simp [BlockLine.ofCode, hstructure, hfunction, hline, ho, hotherwise, hend,
          hdo]) hcommand

end OutlineLine

end PlainSketch
