import PlainSketch.Proofs.DroppedStatements
import PlainSketch.Proofs.FreeText
import PlainSketch.Proofs.StatementOrder

/-!
# Assigning a string

A string is assigned as it is written, whatever it holds, but for one thing: setting a pin by PWM is
tried first, and its pin is free text that may run into the string. If somewhere in the string there
is `to pwm`, with blanks around both words, the line is no assignment. A name is cut before the line
feed that identifiers may end in.
-/
namespace PlainSketch
open Text Line Shape

/-! ## Free text fits -/

namespace Shape
variable {α β γ : Type} {tail : Shape α} {cs : List Char}

theorem fits_bind_congr {s : Shape α} {f : α → Shape β} {g : α → Shape γ}
    (h : ∀ a r, s cs = some (a, r) → (f a).fits r = (g a).fits r) :
    (s >>= f).fits cs = (s >>= g).fits cs := by
  simp only [fits, bind, StateT.bind]
  cases hs : s cs with
  | none => rfl
  | some x => exact h x.1 x.2 hs

theorem fits_bind_of_some {s : Shape α} {f : α → Shape β} {a : α} {r : List Char}
    (h : s cs = some (a, r)) : (s >>= f).fits cs = (f a).fits r := by
  simp [fits, bind, StateT.bind, h]

theorem fits_bind_pure {s : Shape α} {f : α → β} :
    (s >>= fun a => pure (f a)).fits cs = s.fits cs := by
  simp only [fits, bind, StateT.bind]
  cases s cs <;> rfl

/-- Free text up to its first end fits where free text up to its last end does. -/
theorem textUntil_fits_eq (cs : List Char) :
    (textUntil tail).fits cs = (longTextUntil tail).fits cs := by
  induction cs with
  | nil => rfl
  | cons c cs ih =>
    simp only [fits] at ih
    simp only [fits, textUntil, longTextUntil]
    split
    · rfl
    · simp [ih, Bool.or_comm]

theorem leaveGap_fits_eq {text text' : Shape (List Char × α)}
    (h : ∀ cs, text.fits cs = text'.fits cs) (cs : List Char) :
    (leaveGap text tail).fits cs = (leaveGap text' tail).fits cs := by
  induction cs with
  | nil => rfl
  | cons c cs ih =>
    simp only [fits] at ih
    simp only [fits, leaveGap]
    split
    · simp [ih]
    · exact h (c :: cs)

/-- There is free text after a gap wherever `tail` fits further on in the line. -/
theorem textBefore_fits_iff {b c : Char} (hb : isBlank b = true) (hline : '\n' ∉ c :: cs) :
    (textBefore tail).fits (b :: c :: cs) = true ↔ ∃ v, v <:+ cs ∧ tail.fits v = true := by
  constructor
  · intro h
    obtain ⟨⟨x, r⟩, hx⟩ := Option.isSome_iff_exists.mp h
    obtain ⟨b', c', ds, v, he, -, hv, ht⟩ := textBefore_inside hx
    cases he
    exact ⟨v, hv, Option.isSome_iff_exists.mpr ⟨_, ht⟩⟩
  · rintro ⟨v, hv, ht⟩
    have hlong := leaveGap_fits hline hv ht
    rw [← leaveGap_fits_eq textUntil_fits_eq] at hlong
    simpa [textBefore, gapThen, fits, hb] using hlong

theorem value_fits_eq (h : IsCode cs) : value.fits cs = gap.fits cs := by
  rw [fits, fits, value_eq h, Option.isSome_map]

/-- A gap is read to its end. -/
theorem gap_append {bs : List Char} {c : Char} (hne : bs ≠ []) (hbs : ∀ d ∈ bs, isBlank d = true)
    (hc : isBlank c = false) (cs : List Char) : gap (bs ++ c :: cs) = some ((), c :: cs) := by
  cases bs with
  | nil => exact absurd rfl hne
  | cons b bs =>
    obtain ⟨hb, hbs⟩ := List.forall_mem_cons.mp hbs
    have htrim : trimLeft (bs ++ c :: cs) = c :: cs := by
      rw [trimLeft, List.dropWhile_append_of_pos hbs, List.dropWhile_cons_of_neg (by simp [hc])]
    simp only [List.cons_append, gap, hb, if_true, htrim]

/-- A name is read to its end. -/
theorem name_append {c b : Char} {w : List Char} (hc : isNameStart c = true)
    (hw : ∀ d ∈ w, isWordChar d = true) (hb : isWordChar b = false) (cs : List Char) :
    name (c :: (w ++ b :: cs)) = some (String.ofList (c :: w), b :: cs) := by
  have hstop : ¬ isWordChar b = true := by simp [hb]
  simp only [name, hc, if_true]
  rw [List.takeWhile_append_of_pos hw, List.takeWhile_cons_of_neg hstop, List.append_nil,
    List.dropWhile_append_of_pos hw, List.dropWhile_cons_of_neg hstop]

end Shape

/-! ## Reading the assignment -/

/-- The line that assigns a text to a variable. -/
def assignment (name : String) (text : List Char) : List Char :=
  "set ".toList ++ (name.toList ++ (" to ".toList ++ text))

/-- The end of a line that sets a pin by PWM, as far as the gap in front of the value. -/
def pwmTail : Shape Unit := do
  nextKeyword "to"
  nextKeyword "pwm"
  gap

/-- Somewhere in the text there is `to pwm`, in any case, with blanks around both words. -/
def mentionsPwm (text : List Char) : Bool := text.tails.any pwmTail.fits

theorem mentionsPwm_iff {text : List Char} :
    mentionsPwm text = true ↔ ∃ v, v <:+ text ∧ pwmTail.fits v = true := by
  simp [mentionsPwm, List.any_eq_true]

section
variable {c : Char} {w bs body text : List Char}

theorem isWordChar_of_isNameChar {c : Char} (h : isNameChar c = true) : isWordChar c = true := by
  rcases (Bool.or_eq_true _ _).mp h with halpha | hunder
  · have hascii : c.toNat < 128 := by
      rcases (Bool.or_eq_true _ _).mp halpha with ha | hd
      · have hn := toNat_of_isAlpha ha
        omega
      · obtain ⟨-, hn⟩ := (Bool.and_eq_true _ _).mp hd
        have hle : c.toNat ≤ 57 := UInt32.le_iff_toNat_le.mp (of_decide_eq_true hn)
        omega
    simp [isWordChar, isAlphanumeric, hascii, halpha]
  · simp [isWordChar, hunder]

/-- An identifier is a word and perhaps a line feed. -/
theorem exists_word_of_isIdentifier {cs : List Char} (h : isIdentifier cs = true) :
    ∃ c w bs, cs = c :: (w ++ bs) ∧ isNameStart c = true ∧ (∀ d ∈ w, isWordChar d = true) ∧
      (bs = [] ∨ bs = ['\n']) := by
  cases cs with
  | nil => cases h
  | cons c cs =>
    simp only [isIdentifier, Bool.and_eq_true, Bool.or_eq_true, beq_iff_eq] at h
    refine ⟨c, cs.takeWhile isNameChar, cs.dropWhile isNameChar, ?_, ?_, fun d hd => ?_, h.2⟩
    · rw [List.takeWhile_append_dropWhile]
    · rcases (Bool.or_eq_true _ _).mp h.1 with ha | hu
      · simp [isNameStart, ha]
      · simp [isNameStart, hu]
    · exact isWordChar_of_isNameChar (List.mem_takeWhile_imp hd)

/-- A string in its quotes. -/
theorem exists_body_of_isStringLiteral (hlit : isStringLiteral text = true)
    (htight : trim text = text) : ∃ body, text = '"' :: body ∧ trimRight body = body := by
  rw [isStringLiteral, htight] at hlit
  cases hq : quoted? text with
  | none =>
    rw [hq] at hlit
    cases hlit
  | some r =>
    obtain ⟨body, m, rfl, -, -⟩ := quoted?_eq_some hq
    rw [trim_cons (by decide)] at htight
    exact ⟨body, rfl, (List.cons.inj htight).2⟩

theorem value_of_body (hbody : trimRight body = body) (hline : '\n' ∉ '"' :: body) :
    value (' ' :: '"' :: body) = some ('"' :: body, []) := by
  have htext : textToEnd ('"' :: body) = some (('"' :: body, ()), []) := by
    simp only [textToEnd, hbody]
    rw [if_neg (by simpa using hline)]
  have hgap : gapThen textToEnd lineEnd (' ' :: '"' :: body) = some (('"' :: body, ()), []) := htext
  exact bind_eq_some.mpr ⟨_, _, hgap, rfl⟩

/-- As an assignment, the line has the word for its variable and the whole text for its value. -/
theorem assign_of_word (hc : isNameStart c = true) (hw : ∀ d ∈ w, isWordChar d = true)
    (hne : bs ≠ []) (hbs : ∀ d ∈ bs, isBlank d = true)
    (hvalue : value (' ' :: text) = some (text, [])) :
    Statement.assignShape.first?
        ("set ".toList ++ (c :: (w ++ (bs ++ 't' :: 'o' :: ' ' :: text)))) =
      some (.assign (String.ofList (c :: w)) text) := by
  obtain ⟨b, bs', rfl⟩ := List.exists_cons_of_ne_nil hne
  have hb : isWordChar b = false :=
    class_of_isBlank (fun _ => isBlank_of_isWordChar) (hbs b List.mem_cons_self)
  have hgap : gap (' ' :: c :: (w ++ ((b :: bs') ++ 't' :: 'o' :: ' ' :: text))) =
      some ((), c :: (w ++ ((b :: bs') ++ 't' :: 'o' :: ' ' :: text))) :=
    gap_append (List.cons_ne_nil ' ' []) (List.forall_mem_singleton.mpr rfl)
      (isBlank_of_isNameStart hc) _
  have hto : nextKeyword "to" ((b :: bs') ++ 't' :: 'o' :: ' ' :: text) = some ((), ' ' :: text) :=
    bind_eq_some.mpr ⟨(), _, gap_append hne hbs (by decide) _, rfl⟩
  refine first?_eq_some.mpr ⟨[], ?_⟩
  refine bind_eq_some.mpr ⟨(), _, rfl, bind_eq_some.mpr ⟨(), _, hgap, ?_⟩⟩
  refine bind_eq_some.mpr ⟨_, _, name_append hc hw hb _, bind_eq_some.mpr ⟨(), _, hto, ?_⟩⟩
  exact bind_eq_some.mpr ⟨_, _, hvalue, rfl⟩

/-- The tail of a PWM line starts with a gap. -/
theorem pwmTail_of_not_blank (hc : isBlank c = false) (cs : List Char) :
    pwmTail.fits (c :: cs) = false := by
  have hgap : gap (c :: cs) = none := by simp [gap, hc]
  simp [pwmTail, nextKeyword, fits, bind, StateT.bind, hgap]

/-- Where the tail of a PWM line fits in the assignment of a string, it fits in the string. -/
theorem suffix_of_pwmTail {v : List Char} (hw : ∀ d ∈ w, isBlank d = false)
    (hv : v <:+ w ++ (" to ".toList ++ '"' :: body)) (hfits : pwmTail.fits v = true) :
    v <:+ '"' :: body := by
  induction w with
  | nil =>
    -- It could start at one of two blanks, but then a keyword would be the quote.
    rcases List.suffix_cons_iff.mp hv with rfl | hv
    · cases hfits
    rcases List.suffix_cons_iff.mp hv with rfl | hv
    · cases hfits
    rcases List.suffix_cons_iff.mp hv with rfl | hv
    · cases hfits
    rcases List.suffix_cons_iff.mp hv with rfl | hv
    · cases hfits
    exact hv
  | cons d w ih =>
    obtain ⟨hd, hw⟩ := List.forall_mem_cons.mp hw
    rcases List.suffix_cons_iff.mp hv with rfl | hv
    · rw [pwmTail_of_not_blank hd] at hfits
      cases hfits
    · exact ih hw hv

/-- A line of words that ends in a string. -/
theorem isCode_append (hw : ∀ d ∈ w, isBlank d = false) (hbody : trimRight body = body)
    (hline : '\n' ∉ '"' :: body) : IsCode (w ++ (" to ".toList ++ '"' :: body)) := by
  have hsuffix : '"' :: body <:+ w ++ (" to ".toList ++ '"' :: body) :=
    (List.suffix_append " to ".toList _).trans (List.suffix_append w _)
  refine ⟨fun d hd => ?_, fun hmem => ?_⟩
  · obtain ⟨e, he⟩ : ∃ e, ('"' :: body).getLast? = some e :=
      ⟨_, List.getLast?_eq_some_getLast (by simp)⟩
    have hsame := getLast?_of_suffix hsuffix he
    rw [hd] at hsame
    cases hsame
    have htrim : trimRight ('"' :: body) = '"' :: body := by
      rw [trimRight_cons_of_not_blank (by decide), hbody]
    rw [← htrim] at he
    exact getLast?_trimRight he
  · rcases List.mem_append.mp hmem with hmem | hmem
    · exact absurd (hw _ hmem) (by decide)
    · rcases List.mem_append.mp hmem with hmem | hmem
      · exact absurd hmem (by decide)
      · exact hline hmem

/-- Setting a pin by PWM fits the assignment of a string exactly if the string mentions it. -/
theorem pwmWrite_fits_iff {name : String} (hname : name.toList = c :: w)
    (hw : ∀ d ∈ c :: w, isBlank d = false)
    (hbody : trimRight body = body) (hline : '\n' ∉ '"' :: body) :
    Statement.pwmWriteShape.fits (assignment name ('"' :: body)) = true ↔
      mentionsPwm ('"' :: body) = true := by
  let rest := w ++ (" to ".toList ++ '"' :: body)
  let tail : Shape (List Char) := do nextKeyword "to"; nextKeyword "pwm"; value
  have hcode : IsCode (c :: rest) := isCode_append hw hbody hline
  have htail : ∀ {v : List Char}, v <:+ rest → tail.fits v = pwmTail.fits v := by
    intro v hv
    refine fits_bind_congr fun _ r hr => fits_bind_congr fun _ r' hr' => ?_
    have hsuffix : r' <:+ c :: rest :=
      (nextKeyword_leaves _ _ _ _ hr').trans ((nextKeyword_leaves _ _ _ _ hr).trans
        (hv.trans (List.suffix_cons c rest)))
    exact value_fits_eq (hcode.of_suffix hsuffix)
  have hset : keyword "set" (assignment name ('"' :: body)) = some ((), ' ' :: c :: rest) := by
    rw [assignment, hname]
    rfl
  have hshape : Statement.pwmWriteShape.fits (assignment name ('"' :: body)) =
      (textBefore tail).fits (' ' :: c :: rest) := by
    rw [Statement.pwmWriteShape, fits_bind_of_some hset]
    exact fits_bind_pure
  rw [hshape, textBefore_fits_iff (by decide) hcode.oneLine, mentionsPwm_iff]
  constructor
  · rintro ⟨v, hv, hfits⟩
    rw [htail hv] at hfits
    exact ⟨v, suffix_of_pwmTail (List.forall_mem_cons.mp hw).2 hv hfits, hfits⟩
  · rintro ⟨v, hv, hfits⟩
    have hrest : v <:+ rest :=
      hv.trans ((List.suffix_append " to ".toList _).trans (List.suffix_append w _))
    exact ⟨v, hrest, (htail hrest).trans hfits⟩

end

/-! ## Compiling the assignment -/

section
variable {name : String} {text : List Char} {line : Int} {s : Session}

theorem writeTarget_of_allows (h : s.table.Allows name) (type : ValueType) (line : Int) :
    ∃ t, Build.writeTarget name type line s = .ok true t ∧ t.findings = s.findings := by
  rw [Build.writeTarget, Build.table_bind, SymbolTable.isVariable]
  cases hv : s.table.findVariable? name with
  | some v => exact ⟨s, rfl, rfl⟩
  | none =>
    obtain ⟨hid, hreserved, hpin, hfunction⟩ := h
    simp only [Option.isSome_none, Bool.false_eq_true, if_false]
    rw [Build.observeVariable, Build.table_bind]
    simp only [hid, hreserved, hpin, hfunction, Bool.not_true, Bool.false_eq_true, if_false, hv]
    exact ⟨_, rfl, rfl⟩

/-- A string is assigned as it is to any name that may be a variable. -/
theorem statement_assign_string (h : s.table.Allows name) (hlit : isStringLiteral text = true)
    (htight : trim text = text) (line : Int) :
    ∃ t, Build.statement line (.assign name text) s = .ok [.assign name text] t ∧
      t.findings = s.findings := by
  obtain ⟨t, ht, hfindings⟩ := writeTarget_of_allows h (.ofText text) line
  refine ⟨t, ?_, hfindings⟩
  show Build.compileAssign name text line s = _
  rw [Build.compileAssign, htight, Build.ok_bind ht, hlit]
  rfl

end

open Statement (Kind)

section
variable {line : Int} {s t : Session} {is : List Instr} {code : List Char} {st : Statement}

/-- A line that reads as an assignment sets a pin by PWM if that fits too. -/
theorem firstOf?_of_assign (h : Statement.assignShape.first? code = some st) :
    (Statement.pwmWriteShape.fits code = true ∧
        ∃ st', Kind.firstOf? Kind.all code = some (.pwmWrite, st')) ∨
      (Statement.pwmWriteShape.fits code = false ∧
        Kind.firstOf? Kind.all code = some (.assign, st)) := by
  have hassign : Kind.assign.shape.fits code = true := by
    obtain ⟨r, hr⟩ := first?_eq_some.mp h
    exact Option.isSome_iff_exists.mpr ⟨_, hr⟩
  have hset : Kind.ofGroup Kind.assign.group Kind.all = [.pwmWrite, .assign] := by decide
  rw [← Kind.firstOf?_ofGroup fun k _ hk => Kind.group_eq_of_fits hk hassign, hset]
  cases hpwm : Statement.pwmWriteShape.first? code with
  | some st' =>
    obtain ⟨r, hr⟩ := first?_eq_some.mp hpwm
    refine .inl ⟨Option.isSome_iff_exists.mpr ⟨_, hr⟩, st', ?_⟩
    simp [Kind.firstOf?, Kind.shape, hpwm]
  | none =>
    have hnone := Option.map_eq_none_iff.mp hpwm
    exact .inr ⟨by simp [fits, hnone], by simp [Kind.firstOf?, Kind.shape, hpwm, h]⟩

theorem statement_of_dispatch {order : List Kind} {k k' : Kind}
    (hfirst : Kind.firstOf? order code = some (k, st))
    (h : Build.dispatch order code line s = .ok (some (k', is)) t) :
    k' = k ∧ Build.statement line st s = .ok is t := by
  rw [Build.dispatch_of_some hfirst] at h
  cases hst : Build.statement line st s with
  | error f u =>
    rw [hst] at h
    cases h
  | ok is' u =>
    rw [hst] at h
    cases h
    exact ⟨rfl, rfl⟩

/-- No assignment to a word is one to the word and a line feed. -/
theorem assign_text_ne {n name : String} {value text : List Char}
    (hname : name.toList = n.toList ++ ['\n']) (h : (Statement.assign n value).Becomes is) :
    is.map Instr.text ≠ [name ++ " = " ++ String.ofList text ++ ";"] := by
  intro htext
  rcases h with rfl | hemits
  · cases htext
  · cases hemits with
    | assign _ _ result =>
      have hlist : (n ++ " = " ++ String.ofList result ++ ";").toList =
          (name ++ " = " ++ String.ofList text ++ ";").toList :=
        congrArg String.toList (List.cons.inj htext).1
      simp only [String.toList_append, hname, List.append_assoc,
        List.append_cancel_left_eq] at hlist
      cases hlist

end

/-- The line that assigns a text becomes that assignment and nothing else, with the name and the
text as they are written, and nothing is reported. -/
def AssignedAsWritten (name : String) (text : List Char) (line : Int) (s : Session) : Prop :=
  ∃ is t, Build.dispatch Kind.all (assignment name text) line s = .ok (some (.assign, is)) t ∧
    is.map Instr.text = [name ++ " = " ++ String.ofList text ++ ";"] ∧ t.findings = s.findings

section
variable {s : Session} {name : String} {c : Char} {w body : List Char} {line : Int}

theorem not_assignedAsWritten_of_pwm {text : List Char} {st : Statement}
    (h : Kind.firstOf? Kind.all (assignment name text) = some (.pwmWrite, st)) :
    ¬ AssignedAsWritten name text line s := by
  rintro ⟨is, t, hrun, -⟩
  exact absurd (statement_of_dispatch h hrun).1 (by decide)

/-- The assignment to a word. -/
theorem assignedAsWritten_iff_of_word (hname : s.table.Allows name)
    (hword : name.toList = c :: w) (hblank : ∀ d ∈ c :: w, isBlank d = false)
    (hlit : isStringLiteral ('"' :: body) = true) (htight : trim ('"' :: body) = '"' :: body)
    (hbody : trimRight body = body) (hline : '\n' ∉ '"' :: body)
    (hassign : Statement.assignShape.first? (assignment name ('"' :: body)) =
      some (.assign name ('"' :: body))) :
    AssignedAsWritten name ('"' :: body) line s ↔ mentionsPwm ('"' :: body) = false := by
  have hpwm := pwmWrite_fits_iff hword hblank hbody hline
  rcases firstOf?_of_assign hassign with ⟨hfits, st, hst⟩ | ⟨hfits, hst⟩
  · rw [hpwm.mp hfits]
    exact iff_of_false (not_assignedAsWritten_of_pwm hst) nofun
  · refine iff_of_true ?_ (by rwa [← Bool.not_eq_true, ← hpwm, Bool.not_eq_true])
    obtain ⟨t, ht, hfindings⟩ := statement_assign_string hname hlit htight line
    refine ⟨[.assign name ('"' :: body)], t, ?_, rfl, hfindings⟩
    rw [Build.dispatch_of_some hst, ht]

/-- The line feed at the end of a name is lost. -/
theorem not_assignedAsWritten_of_lineFeed {n : String} {text : List Char}
    (hword : name.toList = n.toList ++ ['\n'])
    (hassign : Statement.assignShape.first? (assignment name text) = some (.assign n text)) :
    ¬ AssignedAsWritten name text line s := by
  rcases firstOf?_of_assign hassign with ⟨-, st, hst⟩ | ⟨-, hst⟩
  · exact not_assignedAsWritten_of_pwm hst
  · rintro ⟨is, t, hrun, htext, -⟩
    have hbecomes := Build.statement_becomes (statement_of_dispatch hst hrun).2
    exact assign_text_ne hword hbecomes htext

end

/-- **A string is assigned as it is written, unless it mentions PWM.** For every session, every name
that may be a variable and every string, the line becomes the assignment of the string and nothing
is reported, exactly if the name is a word and the string does not have `to pwm` in it. -/
theorem string_assigned_iff {s : Session} {name : String} {text : List Char} (line : Int)
    (hname : s.table.Allows name) (hlit : isStringLiteral text = true)
    (htight : trim text = text) (hline : '\n' ∉ text) :
    AssignedAsWritten name text line s ↔ '\n' ∉ name.toList ∧ mentionsPwm text = false := by
  obtain ⟨c, w, bs, hword, hc, hw, hbs⟩ := exists_word_of_isIdentifier hname.1
  obtain ⟨body, rfl, hbody⟩ := exists_body_of_isStringLiteral hlit htight
  have hassign : Statement.assignShape.first? (assignment name ('"' :: body)) =
      some (.assign (String.ofList (c :: w)) ('"' :: body)) := by
    have hblanks : ∀ d ∈ bs ++ [' '], isBlank d = true := by
      rcases hbs with rfl | rfl
      · exact List.forall_mem_singleton.mpr rfl
      · exact List.forall_mem_cons.mpr ⟨rfl, List.forall_mem_singleton.mpr rfl⟩
    have hread := assign_of_word hc hw (by simp) hblanks (value_of_body hbody hline)
    rw [assignment, hword]
    simpa using hread
  rcases hbs with rfl | rfl
  · rw [List.append_nil] at hword
    rw [← hword, String.ofList_toList] at hassign
    have hblank : ∀ d ∈ c :: w, isBlank d = false := List.forall_mem_cons.mpr
      ⟨isBlank_of_isNameStart hc, fun d hd => isBlank_of_isWordChar (hw d hd)⟩
    have hfeed : '\n' ∉ name.toList := fun hmem => absurd (hblank _ (hword ▸ hmem)) (by decide)
    rw [assignedAsWritten_iff_of_word hname hword hblank hlit htight hbody hline hassign]
    exact (and_iff_right hfeed).symm
  · have hfeed : '\n' ∈ name.toList := by simp [hword]
    exact iff_of_false (not_assignedAsWritten_of_lineFeed (by simp [hword]) hassign)
      fun hboth => hboth.1 hfeed

/-- A string of keywords and escapes, `to pwm` at its end included. -/
theorem string_assigned_keywords :
    let s := Session.start .uno reservedWords
    let text := "\"set x to \\\"pwm\\\" into  y # to pwm\"".toList
    s.table.Allows "msg" ∧ isStringLiteral text = true ∧ trim text = text ∧ '\n' ∉ text ∧
      AssignedAsWritten "msg" text 1 s := by
  intro s text
  have hname : s.table.Allows "msg" :=
    ⟨by decide +kernel, by decide +kernel, by decide +kernel, by decide +kernel⟩
  have hlit : isStringLiteral text = true := by decide +kernel
  have htight : trim text = text := by decide +kernel
  have hline : '\n' ∉ text := by decide +kernel
  exact ⟨hname, hlit, htight, hline,
    (string_assigned_iff 1 hname hlit htight hline).mpr ⟨by decide +kernel, by decide +kernel⟩⟩

/-- A string that is taken for the value of a pin. -/
theorem string_not_assigned_pwm :
    let s := Session.start .uno reservedWords
    let text := "\"a to pwm b\"".toList
    s.table.Allows "v" ∧ isStringLiteral text = true ∧ trim text = text ∧ '\n' ∉ text ∧
      ∃ t, Build.dispatch Kind.all (assignment "v" text) 1 s = .ok (some (.pwmWrite, [])) t ∧
        t.findings = [⟨1, .unresolvedPin "v"⟩] := by
  intro s text
  have hfirst : Kind.firstOf? Kind.all (assignment "v" text) =
      some (.pwmWrite, .pwmWrite "v to \"a".toList "b\"".toList) := by decide +kernel
  refine ⟨⟨by decide +kernel, by decide +kernel, by decide +kernel, by decide +kernel⟩,
    by decide +kernel, by decide +kernel, by decide +kernel, ?_⟩
  have hwords : words "v to \"a".toList = ["v".toList, "to".toList, "\"a".toList] := by
    decide +kernel
  have hrun : Build.statement 1 (.pwmWrite "v to \"a".toList "b\"".toList) s =
      .ok [] (s.reported 1 (.unresolvedPin "v")) := by
    show Build.compilePwmWrite _ _ 1 s = _
    rw [Build.compilePwmWrite, Build.pinOperand, hwords]
    rfl
  rw [Build.dispatch_of_some hfirst, hrun]
  exact ⟨_, rfl, rfl⟩

end PlainSketch
