import PlainSketch.Proofs.LaidLines

/-!
# Comments and string literals

A line of plain stretches and string literals should be cut at the first comment marker in a plain
stretch. The splitter tells where a string ends by looking back one character, though, and takes a
closing quote after an escaped backslash for an escaped quote. From there on it takes plain text for
strings and strings for plain text, up to the next literal that ends so. The line is cut where it
should be exactly if the marker stands outside of such a part and no literal inside of one, in front
of it, has a marker.
-/
namespace PlainSketch.Line
open Text

/-- A string literal, closing quote included. -/
structure Literal where
  text : List Char
  whole : quoted? text = some (text, [])

/-- A stretch of text without quotes and backslashes. -/
structure Plain where
  text : List Char
  bare : ∀ c ∈ text, c ≠ '"' ∧ c ≠ '\\'

/-- A line of plain stretches, which may be empty, with a literal between each two. -/
inductive Mixed where
  | last (p : Plain)
  | before (p : Plain) (l : Literal) (rest : Mixed)

/-- The place of the first `#` or `//` in a text. -/
def marker? : List Char → Option Nat
  | [] => none
  | c :: cs =>
    if c = '#' ∨ c = '/' ∧ cs.head? = some '/' then some 0 else (marker? cs).map (· + 1)

namespace Mixed

def text : Mixed → List Char
  | last p => p.text
  | before p l rest => p.text ++ (l.text ++ rest.text)

def literals : Mixed → List Literal
  | last _ => []
  | before _ l rest => l :: rest.literals

/-- The place of the first comment marker that stands in a plain stretch. -/
def marker? : Mixed → Option Nat
  | last p => Line.marker? p.text
  | before p l rest =>
    (Line.marker? p.text).or (rest.marker?.map (p.text.length + l.text.length + ·))

/-- Code and comment, cut at the first marker in a plain stretch. -/
def parts (m : Mixed) : List Char × List Char :=
  match m.marker? with
  | some n => (m.text.take n, m.text.drop n)
  | none => (m.text, [])

end Mixed

/-- A backslash stands in front of the closing quote. It is an escaped one, or else it would escape
the quote. -/
def Literal.endsInBackslash (l : Literal) : Bool := l.text.dropLast.getLast? == some '\\'

/-- Nothing in front of the marker leads the splitter astray. `swapped` says that it takes plain
text for strings and strings for plain text. -/
def Mixed.isReadRight (swapped : Bool) : Mixed → Bool
  | last p => !swapped || (Line.marker? p.text).isNone
  | before p l rest =>
    if (Line.marker? p.text).isSome then !swapped
    else (!swapped || (Line.marker? l.text).isNone) &&
      rest.isReadRight (swapped ^^ l.endsInBackslash)

/-! ## Markers -/

section
variable {cs ds : List Char} {n : Nat}

theorem lt_of_marker? (h : marker? cs = some n) : n < cs.length := by
  induction cs generalizing n with
  | nil => cases h
  | cons c cs ih =>
    rw [marker?] at h
    split at h
    · cases h
      exact Nat.zero_lt_succ _
    · obtain ⟨k, hk, rfl⟩ := Option.map_eq_some_iff.mp h
      exact Nat.succ_lt_succ (ih hk)

theorem head?_append_eq_slash (hd : ds.head? ≠ some '/') (cs : List Char) :
    (cs ++ ds).head? = some '/' ↔ cs.head? = some '/' := by
  cases cs with
  | nil => simp [hd]
  | cons c cs => rfl

/-- A marker stands in one of two texts, unless the second one begins with a slash. -/
theorem marker?_append (hd : ds.head? ≠ some '/') (cs : List Char) :
    marker? (cs ++ ds) = (marker? cs).or ((marker? ds).map (cs.length + ·)) := by
  induction cs with
  | nil => simp [marker?]
  | cons c cs ih =>
    simp only [List.cons_append, marker?, head?_append_eq_slash hd, ih]
    split
    · rfl
    · cases marker? cs with
      | some k => rfl
      | none =>
        simp only [Option.none_or, Option.map_none, Option.map_map]
        congr 1
        funext k
        simp only [Function.comp_apply, List.length_cons]
        omega

theorem marker?_quotes (cs : List Char) :
    marker? ('"' :: (cs ++ ['"'])) = (marker? cs).map (· + 1) := by
  have hquote : marker? ['"'] = none := by decide
  rw [marker?, if_neg (by simp), marker?_append (by simp), hquote, Option.map_none, Option.or_none]

end

/-! ## The splitter at work -/

namespace Scan

section
variable {s : Scan} {cs ds : List Char}

/-- The splitter stays inside a string, or outside, all along the text. -/
def Steady : Scan → List Char → Prop
  | _, [] => True
  | s, c :: cs => (s.step c).inString = s.inString ∧ Steady (s.step c) cs

theorem Steady.inString_steps (h : s.Steady cs) : (s.steps cs).inString = s.inString := by
  induction cs generalizing s with
  | nil => rfl
  | cons c cs ih => exact (ih h.2).trans h.1

/-- Text that is taken for a string is taken whole. -/
theorem Steady.cut_of_inString (h : s.Steady cs) (hin : s.inString = true) (ds : List Char) :
    s.cut (cs ++ ds) = (cs ++ ((s.steps cs).cut ds).1, ((s.steps cs).cut ds).2) := by
  refine cut_append ?_
  generalize ds.head? = next
  induction cs generalizing s with
  | nil => trivial
  | cons c cs ih =>
    have hstep := h.1.trans hin
    exact ⟨.inl hstep, ih h.2 hstep⟩

/-- Text that is taken for plain text is cut at its first marker. -/
theorem Steady.cut_of_not_inString (h : s.Steady cs) (hout : s.inString = false)
    (hd : ds.head? ≠ some '/') :
    s.cut (cs ++ ds) = match marker? cs with
      | some n => (cs.take n, cs.drop n ++ ds)
      | none => (cs ++ ((s.steps cs).cut ds).1, ((s.steps cs).cut ds).2) := by
  induction cs generalizing s with
  | nil => rfl
  | cons c cs ih =>
    have hstep := h.1.trans hout
    rw [List.cons_append, cut, marker?, ih h.2 hstep, hstep]
    by_cases hc : c = '#' ∨ c = '/' ∧ cs.head? = some '/'
    · have hstart : (!false && (c == '#' || c == '/' && (cs ++ ds).head? == some '/')) = true := by
        simpa [hd] using hc
      rw [if_pos hstart, if_pos hc]
      rfl
    · have hstart : (!false && (c == '#' || c == '/' && (cs ++ ds).head? == some '/')) = false := by
        simpa [hd] using hc
      rw [hstart, if_neg hc]
      cases marker? cs with
      | some n => rfl
      | none => rfl

theorem step_other {c : Char} (hc : c ≠ '"') (s : Scan) : s.step c = ⟨c == '\\', s.inString⟩ := by
  simp [step, hc]

/-- Behind some text it depends on the last character whether the next one is escaped. -/
theorem escaped_steps (hs : s.escaped = false) (cs : List Char) :
    (s.steps cs).escaped = (cs.getLast? == some '\\') := by
  rcases List.eq_nil_or_concat cs with rfl | ⟨ds, d, rfl⟩
  · exact hs
  · rw [List.concat_eq_append, steps_append, List.getLast?_concat]
    rfl

/-- Plain text leaves the splitter as it is. -/
theorem steady_plain (p : Plain) (hs : s.escaped = false) :
    s.Steady p.text ∧ s.steps p.text = s := by
  obtain ⟨cs, bare⟩ := p
  show s.Steady cs ∧ s.steps cs = s
  induction cs with
  | nil => exact ⟨trivial, rfl⟩
  | cons c cs ih =>
    obtain ⟨⟨hquote, hslash⟩, hrest⟩ := List.forall_mem_cons.mp bare
    have hstep : s.step c = s := by
      obtain ⟨escaped, inString⟩ := s
      cases hs
      simp [step_other hquote, hslash]
    obtain ⟨hsteady, hsteps⟩ := ih hrest
    refine ⟨⟨by rw [hstep], by rwa [hstep]⟩, ?_⟩
    show (s.step c).steps cs = s
    rwa [hstep]

/-- No quote between those of a literal is taken for a closing one: a backslash precedes it. -/
theorem steady_of_closeQuote? (h : closeQuote? (cs ++ ['"']) = some (cs ++ ['"'], []))
    (s : Scan) : s.Steady cs := by
  induction cs using literal_induction generalizing s with
  | nil => trivial
  | quote cs => simp at h
  | slash => simp [closeQuote?] at h
  | escape c cs ih =>
    have hrest : closeQuote? (cs ++ ['"']) = some (cs ++ ['"'], []) := by
      rw [List.cons_append, List.cons_append, closeQuote?_escape] at h
      split at h
      · cases h
      · obtain ⟨⟨l, r⟩, hl, he⟩ := Option.map_eq_some_iff.mp h
        cases he
        exact hl
    refine ⟨by simp [step], ?_, ih hrest _⟩
    simp [step]
  | other c cs hquote hslash ih =>
    have hrest : closeQuote? (cs ++ ['"']) = some (cs ++ ['"'], []) := by
      rw [List.cons_append, closeQuote?_other hquote hslash] at h
      obtain ⟨⟨l, r⟩, hl, he⟩ := Option.map_eq_some_iff.mp h
      cases he
      exact hl
    exact ⟨by rw [step_other hquote], ih hrest _⟩

end
end Scan

theorem Literal.exists_body (l : Literal) : ∃ cs, l.text = '"' :: (cs ++ ['"']) ∧
    closeQuote? (cs ++ ['"']) = some (cs ++ ['"'], []) ∧
    l.endsInBackslash = (cs.getLast? == some '\\') := by
  obtain ⟨text, whole⟩ := l
  cases text with
  | nil => cases whole
  | cons c cs =>
    by_cases hc : c = '"'
    · subst hc
      rw [quoted?_quote] at whole
      obtain ⟨⟨body, r⟩, hbody, he⟩ := Option.map_eq_some_iff.mp whole
      cases he
      obtain ⟨ds, rfl⟩ := List.getLast?_eq_some_iff.mp (getLast?_of_closeQuote? hbody)
      refine ⟨ds, rfl, hbody, ?_⟩
      have hlast : ('"' :: (ds ++ ['"'])).dropLast = '"' :: ds := by
        rw [← List.cons_append, List.dropLast_concat]
      rw [endsInBackslash, hlast, List.getLast?_cons]
      cases ds.getLast? <;> rfl
    · rw [quoted?_other hc] at whole
      cases whole

theorem Literal.head?_text (l : Literal) (ds : List Char) : (l.text ++ ds).head? ≠ some '/' := by
  obtain ⟨cs, htext, -⟩ := l.exists_body
  rw [htext]
  rintro ⟨⟩

namespace Scan

section
variable {swapped : Bool}

theorem cut_quote (s : Scan) (ds : List Char) :
    s.cut ('"' :: ds) = ('"' :: ((s.step '"').cut ds).1, ((s.step '"').cut ds).2) := by
  simp [cut]

/-- A plain stretch is passed as a whole, unless it is taken for what it is and has a marker. -/
theorem cut_plain (p : Plain) {ds : List Char} (hd : ds.head? ≠ some '/')
    (h : swapped = true ∨ Line.marker? p.text = none) : cut ⟨false, swapped⟩ (p.text ++ ds) =
      (p.text ++ (cut ⟨false, swapped⟩ ds).1, (cut ⟨false, swapped⟩ ds).2) := by
  obtain ⟨hsteady, hsteps⟩ := steady_plain (s := ⟨false, swapped⟩) p rfl
  cases swapped with
  | true => rw [hsteady.cut_of_inString rfl, hsteps]
  | false =>
    have hnone : Line.marker? p.text = none := h.resolve_left Bool.false_ne_true
    rw [hsteady.cut_of_not_inString rfl hd, hnone, hsteps]

/-- A plain stretch that is taken for what it is gets cut at its first marker. -/
theorem cut_plain_of_marker? (p : Plain) {ds : List Char} (hd : ds.head? ≠ some '/') {n : Nat}
    (h : Line.marker? p.text = some n) :
    cut {} (p.text ++ ds) = (p.text.take n, p.text.drop n ++ ds) := by
  rw [(steady_plain p rfl).1.cut_of_not_inString rfl hd, h]

/-- A literal is passed as a whole, unless it is taken for plain text and has a marker. Where it
ends in a backslash, the splitter is swapped. -/
theorem cut_literal (l : Literal) (h : swapped = false ∨ Line.marker? l.text = none)
    (ds : List Char) : cut ⟨false, swapped⟩ (l.text ++ ds) =
      (l.text ++ (cut ⟨false, swapped ^^ l.endsInBackslash⟩ ds).1,
        (cut ⟨false, swapped ^^ l.endsInBackslash⟩ ds).2) := by
  obtain ⟨cs, htext, hclose, hends⟩ := l.exists_body
  have hopen : step ⟨false, swapped⟩ '"' = ⟨false, !swapped⟩ := by simp [step]
  have hsteady := steady_of_closeQuote? hclose ⟨false, !swapped⟩
  have hbody : cut ⟨false, !swapped⟩ (cs ++ '"' :: ds) =
      (cs ++ ((steps ⟨false, !swapped⟩ cs).cut ('"' :: ds)).1,
        ((steps ⟨false, !swapped⟩ cs).cut ('"' :: ds)).2) := by
    cases swapped with
    | false => exact hsteady.cut_of_inString rfl _
    | true =>
      have hnone : Line.marker? cs = none := by
        rcases h with h | h
        · cases h
        · rwa [htext, marker?_quotes, Option.map_eq_none_iff] at h
      rw [hsteady.cut_of_not_inString rfl (by simp), hnone]
  have hclosed : (steps ⟨false, !swapped⟩ cs).step '"' =
      ⟨false, swapped ^^ l.endsInBackslash⟩ := by
    rw [step, escaped_steps rfl, hsteady.inString_steps, hends]
    cases cs.getLast? == some '\\' <;> cases swapped <;> rfl
  rw [htext, List.cons_append, List.append_assoc, List.singleton_append, cut_quote, hopen, hbody,
    cut_quote, hclosed]
  simp

/-- A marker in a literal that is taken for plain text cuts it short. -/
theorem length_cut_literal (l : Literal) (h : (Line.marker? l.text).isSome = true)
    (ds : List Char) : (cut ⟨false, true⟩ (l.text ++ ds)).1.length < l.text.length := by
  obtain ⟨cs, htext, hclose, -⟩ := l.exists_body
  have hsteady := steady_of_closeQuote? hclose ⟨false, false⟩
  cases hmarker : Line.marker? cs with
  | none =>
    rw [htext, marker?_quotes, hmarker] at h
    cases h
  | some n =>
    have hn := Line.lt_of_marker? hmarker
    have hopen : step ⟨false, true⟩ '"' = ⟨false, false⟩ := rfl
    rw [htext, List.cons_append, List.append_assoc, List.singleton_append, cut_quote, hopen,
      hsteady.cut_of_not_inString rfl (by simp), hmarker]
    show (cs.take n).length + 1 < (cs ++ ['"']).length + 1
    rw [List.length_take, List.length_append]
    omega

end
end Scan

/-! ## Lines -/

namespace Mixed
variable {p : Plain} {l : Literal} {m : Mixed} {n : Nat}

theorem parts_before_of_some (h : Line.marker? p.text = some n) :
    (before p l m).parts = (p.text.take n, p.text.drop n ++ (l.text ++ m.text)) := by
  have hn := Nat.le_of_lt (Line.lt_of_marker? h)
  simp only [parts, marker?, h, Option.some_or, text]
  rw [List.take_append_of_le_length hn, List.drop_append_of_le_length hn]

theorem parts_before_of_none (h : Line.marker? p.text = none) :
    (before p l m).parts = (p.text ++ (l.text ++ m.parts.1), m.parts.2) := by
  simp only [parts, marker?, h, Option.none_or, text]
  cases m.marker? with
  | none => rfl
  | some k =>
    show (List.take (p.text.length + l.text.length + k) _, List.drop _ _) = _
    rw [← List.append_assoc, ← List.length_append, List.take_length_add_append,
      List.drop_length_add_append, List.append_assoc]

theorem append_fst_eq_iff {a : List Char} {x y : List Char × List Char} :
    (a ++ x.1, x.2) = (a ++ y.1, y.2) ↔ x = y := by
  rw [Prod.mk.injEq, List.append_cancel_left_eq, Prod.ext_iff]

theorem ne_of_length_lt {x y : List Char × List Char} (h : x.1.length < y.1.length) : x ≠ y := by
  rintro rfl
  exact Nat.lt_irrefl _ h

/-- The splitter cuts a line where it should exactly if nothing leads it astray. -/
theorem cut_text_iff (m : Mixed) (swapped : Bool) :
    Scan.cut ⟨false, swapped⟩ m.text = m.parts ↔ m.isReadRight swapped = true := by
  induction m generalizing swapped with
  | last p =>
    have hend : ([] : List Char).head? ≠ some '/' := nofun
    have hpass (h : swapped = true ∨ Line.marker? p.text = none) :
        Scan.cut ⟨false, swapped⟩ p.text = (p.text, []) := by
      simpa [Scan.cut] using Scan.cut_plain p hend h
    rw [text, isReadRight, parts, marker?, text]
    cases hmarker : Line.marker? p.text with
    | none =>
      simp [hpass (.inr hmarker)]
    | some n =>
      have hn := Line.lt_of_marker? hmarker
      cases swapped with
      | false =>
        have hcut := Scan.cut_plain_of_marker? p hend hmarker
        rw [List.append_nil] at hcut
        simp [hcut]
      | true =>
        refine iff_of_false (Ne.symm (ne_of_length_lt ?_)) (by simp)
        simp only [hpass (.inl rfl), List.length_take]
        omega
  | before p l m ih =>
    have hslash := l.head?_text m.text
    rw [text, isReadRight]
    cases hmarker : Line.marker? p.text with
    | some n =>
      have hn := Line.lt_of_marker? hmarker
      rw [parts_before_of_some hmarker]
      cases swapped with
      | false => simp [Scan.cut_plain_of_marker? p hslash hmarker]
      | true =>
        -- The marker is passed over with the stretch that it stands in.
        rw [Scan.cut_plain p hslash (.inl rfl)]
        refine iff_of_false (Ne.symm (ne_of_length_lt ?_)) (by simp)
        simp only [List.length_take, List.length_append]
        omega
    | none =>
      rw [parts_before_of_none hmarker, Scan.cut_plain p hslash (.inr hmarker),
        append_fst_eq_iff (y := (l.text ++ m.parts.1, m.parts.2))]
      by_cases hpass : swapped = false ∨ Line.marker? l.text = none
      · rw [Scan.cut_literal l hpass, append_fst_eq_iff, ih]
        rcases hpass with rfl | hnone
        · simp
        · simp [hnone]
      · -- The line is cut inside the literal.
        rw [not_or, Bool.not_eq_false] at hpass
        obtain ⟨rfl, hsome⟩ := hpass
        rw [← ne_eq, Option.ne_none_iff_isSome] at hsome
        refine iff_of_false (ne_of_length_lt ?_) (by simp [Option.isNone_eq_false_iff.mpr hsome])
        have hshort := Scan.length_cut_literal l hsome m.text
        simp only [List.length_append]
        omega

theorem isReadRight_of_literals (h : ∀ l ∈ m.literals, l.endsInBackslash = false) :
    m.isReadRight false = true := by
  induction m with
  | last p => rfl
  | before p l m ih =>
    obtain ⟨hl, hrest⟩ := List.forall_mem_cons.mp h
    rw [isReadRight, hl]
    split
    · rfl
    · exact ih hrest

end Mixed

/-- **Comments are cut outside of string literals.** A line of plain stretches and literals is cut
at the first marker in a plain stretch, or is code as a whole if there is none, exactly if nothing
in front of the marker leads the splitter astray. Nothing does if no literal ends in a backslash. -/
theorem splitComment_eq_parts_iff (m : Mixed) :
    (splitComment m.text = m.parts ↔ m.isReadRight false = true) ∧
      ((∀ l ∈ m.literals, l.endsInBackslash = false) → splitComment m.text = m.parts) := by
  rw [Scan.splitComment_eq]
  have hiff := m.cut_text_iff false
  exact ⟨hiff, fun h => hiff.mpr (Mixed.isReadRight_of_literals h)⟩

/-- The comment behind a literal that ends in an escaped backslash is taken for code. -/
theorem comment_missed_after_backslash : ∃ m : Mixed,
    m.text = "print \"a\\\\\" # c".toList ∧
      m.parts = ("print \"a\\\\\" ".toList, "# c".toList) ∧
      splitComment m.text = (m.text, []) := by
  refine ⟨.before ⟨"print ".toList, by simp⟩ ⟨"\"a\\\\\"".toList, by decide⟩
    (.last ⟨" # c".toList, by simp⟩), ?_, ?_, ?_⟩
  · decide +kernel
  · decide +kernel
  · decide +kernel

end PlainSketch.Line
