import PlainSketch.Proofs.ConditionLiterals

/-!
# Printed texts

A text of the script is printed between quotes, with a backslash in front of each of its backslashes
and quotes. However these follow one another, the reader of literals takes what is printed for one
literal that ends at the last quote, and the text is got back by dropping the backslashes again. So
no two texts are printed alike. The backslashes of the text have to be dealt with before its quotes:
in the other order, those that were put in front of quotes would be doubled.
-/
namespace PlainSketch

namespace Text

/-- A backslash is put in front of one character, wherever it stands. -/
def guardChar (c : Char) (cs : List Char) : List Char :=
  cs.flatMap fun d => if d = c then ['\\', d] else [d]

/-- The text without its escapes: a backslash and a character stand for the character. -/
def unescape : List Char → List Char
  | '\\' :: c :: cs => c :: unescape cs
  | c :: cs => c :: unescape cs
  | [] => []

section
variable {c : Char} (cs rest : List Char)

theorem escape_cons_special (h : c = '\\' ∨ c = '"') :
    escape (c :: cs) = '\\' :: c :: escape cs := by
  simp [escape, h]

theorem escape_cons_other (hs : c ≠ '\\') (hq : c ≠ '"') : escape (c :: cs) = c :: escape cs := by
  simp [escape, hs, hq]

theorem unescape_cons_other (hs : c ≠ '\\') : unescape (c :: cs) = c :: unescape cs := by
  rw [unescape]
  exact fun _ _ h => absurd h hs

/-- Both characters at once, or first the backslashes and then the quotes. -/
theorem escape_eq_guardChar : escape cs = guardChar '"' (guardChar '\\' cs) := by
  induction cs with
  | nil => rfl
  | cons c cs ih =>
    by_cases hs : c = '\\'
    · subst hs
      rw [escape_cons_special cs (.inl rfl), ih]
      rfl
    by_cases hq : c = '"'
    · subst hq
      rw [escape_cons_special cs (.inr rfl), ih]
      rfl
    · rw [escape_cons_other cs hs hq, ih]
      simp [guardChar, hs, hq]

/-- The reader passes over the escaped text, whatever is in it, and stops at the quote after it. -/
theorem closeQuote?_escaped : closeQuote? (escape cs ++ '"' :: rest) =
    some (escape cs ++ ['"'], rest) := by
  induction cs with
  | nil => rfl
  | cons c cs ih =>
    by_cases h : c = '\\' ∨ c = '"'
    · have hline : c ≠ '\n' := by
        rcases h with rfl | rfl <;> decide
      rw [escape_cons_special cs h]
      simp only [List.cons_append]
      rw [closeQuote?_escape, if_neg hline, ih]
      rfl
    · obtain ⟨hs, hq⟩ := not_or.mp h
      rw [escape_cons_other cs hs hq]
      simp only [List.cons_append]
      rw [closeQuote?_other hq hs, ih]
      rfl

theorem unescape_escape : unescape (escape cs) = cs := by
  induction cs with
  | nil => rfl
  | cons c cs ih =>
    by_cases h : c = '\\' ∨ c = '"'
    · rw [escape_cons_special cs h, unescape, ih]
    · obtain ⟨hs, hq⟩ := not_or.mp h
      rw [escape_cons_other cs hs hq, unescape_cons_other _ hs, ih]

end
end Text

namespace Instr
open Text Line

theorem toList_literal (text : List Char) :
    (literal text).toList = '"' :: (escape text ++ ['"']) := by
  simp [literal]

theorem quoted?_literal (text rest : List Char) :
    quoted? ((literal text).toList ++ rest) = some ((literal text).toList, rest) := by
  rw [toList_literal, List.cons_append, List.append_assoc, List.singleton_append, quoted?_quote,
    closeQuote?_escaped]
  rfl

theorem isStringLiteral_literal (text : List Char) :
    isStringLiteral (literal text).toList = true := by
  have htrim : trim (literal text).toList = (literal text).toList := by
    rw [toList_literal, trim_cons (by decide), trimRight_concat, if_neg (by decide)]
  have hwhole := quoted?_literal text []
  rw [List.append_nil] at hwhole
  simp [isStringLiteral, htrim, hwhole]

theorem literal_inj {t u : List Char} : literal t = literal u ↔ t = u := by
  refine ⟨fun h => ?_, congrArg literal⟩
  have hlist : '"' :: (escape t ++ ['"']) = '"' :: (escape u ++ ['"']) := by
    rw [← toList_literal, ← toList_literal, h]
  have hescape : escape t = escape u := List.append_cancel_right (List.cons.inj hlist).2
  rw [← unescape_escape t, hescape, unescape_escape]

/-- Code without quotes around a printed text does not add to its literals. -/
theorem literalsIn_literal {before after : List Char} (hb : '"' ∉ before) (ha : '"' ∉ after)
    (text : List Char) :
    literalsIn (before ++ (literal text).toList ++ after) = [(literal text).toList] := by
  have hnone : literalsIn after = [] := by
    simpa using literalsIn_append_left ha []
  rw [List.append_assoc, literalsIn_append_left hb, literalsIn_of_quoted? (quoted?_literal text _),
    hnone]

end Instr

open Text Line in
/-- **A printed text is one literal, and the text is read back from it.** The literal is the text
with its backslashes and then its quotes guarded, between two quotes. Whatever follows it, a reader
of literals reads it to its last quote and no further, and it is the only literal of the lines that
print the text. Dropping the backslashes gives the text again, and different texts have different
literals. -/
theorem printed_text_reads_back (t u rest : List Char) :
    (Instr.literal t).toList = '"' :: (guardChar '"' (guardChar '\\' t) ++ ['"']) ∧
      quoted? ((Instr.literal t).toList ++ rest) = some ((Instr.literal t).toList, rest) ∧
      isStringLiteral (Instr.literal t).toList = true ∧
      literalsIn (Instr.printText t).text.toList = [(Instr.literal t).toList] ∧
      literalsIn (Instr.printlnText t).text.toList = [(Instr.literal t).toList] ∧
      unescape (guardChar '"' (guardChar '\\' t)) = t ∧
      (Instr.literal t = Instr.literal u ↔ t = u) := by
  have hprint : (Instr.printText t).text.toList =
      "Serial.print(".toList ++ (Instr.literal t).toList ++ ");".toList := by
    rw [← String.toList_append, ← String.toList_append]
    rfl
  have hprintln : (Instr.printlnText t).text.toList =
      "Serial.println(".toList ++ (Instr.literal t).toList ++ ");".toList := by
    rw [← String.toList_append, ← String.toList_append]
    rfl
  rw [hprint, hprintln, ← escape_eq_guardChar]
  exact ⟨Instr.toList_literal t, Instr.quoted?_literal t rest, Instr.isStringLiteral_literal t,
    Instr.literalsIn_literal (by decide) (by decide) t,
    Instr.literalsIn_literal (by decide) (by decide) t, unescape_escape t, Instr.literal_inj⟩

open Text in
/-- In the other order the backslash in front of a quote is escaped, and the quote ends the
literal. -/
example : quoted? ('"' :: (guardChar '\\' (guardChar '"' ['"', '!']) ++ ['"'])) =
    some ("\"\\\\\"".toList, "!\"".toList) := by
  decide

end PlainSketch
