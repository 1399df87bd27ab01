import PlainSketch.Proofs.BlockRuns
import PlainSketch.Proofs.CommentCut
import PlainSketch.Proofs.Faultless
import PlainSketch.Proofs.FreeText
import PlainSketch.Proofs.PhraseScan

/-!
# The string literals of a condition

Phrases are replaced throughout a condition, in its string literals too. Literals stay literals, in
the same number and order, and each one comes out as if it had been the whole condition. So the
header of the block has the literals of the condition exactly if none of them has one of the words
that phrases begin with as a word of its own.
-/
namespace PlainSketch
open Text Line

/-! ## The literals of a text -/

namespace Line

/-- The string literals of a text, from left to right. -/
def literalsIn : List Char → List (List Char)
  | [] => []
  | c :: cs =>
    match _h : quoted? (c :: cs) with
    | some r => r.1 :: literalsIn r.2
    | none => literalsIn cs
termination_by cs => cs.length
decreasing_by
  · exact quoted?_length _h
  · simp

section
variable {c : Char} {cs ds l r : List Char}

@[simp]
theorem literalsIn_nil : literalsIn [] = [] := by
  unfold literalsIn
  rfl

theorem literalsIn_of_quoted? (h : quoted? cs = some (l, r)) :
    literalsIn cs = l :: literalsIn r := by
  obtain ⟨ds, m, rfl, rfl, hm⟩ := quoted?_eq_some h
  conv_lhs => unfold literalsIn
  split
  · next hq =>
    rw [h] at hq
    cases hq
    rfl
  · next hq =>
    rw [h] at hq
    cases hq

theorem literalsIn_cons (h : quoted? (c :: cs) = none) :
    literalsIn (c :: cs) = literalsIn cs := by
  conv_lhs => unfold literalsIn
  split
  · next hq =>
    rw [h] at hq
    cases hq
  · rfl

/-- Text without quotes in front of a literal is passed over. -/
theorem literalsIn_append_left (h : '"' ∉ cs) (ds : List Char) :
    literalsIn (cs ++ ds) = literalsIn ds := by
  induction cs with
  | nil => rfl
  | cons c cs ih =>
    obtain ⟨hc, hcs⟩ := not_or.mp (mt List.mem_cons.mpr h)
    rw [List.cons_append, literalsIn_cons (quoted?_other (Ne.symm hc) _), ih hcs]

/-- Text without quotes at the end holds no literal and closes none. -/
theorem literalsIn_append_right (cs : List Char) (h : '"' ∉ ds) :
    literalsIn (cs ++ ds) = literalsIn cs := by
  induction cs using hollow.induct with
  | case1 => simpa using literalsIn_append_left h []
  | case2 c cs q hq ih =>
    have happend : quoted? (c :: cs ++ ds) = some (q.1, q.2 ++ ds) := by
      rw [← quoted?_append hq, List.append_assoc]
      exact quoted?_append_right hq _
    rw [literalsIn_of_quoted? happend, literalsIn_of_quoted? hq, ih]
  | case3 c cs hq ih =>
    have happend : quoted? (c :: (cs ++ ds)) = none := by
      by_cases hc : c = '"'
      · subst hc
        rw [quoted?_quote, Option.map_eq_none_iff] at hq ⊢
        exact closeQuote?_append_eq_none hq h
      · exact quoted?_other hc _
    rw [List.cons_append, literalsIn_cons happend, literalsIn_cons hq, ih]

theorem quote_not_mem_of_isBlank (h : ∀ d ∈ cs, isBlank d = true) : '"' ∉ cs :=
  fun hmem => absurd (h _ hmem) (by decide)

end

theorem literalsIn_mixed (m : Mixed) : literalsIn m.text = m.literals.map Literal.text := by
  induction m with
  | last p =>
    have h := literalsIn_append_left (fun hmem => (p.bare _ hmem).1 rfl) []
    simpa [Mixed.text, Mixed.literals] using h
  | before p l rest ih =>
    have hl : quoted? (l.text ++ rest.text) = some (l.text, rest.text) :=
      quoted?_append_right l.whole rest.text
    rw [Mixed.text, literalsIn_append_left fun hmem => (p.bare _ hmem).1 rfl,
      literalsIn_of_quoted? hl, ih]
    rfl

end Line

/-! ## Phrases in literals -/

namespace Phrase
open Shape

section
variable {p : Phrase} (hp : p.isTidy = true)
include hp

/-- Replacing a phrase leaves literals apart, and replaces it in each of them. -/
theorem literalsIn_replaceFrom (inWord : Bool) (cs : List Char) :
    literalsIn (p.replaceFrom inWord cs) = (literalsIn cs).map p.replace := by
  generalize hlen : cs.length = m
  induction m using Nat.strong_induction_on generalizing cs inWord with
  | _ m ih =>
    cases cs with
    | nil => rw [replaceFrom_nil, literalsIn_nil, List.map_nil]
    | cons c cs =>
      cases hq : quoted? (c :: cs) with
      | some x =>
        obtain ⟨hsame, hliteral⟩ := replaceFrom_literal hp hq inWord (p.replaceFrom false x.2)
        have hrest := ih x.2.length (hlen ▸ quoted?_length hq) false x.2 rfl
        conv_lhs => rw [← quoted?_append hq, replaceFrom_append hp inWord (getLast?_of_quoted? hq)]
        rw [literalsIn_of_quoted? hliteral, literalsIn_of_quoted? hq, hrest, hsame, List.map_cons]
      | none =>
        rcases replaceFrom_cases hp inWord c cs with ⟨t, r, n, rfl, h, rfl, hc, ht⟩ | h
        · -- The phrase has no quotes, and neither has the operator.
          obtain ⟨o, os, ho, hos⟩ := operator_tidy hp
          have htaken : '"' ∉ c :: t := by
            intro hmem
            rcases List.mem_cons.mp hmem with he | hmem
            · exact hc.2.1 he.symm
            · exact (ht _ hmem).1 rfl
          have hoperator : '"' ∉ o :: os := fun hmem => (hos _ hmem).2.1 rfl
          simp only [List.length_cons, List.length_append] at hlen
          rw [replaceFrom_of_some hp h, ho, literalsIn_append_left hoperator, ← List.cons_append,
            literalsIn_append_left htaken, ih r.length (by omega) true r rfl]
        · have hopen := quoted?_replaceFrom_eq_none hp hq (isWordChar c)
          simp only [List.length_cons] at hlen
          rw [replaceFrom_of_none h, literalsIn_cons hopen, literalsIn_cons hq,
            ih cs.length (by omega) _ cs rfl]

end

theorem literalsIn_replaceAll (cs : List Char) :
    literalsIn (replaceAll cs) = (literalsIn cs).map replaceAll := by
  have hall := isTidy_of_mem_all
  unfold replaceAll
  generalize all = ps at hall
  induction ps generalizing cs with
  | nil => exact (List.map_id _).symm
  | cons p ps ih =>
    obtain ⟨hp, hps⟩ := List.forall_mem_cons.mp hall
    simp only [List.foldl_cons]
    rw [ih _ hps, replace, literalsIn_replaceFrom hp, List.map_map]
    rfl

/-! ## Texts without phrases -/

section
variable {ps : List Phrase} {cs r : List Char} {n : Nat}

/-- A phrase begins with its first word, as a word of its own. -/
theorem word_of_shapeOf {w : String} {ws : List String} (h : shapeOf (w :: ws) cs = some (n, r)) :
    ∃ r', dropKeyword w.toList cs = some r' ∧ OpensNoWord r' := by
  cases ws with
  | nil =>
    have hopen := opensNoWord_of_shapeOf h
    obtain ⟨_, r', hkey, h⟩ := bind_eq_some.mp h
    obtain ⟨_, r'', hend, hpure⟩ := bind_eq_some.mp h
    obtain ⟨x, hdrop, he⟩ := Option.map_eq_some_iff.mp hkey
    cases he
    cases hpure
    rw [(wordEnd_eq_some hend).1] at hopen
    exact ⟨_, hdrop, hopen⟩
  | cons v ws =>
    obtain ⟨_, r', hkey, h⟩ := bind_eq_some.mp h
    obtain ⟨m, r'', hgap, -⟩ := bind_eq_some.mp h
    obtain ⟨x, hdrop, he⟩ := Option.map_eq_some_iff.mp hkey
    cases he
    refine ⟨_, hdrop, fun c hc => ?_⟩
    cases hb : isBlank c with
    | true => exact class_of_isBlank (fun _ => isBlank_of_isWordChar) hb
    | false =>
      obtain ⟨ds, rfl⟩ := List.head?_eq_some_iff.mp hc
      simp [gapSize, hb] at hgap

/-- Where no phrase can begin a scan copies the text. `a` is what it has gone over. -/
theorem scanFrom_eq_self (hs : Separate ps) {inWord : Bool} {a x : List Char}
    (hlast : inWord = false → ∀ c, a.getLast? = some c → isWordChar c = false)
    (h : ∀ p ∈ ps, ∀ w ∈ p.words.head?, ¬ HasWord w (a ++ x)) : scanFrom ps inWord x = x := by
  induction x generalizing a inWord with
  | nil => exact scanFrom_nil ps inWord
  | cons c x ih =>
    have hcopy : inWord = true ∨ stands? ps (c :: x) = none := by
      cases hin : inWord with
      | true => exact .inl rfl
      | false =>
        refine .inr (stands?_eq_none.mpr fun p hp => ?_)
        obtain ⟨w, ws, hws, -⟩ := words_eq_cons (hs.tidy p hp)
        cases hshape : shapeOf p.words (c :: x) with
        | none => rfl
        | some y =>
          rw [hws] at hshape
          obtain ⟨r, hdrop, hopen⟩ := word_of_shapeOf hshape
          obtain ⟨spelling, hspells, he⟩ := dropKeyword_eq_some.mp hdrop
          have hspelling : dropKeyword w.toList spelling = some [] :=
            dropKeyword_eq_some.mpr ⟨spelling, hspells, List.append_nil spelling⟩
          rw [← he] at h
          have hword : HasWord w (a ++ (spelling ++ r)) :=
            ⟨a, spelling, r, rfl, hspelling, hlast hin, hopen⟩
          exact (h p hp w (by rw [hws]; rfl) hword).elim
    rw [scanFrom_of_none hcopy, ih (a := a ++ [c])]
    · intro hc d hd
      rw [List.getLast?_concat] at hd
      cases hd
      exact hc
    · simpa using h

end

/-- Replacing the phrases changes a text exactly if one of the words that they begin with is in it
as a word of its own. -/
theorem replaceAll_eq_self_iff (cs : List Char) :
    replaceAll cs = cs ↔ ∀ w ∈ ["is", "equals", "and", "or"], ¬ HasWord w cs := by
  have hscan : replaceAll cs = scanFrom all false cs := foldl_replace separate_all cs
  constructor
  · intro h w hw
    obtain ⟨p, hp, hwords⟩ : ∃ p ∈ all, p.words = [w] := by
      have hall : ∀ w ∈ ["is", "equals", "and", "or"], ∃ p ∈ all, p.words = [w] := by decide
      exact hall w hw
    rw [← h, hscan]
    exact not_hasWord_scanFrom separate_all hp hwords cs
  · intro h
    have hfirst : ∀ p ∈ all, ∀ w ∈ p.words.head?, w ∈ ["is", "equals", "and", "or"] := by decide
    rw [hscan]
    exact scanFrom_eq_self (a := []) separate_all (fun _ _ hc => by cases hc)
      fun p hp w hw => h w (hfirst p hp w hw)

end Phrase

/-! ## Reading the condition -/

/-- The blocks that are run on a condition. -/
inductive Conditional where
  | ifDo
  | whileDo
deriving DecidableEq, Repr

namespace Conditional
open Shape

def word : Conditional → String
  | ifDo => "if"
  | whileDo => "while"

def opener : Conditional → List Char → Opener
  | ifDo => .ifDo
  | whileDo => .whileDo

def header : Conditional → List Char → Instr
  | ifDo => .openIf
  | whileDo => .openWhile

/-- The line that opens a block on the condition. -/
def line (k : Conditional) (condition : List Char) : List Char :=
  k.word.toList ++ (' ' :: (condition ++ " do:".toList))

variable {cs : List Char}

/-- The condition goes up to the last `do:`. -/
theorem longTextUntil_doEnd (hne : cs ≠ []) (hline : '\n' ∉ cs) :
    longTextUntil Opener.doEnd (cs ++ " do:".toList) = some ((cs, ()), []) := by
  induction cs with
  | nil => exact absurd rfl hne
  | cons c cs ih =>
    obtain ⟨hc, hcs⟩ := not_or.mp (mt List.mem_cons.mpr hline)
    rw [List.cons_append, longTextUntil, if_neg (by simpa using Ne.symm hc)]
    by_cases hnil : cs = []
    · subst hnil
      rfl
    · rw [ih hnil hcs]
      rfl

theorem trimLeft_ne_nil (h : trim cs ≠ []) : trimLeft cs ≠ [] := by
  intro hnil
  rw [trim, hnil] at h
  exact h rfl

theorem longTextBefore_doEnd (hne : trim cs ≠ []) (hline : '\n' ∉ cs) :
    longTextBefore Opener.doEnd (' ' :: (cs ++ " do:".toList)) = some ((trimLeft cs, ()), []) := by
  have hleft := trimLeft_ne_nil hne
  have htrim : trimLeft (cs ++ " do:".toList) = trimLeft cs ++ " do:".toList := by
    rw [trimLeft, List.dropWhile_append, if_neg]
    · rfl
    · exact fun he => hleft (List.isEmpty_iff.mp he)
  have hread : leaveGap (longTextUntil Opener.doEnd) Opener.doEnd (cs ++ " do:".toList) =
      some ((trimLeft cs, ()), []) := by
    refine leaveGap_of_text (fun hnil => ?_) ?_
    · rw [htrim] at hnil
      exact hleft (List.append_eq_nil_iff.mp hnil).1
    · rw [htrim]
      exact longTextUntil_doEnd hleft (newline_not_mem_trimLeft hline)
  exact hread

/-- The line opens a block on the condition, without the blanks in front of it. -/
theorem ofCode?_line (k : Conditional) (hne : trim cs ≠ []) (hline : '\n' ∉ cs) :
    Opener.ofCode? (k.line cs) = some (k.opener (trimLeft cs)) := by
  have htext := longTextBefore_doEnd hne hline
  cases k with
  | ifDo =>
    have hread : Opener.ifShape.first? (line ifDo cs) = some (.ifDo (trimLeft cs)) :=
      first?_eq_some.mpr ⟨[], bind_eq_some.mpr ⟨(), _, rfl, bind_eq_some.mpr ⟨_, _, htext, rfl⟩⟩⟩
    simp only [Opener.ofCode?, firstOf?, Opener.shapes, List.findSome?_cons, hread]
    rfl
  | whileDo =>
    have hread : Opener.whileShape.first? (line whileDo cs) = some (.whileDo (trimLeft cs)) :=
      first?_eq_some.mpr ⟨[], bind_eq_some.mpr ⟨(), _, rfl, bind_eq_some.mpr ⟨_, _, htext, rfl⟩⟩⟩
    have hif : Opener.ifShape.first? (line whileDo cs) = none := rfl
    have hrepeat : Opener.repeatShape.first? (line whileDo cs) = none := rfl
    have hforever : Opener.foreverShape.first? (line whileDo cs) = none := rfl
    simp only [Opener.ofCode?, firstOf?, Opener.shapes, List.findSome?_cons, hif, hrepeat, hforever,
      hread]
    rfl

theorem ofCode_line (k : Conditional) (hne : trim cs ≠ []) (hline : '\n' ∉ cs) :
    BlockLine.ofCode (k.line cs) = .control (k.opener (trimLeft cs)) := by
  refine (sorts_of_opener (fun c hc => ?_) (ofCode?_line k hne hline)).2
  have hlast : (k.line cs).getLast? = some ':' :=
    getLast?_of_suffix (v := " do:".toList) ⟨k.word.toList ++ ' ' :: cs, by simp [line]⟩ rfl
  rw [hlast] at hc
  cases hc
  decide

theorem condition_eq (hne : trim cs ≠ []) (line : Int) (s : Session) :
    ∃ t, Build.condition (trimLeft cs) line s = .ok (some (Phrase.replaceAll (trim cs))) t := by
  have htrim : trim (trimLeft cs) = trim cs := by
    rw [trim, trimLeft_eq_self fun c => head?_trimLeft cs, trim]
  obtain ⟨c, r, hcr⟩ := List.exists_cons_of_ne_nil hne
  obtain ⟨u, t, ht⟩ := Build.useNames_succeeds (Phrase.replaceAll (c :: r)) line s
  refine ⟨t, ?_⟩
  rw [Build.condition, htrim, hcr]
  exact bind_eq_ok.mpr ⟨u, t, ht, rfl⟩

/-- The line becomes the header of a block on the condition with its phrases replaced. -/
theorem takeLine_line (k : Conditional) (hne : trim cs ≠ []) (hline : '\n' ∉ cs) (line : Int)
    {a : Assembly} (hbody : a.body.isSome = true) :
    ∃ a', Assemble.takeLine line (k.line cs) a =
      .ok [k.header (Phrase.replaceAll (trim cs))] a' := by
  obtain ⟨b, hb⟩ := Option.isSome_iff_exists.mp hbody
  obtain ⟨t, ht⟩ := condition_eq hne line a.session
  have hheader : ∃ w : Fragment, Build.header (k.opener (trimLeft cs)) line a.session =
      .ok (some w) t ∧ Instr.shift a.ids w.lines = [k.header (Phrase.replaceAll (trim cs))] := by
    cases k with
    | ifDo | whileDo => exact ⟨_, bind_eq_ok.mpr ⟨_, t, ht, rfl⟩, rfl⟩
  obtain ⟨w, hw, hlines⟩ := hheader
  rw [Assemble.takeLine_control (ofCode_line k hne hline), Assemble.openControl_eq hb, hw, ← hlines]
  exact ⟨_, rfl⟩

/-- The header adds no literals to those of its condition. -/
theorem literalsIn_header (k : Conditional) (test : List Char) :
    literalsIn (k.header test).text.toList = literalsIn test := by
  have between : ∀ {before after : List Char}, '"' ∉ before → '"' ∉ after →
      literalsIn (before ++ (test ++ after)) = literalsIn test := fun hbefore hafter => by
    rw [literalsIn_append_left hbefore, literalsIn_append_right test hafter]
  cases k with
  | ifDo =>
    have htext : (Instr.openIf test).text.toList =
        "if (".toList ++ (test ++ ") \x7b".toList) := by
      show ("if (" ++ String.ofList test ++ ") \x7b").toList = _
      simp
    rw [header, htext, between (by decide) (by decide)]
  | whileDo =>
    have htext : (Instr.openWhile test).text.toList =
        "while (".toList ++ (test ++ ") \x7b".toList) := by
      show ("while (" ++ String.ofList test ++ ") \x7b").toList = _
      simp
    rw [header, htext, between (by decide) (by decide)]

end Conditional

theorem literalsIn_trim (cs : List Char) : literalsIn (trim cs) = literalsIn cs := by
  obtain ⟨bs, es, hcs, hbs, hes⟩ := exists_trim cs
  conv_rhs => rw [hcs]
  rw [literalsIn_append_left (quote_not_mem_of_isBlank hbs),
    literalsIn_append_right _ (quote_not_mem_of_isBlank hes)]

/-- **A condition keeps its string literals unless they hold words of phrases.** In whatever body a
line opens a block on a condition of literals and plain text, it becomes one header. Its literals
are those of the condition, in the same order, with the phrases in them replaced; they are the same
exactly if none of them has `is`, `equals`, `and` or `or` in it as a word of its own. -/
theorem condition_literals_kept_iff (k : Conditional) (m : Mixed) (hne : trim m.text ≠ [])
    (hline : '\n' ∉ m.text) (line : Int) {a : Assembly} (hbody : a.body.isSome = true) :
    ∃ i a', Assemble.takeLine line (k.line m.text) a = .ok [i] a' ∧
      literalsIn i.text.toList = m.literals.map (fun l => Phrase.replaceAll l.text) ∧
      (literalsIn i.text.toList = m.literals.map Literal.text ↔
        ∀ l ∈ m.literals, ∀ w ∈ ["is", "equals", "and", "or"], ¬ Phrase.HasWord w l.text) := by
  obtain ⟨a', ha'⟩ := k.takeLine_line hne hline line hbody
  have hliterals : literalsIn (k.header (Phrase.replaceAll (trim m.text))).text.toList =
      m.literals.map (fun l => Phrase.replaceAll l.text) := by
    rw [k.literalsIn_header, Phrase.literalsIn_replaceAll, literalsIn_trim, literalsIn_mixed,
      List.map_map]
    rfl
  refine ⟨_, a', ha', hliterals, ?_⟩
  rw [hliterals, List.map_inj_left]
  exact forall₂_congr fun l _ => Phrase.replaceAll_eq_self_iff l.text

/-- Two literals among phrases, one with an escaped quote and one with parts of words. -/
theorem condition_literals_kept_loop :
    let m : Mixed := .before ⟨" name is not ".toList, by simp⟩ ⟨"\"a \\\" b\"".toList, by decide⟩
      (.before ⟨" and x is at least 3 or name is ".toList, by simp⟩
        ⟨"\"this island, or_ders\"".toList, by decide⟩ (.last ⟨[], by simp⟩))
    let a : Assembly := { session := .start .uno reservedWords, body := some .loop }
    trim m.text ≠ [] ∧ '\n' ∉ m.text ∧ a.body.isSome = true ∧
      (∀ l ∈ m.literals, ∀ w ∈ ["is", "equals", "and", "or"], ¬ Phrase.HasWord w l.text) ∧
      ∃ i a', Assemble.takeLine 1 (Conditional.whileDo.line m.text) a = .ok [i] a' ∧
        literalsIn i.text.toList = m.literals.map Literal.text := by
  intro m a
  have hne : trim m.text ≠ [] := by decide +kernel
  have hline : '\n' ∉ m.text := by decide +kernel
  have hfixed : ∀ l ∈ m.literals, Phrase.replaceAll l.text = l.text := by decide +kernel
  have hwords : ∀ l ∈ m.literals, ∀ w ∈ ["is", "equals", "and", "or"], ¬ Phrase.HasWord w l.text :=
    fun l hl => (Phrase.replaceAll_eq_self_iff l.text).mp (hfixed l hl)
  obtain ⟨i, a', hrun, -, hiff⟩ :=
    condition_literals_kept_iff .whileDo m hne hline 1 (show a.body.isSome = true from rfl)
  exact ⟨hne, hline, rfl, hwords, i, a', hrun, hiff.mpr hwords⟩

/-- A literal with a word of a phrase in it is changed. -/
theorem condition_literal_changed :
    let m : Mixed := .before ⟨"name is ".toList, by simp⟩ ⟨"\"this and that\"".toList, by decide⟩
      (.last ⟨[], by simp⟩)
    let a : Assembly := { session := .start .uno reservedWords, body := some .setup }
    ∃ a', Assemble.takeLine 1 (Conditional.ifDo.line m.text) a =
        .ok [.openIf "name == \"this && that\"".toList] a' ∧
      literalsIn (Instr.openIf "name == \"this && that\"".toList).text.toList ≠
        m.literals.map Literal.text := by
  intro m a
  have hheader : Phrase.replaceAll (trim m.text) = "name == \"this && that\"".toList := by
    decide +kernel
  have hline : '\n' ∉ m.text := by decide +kernel
  have hne : trim m.text ≠ [] := by decide +kernel
  obtain ⟨a', ha'⟩ :=
    Conditional.ifDo.takeLine_line hne hline 1 (show a.body.isSome = true from rfl)
  rw [hheader] at ha'
  exact ⟨a', ha', by decide +kernel⟩

end PlainSketch
