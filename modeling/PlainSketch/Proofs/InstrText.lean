import PlainSketch.Proofs.ShapeLaws
import PlainSketch.Proofs.WellNested
import PlainSketch.Sketch.Instr
import PlainSketch.Statement.Basic

/-!
# What the lines of a sketch look like

A line of a body opens a block if it ends in an opening brace, closes one if it is a closing brace,
and starts the second branch if it is the closing brace, `else` and the opening one. `Instr.mark`
reads this off the text. Every line that a statement becomes is plain in this sense, since it ends
in a semicolon and begins with a fixed word or with a name of the script; that names begin with
a letter is read off the shapes of the statements.
-/
namespace PlainSketch
open Text

namespace Instr

/-- The header of an `if` of the script, not of a timer. -/
def isIf : Instr → Bool
  | openIf _ => true
  | _ => false

/-- What a line does to the nesting of its body, by its text. -/
def mark (i : Instr) : Mark :=
  if i.text = "\x7d" then .closes
  else if i.text = "\x7d else \x7b" then .alternates
  else if i.text.toList.head? = some '\x7d' then .foreign
  else if i.text.toList.getLast? = some '\x7b' then .opens i.isIf
  else .plain

/-- The header of a control block. -/
def isHeader : Instr → Bool
  | openIf _ | openWhile _ | openForever | openRepeat .. | openEvery .. | openAfter .. => true
  | _ => false

/-- Neither a header nor one of the two lines with a closing brace. -/
def isSimple (i : Instr) : Bool := !i.isHeader && i != elseBranch && i != close

/-- The name of the script that the text begins with. -/
def lead? : Instr → Option String
  | readAnalog name _ | readDigital name _ | readMillis name | readMicros name | assign name _
  | increase name _ | rescale name .. | random name .. | call name => some name
  | _ => none

theorem getLast?_append {s u : String} {c : Char} (h : u.toList.getLast? = some c) :
    (s ++ u).toList.getLast? = some c := by
  rw [String.toList_append, List.getLast?_append, h]
  rfl

theorem head?_append {s u : String} {c : Char} (h : s.toList.head? = some c) :
    (s ++ u).toList.head? = some c := by
  rw [String.toList_append, List.head?_append, h]
  rfl

/-- The line does not begin with anything of the script but a name. -/
def IsTidy (i : Instr) : Prop := ∀ n, i.lead? = some n → Shape.IsName n

theorem IsTidy.of_none {i : Instr} (h : i.lead? = none) : i.IsTidy := by
  intro n hn
  rw [h] at hn
  cases hn

theorem cases_kind (i : Instr) :
    i.isSimple = true ∨ i.isHeader = true ∨ i = elseBranch ∨ i = close := by
  cases i <;> simp [isSimple, isHeader]

theorem IsTidy.of_isHeader {i : Instr} (h : i.isHeader = true) : i.IsTidy := by
  refine .of_none ?_
  cases i with
  | openIf | openWhile | openForever | openRepeat | openEvery | openAfter => rfl
  | _ => cases h

/-- A line begins with a letter or an underscore unless it is one of the two with a closing
brace. -/
theorem head?_text {i : Instr} (hn : i.IsTidy) (h : i.isSimple = true ∨ i.isHeader = true) :
    ∃ c, i.text.toList.head? = some c ∧ isNameStart c = true := by
  cases i with
  | elseBranch | close => simp [isSimple, isHeader] at h
  | readAnalog name | readDigital name | readMillis name | readMicros name | assign name
  | increase name | rescale name | random name | call name =>
    obtain ⟨c, cs, hcs, hc⟩ := hn name rfl
    have hhead : name.toList.head? = some c := by rw [hcs]; rfl
    unfold text
    simp only [String.append_assoc]
    exact ⟨c, head?_append hhead, hc⟩
  | everyAdvance id =>
    have hhead : (lastName id).toList.head? = some '_' := head?_append (head?_append rfl)
    unfold text
    simp only [String.append_assoc]
    exact ⟨'_', head?_append hhead, by decide⟩
  | afterFinish id =>
    have hhead : (doneName id).toList.head? = some '_' := head?_append (head?_append rfl)
    exact ⟨'_', head?_append hhead, by decide⟩
  | openForever => exact ⟨'w', rfl, by decide⟩
  | digitalWrite pin high =>
    unfold text
    cases high with
    | true | false =>
      simp only [String.append_assoc]
      exact ⟨'d', head?_append rfl, by decide⟩
  | _ =>
    unfold text
    simp only [String.append_assoc]
    exact ⟨_, head?_append rfl, by decide⟩

theorem getLast?_text {i : Instr} (h : i.isSimple = true) : i.text.toList.getLast? = some ';' := by
  cases i with
  | openIf | openWhile | openForever | openRepeat | openEvery | openAfter | elseBranch | close =>
    simp [isSimple, isHeader] at h
  | digitalWrite pin high => cases high <;> exact getLast?_append rfl
  | _ => exact getLast?_append rfl

theorem getLast?_text_header {i : Instr} (h : i.isHeader = true) :
    i.text.toList.getLast? = some '\x7b' := by
  cases i with
  | openForever => rfl
  | openIf | openWhile | openRepeat | openEvery | openAfter => exact getLast?_append rfl
  | _ => cases h

/-- The text of a line is not empty and has no blanks around it. -/
theorem trim_text {i : Instr} (hn : i.IsTidy) :
    trim i.text.toList = i.text.toList ∧ i.text.toList ≠ [] := by
  have hends : ∃ c d, i.text.toList.head? = some c ∧ isBlank c = false ∧
      i.text.toList.getLast? = some d ∧ isBlank d = false := by
    rcases i.cases_kind with h | h | rfl | rfl
    · obtain ⟨c, hc, hstart⟩ := head?_text hn (.inl h)
      exact ⟨c, ';', hc, isBlank_of_isNameStart hstart, getLast?_text h, by decide⟩
    · obtain ⟨c, hc, hstart⟩ := head?_text hn (.inr h)
      exact ⟨c, '\x7b', hc, isBlank_of_isNameStart hstart, getLast?_text_header h, by decide⟩
    · exact ⟨'\x7d', '\x7b', rfl, by decide, rfl, by decide⟩
    · exact ⟨'\x7d', '\x7d', rfl, by decide, rfl, by decide⟩
  obtain ⟨c, d, hc, hcb, hd, hdb⟩ := hends
  refine ⟨trim_eq_self ?_ ?_, ?_⟩
  · intro x hx
    rw [hc] at hx
    cases hx
    exact hcb
  · intro x hx
    rw [hd] at hx
    cases hx
    exact hdb
  · intro hnil
    rw [hnil] at hc
    cases hc

/-! ## Marks -/

theorem mark_close : close.mark = .closes := if_pos rfl

theorem mark_elseBranch : elseBranch.mark = .alternates := by decide

/-- A line without a closing brace in front opens a block or is plain. -/
theorem mark_eq_of_head? {i : Instr} {c : Char} (hc : i.text.toList.head? = some c)
    (hne : c ≠ '\x7d') :
    i.mark = if i.text.toList.getLast? = some '\x7b' then .opens i.isIf else .plain := by
  have hhead : i.text.toList.head? ≠ some '\x7d' := by
    rw [hc]
    exact fun h => hne (Option.some.inj h)
  have hclose : i.text ≠ "\x7d" := by
    intro h
    rw [h] at hhead
    exact hhead rfl
  have helse : i.text ≠ "\x7d else \x7b" := by
    intro h
    rw [h] at hhead
    exact hhead rfl
  rw [mark, if_neg hclose, if_neg helse, if_neg hhead]

theorem ne_brace_of_isNameStart {c : Char} (h : isNameStart c = true) : c ≠ '\x7d' := by
  rintro rfl
  revert h
  decide

theorem mark_simple {i : Instr} (hn : i.IsTidy) (h : i.isSimple = true) : i.mark = .plain := by
  obtain ⟨c, hc, hstart⟩ := head?_text hn (.inl h)
  rw [mark_eq_of_head? hc (ne_brace_of_isNameStart hstart), getLast?_text h]
  rfl

theorem mark_header {i : Instr} (h : i.isHeader = true) : i.mark = .opens i.isIf := by
  obtain ⟨c, hc, hstart⟩ := head?_text (.of_isHeader h) (.inr h)
  rw [mark_eq_of_head? hc (ne_brace_of_isNameStart hstart), getLast?_text_header h]
  rfl

end Instr

/-! ## Names of statements -/

namespace Statement
open Shape

/-- The name that the statement writes to or calls. -/
def target? : Statement → Option String
  | readAnalog _ name | readTime name | readMicros name | readDigital _ name | assign name _
  | change name _ | map _ _ _ name | limit name _ | random _ name | call name => some name
  | _ => none

/-- The target, if there is one, is a name. -/
def HasName (s : Statement) : Prop := ∀ n, s.target? = some n → IsName n

theorem HasName.of_name {s : Statement} {n : String} (hn : IsName n) (h : s.target? = some n) :
    s.HasName := by
  intro m hm
  rw [h] at hm
  cases hm
  exact hn

theorem HasName.of_none {s : Statement} (h : s.target? = none) : s.HasName := by
  intro m hm
  rw [h] at hm
  cases hm

/-- Shapes that read no target. -/
theorem command_yields {w : String} {f : List Char → Statement} (hf : ∀ cs, (f cs).target? = none) :
    Yields HasName (do return f (← command w)) :=
  yields_bind fun cs => yields_pure (.of_none (hf cs))

theorem shapes_yield : ∀ s ∈ shapes, Yields HasName s := by
  simp only [shapes, List.forall_mem_cons]
  refine ⟨command_yields fun _ => rfl, command_yields fun _ => rfl, command_yields fun _ => rfl,
    ?pwmWrite, ?readAnalog, ?readTime, ?readMicros, ?readDigital, ?wait, ?serialBegin, ?printText,
    ?printTextValue, ?printValue, ?assign, ?change, ?map, ?limit, ?random, ?randomSeed, ?tone,
    ?noTone, ?call, by simp⟩
  case readAnalog =>
    refine yields_bind fun _ => yields_bind fun _ => ?_
    exact (textBefore_yields intoName_yields).bind fun _ hn => yields_pure (.of_name hn rfl)
  case readDigital =>
    refine yields_bind fun _ => ?_
    exact (textBefore_yields intoName_yields).bind fun _ hn => yields_pure (.of_name hn rfl)
  case readTime | readMicros =>
    refine yields_bind fun _ => yields_bind fun _ => ?_
    exact intoName_yields.bind fun _ hn => yields_pure (.of_name hn rfl)
  case assign | change =>
    refine yields_bind fun _ => yields_bind fun _ => name_yields.bind fun _ hn => ?_
    exact yields_bind fun _ => yields_bind fun _ => yields_pure (.of_name hn rfl)
  case limit =>
    refine yields_bind fun _ => yields_bind fun _ => name_yields.bind fun _ hn => ?_
    refine yields_bind fun _ => yields_bind fun _ => yields_bind fun _ => yields_bind fun _ => ?_
    exact yields_pure (.of_name hn rfl)
  case map =>
    refine yields_bind fun _ => yields_bind fun _ => yields_bind fun _ => yields_bind fun _ => ?_
    refine yields_bind fun _ => yields_bind fun _ => yields_bind fun _ => yields_bind fun _ => ?_
    exact yields_bind fun _ => intoName_yields.bind fun _ hn => yields_pure (.of_name hn rfl)
  case random =>
    refine yields_bind fun _ => yields_bind fun _ => yields_bind fun _ => yields_bind fun _ => ?_
    refine yields_bind fun _ => yields_bind fun _ => ?_
    exact intoName_yields.bind fun _ hn => yields_pure (.of_name hn rfl)
  case call =>
    exact yields_bind fun _ => lastName_yields.bind fun _ hn => yields_pure (.of_name hn rfl)
  -- the others have no target
  all_goals
    repeat refine yields_bind fun _ => ?_
    exact yields_pure (.of_none rfl)

/-- A line that reads as a statement has a name wherever the statement has a target. -/
theorem ofCode?_hasName {code : List Char} {s : Statement} (h : ofCode? code = some s) :
    s.HasName := firstOf?_yields shapes_yield h

end Statement

namespace Instr

/-- Simple lines, and none begins with another name than the target. -/
def AreSimple (target : Option String) (is : List Instr) : Prop :=
  ∀ i ∈ is, i.isSimple = true ∧ ∀ n, i.lead? = some n → target = some n

theorem AreSimple.nil {target : Option String} : AreSimple target [] := by
  intro i hi
  cases hi

theorem AreSimple.cons {target : Option String} {i : Instr} {is : List Instr}
    (h : AreSimple target is) (hi : i.isSimple = true)
    (hlead : ∀ n, i.lead? = some n → target = some n) : AreSimple target (i :: is) := by
  intro j hj
  rcases List.mem_cons.mp hj with rfl | hj
  · exact ⟨hi, hlead⟩
  · exact h j hj

/-- A line that begins with no name. -/
theorem AreSimple.fixed {target : Option String} {i : Instr} (hi : i.isSimple = true)
    (hlead : i.lead? = none) : AreSimple target [i] := by
  refine AreSimple.nil.cons hi ?_
  intro n hn
  rw [hlead] at hn
  cases hn

/-- A line that begins with the target. -/
theorem AreSimple.led {n : String} {i : Instr} (hi : i.isSimple = true) (hlead : i.lead? = some n) :
    AreSimple (some n) [i] := by
  refine AreSimple.nil.cons hi ?_
  intro m hm
  rw [hlead] at hm
  exact hm

/-- What a statement becomes begins with no other name than the target, so all of it is tidy. -/
theorem AreSimple.tidy {s : Statement} {is : List Instr} (h : AreSimple s.target? is)
    (hs : s.HasName) : ∀ i ∈ is, i.IsTidy := by
  intro i hi n hn
  exact hs n ((h i hi).2 n hn)

theorem AreSimple.wellNested {s : Statement} {is : List Instr} (h : AreSimple s.target? is)
    (hs : s.HasName) : WellNested mark is :=
  .of_plain fun i hi => mark_simple (h.tidy hs i hi) (h i hi).1

end Instr
end PlainSketch
