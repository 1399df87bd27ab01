import Mathlib.Data.List.Forall2
import Mathlib.Data.List.Nodup
import PlainSketch.Proofs.InstrText
import PlainSketch.Sketch.Basic
import PlainSketch.Text.Lines

/-!
# The text of a sketch

A sketch is written out in sections with an empty line between each two. The lines of a section
stand together in the file. The prototypes are the lines of the first section, and the functions
have a section each; a name is written in front of the first parenthesis, so no section begins like
the definition of a function with another name.
-/
namespace PlainSketch
open Text
open Instr (head?_append)

/-! ## Lines of a section -/

namespace Text

/-- Lines with line feeds between them. -/
theorem splitLines_intercalate {ls : List String} (hne : ls ≠ []) (h : ∀ l ∈ ls, '\n' ∉ l.toList) :
    splitLines ("\n".intercalate ls).toList = ls.map String.toList := by
  rw [String.toList_intercalate]
  refine splitLines_joinLines (by simpa using hne) fun l hl => ?_
  obtain ⟨s, hs, rfl⟩ := List.mem_map.mp hl
  exact h s hs

/-- The lines of a section stand together in a text made of sections. -/
theorem exists_splitLines_sections {xs : List String} {x : String} (hx : x ∈ xs) :
    ∃ above below, splitLines ("\n\n".intercalate xs).toList =
      above ++ splitLines x.toList ++ below := by
  induction xs with
  | nil => cases hx
  | cons y ys ih =>
    cases ys with
    | nil =>
      rw [List.mem_singleton.mp hx, String.intercalate_singleton]
      exact ⟨[], [], by simp⟩
    | cons z zs =>
      have hlist : ("\n\n".intercalate (y :: z :: zs)).toList =
          y.toList ++ '\n' :: ([] ++ '\n' :: ("\n\n".intercalate (z :: zs)).toList) := by
        rw [String.intercalate_cons_of_ne_nil (List.cons_ne_nil z zs)]
        simp
      rw [hlist, splitLines_append_newline, splitLines_append_newline]
      rcases List.mem_cons.mp hx with rfl | hx
      · exact ⟨[], _, rfl⟩
      · obtain ⟨above, below, hlines⟩ := ih hx
        rw [hlines]
        exact ⟨splitLines y.toList ++ (splitLines [] ++ above), below, by simp⟩

end Text

namespace Sketch

theorem exists_splitLines_render (s : Sketch String) {t : SymbolTable} {version unit x : String}
    (hx : x ∈ banner t.board version :: s.sections t unit) :
    ∃ above below, splitLines (s.render t version unit).toList =
      above ++ splitLines x.toList ++ below := by
  obtain ⟨above, below, hlines⟩ := exists_splitLines_sections hx
  have hlist : (s.render t version unit).toList =
      ("\n\n".intercalate (banner t.board version :: s.sections t unit)).toList ++ '\n' :: [] := by
    rw [render, String.toList_append]
    rfl
  rw [hlist, splitLines_append_newline, hlines]
  exact ⟨above, below ++ splitLines [], by simp⟩

/-! ## Prototypes and definitions -/

/-- The line that declares a function in front of all code. -/
def prototype (name : String) : String := "void " ++ name ++ "();"

/-- The text begins as the definition of a function with this name. -/
def defines (name text : String) : Bool :=
  ("void " ++ name ++ "() \x7b\n").toList.isPrefixOf text.toList

/-- Sections that declare and define the functions of these names: each has one prototype and one
definition, in the order of the names. The bodies of `setup` and `loop` are written as definitions
too, so a function with the name of one of them would have a second one. -/
structure DefinesOnce (names sections : List String) : Prop where
  prototypes : names ≠ [] → ∃ first rest, sections = first :: rest ∧
    splitLines first.toList = names.map (fun n => (prototype n).toList) ∧
    (splitLines first.toList).Nodup
  inOrder : ∃ definitions, definitions <:+: sections ∧
    List.Forall₂ (fun n text => defines n text = true) names definitions
  once : ∀ n ∈ names, n ≠ "setup" → n ≠ "loop" → sections.countP (defines n) = 1

section
variable {m n text : String}

theorem toList_prototype (n : String) :
    (prototype n).toList = "void ".toList ++ (n.toList ++ '(' :: ");".toList) := by
  rw [prototype, String.toList_append, String.toList_append, List.append_assoc]
  rfl

theorem defines_iff : defines n text = true ↔
    ∃ rest, text.toList = "void ".toList ++ (n.toList ++ '(' :: (") \x7b\n".toList ++ rest)) := by
  have hheader : ("void " ++ n ++ "() \x7b\n").toList =
      "void ".toList ++ (n.toList ++ '(' :: ") \x7b\n".toList) := by
    rw [String.toList_append, String.toList_append, List.append_assoc]
    rfl
  rw [defines, List.isPrefixOf_iff_prefix, hheader]
  constructor
  · rintro ⟨rest, hrest⟩
    exact ⟨rest, by rw [← hrest]; simp⟩
  · rintro ⟨rest, hrest⟩
    exact ⟨rest, by rw [hrest]; simp⟩

theorem exists_renderFunction (name : String) (body : List String) (unit : String) :
    ∃ rest, (renderFunction name body unit).toList =
      "void ".toList ++ (name.toList ++ '(' :: (") \x7b\n".toList ++ rest)) := by
  unfold renderFunction
  split
  · refine ⟨['\x7d'], ?_⟩
    show ("void " ++ name ++ "() \x7b\n\x7d").toList = _
    rw [String.toList_append, String.toList_append, List.append_assoc]
    rfl
  · refine ⟨(Indent.render body 1 unit).toList ++ "\n\x7d".toList, ?_⟩
    show ("void " ++ name ++ "() \x7b\n" ++ Indent.render body 1 unit ++ "\n\x7d").toList = _
    simp only [String.toList_append, List.append_assoc]
    rfl

/-- A text is cut in one way only at its first parenthesis. -/
theorem paren_inj {k l x y : List Char} (hk : '(' ∉ k) (hl : '(' ∉ l)
    (h : k ++ '(' :: x = l ++ '(' :: y) : k = l ∧ x = y := by
  have hsplit := congrArg (List.splitOn '(') h
  rw [List.splitOn_append_cons_self_of_not_mem hk, List.splitOn_append_cons_self_of_not_mem hl]
    at hsplit
  obtain ⟨rfl, -⟩ := List.cons.inj hsplit
  exact ⟨rfl, (List.cons.inj (List.append_cancel_left h)).2⟩

theorem defines_renderFunction (hn : '(' ∉ n.toList) (hm : '(' ∉ m.toList) (body : List String)
    (unit : String) : defines n (renderFunction m body unit) = (n == m) := by
  rw [Bool.eq_iff_iff, defines_iff, beq_iff_eq]
  obtain ⟨rest, hrest⟩ := exists_renderFunction m body unit
  rw [hrest]
  constructor
  · rintro ⟨rest', he⟩
    exact String.toList_inj.mp (paren_inj hm hn (List.append_cancel_left he)).1.symm
  · rintro rfl
    exact ⟨rest, rfl⟩

theorem exists_of_mem_paragraph {lines : List String} (h : text ∈ paragraph lines) :
    ∃ line ∈ lines, ∃ rest, text.toList = line.toList ++ rest := by
  cases lines with
  | nil => cases h
  | cons line lines =>
    refine ⟨line, List.mem_cons_self, ?_⟩
    rw [List.mem_singleton.mp h, String.toList_intercalate]
    cases lines with
    | nil => exact ⟨[], by simp⟩
    | cons l ls =>
      rw [List.map_cons, List.map_cons, List.intercalate_cons_cons, List.append_assoc]
      exact ⟨_, rfl⟩

theorem not_defines_prototypes {names : List String} (hn : '(' ∉ n.toList)
    (h : ∀ m ∈ names, '(' ∉ m.toList) (htext : text ∈ paragraph (names.map prototype)) :
    defines n text = false := by
  obtain ⟨line, hline, rest, hrest⟩ := exists_of_mem_paragraph htext
  obtain ⟨m, hm, rfl⟩ := List.mem_map.mp hline
  rw [Bool.eq_false_iff, ne_eq, defines_iff]
  rintro ⟨rest', he⟩
  rw [hrest, toList_prototype, List.append_assoc, List.append_assoc] at he
  obtain ⟨-, hclose⟩ := paren_inj (h m hm) hn (List.append_cancel_left he)
  cases hclose

/-- What does not begin with the letter `v` defines nothing. -/
theorem not_defines_of_head {lines : List String}
    (h : ∀ line ∈ lines, ∃ c, line.toList.head? = some c ∧ c ≠ 'v')
    (htext : text ∈ paragraph lines) : defines n text = false := by
  obtain ⟨line, hline, rest, hrest⟩ := exists_of_mem_paragraph htext
  obtain ⟨c, hhead, hc⟩ := h line hline
  obtain ⟨cs, hcs⟩ := List.head?_eq_some_iff.mp hhead
  rw [Bool.eq_false_iff, ne_eq, defines_iff]
  rintro ⟨rest', he⟩
  rw [hrest, hcs] at he
  exact hc (List.cons.inj he).1

end

theorem prototype_injective : Function.Injective fun n => (prototype n).toList := by
  intro n m h
  simp only [toList_prototype] at h
  have hname := List.append_cancel_right (List.append_cancel_left h)
  exact String.toList_inj.mp hname

section
variable {n text : String}

theorem not_defines_constants (t : SymbolTable)
    (h : text ∈ paragraph (t.pins.map fun p => s!"const int {p.name} = {p.target.text};")) :
    defines n text = false := by
  refine not_defines_of_head (fun line hline => ?_) h
  obtain ⟨p, -, rfl⟩ := List.mem_map.mp hline
  exact ⟨'c', head?_append (head?_append (head?_append (head?_append rfl))), by decide⟩

theorem not_defines_variables (t : SymbolTable)
    (h : text ∈ paragraph (t.vars.map fun v => s!"{v.type.cName} {v.name} = {v.type.zero};")) :
    defines n text = false := by
  refine not_defines_of_head (fun line hline => ?_) h
  obtain ⟨v, -, rfl⟩ := List.mem_map.mp hline
  obtain ⟨c, hhead, hc⟩ : ∃ c, v.type.cName.toList.head? = some c ∧ c ≠ 'v' := by
    cases v.type <;> exact ⟨_, rfl, by decide⟩
  exact ⟨c, head?_append (head?_append (head?_append (head?_append (head?_append hhead)))), hc⟩

end

/-- The bodies that are written as functions, those of `setup` and `loop` at the end. -/
def bodies (s : Sketch String) : List (String × List String) :=
  s.functions ++ [("setup", s.setup), ("loop", s.loop)]

theorem sections_eq (s : Sketch String) (t : SymbolTable) (unit : String) :
    s.sections t unit = paragraph ((s.functions.map Prod.fst).map prototype)
      ++ paragraph (t.pins.map fun p => s!"const int {p.name} = {p.target.text};")
      ++ paragraph (t.vars.map fun v => s!"{v.type.cName} {v.name} = {v.type.zero};")
      ++ s.bodies.map fun b => renderFunction b.1 b.2 unit := by
  rw [bodies, List.map_append, List.map_map, ← List.append_assoc]
  rfl

/-- A name is defined as often as it is the name of a function or of one of the two bodies. -/
theorem countP_defines_sections {s : Sketch String} {n : String} (hn : '(' ∉ n.toList)
    (h : ∀ m ∈ s.functions.map Prod.fst, '(' ∉ m.toList) (t : SymbolTable) (unit : String) :
    (s.sections t unit).countP (defines n) =
      (s.functions.map Prod.fst ++ ["setup", "loop"]).count n := by
  have nothing : ∀ {xs : List String}, (∀ x ∈ xs, defines n x = false) →
      xs.countP (defines n) = 0 :=
    fun hxs => List.countP_eq_zero.mpr fun x hx => by simp [hxs x hx]
  have hnames : s.bodies.map Prod.fst = s.functions.map Prod.fst ++ ["setup", "loop"] :=
    List.map_append
  have hparen : ∀ m ∈ s.bodies.map Prod.fst, '(' ∉ m.toList := by
    rw [hnames, List.forall_mem_append]
    exact ⟨h, by decide⟩
  have hbodies : (s.bodies.map fun b => renderFunction b.1 b.2 unit).countP (defines n) =
      (s.bodies.map Prod.fst).count n := by
    rw [List.count, List.countP_map, List.countP_map]
    refine List.countP_congr fun b hb => ?_
    rw [Function.comp_apply, Function.comp_apply,
      defines_renderFunction hn (hparen b.1 (List.mem_map_of_mem hb)), beq_iff_eq, beq_iff_eq,
      eq_comm]
  -- The paragraphs in front of the bodies define nothing.
  rw [sections_eq, List.countP_append, List.countP_append, List.countP_append,
    nothing fun x => not_defines_prototypes hn h, nothing fun x => not_defines_constants t,
    nothing fun x => not_defines_variables t, hbodies, hnames]
  simp

/-- The sections of a sketch declare and define each of its functions once, in their order. -/
theorem definesOnce_sections {s : Sketch String} (hnodup : (s.functions.map Prod.fst).Nodup)
    (h : ∀ n ∈ s.functions.map Prod.fst, '(' ∉ n.toList ∧ '\n' ∉ n.toList) (t : SymbolTable)
    (unit : String) : DefinesOnce (s.functions.map Prod.fst) (s.sections t unit) := by
  have hparen : ∀ n ∈ s.functions.map Prod.fst, '(' ∉ n.toList := fun n hn => (h n hn).1
  have hsections := sections_eq s t unit
  refine ⟨fun hne => ?_, ?_, fun n hn hsetup hloop => ?_⟩
  · have hlines : splitLines ("\n".intercalate ((s.functions.map Prod.fst).map prototype)).toList =
        (s.functions.map Prod.fst).map fun n => (prototype n).toList := by
      rw [splitLines_intercalate (by simpa using hne), List.map_map]
      · rfl
      · intro line hline
        obtain ⟨n, hn, rfl⟩ := List.mem_map.mp hline
        simp [toList_prototype, (h n hn).2]
    rw [paragraph, if_neg (by simpa using hne)] at hsections
    exact ⟨_, _, hsections, hlines, hlines ▸ hnodup.map prototype_injective⟩
  · -- the definitions stand between the paragraphs and the two bodies
    rw [bodies, List.map_append, ← List.append_assoc] at hsections
    refine ⟨s.functions.map fun f => renderFunction f.1 f.2 unit, ⟨_, _, hsections.symm⟩, ?_⟩
    rw [List.forall₂_map_left_iff, List.forall₂_map_right_iff, List.forall₂_same]
    intro f hf
    have hf' := hparen f.1 (List.mem_map_of_mem hf)
    rw [defines_renderFunction hf' hf', beq_self_eq_true]
  · rw [countP_defines_sections (hparen n hn) hparen, List.count_append,
      List.count_eq_one_of_mem hnodup hn, List.count_eq_zero_of_not_mem (by simp [hsetup, hloop])]

end Sketch
end PlainSketch
