import PlainSketch.Proofs.BraceNesting
import PlainSketch.Proofs.LaidLines
import PlainSketch.Proofs.RespacedText

/-!
# Blanks in a sketch

Two sketches that differ in blanks are compared line by line: `Line.squeezeLines` squeezes the lines
of a text one by one, so that line feeds count and a quote that is left open ends with its line.
What is written out from bodies whose lines agree in this sense agrees as a whole.
-/
namespace PlainSketch
open Text

/-! ## Lines of a text -/

namespace Text

theorem exists_lastLine (cs : List Char) :
    ∃ l, '\n' ∉ l ∧ (cs = l ∨ ∃ u, cs = u ++ '\n' :: l) := by
  induction cs with
  | nil => exact ⟨[], List.not_mem_nil, .inl rfl⟩
  | cons c cs ih =>
    obtain ⟨l, hl, rfl | ⟨u, rfl⟩⟩ := ih
    · by_cases hc : c = '\n'
      · exact ⟨cs, hl, .inr ⟨[], by rw [hc]; rfl⟩⟩
      · exact ⟨c :: cs, List.not_mem_cons_of_ne_of_not_mem (Ne.symm hc) hl, .inl rfl⟩
    · exact ⟨l, hl, .inr ⟨c :: u, rfl⟩⟩

end Text

namespace Line

/-- The lines of a text, each squeezed. -/
def squeezeLines (cs : List Char) : List (List Char) := (splitLines cs).map squeeze

variable {m cs cs' : List Char}

theorem squeezeLines_append_newline (cs ds : List Char) :
    squeezeLines (cs ++ '\n' :: ds) = squeezeLines cs ++ squeezeLines ds := by
  rw [squeezeLines, splitLines_append_newline, List.map_append, squeezeLines, squeezeLines]

theorem squeezeLines_of_not_mem (h : '\n' ∉ cs) : squeezeLines cs = [squeeze cs] := by
  rw [squeezeLines, splitLines_of_not_mem h, List.map_singleton]

/-- Of a text in front only the last line matters. -/
theorem squeezeLines_append_congr (h : ∀ l, '\n' ∉ l → l <:+ m →
    squeezeLines (l ++ cs') = squeezeLines (l ++ cs)) :
    squeezeLines (m ++ cs') = squeezeLines (m ++ cs) := by
  obtain ⟨l, hl, rfl | ⟨u, rfl⟩⟩ := exists_lastLine m
  · exact h m hl List.suffix_rfl
  · have hsuffix : l <:+ u ++ '\n' :: l := ⟨u ++ ['\n'], by simp⟩
    rw [List.append_assoc, List.cons_append, squeezeLines_append_newline, h l hl hsuffix,
      List.append_assoc, List.cons_append, squeezeLines_append_newline]

/-- Nothing but a text without blanks around it. -/
def IsTrimmed (cs : List Char) : Prop := trim cs = cs ∧ cs ≠ []

theorem IsTrimmed.head (h : IsTrimmed cs) : ∃ c ds, cs = c :: ds ∧ isBlank c = false := by
  obtain ⟨c, ds, rfl⟩ := List.exists_cons_of_ne_nil h.2
  exact ⟨c, ds, rfl, head?_trim (c :: ds) (by rw [h.1]; rfl)⟩

theorem IsTrimmed.endsTight (h : IsTrimmed cs) : EndsTight cs := by
  rw [← h.1]
  exact endsTight_trimRight _

theorem newline_ne {c : Char} (h : isBlank c = false) : '\n' ≠ c := by
  rintro rfl
  cases h

theorem head?_squeezeLines (h : IsTrimmed cs) :
    (squeezeLines cs).head?.bind List.head? = cs.head? := by
  obtain ⟨c, ds, rfl, hc⟩ := h.head
  obtain ⟨l, ls, hls⟩ := List.exists_cons_of_ne_nil (splitLines_ne_nil ds)
  have hsplit : splitLines (c :: ds) = (c :: l) :: ls :=
    splitLines_append_left (m := [c]) (by simpa using newline_ne hc) hls
  rw [squeezeLines, hsplit]
  exact head?_squeeze (by simpa using hc)

theorem getLast?_squeezeLines (h : IsTrimmed cs) :
    (squeezeLines cs).getLast?.bind List.getLast? = cs.getLast? := by
  obtain ⟨l, hl, hcs⟩ := exists_lastLine cs
  have hlast : l.getLast? = cs.getLast? := by
    rcases hcs with rfl | ⟨u, rfl⟩
    · rfl
    · cases l with
      | nil =>
        have hblank := h.endsTight '\n' (by simp)
        cases hblank
      | cons d ds => rw [List.getLast?_append_of_ne_nil _ (by simp), List.getLast?_cons_cons]
  have hlines : (squeezeLines cs).getLast? = some (squeeze l) := by
    rcases hcs with rfl | ⟨u, rfl⟩
    · rw [squeezeLines_of_not_mem hl]
      rfl
    · rw [squeezeLines_append_newline, squeezeLines_of_not_mem hl, List.getLast?_append]
      rfl
  have htight : EndsTight l := fun c hc => h.endsTight c (hlast ▸ hc)
  rw [hlines, Option.bind_some, getLast?_squeeze htight, hlast]

/-- A margin in front of two texts whose lines agree. -/
theorem squeezeLines_margin (hm : '"' ∉ m) (hcs : IsTrimmed cs) (hcs' : IsTrimmed cs')
    (h : squeezeLines cs' = squeezeLines cs) :
    squeezeLines (m ++ cs') = squeezeLines (m ++ cs) := by
  refine squeezeLines_append_congr fun l hl hsuffix => ?_
  have hquote : '"' ∉ l := fun hmem => hm (hsuffix.subset hmem)
  have hline : ∀ {ds : List Char}, IsTrimmed ds → squeezeLines (l ++ ds) =
      (squeezeLines ds).modifyHead (squeeze l ++ ·) := by
    intro ds hds
    obtain ⟨c, es, rfl, hc⟩ := hds.head
    obtain ⟨k, ks, hks⟩ := List.exists_cons_of_ne_nil (splitLines_ne_nil es)
    have hsplit : splitLines (c :: es) = (c :: k) :: ks :=
      splitLines_append_left (m := [c]) (by simpa using newline_ne hc) hks
    rw [squeezeLines, splitLines_append_left hl hsplit, squeezeLines, hsplit, List.map_cons,
      squeeze_append_of_head (.inl (closed_of_not_mem hquote)) (by simpa using hc)]
    rfl
  rw [hline hcs', h, hline hcs]

theorem squeezeLines_joinLines {ls : List (List Char)} (h : ls ≠ []) :
    squeezeLines (joinLines ls) = ls.flatMap squeezeLines := by
  induction ls with
  | nil => exact absurd rfl h
  | cons l ls ih =>
    cases ls with
    | nil => simp [joinLines_singleton]
    | cons k ks =>
      rw [joinLines_cons_cons, squeezeLines_append_newline, ih (by simp), ← List.flatMap_cons]

end Line

/-! ## Indentation -/

open Line (squeezeLines IsTrimmed)

theorem Indent.indentFrom_congr {unit : List Char} (hunit : '"' ∉ unit)
    {ls ls' : List (List Char)} (h : ls'.map squeezeLines = ls.map squeezeLines)
    (hls : ∀ l ∈ ls, IsTrimmed l) (hls' : ∀ l ∈ ls', IsTrimmed l) (depth : Int) :
    (indentFrom unit depth ls').map squeezeLines = (indentFrom unit depth ls).map squeezeLines := by
  induction ls generalizing ls' depth with
  | nil => rw [List.map_nil, List.map_eq_nil_iff] at h; rw [h]
  | cons l ls ih =>
    obtain ⟨l', ls'', rfl, hl, hrest⟩ := List.map_eq_cons_iff.mp h
    obtain ⟨htrim, hall⟩ := List.forall_mem_cons.mp hls
    obtain ⟨htrim', hall'⟩ := List.forall_mem_cons.mp hls'
    obtain ⟨c, cs, rfl⟩ := List.exists_cons_of_ne_nil htrim.2
    obtain ⟨c', cs', rfl⟩ := List.exists_cons_of_ne_nil htrim'.2
    have hhead : (c' :: cs').head? = (c :: cs).head? := by
      rw [← Line.head?_squeezeLines htrim', hl, Line.head?_squeezeLines htrim]
    have hlast : (c' :: cs').getLast? = (c :: cs).getLast? := by
      rw [← Line.getLast?_squeezeLines htrim', hl, Line.getLast?_squeezeLines htrim]
    have hdepth : depthOf (c' :: cs') depth = depthOf (c :: cs) depth := by
      rw [depthOf, depthOf, hhead]
    have hmargin : ∀ d, '"' ∉ margin unit d := by
      intro d hmem
      obtain ⟨u, hu, hmem⟩ := List.mem_flatten.mp hmem
      rw [List.eq_of_mem_replicate hu] at hmem
      exact hunit hmem
    simp only [indentFrom, htrim.1, htrim'.1, hdepth, depthAfter, hlast, List.map_cons,
      ih hrest hall hall', Line.squeezeLines_margin (hmargin _) htrim htrim' hl]

/-! ## Lines of a body -/

namespace Line

/-- Two texts of one line that differ in blanks only and do not begin with one. -/
structure Alike (v v' : List Char) : Prop where
  squeezed : squeeze v' = squeeze v
  head : ∀ c, v.head? = some c → isBlank c = false
  head' : ∀ c, v'.head? = some c → isBlank c = false
  oneLine : '\n' ∉ v
  oneLine' : '\n' ∉ v'

theorem alike_trim {v v' : List Char} (h : collapse v' = collapse v) (hn : '\n' ∉ v)
    (hn' : '\n' ∉ v') : Alike (trim v) (trim v') where
  squeezed := by rw [← collapse_eq, h, collapse_eq]
  head _ := head?_trim v
  head' _ := head?_trim v'
  oneLine hmem := hn (mem_of_mem_trim hmem)
  oneLine' hmem := hn' (mem_of_mem_trim hmem)

theorem Alike.squeezeLines_between {v v' pre post : List Char} (h : Alike v v') (hpre : '"' ∉ pre)
    (hquote : '"' ∉ post) (hline : '\n' ∉ post)
    (hhead : ∀ c, post.head? = some c → isBlank c = false) :
    squeezeLines (pre ++ (v' ++ post)) = squeezeLines (pre ++ (v ++ post)) := by
  refine squeezeLines_append_congr fun l hl hsuffix => ?_
  have hclosed : closed l = true := closed_of_not_mem fun hmem => hpre (hsuffix.subset hmem)
  have parts : ∀ u : List Char, (∀ c, u.head? = some c → isBlank c = false) → '\n' ∉ u →
      squeezeLines (l ++ (u ++ post)) = [squeeze l ++ (squeeze u ++ squeeze post)] := by
    intro u hu hn
    have hfirst : ∀ c, (u ++ post).head? = some c → isBlank c = false := by
      intro c hc
      rw [List.head?_append, Option.or_eq_some_iff] at hc
      rcases hc with hc | ⟨-, hc⟩
      · exact hu c hc
      · exact hhead c hc
    rw [squeezeLines_of_not_mem (by simp [hl, hn, hline]),
      squeeze_append_of_head (.inl hclosed) hfirst, squeeze_append_of_head (.inr hquote) hhead]
  rw [parts v h.head h.oneLine, parts v' h.head' h.oneLine', h.squeezed]

end Line

namespace Instr

/-- The lines of the text of an instruction, squeezed; there is one line. -/
def bare (i : Instr) : List (List Char) := squeezeLines i.text.toList

section
variable {v v' : List Char} (h : Line.Alike v v')
include h

/-- Lines that have the two texts between the same other ones. -/
theorem bare_eq {i i' : Instr} (pre post : String)
    (hi : i.text = pre ++ String.ofList v ++ post)
    (hi' : i'.text = pre ++ String.ofList v' ++ post) (hpre : '"' ∉ pre.toList)
    (hquote : '"' ∉ post.toList) (hline : '\n' ∉ post.toList)
    (hhead : ∀ c, post.toList.head? = some c → isBlank c = false) : i'.bare = i.bare := by
  simp only [bare, hi, hi', String.toList_append, String.toList_ofList, List.append_assoc]
  exact h.squeezeLines_between hpre hquote hline hhead

theorem bare_analogWrite {pin : PinTarget} (hpin : '"' ∉ pin.text.toList) :
    (analogWrite pin v').bare = (analogWrite pin v).bare :=
  bare_eq h ("analogWrite(" ++ pin.text ++ ", ") ");" rfl rfl (by simp [hpin]) (by simp) (by simp)
    (by simp; decide)

theorem bare_println : (println v').bare = (println v).bare :=
  bare_eq h "Serial.println(" ");" rfl rfl (by simp) (by simp) (by simp) (by simp; decide)

theorem bare_randomSeed : (randomSeed v').bare = (randomSeed v).bare :=
  bare_eq h "randomSeed(" ");" rfl rfl (by simp) (by simp) (by simp) (by simp; decide)

theorem bare_assign {name : String} (hname : '"' ∉ name.toList) :
    (assign name v').bare = (assign name v).bare :=
  bare_eq h (name ++ " = ") ";" rfl rfl (by simp [hname]) (by simp) (by simp) (by simp; decide)

theorem bare_increase {name : String} (hname : '"' ∉ name.toList) :
    (increase name v').bare = (increase name v).bare :=
  bare_eq h (name ++ " += (") ");" rfl rfl (by simp [hname]) (by simp) (by simp) (by simp; decide)

theorem bare_tone {pin : PinTarget} (hpin : '"' ∉ pin.text.toList) :
    (tone pin v').bare = (tone pin v).bare :=
  bare_eq h ("tone(" ++ pin.text ++ ", ") ");" rfl rfl (by simp [hpin]) (by simp) (by simp)
    (by simp; decide)

theorem bare_openIf : (openIf v').bare = (openIf v).bare :=
  bare_eq h "if (" ") \x7b" rfl rfl (by simp) (by simp) (by simp) (by simp; decide)

theorem bare_openWhile : (openWhile v').bare = (openWhile v).bare :=
  bare_eq h "while (" ") \x7b" rfl rfl (by simp) (by simp) (by simp) (by simp; decide)

end
end Instr

/-! ## Whole sketches -/

/-- The lines of a text of the sketch, squeezed. -/
def bareText (s : String) : List (List Char) := squeezeLines s.toList

theorem bareText_append_newline (s u : String) :
    bareText (s ++ "\n" ++ u) = bareText s ++ bareText u := by
  have hlist : (s ++ "\n" ++ u).toList = s.toList ++ '\n' :: u.toList := by simp
  rw [bareText, hlist, Line.squeezeLines_append_newline, bareText, bareText]

theorem bareText_intercalate {xs xs' : List String} (h : xs'.map bareText = xs.map bareText) :
    bareText ("\n\n".intercalate xs') = bareText ("\n\n".intercalate xs) := by
  have hcons : ∀ (x : String) {ys : List String}, ys ≠ [] →
      bareText ("\n\n".intercalate (x :: ys)) =
        bareText x ++ (bareText "" ++ bareText ("\n\n".intercalate ys)) := by
    intro x ys hys
    have htwo : "\n\n" = "\n" ++ "\n" := rfl
    rw [String.intercalate_cons_of_ne_nil hys, ← bareText_append_newline,
      ← bareText_append_newline, String.empty_append, htwo]
    simp only [String.append_assoc]
  induction xs generalizing xs' with
  | nil => rw [List.map_eq_nil_iff.mp h]
  | cons x xs ih =>
    obtain ⟨x', ys, rfl, hx, hys⟩ := List.map_eq_cons_iff.mp h
    cases xs with
    | nil =>
      rw [List.map_eq_nil_iff.mp hys, String.intercalate_singleton, String.intercalate_singleton,
        hx]
    | cons y zs =>
      have hne : ys ≠ [] := by
        rintro rfl
        cases hys
      rw [hcons x' hne, hcons x (List.cons_ne_nil y zs), hx, ih hys]

namespace Sketch

/-- No line of a body begins with a blank. -/
def IsTidy (s : Sketch Instr) : Prop :=
  (∀ i ∈ s.setup, i.IsTidy) ∧ (∀ i ∈ s.loop, i.IsTidy) ∧ ∀ f ∈ s.functions, ∀ i ∈ f.2, i.IsTidy

theorem bareText_indent {lines : List String} (h : lines ≠ []) (level : Int) (unit : String) :
    bareText (Indent.render lines level unit) =
      (Indent.indentFrom unit.toList level (lines.map String.toList)).flatMap squeezeLines := by
  rw [bareText, Indent.render, String.toList_ofList, Line.squeezeLines_joinLines]
  cases lines with
  | nil => exact absurd rfl h
  | cons l ls =>
    rw [List.map_cons, Indent.indentFrom]
    split <;> simp

theorem bareText_body {lines : List String} (h : lines ≠ []) (name unit : String) :
    bareText (renderFunction name lines unit) = bareText ("void " ++ name ++ "() \x7b") ++
      bareText (Indent.render lines 1 unit) ++ bareText "\x7d" := by
  have hopen : "() \x7b\n" = "() \x7b" ++ "\n" := rfl
  have hclose : "\n\x7d" = "\n" ++ "\x7d" := rfl
  have htext : renderFunction name lines unit = "void " ++ name ++ "() \x7b" ++ "\n" ++
      Indent.render lines 1 unit ++ "\n" ++ "\x7d" := by
    rw [renderFunction, if_neg (by simpa using h)]
    show "void " ++ name ++ "() \x7b\n" ++ Indent.render lines 1 unit ++ "\n\x7d" = _
    rw [hopen, hclose]
    simp only [String.append_assoc]
  rw [htext, bareText_append_newline, bareText_append_newline]

variable {unit : String} (hunit : '"' ∉ unit.toList)
include hunit

theorem bareText_renderFunction (name : String) {is is' : List Instr}
    (h : is'.map Instr.bare = is.map Instr.bare) (ht : ∀ i ∈ is, i.IsTidy)
    (ht' : ∀ i ∈ is', i.IsTidy) : bareText (renderFunction name (is'.map Instr.text) unit) =
      bareText (renderFunction name (is.map Instr.text) unit) := by
  by_cases hne : is = []
  · rw [hne, List.map_nil, List.map_eq_nil_iff] at h
    rw [hne, h]
  have hne' : is' ≠ [] := by
    rintro rfl
    exact hne (List.map_eq_nil_iff.mp h.symm)
  have trimmed : ∀ {js : List Instr}, (∀ j ∈ js, j.IsTidy) →
      ∀ l ∈ (js.map Instr.text).map String.toList, IsTrimmed l := by
    intro js hjs l hl
    rw [List.map_map] at hl
    obtain ⟨j, hj, rfl⟩ := List.mem_map.mp hl
    exact Instr.trim_text (hjs j hj)
  have hlines : ((is'.map Instr.text).map String.toList).map squeezeLines =
      ((is.map Instr.text).map String.toList).map squeezeLines := by
    rw [List.map_map, List.map_map, List.map_map, List.map_map]
    exact h
  have hindent := Indent.indentFrom_congr hunit hlines (trimmed ht) (trimmed ht') 1
  rw [bareText_body (by simpa using hne'), bareText_body (by simpa using hne),
    bareText_indent (by simpa using hne'), bareText_indent (by simpa using hne), List.flatMap_def,
    hindent, ← List.flatMap_def]

theorem bareText_functions {fs fs' : List (String × List Instr)}
    (h : (fs'.map fun f => (f.1, f.2.map Instr.bare)) = fs.map fun f => (f.1, f.2.map Instr.bare))
    (ht : ∀ f ∈ fs, ∀ i ∈ f.2, i.IsTidy) (ht' : ∀ f ∈ fs', ∀ i ∈ f.2, i.IsTidy) :
    fs'.map Prod.fst = fs.map Prod.fst ∧
      (fs'.map fun f => bareText (renderFunction f.1 (f.2.map Instr.text) unit)) =
        fs.map fun f => bareText (renderFunction f.1 (f.2.map Instr.text) unit) := by
  induction fs generalizing fs' with
  | nil =>
    rw [List.map_eq_nil_iff.mp h]
    exact ⟨rfl, rfl⟩
  | cons f fs ih =>
    obtain ⟨f', gs, rfl, hf, hgs⟩ := List.map_eq_cons_iff.mp h
    obtain ⟨htf, htfs⟩ := List.forall_mem_cons.mp ht
    obtain ⟨htf', htgs⟩ := List.forall_mem_cons.mp ht'
    obtain ⟨hname, hlines⟩ := Prod.mk.inj hf
    obtain ⟨hnames, htexts⟩ := ih hgs htfs htgs
    rw [List.map_cons, List.map_cons, List.map_cons, List.map_cons, hnames, htexts, hname,
      bareText_renderFunction hunit f.1 hlines htf htf']
    exact ⟨rfl, rfl⟩

/-- Bodies whose lines agree but for blanks make sketches whose lines do. -/
theorem bareText_render {s s' : Sketch Instr} (h : s'.map Instr.bare = s.map Instr.bare)
    (hs : s.IsTidy) (hs' : s'.IsTidy) (t : SymbolTable) (version : String) :
    bareText ((s'.map Instr.text).render t version unit) =
      bareText ((s.map Instr.text).render t version unit) := by
  obtain ⟨hsetup, hloop, hfunctions⟩ := Sketch.mk.inj h
  obtain ⟨hnames, htexts⟩ := bareText_functions hunit hfunctions hs.2.2 hs'.2.2
  have hprototypes : (s'.functions.map fun f => s!"void {f.1}();") =
      s.functions.map fun f => s!"void {f.1}();" := by
    have hmap := congrArg (List.map fun n => s!"void {n}();") hnames
    rwa [List.map_map, List.map_map] at hmap
  have hsections : ((s'.map Instr.text).sections t unit).map bareText =
      ((s.map Instr.text).sections t unit).map bareText := by
    simp only [sections, map, List.map_append, List.map_cons, List.map_nil, List.map_map,
      Function.comp_def, hprototypes, htexts,
      bareText_renderFunction hunit "setup" hsetup hs.1 hs'.1,
      bareText_renderFunction hunit "loop" hloop hs.2.1 hs'.2.1]
  have hend : ∀ xs : List String, bareText ("\n\n".intercalate xs ++ "\n") =
      bareText ("\n\n".intercalate xs) ++ bareText "" := by
    intro xs
    rw [← bareText_append_newline, String.append_empty]
  have hall : (banner t.board version :: (s'.map Instr.text).sections t unit).map bareText =
      (banner t.board version :: (s.map Instr.text).sections t unit).map bareText := by
    rw [List.map_cons, List.map_cons, hsections]
  rw [render, render, hend, hend, bareText_intercalate hall]

end Sketch
end PlainSketch
