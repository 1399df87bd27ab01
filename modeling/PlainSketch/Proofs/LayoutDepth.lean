import PlainSketch.Proofs.BlockOrder
import PlainSketch.Proofs.LaidLines

/-!
# Indentation and nesting

Laying out a script counts: a line that ends in a colon goes one level in, `end` one level out, and
below zero it does not go. The second pass keeps a stack. In a script without errors in which only
openers and `otherwise` end in a colon, the count is the height of the stack before every line, and
each line of code is indented by it.
-/
namespace PlainSketch
open Text Line Declaration

namespace BlockLine

/-- The line opens a block. -/
def isOpener : BlockLine → Bool
  | setup | loop | function _ | control _ => true
  | _ => false

/-- How many levels a line stands outside the block that it is in. -/
def outdent : BlockLine → Nat
  | otherwise | endBlock => 1
  | _ => 0

end BlockLine

/-! ## Lines that end in a colon -/

section
variable {code : List Char}

theorem getLast?_of_isWord {w : String} (h : isWord w code = true) {d : Char}
    (hd : w.toList.getLast? = some d) (hlow : d.toNat < 97) : code.getLast? = some d := by
  rw [← beq_iff_eq.mp h, List.getLast?_map] at hd
  obtain ⟨c, hc, hlower⟩ := Option.map_eq_some_iff.mp hd
  rw [hc, eq_of_toLower_eq hlower hlow]

theorem getLast?_of_isOtherwise (h : isOtherwise code = true) : code.getLast? = some ':' := by
  rcases (Bool.or_eq_true _ _).mp h with h | h
  · exact getLast?_of_isWord h rfl (by decide)
  · exact getLast?_of_isWord h rfl (by decide)

theorem getLast?_of_endsWithWord (h : endsWithWord "do:" code = true) :
    code.getLast? = some ':' := by
  obtain ⟨u, hu⟩ := List.isSuffixOf_iff_suffix.mp h
  have hlast : (code.map Char.toLower).getLast? = some ':' := by
    rw [← hu, List.getLast?_append]
    rfl
  rw [List.getLast?_map] at hlast
  obtain ⟨c, hc, hlower⟩ := Option.map_eq_some_iff.mp hlast
  rw [hc, eq_of_toLower_eq hlower (by decide)]

theorem getLast?_of_function (htight : EndsTight code) {n : String}
    (h : functionShape.first? code = some n) : code.getLast? = some ':' := by
  obtain ⟨r, hr⟩ := Shape.first?_eq_some.mp h
  obtain ⟨_, r₁, hkey, hr⟩ := Shape.bind_eq_some.mp hr
  obtain ⟨_, r₂, hgap, hr⟩ := Shape.bind_eq_some.mp hr
  obtain ⟨m, r₃, hname, hr⟩ := Shape.bind_eq_some.mp hr
  obtain ⟨_, r₄, hopt, hr⟩ := Shape.bind_eq_some.mp hr
  obtain ⟨_, r₅, hcolon, hr⟩ := Shape.bind_eq_some.mp hr
  obtain ⟨_, r₆, hend, -⟩ := Shape.bind_eq_some.mp hr
  have hsuffix : r₄ <:+ code :=
    (((Shape.optGap_leaves _ _ _ hopt).trans (Shape.name_leaves _ _ _ hname)).trans
      (Shape.gap_leaves _ _ _ hgap)).trans (Shape.keyword_leaves _ _ _ _ hkey)
  obtain ⟨_, hdrop, he⟩ := Option.map_eq_some_iff.mp hcolon
  cases he
  have hnil : r₅ = [] := by
    have htight' := htight.of_suffix ((Shape.dropKeyword_suffix hdrop).trans hsuffix)
    by_contra hne
    have hlast := List.all_eq_true.mp (Shape.lineEnd_eq_some hend).1 _ (List.getLast_mem hne)
    rw [htight' _ (List.getLast?_eq_some_getLast hne)] at hlast
    cases hlast
  rw [hnil] at hdrop
  have hlower := Shape.dropKeyword_toLower (by decide) hdrop
  have hword : isWord ":" r₄ = true := by
    rw [isWord, hlower]
    rfl
  exact getLast?_of_suffix hsuffix (getLast?_of_isWord hword rfl (by decide))

/-- Every opener ends in a colon. -/
theorem getLast?_of_isOpener (htight : EndsTight code)
    (h : (BlockLine.ofCode code).isOpener = true) : code.getLast? = some ':' := by
  have hsort := BlockLine.isSort_ofCode code
  generalize BlockLine.ofCode code = c at hsort h
  cases hsort with
  | setup hword | loop hword => exact getLast?_of_isWord hword rfl (by decide)
  | function hshape => exact getLast?_of_function htight hshape
  | control ho => exact getLast?_of_endsWithWord (Opener.endsWithWord_of_ofCode? htight ho)
  | pin | otherwise | endBlock | unknown | command => cases h

/-! ## One line -/

theorem beginsWith_of_isOpener (h : (BlockLine.ofCode code).isOpener = true) :
    BeginsWith ("setup:" :: "loop:" :: "function" :: Opener.keywords) code := by
  have widen : ∀ {ws}, BeginsWith ws code → ws ⊆ "setup:" :: "loop:" :: "function" ::
      Opener.keywords → BeginsWith ("setup:" :: "loop:" :: "function" :: Opener.keywords) code :=
    fun ⟨w, hw, hpre⟩ hsub => ⟨w, hsub hw, hpre⟩
  have hsort := BlockLine.isSort_ofCode code
  generalize BlockLine.ofCode code = c at hsort h
  cases hsort with
  | setup hword | loop hword => exact widen (beginsWith_of_isWord (by decide) hword) (by simp)
  | function hshape => exact widen (beginsWith_of_function hshape) (by simp)
  | control ho => exact widen (Opener.begins_of_ofCode? ho) fun w hw => by simp [hw]
  | pin | otherwise | endBlock | unknown | command => cases h

theorem isOtherwise_of_ofCode (h : BlockLine.ofCode code = .otherwise) :
    isOtherwise code = true := by
  have hsort := BlockLine.isSort_ofCode code
  rw [h] at hsort
  cases hsort with
  | otherwise hword => exact hword

theorem isWord_end_of_ofCode (h : BlockLine.ofCode code = .endBlock) :
    isWord "end" code = true := by
  have hsort := BlockLine.isSort_ofCode code
  rw [h] at hsort
  cases hsort with
  | endBlock hword => exact hword

/-- A line that begins like no opener and no pin line is sorted by its end. -/
theorem ofCode_of_beginsWith {ws : List String} (h : BeginsWith ws code)
    (hws : apart ws ("setup:" :: "loop:" :: "function" :: "pin" :: "set" :: Opener.keywords) =
      true) :
    BlockLine.ofCode code =
      if isOtherwise code then .otherwise else if isWord "end" code then .endBlock
      else if endsWithWord "do:" code then .unknown else .command := by
  have hapart : ∀ vs ⊆ "setup:" :: "loop:" :: "function" :: "pin" :: "set" :: Opener.keywords,
      apart ws vs = true := fun vs hvs => List.all_eq_true.mpr fun w hw =>
    List.all_eq_true.mpr fun v hv => List.all_eq_true.mp (List.all_eq_true.mp hws w hw) v (hvs hv)
  have hfunction : functionShape.first? code = none := by
    cases hf : functionShape.first? code with
    | none => rfl
    | some n => exact (h.not_both (beginsWith_of_function hf) (hapart _ (by simp))).elim
  have hopener : Opener.ofCode? code = none := by
    cases ho : Opener.ofCode? code with
    | none => rfl
    | some o =>
      exact (h.not_both (Opener.begins_of_ofCode? ho) (hapart Opener.keywords
        fun w hw => by simp [hw])).elim
  have hpin : isPinLine code = false := by
    rw [Bool.eq_false_iff]
    intro hpin
    exact h.not_both (beginsWith_of_isPinLine hpin) (hapart _ (by simp))
  have hsetup : isWord "setup:" code = false := h.not_isWord (by decide) (hapart _ (by simp))
  have hloop : isWord "loop:" code = false := h.not_isWord (by decide) (hapart _ (by simp))
  simp [BlockLine.ofCode, hsetup, hloop, hfunction, hpin, hopener]

/-- The word `end` is sorted as such. -/
theorem ofCode_of_isWord_end (h : isWord "end" code = true) :
    BlockLine.ofCode code = .endBlock := by
  have hbegins := beginsWith_of_isWord (by decide) h
  rw [ofCode_of_beginsWith hbegins (by decide), hbegins.not_isOtherwise (by decide) (by decide), h]
  rfl

theorem beginsWith_of_isOtherwise (hhead : ∀ c, code.head? = some c → isBlank c = false)
    (h : isOtherwise (squeeze code) = true) : BeginsWith ["o"] code := by
  have hfirst : (squeeze code).head?.map baseLetter = some 'o' := by
    rw [← List.head?_map]
    rcases (Bool.or_eq_true _ _).mp h with h | h
    · rw [map_baseLetter_of_isWord (by decide) h]
      rfl
    · rw [map_baseLetter_of_isWord (by decide) h]
      rfl
  rw [head?_squeeze hhead] at hfirst
  refine ⟨"o", by simp, ?_⟩
  cases code with
  | nil => cases hfirst
  | cons c cs =>
    have hc : baseLetter c = 'o' := by simpa using hfirst
    simp [hc]

/-- A line that ends in a colon opens a block, or it is `otherwise`. -/
def ColonOpens (code : List Char) : Prop :=
  code.getLast? = some ':' →
    (BlockLine.ofCode code).isOpener = true ∨ BlockLine.ofCode code = .otherwise

instance (code : List Char) : Decidable (ColonOpens code) := inferInstanceAs (Decidable (_ → _))

/-- The layout takes the same lines for `end` as the second pass. -/
theorem isWord_end_squeeze (code : List Char) :
    isWord "end" (squeeze code) = (BlockLine.ofCode code == .endBlock) := by
  rw [isWord_squeeze (by decide), Bool.eq_iff_iff, beq_iff_eq]
  exact ⟨ofCode_of_isWord_end, isWord_end_of_ofCode⟩

variable (hhead : ∀ c, code.head? = some c → isBlank c = false) (htight : EndsTight code)
  (hcolon : ColonOpens code)
include hhead htight hcolon

/-- And it takes the same lines for `otherwise`, though it reads them squeezed. -/
theorem isOtherwise_squeeze :
    isOtherwise (squeeze code) = (BlockLine.ofCode code == .otherwise) := by
  rw [Bool.eq_iff_iff, beq_iff_eq]
  constructor
  · intro h
    have hlast := getLast?_of_isOtherwise h
    rw [getLast?_squeeze htight] at hlast
    rcases hcolon hlast with hopener | hotherwise
    · exact ((beginsWith_of_isOpener hopener).not_both (beginsWith_of_isOtherwise hhead h)
        (by decide)).elim
    · exact hotherwise
  · intro h
    rcases (Bool.or_eq_true _ _).mp (isOtherwise_of_ofCode h) with h | h
    · simp [isOtherwise, isWord_squeeze_of_isWord (by decide) (by decide) h]
    · simp [isOtherwise, isWord_squeeze_of_isWord (by decide) (by decide) h]

theorem opensBlock_squeeze : Layout.opensBlock (squeeze code) =
    ((BlockLine.ofCode code).isOpener || BlockLine.ofCode code == .otherwise) := by
  rw [Layout.opensBlock, ← squeeze_trim, trim_eq_self hhead htight, getLast?_squeeze htight,
    Bool.eq_iff_iff, beq_iff_eq, Bool.or_eq_true, beq_iff_eq]
  refine ⟨hcolon, fun h => ?_⟩
  rcases h with hopener | hotherwise
  · exact getLast?_of_isOpener htight hopener
  · exact getLast?_of_isOtherwise (isOtherwise_of_ofCode hotherwise)

theorem levelOf_squeeze (depth : Nat) :
    Layout.levelOf (squeeze code) depth = depth - (BlockLine.ofCode code).outdent := by
  rw [Layout.levelOf, Layout.standsOutside, ← squeeze_trim, trim_eq_self hhead htight,
    isWord_end_squeeze, isOtherwise_squeeze hhead htight hcolon]
  cases BlockLine.ofCode code <;> rfl

/-- Where no `otherwise` stands outside of all blocks, depth and stack change alike. -/
theorem depthAfter_squeeze {depth : Nat} (hdepth : BlockLine.ofCode code = .otherwise → 0 < depth) :
    Layout.depthAfter (squeeze code) depth = (BlockLine.ofCode code).depthAfter depth := by
  rw [Layout.depthAfter, isWord_end_squeeze, isOtherwise_squeeze hhead htight hcolon,
    opensBlock_squeeze hhead htight hcolon]
  cases hc : BlockLine.ofCode code with
  | otherwise => exact Nat.sub_add_cancel (hdepth hc)
  | setup | loop | function | control | endBlock | pin | command | unknown => rfl

end

/-! ## Runs -/

namespace Line

theorem head?_trimmedCode (raw : List Char) :
    ∀ c, (trimmedCode raw).head? = some c → isBlank c = false := fun _ => head?_trim _

theorem endsTight_trimmedCode (raw : List Char) : EndsTight (trimmedCode raw) :=
  endsTight_trimRight _

end Line

namespace Layout

theorem parts_code (raw : List Char) : (parts raw).1 = squeeze (trimmedCode raw) := collapse_eq _

/-- The code of a laid out line is the code of the line, squeezed. -/
theorem trimmedCode_layLine (level : Nat) (raw : List Char) :
    trimmedCode (layLine level (parts raw).1 (parts raw).2) = squeeze (trimmedCode raw) := by
  obtain ⟨code, hsplit, htrim⟩ := splitComment_layLine level raw
  rw [trimmedCode, Line.code, hsplit, htrim, parts_code]

theorem takeWhile_layLine {code : List Char} (hne : code ≠ [])
    (hhead : ∀ c, code.head? = some c → isBlank c = false) (level : Nat) (comment : List Char) :
    (layLine level code comment).takeWhile isBlank = List.replicate (2 * level) ' ' := by
  obtain ⟨margin, pad, hlay, hm, -, hcode⟩ := layLine_eq level code comment
  obtain ⟨hmargin, -⟩ := hcode hne
  obtain ⟨c, cs, rfl⟩ := List.exists_cons_of_ne_nil hne
  rw [hlay, List.takeWhile_append_of_pos fun d hd => by rw [hm d hd]; rfl, List.cons_append,
    List.takeWhile_cons_of_neg (by simp [hhead c rfl]), List.append_nil, hmargin]

/-- The depth after some lines. -/
def depthFrom (depth : Nat) (lines : List (List Char)) : Nat :=
  lines.foldl (fun d raw => depthAfter (parts raw).1 d) depth

theorem getElem?_layLines (depth k : Nat) (lines : List (List Char)) :
    (layLines depth lines)[k]? = lines[k]?.map fun raw =>
      layLine (levelOf (parts raw).1 (depthFrom depth (lines.take k))) (parts raw).1
        (parts raw).2 := by
  induction lines generalizing depth k with
  | nil => rfl
  | cons raw lines ih =>
    cases k with
    | zero => rfl
    | succ k => exact ih _ k

/-- A line of the laid out script that is not empty is a line of the script laid out. -/
theorem getElem?_reformat {source : String} {k : Nat} {l : List Char}
    (h : (sourceLines (String.ofList (reformat source.toList)))[k]? = some l) (hne : l ≠ []) :
    (layLines 0 (sourceLines source))[k]? = some l := by
  rw [sourceLines, String.toList_ofList, splitLines_reformat] at h
  rw [sourceLines]
  split at h
  · have hmem := List.mem_of_getElem? h
    simp at hmem
    exact absurd hmem hne
  · next m ms hkept =>
    rw [← hkept] at h
    by_cases hk : k < (kept (splitLines (joinReturns source.toList))).length
    · rw [List.getElem?_append_left hk] at h
      obtain ⟨rest, hrest⟩ := kept_isPrefix (splitLines (joinReturns source.toList))
      rw [← hrest, List.getElem?_append_left hk, h]
    · rw [List.getElem?_append_right (by omega)] at h
      exact absurd (List.mem_singleton.mp (List.mem_of_getElem? h)) hne

end Layout

section
variable {line : Int} {code : List Char} {a b : Assembly} {c : BlockLine} {is : List Instr}

/-- Without errors no block is left that was not entered. -/
theorem Assembly.Step.outdent_le (h : a.Step line code c is b) (hacc : b.session.Accepted) :
    c.outdent ≤ a.stack.length := by
  cases h with
  | otherwise hb hs | endRefused hs | endStructure hs | endControl hs =>
    simp [hs, BlockLine.outdent]
  | rejected hr ht =>
    have hsevere := Assemble.severity_of_rejects hr
    exact absurd hacc (Assemble.not_accepted_of_moves hsevere ht)
  | nested hc =>
    cases c with
    | setup | loop | function => exact Nat.zero_le _
    | _ => cases hc
  | _ => exact Nat.zero_le _

/-- In a run without errors the layout counts the open blocks. -/
theorem Layout.depthFrom_eq_stack_length {lines : List (List Char)} {n : Int}
    (hcolon : ∀ raw ∈ lines, ColonOpens (trimmedCode raw))
    (h : Assemble.takeLines (numberedFrom n lines) a = .ok () b) (hacc : b.session.Accepted) :
    depthFrom a.stack.length lines = b.stack.length := by
  induction lines generalizing n a with
  | nil =>
    cases h
    rfl
  | cons raw lines ih =>
    have hrest := fun r hr => hcolon r (List.mem_cons_of_mem raw hr)
    show depthFrom (depthAfter (parts raw).1 a.stack.length) lines = _
    rw [parts_code]
    by_cases hcode : trimmedCode raw = []
    · rw [numberedFrom_cons_of_nil hcode] at h
      rw [hcode, squeeze_nil]
      exact ih hrest h
    · rw [numberedFrom_cons hcode] at h
      obtain ⟨is, a', hline, hrun⟩ := bind_eq_ok.mp h
      have step := Assemble.takeLine_outcome n (trimmedCode raw) a
      rw [hline] at step
      have houtdent := step.outdent_le (hacc.of_isPrefix (Assemble.takeLines_isPrefix hrun))
      rw [depthAfter_squeeze (head?_trimmedCode raw) (endsTight_trimmedCode raw)
        (hcolon raw List.mem_cons_self), ← step.stack_length]
      · exact ih hrest hrun
      · intro hotherwise
        rw [hotherwise] at houtdent
        exact houtdent

end

/-- A run without errors passes in front of every line, and no line there leaves too many blocks. -/
theorem Assemble.exists_before {lines : List (List Char)} {n : Int} {a d : Assembly}
    (h : takeLines (numberedFrom n lines) a = .ok () d) (hacc : d.session.Accepted) {k : Nat}
    {raw : List Char} (hraw : lines[k]? = some raw) (hcode : trimmedCode raw ≠ []) :
    ∃ b, takeLines (numberedFrom n (lines.take k)) a = .ok () b ∧ b.session.Accepted ∧
      (BlockLine.ofCode (trimmedCode raw)).outdent ≤ b.stack.length := by
  obtain ⟨hk, hget⟩ := List.getElem?_eq_some_iff.mp hraw
  rw [← List.take_append_drop k lines, List.drop_eq_getElem_cons hk, hget, numberedFrom_append,
    numberedFrom_cons hcode] at h
  obtain ⟨b, hb, hrest⟩ := takeLines_append.mp h
  obtain ⟨is, b', hline, hrun⟩ := bind_eq_ok.mp hrest
  have step := takeLine_outcome (n + (lines.take k).length) (trimmedCode raw) b
  rw [hline] at step
  have hacc' : b'.session.Accepted := hacc.of_isPrefix (takeLines_isPrefix hrun)
  exact ⟨b, hb, hacc.of_isPrefix (takeLines_isPrefix hrest), step.outdent_le hacc'⟩

/-- **A laid out line is indented by two spaces for each block that is open before it**, one block
less for `end` and `otherwise`. The script has no errors, and only openers and `otherwise` end in a
colon. -/
theorem indentation_eq_stack {o : Options} {source : String}
    (hok : ∃ a, Compiles o source a)
    (hcolon : ∀ raw ∈ sourceLines source, ColonOpens (trimmedCode raw)) {k : Nat} {l : List Char}
    (hl : (sourceLines (String.ofList (Layout.reformat source.toList)))[k]? = some l)
    (hcode : trimmedCode l ≠ []) :
    ∃ raw t b, (sourceLines source)[k]? = some raw ∧ trimmedCode l = squeeze (trimmedCode raw) ∧
      Build.outline (sourceLines source) (.start o.board o.reserved) = .ok () t ∧
      Assemble.takeLines (Line.numbered ((sourceLines source).take k)) { session := t } = .ok () b ∧
      ∃ level, level + (BlockLine.ofCode (trimmedCode raw)).outdent = b.stack.length ∧
        l.takeWhile isBlank = List.replicate (2 * level) ' ' := by
  obtain ⟨a, hasm, hacc⟩ := hok
  obtain ⟨t, d, hout, hrun, rfl⟩ := assemble_ok hasm
  have hd : d.session.Accepted := hacc.of_isPrefix ⟨_, rfl⟩
  have hne : l ≠ [] := by
    rintro rfl
    exact hcode rfl
  have hlaid := Layout.getElem?_reformat hl hne
  rw [Layout.getElem?_layLines] at hlaid
  obtain ⟨raw, hraw, he⟩ := Option.map_eq_some_iff.mp hlaid
  rw [← he, Layout.trimmedCode_layLine] at hcode
  have hraw' : trimmedCode raw ≠ [] := by
    intro hnil
    rw [hnil, squeeze_nil] at hcode
    exact hcode rfl
  obtain ⟨b, hb, hbacc, houtdent⟩ := Assemble.exists_before hrun hd hraw hraw'
  refine ⟨raw, t, b, hraw, ?_, hout, hb, b.stack.length - _, Nat.sub_add_cancel houtdent, ?_⟩
  · rw [← he, Layout.trimmedCode_layLine]
  · have hdepth : Layout.depthFrom 0 ((sourceLines source).take k) = b.stack.length :=
      Layout.depthFrom_eq_stack_length (fun r hr => hcolon r (List.mem_of_mem_take hr)) hb hbacc
    have hhead : ∀ c, (squeeze (trimmedCode raw)).head? = some c → isBlank c = false := by
      rw [head?_squeeze (head?_trimmedCode raw)]
      exact head?_trimmedCode raw
    rw [← he, hdepth, Layout.parts_code, levelOf_squeeze (head?_trimmedCode raw)
      (endsTight_trimmedCode raw) (hcolon raw (List.mem_of_getElem? hraw)),
      Layout.takeWhile_layLine hcode hhead]

/-- Branches in a loop, with keywords in any case. -/
theorem indentation_nested :
    let o : Options := {}
    let source := "setup:\nend\nloop:\nIF 1 is 1  do:\nprint   1\nOtherwise do: # no\nEND\nend"
    (∃ a, Compiles o source a) ∧ (∀ raw ∈ sourceLines source, ColonOpens (trimmedCode raw)) ∧
      ∃ l, (sourceLines (String.ofList (Layout.reformat source.toList)))[5]? = some l ∧
        trimmedCode l ≠ [] ∧ ∃ raw t b, (sourceLines source)[5]? = some raw ∧
          trimmedCode l = squeeze (trimmedCode raw) ∧
          Build.outline (sourceLines source) (.start o.board o.reserved) = .ok () t ∧
          Assemble.takeLines (Line.numbered ((sourceLines source).take 5)) { session := t } =
            .ok () b ∧
          ∃ level, level + (BlockLine.ofCode (trimmedCode raw)).outdent = b.stack.length ∧
            l.takeWhile isBlank = List.replicate (2 * level) ' ' := by
  intro o source
  have hok : ∃ a, Compiles o source a := (exists_compiles_iff o source "").mpr (by decide +kernel)
  have hcolon : ∀ raw ∈ sourceLines source, ColonOpens (trimmedCode raw) := by decide +kernel
  have hl : (sourceLines (String.ofList (Layout.reformat source.toList)))[5]? =
      some "  Otherwise do:  # no".toList := by decide +kernel
  have hcode : trimmedCode "  Otherwise do:  # no".toList ≠ [] := by decide +kernel
  exact ⟨hok, hcolon, _, hl, hcode, indentation_eq_stack hok hcolon hl hcode⟩

end PlainSketch
