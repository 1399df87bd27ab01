import PlainSketch.Proofs.OutlineOrder
import PlainSketch.Proofs.WholeBlocks

/-!
# The order of blocks

The blocks of a script may stand in any order, but for one thing: a line that the first pass takes
for a write to a variable must not come before a function with the name of that variable. The first
pass would make the name a variable and refuse the function. In all other orders the script compiles
to the same sketch, but for the order of its functions and the numbers of helper variables.
-/
namespace PlainSketch
open Session SymbolTable
open Assemble (sorts takeLines)
open Script (follow)

/-- The script compiles without errors; the second pass ends in this state. -/
def Compiles (o : Options) (source : String) (a : Assembly) : Prop :=
  assemble (sourceLines source) { session := .start o.board o.reserved } = .ok () a ∧
    a.session.Accepted

theorem exists_compiles_iff (o : Options) (source file : String) : (∃ a, Compiles o source a) ↔
    (compile o source file).result.toOption.any (·.success) = true := by
  cases h : assemble (sourceLines source) { session := .start o.board o.reserved } with
  | error f a => simp [Compiles, compile, h, Except.toOption]
  | ok _ a => simp [Compiles, compile, h, Except.toOption, Compilation.success, Session.Accepted]

/-- Pin lines, and then blocks for different targets without pin lines in them. -/
structure Arrangement (lines pins : List (List Char)) (blocks : List (List (List Char))) :
    Prop where
  lines_eq : lines = pins ++ blocks.flatten
  onlyPins : ∀ c ∈ Line.blockLines pins, c = .pin
  isBlock : ∀ B ∈ blocks, ∃ o, Script.IsStructure o (Line.blockLines B)
  noPins : ∀ B ∈ blocks, .pin ∉ Line.blockLines B
  distinct : (blocks.map fun B => (Line.blockLines B).head?).Nodup

/-- No line in one of the blocks clashes with a function further down. -/
def Unclashing (blocks : List (List (List Char))) : Prop :=
  blocks.Pairwise fun B C => ∀ c ∈ Line.codes B, ∀ d ∈ Line.codes C, ¬ Clashes c d

instance (blocks : List (List (List Char))) : Decidable (Unclashing blocks) :=
  inferInstanceAs (Decidable (blocks.Pairwise _))

theorem Script.exists_isStructure_iff {w : List BlockLine} : (∃ o, IsStructure o w) ↔
    w.head?.any BlockLine.opensStructure = true ∧ w.tail.getLast? = some .endBlock ∧
      Nesting.follow BlockLine.mark [] w.tail.dropLast = some [] := by
  constructor
  · rintro ⟨o, ho, b, hb, rfl⟩
    simp [ho, Nesting.follow_wellNested hb []]
  · rintro ⟨ho, hlast, hfollow⟩
    cases w with
    | nil => cases ho
    | cons o w =>
      refine ⟨o, ho, w.dropLast, Nesting.follow_eq_nil_iff.mp hfollow, ?_⟩
      exact congrArg (o :: ·) (List.dropLast_append_getLast? _ hlast).symm

instance (w : List BlockLine) : Decidable (∃ o, Script.IsStructure o w) :=
  decidable_of_iff _ Script.exists_isStructure_iff.symm

instance (lines pins : List (List Char)) (blocks : List (List (List Char))) :
    Decidable (Arrangement lines pins blocks) :=
  decidable_of_iff (lines = pins ++ blocks.flatten ∧ (∀ c ∈ Line.blockLines pins, c = .pin) ∧
      (∀ B ∈ blocks, ∃ o, Script.IsStructure o (Line.blockLines B)) ∧
      (∀ B ∈ blocks, .pin ∉ Line.blockLines B) ∧
      (blocks.map fun B => (Line.blockLines B).head?).Nodup)
    ⟨fun ⟨h₁, h₂, h₃, h₄, h₅⟩ => ⟨h₁, h₂, h₃, h₄, h₅⟩,
      fun ⟨h₁, h₂, h₃, h₄, h₅⟩ => ⟨h₁, h₂, h₃, h₄, h₅⟩⟩

/-! ## Lines of blocks -/

namespace Arrangement
variable {lines lines' pins : List (List Char)} {blocks blocks' : List (List (List Char))}

/-- The numbered lines of the blocks. -/
def numbered (pins : List (List Char)) (blocks : List (List (List Char))) :
    List (Int × List Char) := Line.numberedFrom (1 + pins.length) blocks.flatten

theorem perm (h : Arrangement lines pins blocks) (hperm : blocks'.Perm blocks)
    (hlines : lines' = pins ++ blocks'.flatten) : Arrangement lines' pins blocks' where
  lines_eq := hlines
  onlyPins := h.onlyPins
  isBlock B hB := h.isBlock B (hperm.mem_iff.mp hB)
  noPins B hB := h.noPins B (hperm.mem_iff.mp hB)
  distinct := (hperm.map _).nodup_iff.mpr h.distinct

theorem numbered_eq (h : Arrangement lines pins blocks) :
    Line.numbered lines = Line.numbered pins ++ numbered pins blocks := by
  rw [h.lines_eq]
  exact Line.numberedFrom_append 1 pins blocks.flatten

theorem codes_numbered (pins : List (List Char)) (blocks : List (List (List Char))) :
    (numbered pins blocks).map Prod.snd = (blocks.map Line.codes).flatten := by
  rw [numbered, Line.numberedFrom_codes, Line.codes_flatten]

theorem follow_pins (h : Arrangement lines pins blocks) :
    follow [] (sorts (Line.numbered pins)) = some [] := by
  have hpins := h.onlyPins
  rw [Line.numbered, Assemble.sorts_numberedFrom]
  generalize Line.blockLines pins = w at hpins
  induction w with
  | nil => rfl
  | cons c w ih =>
    rw [hpins c List.mem_cons_self]
    exact ih fun d hd => hpins d (List.mem_cons_of_mem _ hd)

theorem follow_blocks (h : Arrangement lines pins blocks) :
    follow [] (sorts (numbered pins blocks)) = some [] := by
  rw [numbered, Assemble.sorts_numberedFrom, Line.blockLines, Line.codes_flatten, List.map_flatten,
    List.map_map]
  refine Script.follow_outline fun p hp => .inr ?_
  obtain ⟨B, hB, rfl⟩ := List.mem_map.mp hp
  exact h.isBlock B hB

theorem follow_lines (h : Arrangement lines pins blocks) :
    follow [] (sorts (Line.numbered lines)) = some [] := by
  rw [h.numbered_eq, sorts, List.map_append, Script.follow_append]
  show (follow [] (sorts (Line.numbered pins))).bind _ = _
  rw [h.follow_pins]
  exact h.follow_blocks

theorem isPin_eq_false (h : Arrangement lines pins blocks) :
    ∀ l ∈ numbered pins blocks, (OutlineLine.ofCode l.2).isPin = false := by
  intro l hl
  rw [Bool.eq_false_iff]
  intro hpin
  have hcode : l.2 ∈ (blocks.map Line.codes).flatten :=
    codes_numbered pins blocks ▸ List.mem_map.mpr ⟨l, hl, rfl⟩
  obtain ⟨cs, hcs, hmem⟩ := List.mem_flatten.mp hcode
  obtain ⟨B, hB, rfl⟩ := List.mem_map.mp hcs
  exact h.noPins B hB (List.mem_map.mpr ⟨l.2, hmem, block_of_outline_pin hpin⟩)

/-- Inside a block only the first line can be that of a function, so no line clashes with a line
further down. -/
theorem pairwise_block {B : List (List Char)} {o : BlockLine}
    (h : Script.IsStructure o (Line.blockLines B)) :
    (Line.codes B).Pairwise fun c d => ¬ Clashes c d := by
  obtain ⟨-, w, hw, hB⟩ := h
  obtain ⟨head, rest, hcodes, -, hrest⟩ := List.map_eq_cons_iff.mp hB
  have hlater : ∀ d ∈ rest, ∀ c, ¬ Clashes c d := by
    rintro d hd c ⟨name, type, -, hfun⟩
    have hmem := List.mem_map.mpr ⟨d, hd, block_of_outline hfun⟩
    rw [hrest] at hmem
    rcases List.mem_append.mp hmem with hmem | hmem
    · exact hw.ne_foreign _ hmem rfl
    · simp at hmem
  rw [hcodes]
  refine .cons (fun d hd => hlater d hd head) ?_
  exact List.pairwise_of_forall_mem_list fun c _ d hd => hlater d hd c

theorem pairwise_iff (h : Arrangement lines pins blocks) :
    (numbered pins blocks).Pairwise (fun l l' => ¬ Clashes l.2 l'.2) ↔ Unclashing blocks := by
  have hmap := List.pairwise_map (f := Prod.snd) (l := numbered pins blocks)
    (R := fun c d => ¬ Clashes c d)
  rw [← hmap, codes_numbered, List.pairwise_flatten, List.pairwise_map]
  refine and_iff_right fun cs hcs => ?_
  obtain ⟨B, hB, rfl⟩ := List.mem_map.mp hcs
  obtain ⟨o, ho⟩ := h.isBlock B hB
  exact pairwise_block ho

theorem codes_perm (pins : List (List Char)) (hperm : blocks'.Perm blocks) :
    ((numbered pins blocks').map Prod.snd).Perm ((numbered pins blocks).map Prod.snd) := by
  rw [codes_numbered, codes_numbered]
  exact (hperm.map Line.codes).flatten

/-! ## The first pass -/

theorem declaredNames_perm {ls ls' : List (Int × List Char)}
    (h : (ls'.map Prod.snd).Perm (ls.map Prod.snd)) :
    ((declaredFunctions ls').map (·.name)).Perm ((declaredFunctions ls).map (·.name)) := by
  have hnames : ∀ ls : List (Int × List Char), (declaredFunctions ls).map (·.name) =
      (ls.map Prod.snd).filterMap fun c => ((OutlineLine.ofCode c).function? 0).map (·.name) := by
    intro ls
    rw [declaredFunctions, List.map_filterMap, List.filterMap_map]
    refine List.filterMap_congr fun l _ => ?_
    simp only [Function.comp_apply]
    cases OutlineLine.ofCode l.2 <;> rfl
  rw [hnames, hnames]
  exact h.filterMap _

section
variable {s t : Session}

/-- The first pass takes the pin lines and then the blocks. -/
theorem outline_ok (h : Arrangement lines pins blocks) (ht : Build.outline lines s = .ok () t) :
    ∃ u d v, Build.outlineFrom 0 (Line.numbered pins) s = .ok 0 u ∧
      Build.outlineFrom 0 (numbered pins blocks) u = .ok d v ∧ t.table = v.table ∧
      (t.Accepted → v.Accepted) := by
  obtain ⟨d, v, hv, hlog⟩ := bind_eq_ok.mp ht
  cases hlog
  rw [h.numbered_eq, outlineFrom_append] at hv
  obtain ⟨e, u, hu, hv⟩ := hv
  have hlevels := Build.levels_of_outlineFrom
    (fun l hl => Line.getLast?_of_mem_numberedFrom hl) (.inl rfl) h.follow_pins hu
  obtain rfl : e = 0 := by
    simp only [Levels, List.length_nil] at hlevels
    omega
  exact ⟨u, d, v, hu, hv, rfl, id⟩

theorem outline_of_runs (h : Arrangement lines pins blocks) {u v : Session} {d : Nat}
    (hu : Build.outlineFrom 0 (Line.numbered pins) s = .ok 0 u)
    (hv : Build.outlineFrom 0 (numbered pins blocks) u = .ok d v) :
    ∃ t, Build.outline lines s = .ok () t ∧ t.table = v.table ∧ (v.Accepted → t.Accepted) := by
  have hall : Build.outlineFrom 0 (Line.numbered lines) s = .ok d v := by
    rw [h.numbered_eq]
    exact outlineFrom_append.mpr ⟨0, u, hu, hv⟩
  exact ⟨_, bind_eq_ok.mpr ⟨d, v, hall, rfl⟩, rfl, id⟩

end

section
variable {board : Board} {reserved : List String} {t : Session}

theorem exclusive_of_outline (ht : Build.outline lines (.start board reserved) = .ok () t) :
    t.table.Exclusive :=
  (exclusive_start board reserved).grows ((Build.outline_extending lines).ok ht).table

theorem unclashing_of_outline (h : Arrangement lines pins blocks)
    (ht : Build.outline lines (.start board reserved) = .ok () t) (hacc : t.Accepted) :
    Unclashing blocks := by
  have hexcl := exclusive_of_outline ht
  obtain ⟨u, d, v, -, hv, htable, hacc'⟩ := h.outline_ok ht
  rw [htable] at hexcl
  rw [← h.pairwise_iff]
  exact Build.pairwise_of_outlineFrom (fun l hl => Line.getLast?_of_mem_numberedFrom hl)
    (.inl rfl) h.follow_blocks hv (hacc' hacc) hexcl

/-- A first pass over blocks without clashes, on its way to the symbols of `w`. -/
theorem outlineFrom_blocks (h : Arrangement lines pins blocks) {u : Session} {w : SymbolTable}
    (hw : w.Exclusive) (hu : u.Outlines w) (hclash : Unclashing blocks)
    (hnames : (w.functions.map (·.name)).Perm
      ((u.table.functions ++ declaredFunctions (numbered pins blocks)).map (·.name))) :
    ∃ d v, Build.outlineFrom 0 (numbered pins blocks) u = .ok d v ∧ v.Outlines w ∧
      v.table.functions = u.table.functions ++ declaredFunctions (numbered pins blocks) ∧
      v.table.typeOf? =
        w.seededAll u.table.typeOf? (writesOf ((numbered pins blocks).map Prod.snd)) := by
  refine Build.outlineFrom_ordered hw hu (fun l hl => Line.getLast?_of_mem_numberedFrom hl)
    h.isPin_eq_false (.inl rfl) h.follow_blocks (hnames.nodup_iff.mp hw.functions) (fun n => ?_)
    (h.pairwise_iff.mpr hclash)
  rw [← hnames.mem_iff, isFunction_iff, List.mem_map]

/-- **The first pass comes to the same symbols in any order without clashes.** -/
theorem outline_perm (h : Arrangement lines pins blocks) (h' : Arrangement lines' pins blocks')
    (hperm : blocks'.Perm blocks) (ht : Build.outline lines (.start board reserved) = .ok () t)
    (hacc : t.Accepted) (hclash : Unclashing blocks') :
    ∃ t', Build.outline lines' (.start board reserved) = .ok () t' ∧ t'.Accepted ∧
      t.table.Follows t'.table ∧ t'.table.typeOf? = t.table.typeOf? := by
  have hexcl := exclusive_of_outline ht
  have horder := h.unclashing_of_outline ht hacc
  obtain ⟨u, d, v, hu, hv, htable, hacc'⟩ := h.outline_ok ht
  replace hacc := hacc' hacc
  rw [htable] at hexcl ⊢
  have hext := (Build.outlineFrom_extending 0 (numbered pins blocks)).ok hv
  have hfunctions : v.table.functions =
      u.table.functions ++ declaredFunctions (numbered pins blocks) :=
    Build.outlineFrom_functions (fun l hl => Line.getLast?_of_mem_numberedFrom hl) (.inl rfl)
      h.follow_blocks hv hacc
  -- Both orders are run from `u`, the session behind the pins, against the table `v` of the first:
  -- the two declare the same functions, so what either seeds depends on `v` alone.
  have hout : u.Outlines v.table :=
    { board := hext.table.keeps.board.symm
      reserved := hext.table.keeps.reserved.symm
      pins := (Build.pins_of_outlineFrom h.isPin_eq_false hv).symm
      declared := fun n hn => by
        obtain ⟨f, hf, he⟩ := isFunction_iff.mp hn
        exact isFunction_iff.mpr ⟨f, hext.table.keeps.functions.subset hf, he⟩
      allowed := fun n hn => hexcl.allows (hext.table.isVariable hn)
      accepted := hacc.of_isPrefix hext.findings }
  obtain ⟨d₁, v₁, hv₁, -, -, htypes⟩ := h.outlineFrom_blocks hexcl hout horder (by rw [hfunctions])
  rw [hv] at hv₁
  cases hv₁
  have hnames : (v.table.functions.map (·.name)).Perm
      ((u.table.functions ++ declaredFunctions (numbered pins blocks')).map (·.name)) := by
    rw [hfunctions, List.map_append, List.map_append]
    exact (declaredNames_perm (codes_perm pins hperm)).symm.append_left _
  obtain ⟨d', v', hv', hout', hfunctions', htypes'⟩ :=
    h'.outlineFrom_blocks hexcl hout hclash hnames
  obtain ⟨t', ht', htable', hacc''⟩ := h'.outline_of_runs hu hv'
  have hsame : v'.table.typeOf? = v.table.typeOf? := by
    rw [htypes', htypes]
    exact seededAll_perm _ ((codes_perm pins hperm).filterMap _) _
  have hfollows : v.table.Follows v'.table :=
    { board := hout'.board
      reserved := hout'.reserved
      pins := hout'.pins
      isFunction := fun n => by
        rw [Bool.eq_iff_iff, isFunction_iff, isFunction_iff, ← List.mem_map, ← List.mem_map,
          hnames.mem_iff, hfunctions']
      exclusive := htable' ▸ exclusive_of_outline ht'
      known := fun n hn => by rwa [isVariable_eq_typeOf?, hsame, ← isVariable_eq_typeOf?] }
  exact ⟨t', ht', hacc'' hout'.accepted, htable' ▸ hfollows, htable' ▸ hsame⟩

end

/-! ## The second pass -/

theorem takeLines_pins {ls : List (Int × List Char)} (h : ∀ c ∈ sorts ls, c = .pin)
    (a : Assembly) : takeLines ls a = .ok () a := by
  induction ls with
  | nil => rfl
  | cons l ls ih =>
    have hpin : BlockLine.ofCode l.2 = .pin := h _ List.mem_cons_self
    have hline : Assemble.takeLine l.1 l.2 a = .ok [] a := by
      unfold Assemble.takeLine
      rw [hpin]
      rfl
    exact bind_eq_ok.mpr ⟨[], a, hline, ih fun c hc => h c (List.mem_cons_of_mem _ hc)⟩

theorem takeLines_iff (h : Arrangement lines pins blocks) {a b : Assembly} :
    takeLines (Line.numbered lines) a = .ok () b ↔
      takeLines (numbered pins blocks) a = .ok () b := by
  have hpins : takeLines (Line.numbered pins) a = .ok () a :=
    takeLines_pins (by rw [Line.numbered, Assemble.sorts_numberedFrom]; exact h.onlyPins) a
  rw [h.numbered_eq, Assemble.takeLines_append]
  constructor
  · rintro ⟨a', ha', hb⟩
    rw [hpins] at ha'
    cases ha'
    exact hb
  · exact fun hb => ⟨a, hpins, hb⟩

/-- The first pass lists the functions of all blocks. -/
theorem lists_of_outline (h : Arrangement lines pins blocks) {board : Board}
    {reserved : List String} {t : Session}
    (ht : Build.outline lines (.start board reserved) = .ok () t) (hacc : t.Accepted) :
    ∀ l ∈ numbered pins blocks, t.table.Lists l := by
  have hexcl := exclusive_of_outline ht
  obtain ⟨d, v, hv, hlog⟩ := bind_eq_ok.mp ht
  cases hlog
  have hfunctions : v.table.functions = declaredFunctions (Line.numbered lines) :=
    Build.outlineFrom_functions (fun l hl => Line.getLast?_of_mem_numberedFrom hl) (.inl rfl)
      h.follow_lines hv hacc
  intro l hl
  refine lists_of_declared (Line.numberedFrom_nodup 1 lines) hfunctions hexcl.functions ?_
  rw [← Line.numbered, h.numbered_eq]
  exact List.mem_append_right _ hl

theorem head_of_target (h : Arrangement lines pins blocks) {B : List (List Char)} (hB : B ∈ blocks)
    {c : BlockLine} (hc : targetOf ((Line.codes B).headD []) = some c) :
    (Line.blockLines B).head? = some c := by
  obtain ⟨o, -, w, -, hlines⟩ := h.isBlock B hB
  obtain ⟨head, rest, hcodes, -, -⟩ := List.map_eq_cons_iff.mp hlines
  rw [hcodes] at hc
  rw [Line.blockLines, hcodes, List.map_cons, List.head?_cons]
  exact congrArg some (block_of_targetOf hc)

/-- Different blocks have different targets. -/
theorem targets_nodup (h : Arrangement lines pins blocks) (effect : List (List Char) → Effect)
    (k : Nat) :
    ((Part.place k (blocks.map (Assemble.partOf effect))).filterMap Prod.fst).Nodup := by
  have htargets := congrArg (List.filterMap id)
    (Part.place_targets k (blocks.map (Assemble.partOf effect)))
  simp only [List.filterMap_map, List.map_map, Function.id_comp] at htargets
  rw [htargets, List.Nodup, List.pairwise_filterMap]
  have hdistinct := h.distinct
  rw [List.Nodup, List.pairwise_map] at hdistinct
  refine hdistinct.imp_of_mem fun {B C} hB hC hne => ?_
  rintro c hc d hd rfl
  exact hne ((h.head_of_target hB hc).trans (h.head_of_target hC hd).symm)

end Arrangement

/-! ## Whole scripts -/

/-- The same symbols and the same sketch, but for the order of functions, the order of variables and
the numbers of helper variables. -/
structure Assembly.Rearranges (a' a : Assembly) : Prop where
  pins : a'.session.table.pins = a.session.table.pins
  types : a'.session.table.typeOf? = a.session.table.typeOf?
  bodies : ∃ f : Nat → Nat, f.Injective ∧
    a'.sketch.setup = a.sketch.setup.map (Instr.renumber f) ∧
    a'.sketch.loop = a.sketch.loop.map (Instr.renumber f) ∧
    a'.sketch.functions.Perm (a.sketch.functions.map fun b => (b.1, b.2.map (Instr.renumber f)))

theorem SymbolTable.Follows.refl {t : SymbolTable} (h : t.Exclusive) : t.Follows t :=
  ⟨rfl, rfl, rfl, fun _ => rfl, h, fun _ => id⟩

theorem assemble_of_runs {lines : List (List Char)} {s t : Session} {b : Assembly}
    (ht : Build.outline lines s = .ok () t)
    (hb : takeLines (Line.numbered lines) { session := t } = .ok () b)
    (hlast : Assemble.lastFindings lines.length b = []) :
    assemble lines { session := s } = .ok () b := by
  have hbuild : Assemble.build (Build.outline lines) { session := s } =
      .ok () { session := t } := by
    rw [Assemble.build, ht]
  refine bind_eq_ok.mpr ⟨(), _, hbuild, bind_eq_ok.mpr ⟨(), b, hb, ?_⟩⟩
  rw [Assemble.finish_eq, hlast, List.append_nil]

section
variable {source source' : String} {pins : List (List Char)}
  {blocks blocks' : List (List (List Char))} {board : Board} {reserved : List String}

/-- What the second pass takes off the lines of a script is known from its first pass. -/
theorem mayTake_of_outline {t : Session}
    (ht : Build.outline (sourceLines source) (.start board reserved) = .ok () t) :
    ∀ l ∈ Line.numbered (sourceLines source), Assemble.MayTake t.table l.2 :=
  fun _ hl hc _ hst _ _ htaken => Build.takes_of_statement ht hl hc hst htaken

/-- The second pass over the blocks in another order. -/
theorem takeLines_perm {t t' : Session} {b : Assembly}
    (h : Arrangement (sourceLines source) pins blocks)
    (h' : Arrangement (sourceLines source') pins blocks') (hperm : blocks'.Perm blocks)
    (ht : Build.outline (sourceLines source) (.start board reserved) = .ok () t)
    (hb : takeLines (Arrangement.numbered pins blocks) { session := t } = .ok () b)
    (hacc : b.session.Accepted)
    (ht' : Build.outline (sourceLines source') (.start board reserved) = .ok () t')
    (hacc' : t'.Accepted) (hfollows : t.table.Follows t'.table)
    (htypes : t'.table.typeOf? = t.table.typeOf?) :
    ∃ b', takeLines (Arrangement.numbered pins blocks') { session := t' } = .ok () b' ∧
      b'.stack = [] ∧ b'.session.Accepted ∧ b'.Rearranges b := by
  have hself := Follows.refl (Arrangement.exclusive_of_outline ht)
  have htacc := hacc.of_isPrefix (Assemble.takeLines_isPrefix hb)
  have hlists := h.lists_of_outline ht htacc
  have htake : ∀ l ∈ Arrangement.numbered pins blocks, Assemble.MayTake t.table l.2 := by
    intro l hl
    refine mayTake_of_outline ht l ?_
    rw [h.numbered_eq]
    exact List.mem_append_right _ hl
  have hexists := Assemble.exists_playsAs_of_run h.isBlock (.start t) hself hlists htake hb hacc
  choose! effect hplays using hexists
  obtain ⟨b₁, hb₁, -, hsketch, hends⟩ :=
    Assemble.takeLines_blocks (a := { session := t }) hplays rfl rfl hself hlists
  have hsame : b = b₁ := by
    have hboth := hb.symm.trans hb₁
    cases hboth
    rfl
  subst hsame
  obtain ⟨b', hb', hstack', hsketch', hends'⟩ :=
    Assemble.takeLines_blocks (a := { session := t' })
      (fun B hB => hplays B (hperm.mem_iff.mp hB)) rfl rfl hfollows (h'.lists_of_outline ht' hacc')
  refine ⟨b', hb', hstack', hends'.accepted hacc', ?_, ?_, ?_⟩
  · rw [hends'.follows.pins, hends.follows.pins]
  · rw [hends'.types, hends.types, htypes]
    exact Use.actAll_perm (hperm.flatMap_right _) _
  · obtain ⟨f, hf, -, -, hplaced⟩ :=
      Part.place_perm (hperm.symm.map (Assemble.partOf effect)) 0
    rw [hsketch, hsketch']
    exact ⟨f, hf, Sketch.addAll_perm hplaced (h.targets_nodup effect 0)⟩

theorem saw_of_takeLines {ls : List (Int × List Char)} {st : List Bool} {t : Session} {b : Assembly}
    (hfollow : follow [] (sorts ls) = some st) (hb : takeLines ls { session := t } = .ok () b) :
    b.sawSetup = (sorts ls).contains .setup ∧ b.sawLoop = (sorts ls).contains .loop := by
  rcases Assemble.takeLines_follow (.start t) hb with ⟨-, -, -, -, hsetup, hloop⟩ | ⟨hnone, -⟩
  · exact ⟨hsetup, hloop⟩
  · rw [hfollow] at hnone
    cases hnone

/-- **Blocks may stand in any order without clashes.** -/
theorem assemble_perm {a : Assembly} (h : Arrangement (sourceLines source) pins blocks)
    (h' : Arrangement (sourceLines source') pins blocks') (hperm : blocks'.Perm blocks)
    (ha : assemble (sourceLines source) { session := .start board reserved } = .ok () a)
    (hacc : a.session.Accepted) (hclash : Unclashing blocks') :
    ∃ a', assemble (sourceLines source') { session := .start board reserved } = .ok () a' ∧
      a'.session.Accepted ∧ a'.Rearranges a := by
  obtain ⟨t, b, ht, hb, rfl⟩ := assemble_ok ha
  have hbacc : b.session.Accepted := hacc.of_isPrefix ⟨_, rfl⟩
  have htacc : t.Accepted := hbacc.of_isPrefix (Assemble.takeLines_isPrefix hb)
  obtain ⟨t', ht', htacc', hfollows, htypes⟩ := h.outline_perm h' hperm ht htacc hclash
  rw [h.takeLines_iff] at hb
  obtain ⟨b', hb', hstack', hbacc', hsame⟩ :=
    takeLines_perm h h' hperm ht hb hbacc ht' htacc' hfollows htypes
  have hlast : Assemble.lastFindings (sourceLines source').length b' = [] := by
    have hfinish := Assemble.cleanSince_finish (Assemble.finish_eq (sourceLines source).length b)
    obtain ⟨-, hsetup, hloop⟩ := hfinish.2.mp hacc.cleanSince
    have hsorts : (sorts (Arrangement.numbered pins blocks')).Perm
        (sorts (Arrangement.numbered pins blocks)) := by
      have hcodes := (Arrangement.codes_perm pins hperm).map BlockLine.ofCode
      rwa [List.map_map, List.map_map] at hcodes
    have hsaw := saw_of_takeLines h.follow_blocks hb
    have hsaw' := saw_of_takeLines h'.follow_blocks hb'
    rw [hsorts.contains_eq, ← hsaw.1, hsetup, hsorts.contains_eq, ← hsaw.2, hloop] at hsaw'
    simp [Assemble.lastFindings, hstack', hsaw'.1, hsaw'.2]
  exact ⟨b', assemble_of_runs ht' (h'.takeLines_iff.mpr hb') hlast, hbacc',
    hsame.pins, hsame.types, hsame.bodies⟩

theorem unclashing_of_compiles {o : Options} {a : Assembly}
    (h : Arrangement (sourceLines source) pins blocks) (ha : Compiles o source a) :
    Unclashing blocks := by
  obtain ⟨ha, hacc⟩ := ha
  obtain ⟨t, b, ht, hb, rfl⟩ := assemble_ok ha
  have hbacc : b.session.Accepted := hacc.of_isPrefix ⟨_, rfl⟩
  exact h.unclashing_of_outline ht (hbacc.of_isPrefix (Assemble.takeLines_isPrefix hb))

end

/-- **When blocks may change places.** If a script that is made of pin lines and blocks compiles, it
compiles with its blocks in another order exactly if no line in one of them clashes with a function
further down. Then the pins, the types of all variables and the bodies of the sketch are the same,
but for the numbers of helper variables. -/
theorem compiles_rearranged_iff (o : Options) {source source' : String} {pins : List (List Char)}
    {blocks blocks' : List (List (List Char))} {a : Assembly}
    (h : Arrangement (sourceLines source) pins blocks) (ha : Compiles o source a)
    (hperm : blocks'.Perm blocks) (h' : sourceLines source' = pins ++ blocks'.flatten) :
    ((∃ a', Compiles o source' a') ↔ Unclashing blocks') ∧
      ∀ a', Compiles o source' a' → a'.Rearranges a := by
  have harranged := h.perm hperm h'
  have hmoved : Unclashing blocks' → ∃ a', Compiles o source' a' ∧ a'.Rearranges a := by
    intro hclash
    obtain ⟨a', ha', hacc', hsame⟩ := assemble_perm h harranged hperm ha.1 ha.2 hclash
    exact ⟨a', ⟨ha', hacc'⟩, hsame⟩
  refine ⟨⟨?_, fun hclash => ?_⟩, fun a' ha' => ?_⟩
  · rintro ⟨a', ha'⟩
    exact unclashing_of_compiles harranged ha'
  · obtain ⟨a', ha', -⟩ := hmoved hclash
    exact ⟨a', ha'⟩
  · obtain ⟨a'', ha'', hsame⟩ := hmoved (unclashing_of_compiles harranged ha')
    have hboth := ha'.1.symm.trans ha''.1
    cases hboth
    exact hsame

/-- A loop with a timer goes behind the function that it calls, whose `repeat` becomes the first to
be numbered. -/
theorem compiles_rearranged_timer :
    let pins := ["pin p is 1".toList]
    let loop := ["loop:", "every 1 s do:", "call f", "end", "end"].map String.toList
    let function := ["function f:", "repeat 2 times do:", "end", "end"].map String.toList
    let setup := ["setup:", "set n to p", "end"].map String.toList
    let source := "pin p is 1\nloop:\nevery 1 s do:\ncall f\nend\nend\nfunction f:\n" ++
      "repeat 2 times do:\nend\nend\nsetup:\nset n to p\nend"
    let source' := "pin p is 1\nfunction f:\nrepeat 2 times do:\nend\nend\nsetup:\n" ++
      "set n to p\nend\nloop:\nevery 1 s do:\ncall f\nend\nend"
    Arrangement (sourceLines source) pins [loop, function, setup] ∧
      sourceLines source' = pins ++ [function, setup, loop].flatten ∧
      Unclashing [function, setup, loop] ∧
      ∃ a a', Compiles {} source a ∧ Compiles {} source' a' ∧ a'.Rearranges a := by
  intro pins loop function setup source source'
  have h : Arrangement (sourceLines source) pins [loop, function, setup] := by decide +kernel
  have h' : sourceLines source' = pins ++ [function, setup, loop].flatten := by decide +kernel
  have hclash : Unclashing [function, setup, loop] := by decide +kernel
  have hperm : ([function, setup] ++ [loop]).Perm ([loop] ++ [function, setup]) :=
    List.perm_append_comm
  obtain ⟨a, ha⟩ := (exists_compiles_iff {} source "").mpr (by decide +kernel)
  obtain ⟨hiff, hsame⟩ := compiles_rearranged_iff {} h ha hperm h'
  obtain ⟨a', ha'⟩ := hiff.mpr hclash
  exact ⟨h, h', hclash, a, a', ha, ha', hsame a' ha'⟩

/-- An assignment to an analog label that is read as a value for its output: the function of that
name, fine in front of it, is refused behind it. -/
theorem rearranged_refused_pwm :
    let function := ["function A0:", "end"].map String.toList
    let setup := ["setup:", "set A0 to x to pwm 5", "end"].map String.toList
    let loop := ["loop:", "end"].map String.toList
    let source := "function A0:\nend\nsetup:\nset A0 to x to pwm 5\nend\nloop:\nend"
    let source' := "setup:\nset A0 to x to pwm 5\nend\nfunction A0:\nend\nloop:\nend"
    Arrangement (sourceLines source) [] [function, setup, loop] ∧
      sourceLines source' = [setup, function, loop].flatten ∧
      (∃ a, Compiles {} source a) ∧ ¬ ∃ a', Compiles {} source' a' := by
  intro function setup loop source source'
  refine ⟨by decide +kernel, by decide +kernel, ?_, ?_⟩
  · rw [exists_compiles_iff {} source ""]
    decide +kernel
  · rw [exists_compiles_iff {} source' ""]
    decide +kernel

end PlainSketch
