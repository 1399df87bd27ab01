import PlainSketch.Proofs.AssemblySteps

/-!
# The shape of the block stack

Which body is open and which blocks are open are two parts of the state that change in different
places. They agree all the same: with no body open there are only refused control blocks, and an
open body has exactly one opened structural block, which nothing opened lies below. So a line that
writes always finds a body, and the fault `noOpenBody` never comes up.
-/
namespace PlainSketch

/-- A control block whose opener was refused. -/
def Frame.IsRefusedControl (f : Frame) : Prop := f.isStructural = false ∧ f.opened = false

namespace Assembly

/-- The stack, the innermost block first, fits the open body. -/
structure StackShape (a : Assembly) : Prop where
  /-- Without a body there are refused control blocks only. -/
  closed : a.body = none → ∀ f ∈ a.stack, f.IsRefusedControl
  /-- The open body belongs to one opened structural block. Below it are refused control blocks,
  above it are control blocks and refused structural ones. -/
  opened : a.body.isSome = true → ∃ above f below, a.stack = above ++ f :: below ∧
    f.isStructural = true ∧ f.opened = true ∧ (∀ g ∈ below, g.IsRefusedControl) ∧
    ∀ g ∈ above, g.isStructural = false ∨ g.opened = false

namespace StackShape
variable {a a' : Assembly}

theorem start (t : Session) : StackShape { session := t } :=
  ⟨fun _ f hf => by simp at hf, fun h => by simp at h⟩

/-- With a body open, the blocks around it are all there is to know. -/
theorem of_open (above : List Frame) {below : List Frame} {f : Frame} (hb : a.body.isSome = true)
    (hs : a.stack = above ++ f :: below) (hf : f.isStructural = true) (ho : f.opened = true)
    (hbelow : ∀ g ∈ below, g.IsRefusedControl)
    (habove : ∀ g ∈ above, g.isStructural = false ∨ g.opened = false) : a.StackShape := by
  refine ⟨?_, fun _ => ⟨above, f, below, hs, hf, ho, hbelow, habove⟩⟩
  intro hn
  rw [hn] at hb
  cases hb

theorem of_closed (hb : a.body = none) (hs : ∀ f ∈ a.stack, f.IsRefusedControl) :
    a.StackShape := by
  refine ⟨fun _ => hs, ?_⟩
  intro h
  rw [hb] at h
  cases h

/-- The shape depends on the stack and on whether a body is open. -/
theorem congr (h : a.StackShape) (hb : a'.body.isSome = a.body.isSome) (hs : a'.stack = a.stack) :
    a'.StackShape := by
  cases hn : a.body with
  | none =>
    rw [hn] at hb
    exact of_closed (by simpa using hb) (hs ▸ h.closed hn)
  | some b =>
    rw [hn] at hb
    obtain ⟨above, f, below, he, hf, ho, hbelow, habove⟩ := h.opened (by rw [hn]; rfl)
    exact of_open above hb (hs.trans he) hf ho hbelow habove

/-- Inside a body there may come control blocks and refused structural ones. -/
theorem push_inside {f : Frame} (h : a.StackShape) (hf : f.isStructural = false ∨ f.opened = false)
    (hb : a.body.isSome = true) (hb' : a'.body.isSome = true) (hs : a'.stack = f :: a.stack) :
    a'.StackShape := by
  obtain ⟨above, e, below, he, hes, heo, hbelow, habove⟩ := h.opened hb
  refine of_open (f :: above) hb' (by rw [hs, he]; rfl) hes heo hbelow ?_
  intro g hg
  rcases List.mem_cons.mp hg with rfl | hg
  · exact hf
  · exact habove g hg

/-- Outside a body there may come refused control blocks. -/
theorem push_outside {f : Frame} (h : a.StackShape) (hf : f.IsRefusedControl)
    (hb : a.body = none) (hb' : a'.body = none) (hs : a'.stack = f :: a.stack) :
    a'.StackShape := by
  refine of_closed hb' ?_
  intro g hg
  rw [hs] at hg
  rcases List.mem_cons.mp hg with rfl | hg
  · exact hf
  · exact h.closed hb g hg

/-- A structural block opens over refused control blocks. -/
theorem push_structure {f : Frame} (h : a.StackShape) (hb : a.body = none)
    (hf : f.isStructural = true) (ho : f.opened = true) (hb' : a'.body.isSome = true)
    (hs : a'.stack = f :: a.stack) : a'.StackShape :=
  of_open [] hb' hs hf ho (h.closed hb) (by simp)

/-- A block that is not an opened structural one lies above the block of the open body, if a body is
open; the blocks below it fit as before. -/
theorem pop {f : Frame} {fs : List Frame} (h : a.StackShape) (hs : a.stack = f :: fs)
    (hf : f.isStructural = false ∨ f.opened = false) (hb : a'.body.isSome = a.body.isSome)
    (hs' : a'.stack = fs) : a'.StackShape := by
  cases hn : a.body with
  | none =>
    rw [hn] at hb
    refine of_closed (by simpa using hb) ?_
    intro g hg
    rw [hs'] at hg
    exact h.closed hn g (by rw [hs]; exact List.mem_cons_of_mem f hg)
  | some b =>
    rw [hn] at hb
    obtain ⟨above, e, below, he, hes, heo, hbelow, habove⟩ := h.opened (by rw [hn]; rfl)
    rw [hs] at he
    cases above with
    | nil =>
      cases he
      rcases hf with hf | hf
      · rw [hes] at hf; cases hf
      · rw [heo] at hf; cases hf
    | cons g above =>
      cases he
      exact of_open above hb hs' hes heo hbelow fun g hg => habove g (List.mem_cons_of_mem _ hg)

/-- An opened structural block is the innermost one only if nothing is open but it. -/
theorem pop_structure {f : Frame} {fs : List Frame} (h : a.StackShape) (hs : a.stack = f :: fs)
    (hf : f.isStructural = true) (ho : f.opened = true) (hb : a'.body = none)
    (hs' : a'.stack = fs) : a'.StackShape := by
  refine of_closed hb ?_
  rw [hs']
  cases hn : a.body with
  | none =>
    have hfc := (h.closed hn f (by simp [hs])).1
    rw [hf] at hfc
    cases hfc
  | some b =>
    obtain ⟨above, e, below, he, hes, heo, hbelow, habove⟩ := h.opened (by rw [hn]; rfl)
    rw [hs] at he
    cases above with
    | nil => cases he; exact hbelow
    | cons g above =>
      cases he
      rcases habove f (by simp) with hc | hc
      · rw [hf] at hc; cases hc
      · rw [ho] at hc; cases hc

/-- Every step keeps the shape. -/
theorem step {line : Int} {code : List Char} {c : BlockLine} {is : List Instr} (h : a.StackShape)
    (step : a.Step line code c is a') : a'.StackShape := by
  cases step with
  | setup hb | loop hb | function f name hb | detached name hb =>
    exact h.push_structure hb rfl rfl rfl rfl
  | nested hc hb => exact h.push_inside (.inr rfl) hb hb rfl
  | pin => exact h
  | stray o hb => exact h.push_outside ⟨Frame.control_isStructural o line false, rfl⟩ hb hb rfl
  | refused o hb => exact h.push_inside (.inr rfl) hb hb rfl
  | @control t o b is ids hb =>
    exact h.push_inside (.inl (Frame.control_isStructural o line true)) (by rw [hb]; rfl)
      (write_body is hb) rfl
  | @otherwise b top below hb hs hk =>
    have hsome : a.body.isSome = true := by rw [hb]; rfl
    have htop : top.isStructural = false := by simp [Frame.isStructural, hk, BlockKind.isStructural]
    have hpop : StackShape { a with stack := below } := h.pop hs (.inl htop) rfl rfl
    exact hpop.push_inside (f := { top with hasAlternate := true }) (.inl htop) hsome
      (write_body _ hb) rfl
  | endRefused hs ho => exact h.pop hs (.inr ho) rfl rfl
  | endStructure hs ho hk => exact h.pop_structure hs hk ho rfl rfl
  | endControl hs ho hk hb =>
    exact h.pop hs (.inl hk) ((write_body _ hb).trans (by rw [hb]; rfl)) rfl
  | statement hb => exact h.congr ((write_body _ hb).trans (by rw [hb]; rfl)) (write_stack _ _ _)
  | unknownCommand | rejected => exact h.congr rfl rfl

/-- An opened control block always has a body to write to. -/
theorem not_lacksBody (h : a.StackShape) : ¬ a.LacksBody := by
  rintro ⟨hb, top, below, hs, ho, -⟩
  have hf := (h.closed hb top (by simp [hs])).2
  rw [ho] at hf
  cases hf

end StackShape

/-- Whatever lines of a script the second pass has taken, the stack has the shape that the open body
asks for; and if it stops, then not for want of a body. -/
theorem stackShape_takeLines (t : Session) (lines : List (List Char)) (k : Nat) :
    match Assemble.takeLines (Line.numbered (lines.take k)) { session := t } with
    | .ok _ a => a.StackShape
    | .error f _ => f ≠ .noOpenBody := by
  have run : ∀ {ls a}, Assemble.takeLines ls { session := t } = .ok () a → a.StackShape :=
    fun h => Assemble.takeLines_invariant (fun _ _ _ _ _ ha hs => ha.step hs) (.start t) h
  split
  next a h => exact run h
  next f a h =>
    intro hf
    obtain ⟨taken, line, code, rest, b, -, ht, he⟩ := Assemble.takeLines_error h
    have outcome := Assemble.takeLine_outcome line code b
    rw [he] at outcome
    exact (run ht).not_lacksBody (outcome.2 hf)

end Assembly
end PlainSketch
