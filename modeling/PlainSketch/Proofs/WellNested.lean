import Mathlib.Data.List.Induction

/-!
# Well-nested sequences

Blocks that open and close, some of which may have a second branch. The grammar says which sequences
are well nested; the machine reads a sequence from left to right and keeps the open blocks. The two
agree: what the machine has read is always a beginning of a well-nested sequence
(`exists_wellNested_of_follow`), and it ends with nothing open exactly on the well-nested sequences
(`follow_eq_nil_iff`). Scripts and the bodies of a sketch are both nested like this.
-/
namespace PlainSketch

/-- What an item of a sequence does to the nesting. -/
inductive Mark where
  | plain
  /-- Opens a block, which may have a second branch or not. -/
  | opens (branching : Bool)
  /-- Starts the second branch. -/
  | alternates
  | closes
  /-- Has no place in a well-nested sequence. -/
  | foreign
deriving DecidableEq, Repr

def Mark.isOpening : Mark → Bool
  | opens _ => true
  | _ => false

variable {α : Type} {mark : α → Mark}

/-- Plain items and whole blocks, one after the other. -/
inductive WellNested (mark : α → Mark) : List α → Prop
  | nil : WellNested mark []
  | plain {x : α} {w : List α} (hx : mark x = .plain) (hw : WellNested mark w) :
      WellNested mark (x :: w)
  | block {x y : α} {m : Bool} {b w : List α} (hx : mark x = .opens m) (hb : WellNested mark b)
      (hy : mark y = .closes) (hw : WellNested mark w) : WellNested mark (x :: b ++ y :: w)
  | branches {x e y : α} {b b' w : List α} (hx : mark x = .opens true) (hb : WellNested mark b)
      (he : mark e = .alternates) (hb' : WellNested mark b') (hy : mark y = .closes)
      (hw : WellNested mark w) : WellNested mark (x :: b ++ e :: b' ++ y :: w)

theorem WellNested.append {v w : List α} (hv : WellNested mark v) (hw : WellNested mark w) :
    WellNested mark (v ++ w) := by
  induction hv with
  | nil => exact hw
  | plain hx _ ih => exact .plain hx ih
  | block hx hb hy _ _ ih =>
    rw [List.append_assoc]
    exact .block hx hb hy ih
  | branches hx hb he hb' hy _ _ _ ih =>
    rw [List.append_assoc]
    exact .branches hx hb he hb' hy ih

theorem WellNested.of_plain {w : List α} (h : ∀ x ∈ w, mark x = .plain) : WellNested mark w := by
  induction w with
  | nil => exact .nil
  | cons x w ih => exact .plain (h x (by simp)) (ih fun y hy => h y (List.mem_cons_of_mem x hy))

theorem WellNested.ne_foreign {w : List α} (h : WellNested mark w) :
    ∀ x ∈ w, mark x ≠ .foreign := by
  induction h with
  | nil => simp
  | plain hx _ ih =>
    intro z hz
    rcases List.mem_cons.mp hz with rfl | hz
    · simp [hx]
    · exact ih z hz
  | block hx _ hy _ ihb ihw =>
    intro z hz
    simp only [List.cons_append, List.mem_cons, List.mem_append] at hz
    rcases hz with rfl | hz | rfl | hz
    · simp [hx]
    · exact ihb z hz
    · simp [hy]
    · exact ihw z hz
  | branches hx _ he _ hy _ ihb ihb' ihw =>
    intro z hz
    simp only [List.cons_append, List.append_assoc, List.mem_cons, List.mem_append] at hz
    rcases hz with rfl | hz | rfl | hz | rfl | hz
    · simp [hx]
    · exact ihb z hz
    · simp [he]
    · exact ihb' z hz
    · simp [hy]
    · exact ihw z hz

namespace Nesting

/-- The open blocks after one more item, the innermost first; each says whether it may still have a
second branch. There are none if the item is out of place. -/
def advance (mark : α → Mark) (st : List Bool) (x : α) : Option (List Bool) :=
  match mark x, st with
  | .plain, st => some st
  | .opens m, st => some (m :: st)
  | .alternates, true :: st => some (false :: st)
  | .closes, _ :: st => some st
  | _, _ => none

/-- The open blocks after a sequence of items. -/
def follow (mark : α → Mark) (st : List Bool) (w : List α) : Option (List Bool) :=
  w.foldlM (advance mark) st

@[simp] theorem follow_nil (st : List Bool) : follow mark st [] = some st := rfl

@[simp] theorem follow_cons (st : List Bool) (x : α) (w : List α) :
    follow mark st (x :: w) = (advance mark st x).bind fun st' => follow mark st' w := by
  rw [follow, List.foldlM_cons]
  rfl

theorem follow_append (st : List Bool) (v w : List α) :
    follow mark st (v ++ w) = (follow mark st v).bind fun st' => follow mark st' w := by
  rw [follow, List.foldlM_append]
  rfl

section Advance
variable {x : α} {m : Bool} (st : List Bool)

theorem advance_plain (h : mark x = .plain) : advance mark st x = some st := by
  simp [advance, h]

theorem advance_opens (h : mark x = .opens m) : advance mark st x = some (m :: st) := by
  simp [advance, h]

theorem advance_alternates (h : mark x = .alternates) :
    advance mark (true :: st) x = some (false :: st) := by
  simp [advance, h]

theorem advance_closes (h : mark x = .closes) : advance mark (m :: st) x = some st := by
  simp [advance, h]

theorem follow_cons_plain (h : mark x = .plain) (w : List α) :
    follow mark st (x :: w) = follow mark st w := by
  rw [follow_cons, advance_plain st h]
  rfl

theorem follow_cons_opens (h : mark x = .opens m) (w : List α) :
    follow mark st (x :: w) = follow mark (m :: st) w := by
  rw [follow_cons, advance_opens st h]
  rfl

theorem follow_cons_alternates (h : mark x = .alternates) (w : List α) :
    follow mark (true :: st) (x :: w) = follow mark (false :: st) w := by
  rw [follow_cons, advance_alternates st h]
  rfl

theorem follow_cons_closes (h : mark x = .closes) (w : List α) :
    follow mark (m :: st) (x :: w) = follow mark st w := by
  rw [follow_cons, advance_closes st h]
  rfl

end Advance

/-- Everything that an item in place can do to the open blocks. -/
inductive Advances (mark : α → Mark) (x : α) : List Bool → List Bool → Prop
  | plain {st : List Bool} (h : mark x = .plain) : Advances mark x st st
  | opens {m : Bool} {st : List Bool} (h : mark x = .opens m) : Advances mark x st (m :: st)
  | alternates {st : List Bool} (h : mark x = .alternates) :
      Advances mark x (true :: st) (false :: st)
  | closes {m : Bool} {st : List Bool} (h : mark x = .closes) : Advances mark x (m :: st) st

theorem advances_of_advance {x : α} {st st' : List Bool} (h : advance mark st x = some st') :
    Advances mark x st st' := by
  cases hm : mark x with
  | plain =>
    rw [advance_plain st hm] at h
    cases h
    exact .plain hm
  | opens m =>
    rw [advance_opens st hm] at h
    cases h
    exact .opens hm
  | alternates =>
    rcases st with _ | ⟨_ | _, st⟩
    · simp [advance, hm] at h
    · simp [advance, hm] at h
    · rw [advance_alternates st hm] at h
      cases h
      exact .alternates hm
  | closes =>
    cases st with
    | nil => simp [advance, hm] at h
    | cons m st =>
      rw [advance_closes st hm] at h
      cases h
      exact .closes hm
  | foreign => simp [advance, hm] at h

/-- Blocks that are open further out make no difference to an item that is in place. -/
theorem advance_append {x : α} {st st' : List Bool} (h : advance mark st x = some st')
    (us : List Bool) : advance mark (st ++ us) x = some (st' ++ us) := by
  cases advances_of_advance h with
  | plain hm => exact advance_plain _ hm
  | opens hm => exact advance_opens _ hm
  | alternates hm => exact advance_alternates _ hm
  | closes hm => exact advance_closes _ hm

/-- An item that is in place among more blocks either belongs to the inner ones or, if there are
none of them, to the innermost of the outer ones. -/
theorem advance_append_cases {x : α} {st us st' : List Bool}
    (h : advance mark (st ++ us) x = some st') :
    (∃ u, advance mark st x = some u ∧ st' = u ++ us) ∨
      st = [] ∧ (mark x = .alternates ∨ mark x = .closes) := by
  generalize hw : st ++ us = w at h
  cases advances_of_advance h with
  | plain hm => exact .inl ⟨st, advance_plain st hm, hw.symm⟩
  | @opens m _ hm => exact .inl ⟨m :: st, advance_opens st hm, by rw [← hw]; rfl⟩
  | alternates hm =>
    cases st with
    | nil => exact .inr ⟨rfl, .inl hm⟩
    | cons m st =>
      cases hw
      exact .inl ⟨false :: st, advance_alternates st hm, rfl⟩
  | closes hm =>
    cases st with
    | nil => exact .inr ⟨rfl, .inr hm⟩
    | cons m st =>
      cases hw
      exact .inl ⟨st, advance_closes st hm, rfl⟩

/-- A well-nested sequence leaves the open blocks as they were. -/
theorem follow_wellNested {w : List α} (h : WellNested mark w) (st : List Bool) :
    follow mark st w = some st := by
  induction h generalizing st with
  | nil => rfl
  | plain hx _ ih =>
    rw [follow_cons_plain st hx]
    exact ih st
  | block hx _ hy _ ihb ihw =>
    rw [List.cons_append, follow_cons_opens st hx, follow_append, ihb, Option.bind_some,
      follow_cons_closes st hy]
    exact ihw st
  | branches hx _ he _ hy _ ihb ihb' ihw =>
    rw [List.append_assoc, List.cons_append, follow_cons_opens st hx, follow_append, ihb,
      Option.bind_some, List.cons_append, follow_cons_alternates st he, follow_append, ihb',
      Option.bind_some, follow_cons_closes st hy]
    exact ihw st

/-- A sequence read so far: a well-nested one inside each block that is still open. -/
inductive Pending (mark : α → Mark) : List Bool → List α → Prop
  | closed {w : List α} (hw : WellNested mark w) : Pending mark [] w
  | opened {x : α} {m : Bool} {st : List Bool} {w b : List α} (hw : Pending mark st w)
      (hx : mark x = .opens m) (hb : WellNested mark b) : Pending mark (m :: st) (w ++ x :: b)
  | alternated {x e : α} {st : List Bool} {w b b' : List α} (hw : Pending mark st w)
      (hx : mark x = .opens true) (hb : WellNested mark b) (he : mark e = .alternates)
      (hb' : WellNested mark b') : Pending mark (false :: st) (w ++ (x :: b ++ e :: b'))

/-- What is well nested may be added inside the innermost block. -/
theorem Pending.append {st : List Bool} {w v : List α} (h : Pending mark st w)
    (hv : WellNested mark v) : Pending mark st (w ++ v) := by
  cases h with
  | closed hw => exact .closed (hw.append hv)
  | opened hw hx hb =>
    rw [List.append_assoc]
    exact .opened hw hx (hb.append hv)
  | alternated hw hx hb he hb' =>
    rw [List.append_assoc, List.append_assoc]
    exact .alternated hw hx hb he (hb'.append hv)

/-- One more item. -/
theorem Pending.advance {st st' : List Bool} {w : List α} {x : α} (h : Pending mark st w)
    (hx : Nesting.advance mark st x = some st') : Pending mark st' (w ++ [x]) := by
  cases advances_of_advance hx with
  | plain hm => exact h.append (.plain hm .nil)
  | opens hm => exact .opened h hm .nil
  | alternates hm =>
    cases h with
    | opened hw hy hb =>
      rw [List.append_assoc]
      exact .alternated hw hy hb hm .nil
  | closes hm =>
    cases h with
    | opened hw hy hb =>
      rw [List.append_assoc]
      exact hw.append (.block hy hb hm .nil)
    | alternated hw hy hb he hb' =>
      rw [List.append_assoc]
      exact hw.append (.branches hy hb he hb' hm .nil)

/-- What the machine has read is pending with the blocks that it keeps. -/
theorem pending_of_follow {st : List Bool} {w : List α} (h : follow mark [] w = some st) :
    Pending mark st w := by
  induction w using List.reverseRecOn generalizing st with
  | nil =>
    cases h
    exact .closed .nil
  | append_singleton w x ih =>
    rw [follow_append] at h
    obtain ⟨u, hu, hx⟩ := Option.bind_eq_some_iff.mp h
    rw [follow_cons] at hx
    obtain ⟨v, hv, hn⟩ := Option.bind_eq_some_iff.mp hx
    cases hn
    exact (ih hu).advance hv

/-- The machine ends with nothing open exactly on the well-nested sequences. -/
theorem follow_eq_nil_iff {w : List α} : follow mark [] w = some [] ↔ WellNested mark w := by
  constructor
  · intro h
    cases pending_of_follow h with
    | closed hw => exact hw
  · intro h
    exact follow_wellNested h []

/-- Closing all that is open completes the sequence. -/
theorem follow_close {y : α} (hy : mark y = .closes) (st : List Bool) :
    follow mark st (List.replicate st.length y) = some [] := by
  induction st with
  | nil => rfl
  | cons m st ih =>
    rw [List.length_cons, List.replicate_succ, follow_cons_closes st hy]
    exact ih

/-- What the machine has read is the beginning of a well-nested sequence. -/
theorem exists_wellNested_of_follow {y : α} (hy : mark y = .closes) {st : List Bool} {w : List α}
    (h : follow mark [] w = some st) : ∃ v, WellNested mark (w ++ v) := by
  refine ⟨List.replicate st.length y, follow_eq_nil_iff.mp ?_⟩
  rw [follow_append, h]
  exact follow_close hy st

/-- Blocks opened and not closed. -/
def unclosed (mark : α → Mark) (w : List α) : Int :=
  w.countP (fun x => (mark x).isOpening) - w.countP fun x => mark x = .closes

/-- The open blocks are those opened and not closed. -/
theorem length_of_follow {st st' : List Bool} {w : List α} (h : follow mark st w = some st') :
    (st'.length : Int) = st.length + unclosed mark w := by
  induction w generalizing st with
  | nil =>
    cases h
    simp [unclosed]
  | cons x w ih =>
    rw [follow_cons] at h
    obtain ⟨u, hu, hw⟩ := Option.bind_eq_some_iff.mp h
    have hrest := ih hw
    have hstep : (u.length : Int) = st.length + unclosed mark [x] := by
      cases advances_of_advance hu with
      | plain hm | opens hm | alternates hm => simp [unclosed, hm, Mark.isOpening]
      | closes hm =>
        have hone : unclosed mark [x] = -1 := by simp [unclosed, hm, Mark.isOpening]
        rw [hone, List.length_cons]
        omega
    have hsplit : unclosed mark (x :: w) = unclosed mark [x] + unclosed mark w := by
      simp only [unclosed, List.countP_cons, List.countP_nil]
      omega
    omega

end Nesting
end PlainSketch
