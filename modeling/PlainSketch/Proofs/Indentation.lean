import PlainSketch.Proofs.InstrText
import PlainSketch.Sketch.Indent

/-!
# Indentation of well-nested lines

Indenting keeps a depth that goes up after an opening brace at the end of a line and down before
a closing one at its beginning. `Indent.Walks` says at which depth some lines end and below which
depth none of them stands, by what `indentFrom` makes of them and of the lines after them.
Well-nested lines come back to the depth at which they began and never stand further out.
-/
namespace PlainSketch
open Text

namespace Indent

/-- Lines that come at depth `d`: none of them stands at a depth below `low`, and what follows them
comes at depth `d'`. -/
def Walks (low d d' : Int) (lines : List (List Char)) : Prop :=
  ∃ ds : List Int, ds.length = lines.length ∧ (∀ e ∈ ds, low ≤ e) ∧ ∀ unit rest,
    indentFrom unit d (lines ++ rest) =
      List.zipWith (fun e l => margin unit e ++ l) ds lines ++ indentFrom unit d' rest

namespace Walks
variable {low low' d d' d'' : Int} {v w : List (List Char)}

theorem nil (low d : Int) : Walks low d d [] := ⟨[], rfl, by simp, fun _ _ => rfl⟩

theorem append (hv : Walks low d d' v) (hw : Walks low d' d'' w) : Walks low d d'' (v ++ w) := by
  obtain ⟨ds, hlen, hlow, hds⟩ := hv
  obtain ⟨es, helen, helow, hes⟩ := hw
  refine ⟨ds ++ es, by simp [hlen, helen], ?_, ?_⟩
  · intro e he
    rcases List.mem_append.mp he with he | he
    · exact hlow e he
    · exact helow e he
  · intro unit rest
    rw [List.append_assoc, hds, hes, List.zipWith_append hlen, List.append_assoc]

theorem mono (h : Walks low d d' v) (hl : low' ≤ low) : Walks low' d d' v := by
  obtain ⟨ds, hlen, hlow, hds⟩ := h
  exact ⟨ds, hlen, fun e he => Int.le_trans hl (hlow e he), hds⟩

/-- One line without blanks around it, which stands at depth `e`. -/
theorem line {l : List Char} {e : Int} (ht : trim l = l ∧ l ≠ []) (he : depthOf l d = e)
    (hd : depthAfter l e = d') (hlow : low ≤ e) : Walks low d d' [l] := by
  refine ⟨[e], rfl, by simpa using hlow, ?_⟩
  intro unit rest
  obtain ⟨c, cs, rfl⟩ := List.exists_cons_of_ne_nil ht.2
  rw [List.singleton_append, indentFrom, ht.1]
  simp only [he, hd]
  rfl

end Walks

end Indent

namespace Instr
open Indent

/-! ## Lines of a body -/

variable {i : Instr}

/-- Indenting sees the braces of a line as its mark does. -/
theorem depths_of_mark (i : Instr) (d : Int) :
    match i.mark with
    | .plain => depthOf i.text.toList d = d ∧ depthAfter i.text.toList d = d
    | .opens _ => depthOf i.text.toList d = d ∧ depthAfter i.text.toList d = d + 1
    | .alternates =>
      depthOf i.text.toList d = max 0 (d - 1) ∧ depthAfter i.text.toList d = d + 1
    | .closes => depthOf i.text.toList d = max 0 (d - 1) ∧ depthAfter i.text.toList d = d
    | .foreign => True := by
  unfold mark
  split_ifs with hclose helse hhead hlast
  · rw [hclose]
    exact ⟨rfl, rfl⟩
  · rw [helse]
    exact ⟨rfl, rfl⟩
  · trivial
  · simp [depthOf, depthAfter, hhead, hlast]
  · simp [depthOf, depthAfter, hhead, hlast]

theorem walks_plain (ht : i.IsTidy) (h : i.mark = .plain) (d : Int) :
    Walks d d d [i.text.toList] := by
  have hd := i.depths_of_mark d
  rw [h] at hd
  exact .line (trim_text ht) hd.1 hd.2 (Int.le_refl d)

theorem walks_opens {m : Bool} (ht : i.IsTidy) (h : i.mark = .opens m) (d : Int) :
    Walks d d (d + 1) [i.text.toList] := by
  have hd := i.depths_of_mark d
  rw [h] at hd
  exact .line (trim_text ht) hd.1 hd.2 (Int.le_refl d)

theorem walks_alternates (ht : i.IsTidy) (h : i.mark = .alternates) {d : Int} (hd : 0 ≤ d) :
    Walks d (d + 1) (d + 1) [i.text.toList] := by
  have hin := i.depths_of_mark (d + 1)
  have hout := i.depths_of_mark d
  rw [h] at hin hout
  refine .line (trim_text ht) ?_ hout.2 (Int.le_refl d)
  rw [hin.1]
  omega

theorem walks_closes (ht : i.IsTidy) (h : i.mark = .closes) {d : Int} (hd : 0 ≤ d) :
    Walks d (d + 1) d [i.text.toList] := by
  have hin := i.depths_of_mark (d + 1)
  have hout := i.depths_of_mark d
  rw [h] at hin hout
  refine .line (trim_text ht) ?_ hout.2 (Int.le_refl d)
  rw [hin.1]
  omega

/-- Well-nested lines never stand further out than where they began, and end there. -/
theorem walks_of_wellNested {is : List Instr} (h : WellNested mark is) (ht : ∀ i ∈ is, i.IsTidy)
    {d : Int} (hd : 0 ≤ d) : Walks d d d (is.map fun i => i.text.toList) := by
  induction h generalizing d with
  | nil => exact .nil d d
  | plain hx _ ih =>
    exact (walks_plain (ht _ (by simp)) hx d).append
      (ih (fun i hi => ht i (List.mem_cons_of_mem _ hi)) hd)
  | @block x y m b w hx _ hy _ ihb ihw =>
    have hb := ihb (fun i hi => ht i (by simp [hi])) (d := d + 1) (by omega)
    have hw := ihw (fun i hi => ht i (by simp [hi])) hd
    have hopen := walks_opens (ht x (by simp)) hx d
    have hclose := walks_closes (ht y (by simp)) hy hd
    have hall := (hopen.append (hb.mono (by omega))).append (hclose.append hw)
    simpa using hall
  | @branches x e y b b' w hx _ he _ hy _ ihb ihb' ihw =>
    have hb := ihb (fun i hi => ht i (by simp [hi])) (d := d + 1) (by omega)
    have hb' := ihb' (fun i hi => ht i (by simp [hi])) (d := d + 1) (by omega)
    have hw := ihw (fun i hi => ht i (by simp [hi])) hd
    have hopen := walks_opens (ht x (by simp)) hx d
    have halt := walks_alternates (ht e (by simp)) he hd
    have hclose := walks_closes (ht y (by simp)) hy hd
    have hfirst := hopen.append (hb.mono (by omega))
    have hsecond := halt.append (hb'.mono (by omega))
    have hall := (hfirst.append hsecond).append (hclose.append hw)
    simpa using hall

end Instr
end PlainSketch
