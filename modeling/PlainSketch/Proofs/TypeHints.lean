import PlainSketch.Proofs.Faultless
import PlainSketch.Proofs.SymbolPrefix

/-!
# A variable's type is the join of its hints

Whatever is asked of a symbol table, its entries stay: pins and functions as they were declared, and
variables in their order, at their lines and of types that are at most widened. The type of a
variable can be told from the calls alone. Every use of the name that is accepted hints at a type, a
plain mention hints at `long` if it is what makes the name a variable, and the type is the widest of
these hints, in whatever order they come.

From its first use on, the uses of a name are accepted all or none: a name that may be a variable
and is used becomes one, and keeps pins and functions from taking the name, while a name that may
not be one never will. So the uses of a variable can trade places.
-/
namespace PlainSketch
open Session

/-! ## Calls -/

/-- What can be asked of a symbol table. -/
inductive TableCall where
  | definePin (name : String) (literal : List Char)
  | defineFunction (name : String)
  | observe (name : String) (type : ValueType)
  | mention (name : String)
  | readPin (token : List Char)
  | resolvePin (words : List (List Char))
deriving DecidableEq, Repr

namespace TableCall

/-- The call as an operation on the session. -/
def operation : TableCall → Operation
  | definePin name literal => .definePin name literal
  | defineFunction name => .defineFunction name
  | observe name type => .observe name type
  | mention name => .mention name
  | readPin token => .readPin token
  | resolvePin words => .resolvePin words

/-- The session after the call, at a line. -/
def after (s : Session) (line : Int) (c : TableCall) : Session :=
  Build.after (c.operation.act line) s

/-- The name that the call would enter into the table. -/
def name? : TableCall → Option String
  | definePin name _ | defineFunction name | observe name _ | mention name => some name
  | readPin _ | resolvePin _ => none

/-- The type at which the call uses the variable. -/
def observed? (name : String) : TableCall → Option ValueType
  | observe n type => if n = name then some type else none
  | _ => none

/-- The type that the call hints at for the variable: that of a use that is accepted, or `long` for
a mention that makes the name a variable. -/
def hint? (name : String) (s : Session) (line : Int) : TableCall → Option ValueType
  | observe n type =>
    match Build.observeVariable n type line s with
    | .ok true _ => if n = name then some type else none
    | _ => none
  | mention n =>
    if n = name ∧ s.table.isVariable n = false ∧ ((mention n).after s line).table.isVariable n then
      some .long
    else none
  | _ => none

end TableCall

/-- The session after some calls, each at its line. -/
def Session.afterCalls (s : Session) (calls : List (Int × TableCall)) : Session :=
  s.perform (calls.map fun c => (c.1, c.2.operation))

/-- The types that some calls hint at for a variable, in the order of the calls. -/
def Session.hints (name : String) : Session → List (Int × TableCall) → List ValueType
  | _, [] => []
  | s, (line, c) :: calls => (c.hint? name s line).toList ++ hints name (c.after s line) calls

/-- The types at which some calls use a variable, whether they are accepted or not. -/
def TableCall.observations (name : String) (calls : List (Int × TableCall)) : List ValueType :=
  calls.filterMap (·.2.observed? name)

/-- The call with its line, unless it uses the variable. -/
def TableCall.besides (name : String) (c : Int × TableCall) : Option (Int × TableCall) :=
  if (c.2.observed? name).isSome then none else some c

/-- The type, if any, is one of the hints, and none of them is wider. -/
def ValueType.IsWidest (hints : List ValueType) : Option ValueType → Prop
  | none => hints = []
  | some type => type ∈ hints ∧ ∀ h ∈ hints, h.rank ≤ type.rank

/-! ## The widest of some types -/

namespace ValueType
variable {hints hints' : List ValueType} {widest widest' : Option ValueType}

theorem rank_injective {t u : ValueType} (h : t.rank = u.rank) : t = u := by
  cases t <;> cases u <;> first | rfl | cases h

theorem IsWidest.unique (h : IsWidest hints widest) (h' : IsWidest hints widest') :
    widest = widest' := by
  cases widest with
  | none =>
    obtain rfl : hints = [] := h
    cases widest' with
    | none => rfl
    | some u => cases h'.1
  | some t =>
    cases widest' with
    | none =>
      obtain rfl : hints = [] := h'
      cases h.1
    | some u => exact congrArg some (rank_injective (Nat.le_antisymm (h'.2 t h.1) (h.2 u h'.1)))

theorem IsWidest.perm (h : IsWidest hints widest) (hp : hints.Perm hints') :
    IsWidest hints' widest := by
  cases widest with
  | none =>
    obtain rfl : hints = [] := h
    exact List.nil_perm.mp hp
  | some t => exact ⟨hp.subset h.1, fun u hu => h.2 u (hp.symm.subset hu)⟩

/-- With one more hint, the join with it is the widest. -/
theorem IsWidest.concat (h : IsWidest hints widest) (type : ValueType) :
    IsWidest (hints ++ [type]) (some (join widest type)) := by
  cases widest with
  | none =>
    obtain rfl : hints = [] := h
    exact ⟨List.mem_singleton_self type, fun u hu => by rw [List.mem_singleton.mp hu]; rfl⟩
  | some t =>
    constructor
    · rw [join, widen]
      split
      · exact List.mem_append_right _ (List.mem_singleton_self type)
      · exact List.mem_append_left _ h.1
    · intro u hu
      rcases List.mem_append.mp hu with hu | hu
      · exact Nat.le_trans (h.2 u hu) (rank_le_widen_left t type)
      · rw [List.mem_singleton.mp hu]
        exact rank_le_widen_right t type

end ValueType

/-! ## What a call does to the table -/

namespace Build

/-- The table stays as it is, also when the step stops. -/
def LeavesTable {α : Type} (m : Build α) : Prop := ∀ s, (after m s).table = s.table

section
variable {α β : Type} {m : Build α} {f : α → Build β}

theorem leavesTable_pure (a : α) : LeavesTable (pure a : Build α) := fun _ => rfl

theorem leavesTable_report (line : Int) (p : Problem) : LeavesTable (report line p) := fun _ => rfl

theorem leavesTable_ofExcept (x : Except Fault α) : LeavesTable (ofExcept x) := by
  intro s
  cases x with
  | ok a => rfl
  | error f => rfl

theorem LeavesTable.bind (hm : LeavesTable m) (hf : ∀ a, LeavesTable (f a)) :
    LeavesTable (m >>= f) :=
  after_bind_of_trans (R := fun s t => t.table = s.table) (fun _ _ _ h h' => h'.trans h) hm hf

theorem leavesTable_table {g : SymbolTable → Build β} (hg : ∀ t, LeavesTable (g t)) :
    LeavesTable (table >>= g) := LeavesTable.bind (fun _ => rfl) hg

/-- A warning comes before the rest or not. -/
theorem leavesTable_warning {c : Prop} [Decidable c] (line : Int) (p : Problem)
    (hm : LeavesTable m) : LeavesTable (if c then report line p >>= fun _ => m else m) := by
  split
  · exact (leavesTable_report line p).bind fun _ => hm
  · exact hm

theorem after_drop (m : Build α) (s : Session) : after (m >>= fun _ => pure ()) s = after m s := by
  rw [after_bind, after]
  cases m s <;> rfl

end

theorem leavesTable_pinOfWord (token : List Char) (line : Int) :
    LeavesTable (pinOfWord token line) := by
  refine leavesTable_table fun t => ?_
  cases Line.analogLabel? token with
  | some label => exact leavesTable_warning line _ (leavesTable_pure _)
  | none =>
    dsimp only
    split
    · exact (leavesTable_ofExcept _).bind fun n =>
        leavesTable_warning line _ (leavesTable_pure _)
    · exact leavesTable_pure _

theorem leavesTable_resolvePin (words : List (List Char)) (line : Int) :
    LeavesTable (resolvePin words line) := by
  have missing : ∀ p : Problem, LeavesTable (do report line p; return (none : Option PinRef)) :=
    fun p => (leavesTable_report line p).bind fun _ => leavesTable_pure none
  unfold resolvePin
  cases words with
  | nil => exact missing _
  | cons w ws =>
    dsimp only
    split
    · cases ws with
      | nil => exact missing _
      | cons x _ =>
        refine (leavesTable_pinOfWord x line).bind fun r => ?_
        cases r with
        | none => exact missing _
        | some ref => exact leavesTable_pure _
    · refine (leavesTable_pinOfWord w line).bind fun r => ?_
      cases r with
      | none => exact missing _
      | some ref => exact leavesTable_pure _

/-- A declaration that stops at a fault enters nothing. -/
theorem definePin_error {name : String} {literal : List Char} {line : Int} {s t : Session}
    {e : Fault} (h : definePin name literal line s = .error e t) : t.table = s.table := by
  rcases bind_eq_error.mp h with h | ⟨u, s', hs, h⟩
  · cases h
  cases hs
  split at h
  · cases h
  split at h
  · cases h
  split at h
  · cases h
  split at h
  · cases h
  split at h
  · cases h
  rcases bind_eq_error.mp h with h | ⟨r, s', -, h⟩
  · have hleaves := leavesTable_pinOfWord literal line s
    rwa [after, h] at hleaves
  · cases r with
    | none => cases h
    | some ref => cases h

/-- A line that stops at a fault enters nothing. -/
theorem outlineLine_error {depth : Nat} {line : Int} {c : OutlineLine} {s t : Session} {e : Fault}
    (h : outlineLine depth line c s = .error e t) : t.table = s.table := by
  obtain ⟨m, d, hact, he⟩ := outlineLine_acts depth line c
  rw [he] at h
  have hm : m s = .error e t := by
    rcases bind_eq_error.mp h with hm | ⟨_, u, -, hpure⟩
    · exact hm
    · cases hpure
  cases hact with
  | opener | closer | neutral | other | innerFunction | pinRefused | assignmentRefused => cases hm
  | function name =>
    exact absurd hm ((defineFunction_succeeds name line).bind fun _ => succeeds_pure ()).ne_error
  | pin name value | pinAssignment name value =>
    rcases bind_eq_error.mp hm with hdef | ⟨b, u, -, hpure⟩
    · exact definePin_error hdef
    · cases hpure
  | writes name type => exact absurd hm (seed_succeeds name type line).ne_error

end Build

namespace TableCall
variable {name : String} {s : Session} {line : Int} {c : TableCall}

/-- What a call can do. Only the last case gives a hint. -/
inductive Effect (s : Session) (line : Int) (c : TableCall) : SymbolTable → Prop
  | nothing (hnone : ∀ name, c.hint? name s line = none) : Effect s line c s.table
  | pin (p : Pin) (hname : c.name? = some p.name) (hnone : ∀ name, c.hint? name s line = none) :
      Effect s line c (s.table.addPin p)
  | function (f : Function) (hname : c.name? = some f.name)
      (hnone : ∀ name, c.hint? name s line = none) : Effect s line c (s.table.addFunction f)
  | use (n : String) (type : ValueType) {t : SymbolTable} (hname : c.name? = some n)
      (hallows : s.table.Allows n)
      (hsome : ∀ name, c.hint? name s line = if n = name then some type else none)
      (hretypes : s.table.Retypes n (ValueType.join (s.table.typeOf? n) type) t) : Effect s line c t

theorem hint?_observe_of_allows {n : String} (h : s.table.Allows n) (type : ValueType)
    (line : Int) (name : String) :
    (observe n type).hint? name s line = (observe n type).observed? name := by
  obtain ⟨t, ht, -⟩ := Build.observeVariable_of_allows h type line
  rw [hint?, ht]
  rfl

theorem hint?_observe_of_not_allows {n : String} (h : ¬ s.table.Allows n) (type : ValueType)
    (line : Int) (name : String) : (observe n type).hint? name s line = none := by
  obtain ⟨t, ht, -⟩ := Build.observeVariable_of_not_allows h type line
  rw [hint?, ht]

theorem after_observe (s : Session) (line : Int) (n : String) (type : ValueType) :
    (observe n type).after s line = Build.after (Build.observeVariable n type line) s :=
  Build.after_drop _ s

theorem effect_observe (s : Session) (line : Int) (n : String) (type : ValueType) :
    Effect s line (observe n type) ((observe n type).after s line).table := by
  rw [after_observe]
  by_cases h : s.table.Allows n
  · obtain ⟨t, ht, -, hretypes⟩ := Build.observeVariable_of_allows h type line
    rw [Build.after_of_ok ht]
    exact .use n type rfl h (hint?_observe_of_allows h type line) hretypes
  · obtain ⟨t, ht, htable, -⟩ := Build.observeVariable_of_not_allows h type line
    rw [Build.after_of_ok ht, htable]
    exact .nothing (hint?_observe_of_not_allows h type line)

/-- A mention of a pin or a variable does nothing, and any other is a use at type `long`. -/
theorem after_mention (s : Session) (line : Int) (n : String) :
    (mention n).after s line =
      if s.table.isPin n || s.table.isVariable n then s else (observe n .long).after s line := by
  rw [after_observe]
  refine (Build.after_drop _ s).trans ?_
  show Build.after (if _ then _ else _) s = _
  split
  · rfl
  · rfl

theorem effect_mention (s : Session) (line : Int) (n : String) :
    Effect s line (mention n) ((mention n).after s line).table := by
  -- A mention that leaves the table alone made nothing a variable.
  have idle : ((mention n).after s line).table = s.table →
      Effect s line (mention n) ((mention n).after s line).table := by
    intro h
    have hnone : ∀ name, (mention n).hint? name s line = none := by
      intro name
      rw [hint?, h, if_neg]
      rintro ⟨-, hbefore, hafter⟩
      rw [hbefore] at hafter
      cases hafter
    rw [h]
    exact .nothing hnone
  have hafter := after_mention s line n
  split at hafter
  · exact idle (by rw [hafter])
  next hknown =>
  have hnew : s.table.isVariable n = false := by
    rw [Bool.eq_false_iff]
    exact fun hv => hknown (Bool.or_eq_true_iff.mpr (.inr hv))
  rw [after_observe] at hafter
  by_cases h : s.table.Allows n
  · obtain ⟨t, ht, -, hretypes⟩ := Build.observeVariable_of_allows h .long line
    rw [Build.after_of_ok ht] at hafter
    have hvar : t.table.isVariable n = true := by
      rw [SymbolTable.isVariable_eq_typeOf?, hretypes.self]
      rfl
    refine .use n .long rfl h (fun name => ?_) (hafter ▸ hretypes)
    simp only [hint?, hafter, hnew, hvar, and_true]
  · obtain ⟨t, ht, htable, -⟩ := Build.observeVariable_of_not_allows h .long line
    exact idle (by rw [hafter, Build.after_of_ok ht, htable])

/-- What a call does to the table is one of the effects. -/
theorem effect (s : Session) (line : Int) (c : TableCall) :
    Effect s line c (c.after s line).table := by
  cases c with
  | definePin name literal =>
    have hafter : (definePin name literal).after s line =
        Build.after (Build.definePin name literal line) s := Build.after_drop _ s
    cases h : Build.definePin name literal line s with
    | error e t =>
      rw [hafter, Build.after, h]
      exact Build.definePin_error h ▸ .nothing fun _ => rfl
    | ok b t =>
      rw [hafter, Build.after_of_ok h]
      rcases Build.definePin_ok h with ⟨-, hrefused, -⟩ | ⟨-, -, ref, -, htable⟩
      · exact hrefused ▸ .nothing fun _ => rfl
      · exact htable ▸ .pin _ rfl fun _ => rfl
  | defineFunction name =>
    have hafter : (defineFunction name).after s line =
        Build.after (Build.defineFunction name line) s := Build.after_drop _ s
    obtain ⟨b, t, h⟩ := Build.defineFunction_succeeds name line s
    rw [hafter, Build.after_of_ok h]
    rcases Build.defineFunction_ok h with ⟨-, hrefused, -⟩ | ⟨-, -, htable⟩
    · exact hrefused ▸ .nothing fun _ => rfl
    · exact htable ▸ .function _ rfl fun _ => rfl
  | observe name type => exact effect_observe s line name type
  | mention name => exact effect_mention s line name
  | readPin token =>
    have hafter : (readPin token).after s line = Build.after (Build.pinOfWord token line) s :=
      Build.after_drop _ s
    rw [hafter, Build.leavesTable_pinOfWord token line s]
    exact .nothing fun _ => rfl
  | resolvePin words =>
    have hafter : (resolvePin words).after s line = Build.after (Build.resolvePin words line) s :=
      Build.after_drop _ s
    rw [hafter, Build.leavesTable_resolvePin words line s]
    exact .nothing fun _ => rfl

/-! ## Hints of one call -/

/-- A call moves the type of a variable to the join with its hint. -/
theorem typeOf?_after (name : String) (s : Session) (line : Int) (c : TableCall) :
    (c.after s line).table.typeOf? name =
      ((c.hint? name s line).map (ValueType.join (s.table.typeOf? name))).or
        (s.table.typeOf? name) := by
  have heffect := effect s line c
  generalize (c.after s line).table = t at heffect
  cases heffect with
  | nothing hnone => rw [hnone]; rfl
  | pin p _ hnone => rw [hnone]; rfl
  | function f _ hnone => rw [hnone]; rfl
  | use n type _ _ hsome hretypes =>
    rw [hsome]
    by_cases hn : n = name
    · subst hn
      rw [hretypes.self, if_pos rfl]
      rfl
    · rw [hretypes.others name (Ne.symm hn), if_neg hn]
      rfl

/-- Hints are given for names that may be variables. -/
theorem allows_of_hint? {type : ValueType} (h : c.hint? name s line = some type) :
    s.table.Allows name := by
  have heffect := effect s line c
  generalize (c.after s line).table = t at heffect
  cases heffect with
  | nothing hnone | pin _ _ hnone | function _ _ hnone =>
    rw [hnone] at h
    cases h
  | use n _ _ hallows hsome _ =>
    rw [hsome] at h
    split at h
    · next hn => exact hn ▸ hallows
    · cases h

/-- Hints are given for the name that the call is about. -/
theorem hint?_eq_none_of_name?_ne (h : c.name? ≠ some name) (s : Session) (line : Int) :
    c.hint? name s line = none := by
  have heffect := effect s line c
  generalize (c.after s line).table = t at heffect
  cases heffect with
  | nothing hnone | pin _ _ hnone | function _ _ hnone => exact hnone name
  | use n _ hname _ hsome _ =>
    rw [hsome, if_neg]
    rintro rfl
    exact h hname

theorem observed?_eq_none_of_name?_ne (h : c.name? ≠ some name) : c.observed? name = none := by
  cases c with
  | definePin | defineFunction | mention | readPin | resolvePin => rfl
  | observe n type =>
    refine if_neg ?_
    rintro rfl
    exact h rfl

/-- Calls about other names leave a name to variables. -/
theorem allows_after (h : s.table.Allows name) (hc : c.name? ≠ some name) :
    (c.after s line).table.Allows name := by
  obtain ⟨hid, hres, hpin, hfun⟩ := h
  have heffect := effect s line c
  generalize (c.after s line).table = t at heffect
  cases heffect with
  | nothing => exact ⟨hid, hres, hpin, hfun⟩
  | pin p hname =>
    have hother : p.name ≠ name := fun he => hc (he ▸ hname)
    refine ⟨hid, hres, ?_, hfun⟩
    simpa [SymbolTable.isPin, SymbolTable.findPin?, SymbolTable.addPin, hother] using hpin
  | function f hname =>
    have hother : f.name ≠ name := fun he => hc (he ▸ hname)
    refine ⟨hid, hres, hpin, ?_⟩
    simpa [SymbolTable.isFunction, SymbolTable.findFunction?, SymbolTable.addFunction, hother]
      using hfun
  | use n type hname hallows hsome hretypes =>
    refine ⟨hid, ?_, ?_, ?_⟩
    · rwa [SymbolTable.isReserved, hretypes.reserved]
    · rwa [SymbolTable.isPin, SymbolTable.findPin?, hretypes.pins]
    · rwa [SymbolTable.isFunction, SymbolTable.findFunction?, hretypes.functions]

/-- A use makes a name that may be a variable one. -/
theorem isVariable_after_observe (h : s.table.Allows name) (type : ValueType) (line : Int) :
    ((observe name type).after s line).table.isVariable name = true := by
  rw [SymbolTable.isVariable_eq_typeOf?, typeOf?_after, hint?_observe_of_allows h, observed?,
    if_pos rfl]
  rfl

/-- The hints for a variable are its uses. -/
theorem hint?_of_isVariable (hs : s.table.Exclusive) (h : s.table.isVariable name = true)
    (line : Int) (c : TableCall) : c.hint? name s line = c.observed? name := by
  by_cases hc : c.name? = some name
  · cases c with
    | definePin | defineFunction | readPin | resolvePin => rfl
    | observe n type =>
      obtain rfl : n = name := Option.some.inj hc
      exact hint?_observe_of_allows (hs.allows h) type line n
    | mention n =>
      obtain rfl : n = name := Option.some.inj hc
      refine if_neg ?_
      rintro ⟨-, hnew, -⟩
      rw [h] at hnew
      cases hnew
  · rw [hint?_eq_none_of_name?_ne hc, observed?_eq_none_of_name?_ne hc]

theorem exists_observe_of_isSome (h : (c.observed? name).isSome) :
    ∃ type, c = observe name type := by
  cases c with
  | definePin | defineFunction | mention | readPin | resolvePin => cases h
  | observe n type =>
    rw [observed?] at h
    split at h
    · next hn => exact ⟨type, hn ▸ rfl⟩
    · cases h

theorem observations_cons (name : String) (line : Int) (c : TableCall)
    (calls : List (Int × TableCall)) :
    observations name ((line, c) :: calls) =
      (c.observed? name).toList ++ observations name calls := by
  rw [observations, List.filterMap_cons]
  cases c.observed? name <;> rfl

theorem besides_eq_none_iff {c : Int × TableCall} :
    besides name c = none ↔ (c.2.observed? name).isSome := by
  simp only [besides, ite_eq_left_iff, reduceCtorEq, imp_false, not_not]

theorem eq_of_besides_eq_some {c c' : Int × TableCall} (h : besides name c = some c') : c = c' := by
  simp only [besides, Option.ite_none_left_eq_some] at h
  exact Option.some.inj h.2

theorem after_extends (s : Session) (line : Int) (c : TableCall) : s.Extends (c.after s line) :=
  c.operation.act_extending line s

end TableCall

/-! ## Hints of a sequence of calls -/

namespace Session
open TableCall
variable {name : String} {s : Session} {calls calls' : List (Int × TableCall)}

theorem afterCalls_cons (s : Session) (line : Int) (c : TableCall)
    (calls : List (Int × TableCall)) :
    s.afterCalls ((line, c) :: calls) = (c.after s line).afterCalls calls := rfl

theorem afterCalls_append (s : Session) (calls more : List (Int × TableCall)) :
    s.afterCalls (calls ++ more) = (s.afterCalls calls).afterCalls more := by
  rw [afterCalls, List.map_append, perform, List.foldl_append]
  rfl

theorem afterCalls_extends (s : Session) (calls : List (Int × TableCall)) :
    s.Extends (s.afterCalls calls) := s.perform_extends _

/-- If the type is the widest of some hints, it is the widest of these and those of the calls
afterwards. -/
theorem isWidest_afterCalls {hints : List ValueType}
    (h : ValueType.IsWidest hints (s.table.typeOf? name)) (calls : List (Int × TableCall)) :
    ValueType.IsWidest (hints ++ s.hints name calls)
      ((s.afterCalls calls).table.typeOf? name) := by
  induction calls generalizing s hints with
  | nil => exact (List.append_nil hints).symm ▸ h
  | cons c calls ih =>
    obtain ⟨line, c⟩ := c
    rw [afterCalls_cons, Session.hints, ← List.append_assoc]
    apply ih
    rw [typeOf?_after]
    cases c.hint? name s line with
    | none => simpa using h
    | some type => exact h.concat type

/-- A name that may not be a variable gets no hints. -/
theorem hints_of_not_allows (h : ¬ s.table.Allows name) (calls : List (Int × TableCall)) :
    s.hints name calls = [] := by
  induction calls generalizing s with
  | nil => rfl
  | cons c calls ih =>
    obtain ⟨line, c⟩ := c
    have hstays : ¬ (c.after s line).table.Allows name :=
      fun ha => h ((c.after_extends s line).table.allows ha)
    rw [Session.hints, ih hstays, List.append_nil]
    cases hc : c.hint? name s line with
    | none => rfl
    | some type => exact absurd (allows_of_hint? hc) h

/-- From when it is a variable, all uses of a name are accepted. -/
theorem hints_of_isVariable (hs : s.table.Exclusive) (h : s.table.isVariable name = true)
    (calls : List (Int × TableCall)) : s.hints name calls = observations name calls := by
  induction calls generalizing s with
  | nil => rfl
  | cons c calls ih =>
    obtain ⟨line, c⟩ := c
    have hext := (c.after_extends s line).table
    rw [Session.hints, ih (hs.grows hext) (hext.isVariable h), hint?_of_isVariable hs h,
      observations_cons]

/-- A name that may be a variable has all its uses accepted from the first one on. -/
theorem hints_observe (hs : s.table.Exclusive) (h : s.table.Allows name) (line : Int)
    (type : ValueType) (calls : List (Int × TableCall)) :
    s.hints name ((line, observe name type) :: calls) =
      observations name ((line, observe name type) :: calls) := by
  have hext := ((observe name type).after_extends s line).table
  rw [Session.hints, hint?_observe_of_allows h, observations_cons,
    hints_of_isVariable (hs.grows hext) (isVariable_after_observe h type line)]

/-- Uses of a variable that trade places give the same hints. -/
theorem hints_perm_of_besides (hs : s.table.Exclusive)
    (hcalls : calls.map (besides name) = calls'.map (besides name))
    (hperm : (observations name calls).Perm (observations name calls')) :
    (s.hints name calls).Perm (s.hints name calls') := by
  induction calls generalizing s calls' with
  | nil =>
    obtain rfl : calls' = [] := List.map_eq_nil_iff.mp hcalls.symm
    exact .refl _
  | cons c calls ih =>
    cases calls' with
    | nil => cases hcalls
    | cons c' calls' =>
      obtain ⟨hfirst, hrest⟩ := List.cons.inj hcalls
      cases hc : besides name c with
      | none =>
        -- The first use decides about all of them, in both sequences.
        obtain ⟨type, htype⟩ := exists_observe_of_isSome (besides_eq_none_iff.mp hc)
        obtain ⟨type', htype'⟩ := exists_observe_of_isSome (besides_eq_none_iff.mp (hfirst ▸ hc))
        obtain ⟨line, c⟩ := c
        obtain ⟨line', c'⟩ := c'
        cases htype
        cases htype'
        by_cases h : s.table.Allows name
        · rwa [hints_observe hs h, hints_observe hs h]
        · rw [hints_of_not_allows h, hints_of_not_allows h]
      | some d =>
        obtain rfl := eq_of_besides_eq_some hc
        obtain rfl := eq_of_besides_eq_some (hfirst ▸ hc)
        obtain ⟨line, c⟩ := c'
        have hext := (c.after_extends s line).table
        rw [observations_cons, observations_cons, List.perm_append_left_iff] at hperm
        exact (ih (hs.grows hext) hrest hperm).append_left _

/-- Where all calls about a name are uses of it, they are all accepted if the name may be a
variable. -/
theorem hints_of_allows (hs : s.table.Exclusive) (h : s.table.Allows name)
    (hcalls : ∀ c ∈ calls, c.2.name? = some name → (c.2.observed? name).isSome) :
    s.hints name calls = observations name calls := by
  induction calls generalizing s with
  | nil => rfl
  | cons c calls ih =>
    obtain ⟨line, c⟩ := c
    by_cases hc : c.name? = some name
    · obtain ⟨type, rfl⟩ := exists_observe_of_isSome (hcalls _ List.mem_cons_self hc)
      exact hints_observe hs h line type calls
    · have hext := (c.after_extends s line).table
      have hlater := ih (hs.grows hext) (allows_after h hc)
        fun d hd => hcalls d (List.mem_cons_of_mem _ hd)
      rw [Session.hints, observations_cons, hlater, hint?_eq_none_of_name?_ne hc,
        observed?_eq_none_of_name?_ne hc]

/-- Where all calls about a name are uses of it, the calls can come in any order. -/
theorem hints_perm_of_perm (hs : s.table.Exclusive)
    (hcalls : ∀ c ∈ calls, c.2.name? = some name → (c.2.observed? name).isSome)
    (hperm : calls.Perm calls') : (s.hints name calls).Perm (s.hints name calls') := by
  by_cases h : s.table.Allows name
  · rw [hints_of_allows hs h hcalls,
      hints_of_allows hs h fun c hc => hcalls c (hperm.symm.subset hc)]
    exact hperm.filterMap _
  · rw [hints_of_not_allows h, hints_of_not_allows h]

/-- From an empty table on, the type of every variable is the widest of its hints. -/
theorem isWidest_start (board : Board) (reserved : List String) (calls : List (Int × TableCall))
    (name : String) :
    ValueType.IsWidest ((Session.start board reserved).hints name calls)
      (((Session.start board reserved).afterCalls calls).table.typeOf? name) := by
  have hempty : ValueType.IsWidest [] ((Session.start board reserved).table.typeOf? name) := rfl
  exact isWidest_afterCalls hempty calls

theorem typeOf?_eq_of_hints_perm {board : Board} {reserved : List String}
    (h : ((Session.start board reserved).hints name calls).Perm
      ((Session.start board reserved).hints name calls')) :
    ((Session.start board reserved).afterCalls calls).table.typeOf? name =
      ((Session.start board reserved).afterCalls calls').table.typeOf? name :=
  ((isWidest_start board reserved calls name).perm h).unique
    (isWidest_start board reserved calls' name)

end Session

/-- **Symbols only grow, and a variable's type is the join of its hints.** Over any calls from an
empty table on, the pins, the functions and the variables there are come first in every later table,
with nothing changed but types, which widen. Variables are found by their names, and the type of a
name is the widest of the hints for it, so that a name without hints is no variable. The type is the
same when the uses of the name trade places, and if there are no other calls about the name, when
all the calls do. -/
theorem type_is_join_of_hints (board : Board) (reserved : List String)
    (calls : List (Int × TableCall)) :
    let start := Session.start board reserved
    let t := (start.afterCalls calls).table
    (∀ more, let u := (start.afterCalls (calls ++ more)).table
      t.pins <+: u.pins ∧ t.functions <+: u.functions ∧
        ∃ ws rest, u.vars = ws ++ rest ∧ List.Forall₂ Variable.Widens t.vars ws) ∧
    (∀ v ∈ t.vars, t.typeOf? v.name = some v.type) ∧
    (∀ name, ValueType.IsWidest (start.hints name calls) (t.typeOf? name)) ∧
    (∀ name calls', calls.map (TableCall.besides name) = calls'.map (TableCall.besides name) →
      (TableCall.observations name calls).Perm (TableCall.observations name calls') →
      (start.afterCalls calls').table.typeOf? name = t.typeOf? name) ∧
    ∀ name calls', (∀ c ∈ calls, c.2.name? = some name → (c.2.observed? name).isSome) →
      calls.Perm calls' → (start.afterCalls calls').table.typeOf? name = t.typeOf? name := by
  intro start t
  have hstart : start.table.Exclusive := SymbolTable.exclusive_start board reserved
  have hexcl : t.Exclusive := hstart.grows (start.afterCalls_extends calls).table
  refine ⟨fun more => ?_, fun v hv => ?_, Session.isWidest_start board reserved calls, ?_, ?_⟩
  · have hgrows := ((start.afterCalls calls).afterCalls_extends more).table
    rw [← start.afterCalls_append] at hgrows
    exact ⟨hgrows.keeps.pins, hgrows.keeps.functions, (hgrows.precedes hexcl).forall₂⟩
  · have hfound : t.findVariable? v.name = some v :=
      (SymbolTable.find?_key_eq_some_iff hexcl.vars).mpr ⟨hv, rfl⟩
    rw [SymbolTable.typeOf?, hfound]
    rfl
  · intro name calls' hcalls hperm
    exact (Session.typeOf?_eq_of_hints_perm
      (Session.hints_perm_of_besides hstart hcalls hperm)).symm
  · intro name calls' hcalls hperm
    exact (Session.typeOf?_eq_of_hints_perm
      (Session.hints_perm_of_perm hstart hcalls hperm)).symm

end PlainSketch
