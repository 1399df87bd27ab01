import PlainSketch.Proofs.WriteTypes

/-!
# Steps of the second pass that do not depend on the order of lines

What a statement does in the second pass depends on the session in one way only: a variable that is
new becomes a `long`, one that is known keeps its type or is widened to `long`. Which names may be
variables, which are pins and which are functions is settled by the first pass. So in all sessions
of a second pass that have no errors the statement gives the same answer and makes the same uses of
variables, or it is refused in all of them. `Build.Uniform` says this of a step, and
`Build.compositional_uniform` proves it for all steps that statements are made of. Uses commute, so
that the types at the end do not depend on the order in which the uses were made.
-/
namespace PlainSketch
open Session

/-! ## Uses of variables -/

/-- A plain mention of a variable, or a use that takes at least a `long`. -/
structure Use where
  name : String
  wide : Bool
deriving DecidableEq, Repr

namespace Use

/-- The type of the variable after the use. -/
def type (u : Use) (before : Option ValueType) : ValueType :=
  if u.wide then ValueType.join before .long else before.getD .long

/-- The types of all variables after the use. -/
def act (types : String → Option ValueType) (u : Use) : String → Option ValueType :=
  fun n => if n = u.name then some (u.type (types n)) else types n

theorem type_comm (u v : Use) (before : Option ValueType) :
    u.type (some (v.type before)) = v.type (some (u.type before)) := by
  obtain ⟨_, wide⟩ := u
  obtain ⟨_, wide'⟩ := v
  cases wide <;> cases wide' <;> cases before <;> rfl

theorem act_comm (types : String → Option ValueType) (u v : Use) :
    act (act types u) v = act (act types v) u := by
  funext n
  by_cases hu : n = u.name
  · by_cases hv : n = v.name
    · simp only [act, if_pos hu, if_pos hv, type_comm u v]
    · simp only [act, if_pos hu, if_neg hv]
  · by_cases hv : n = v.name
    · simp only [act, if_neg hu, if_pos hv]
    · simp only [act, if_neg hu, if_neg hv]

/-- The types of all variables after some uses. -/
def actAll (types : String → Option ValueType) (us : List Use) : String → Option ValueType :=
  us.foldl act types

theorem actAll_append (types : String → Option ValueType) (us vs : List Use) :
    actAll types (us ++ vs) = actAll (actAll types us) vs := List.foldl_append

theorem actAll_perm {us vs : List Use} (h : us.Perm vs) (types : String → Option ValueType) :
    actAll types us = actAll types vs :=
  h.foldl_eq' (fun u _ v _ types => act_comm types u v) types

/-- A mention of a variable that is known changes nothing. -/
theorem act_mention {types : String → Option ValueType} {name : String}
    (h : (types name).isSome = true) : act types ⟨name, false⟩ = types := by
  obtain ⟨type, htype⟩ := Option.isSome_iff_exists.mp h
  funext n
  by_cases hn : n = name
  · subst hn
    simp [act, Use.type, htype]
  · simp [act, hn]

end Use

/-! ## Tables of a second pass -/

namespace SymbolTable

/-- The table `u` belongs to a second pass that began with `t`, as far as it matters: the functions
may stand in another order and on other lines. -/
structure Follows (t u : SymbolTable) : Prop where
  board : u.board = t.board
  reserved : u.reserved = t.reserved
  pins : u.pins = t.pins
  isFunction : ∀ n, u.isFunction n = t.isFunction n
  exclusive : u.Exclusive
  known : ∀ n, t.isVariable n = true → u.isVariable n = true

section
variable {t u v : SymbolTable} {name : String} {type : ValueType}

theorem findPin?_congr (h : u.pins = t.pins) : u.findPin? = t.findPin? := by
  funext name
  simp only [findPin?, h]

theorem Follows.isPin (h : t.Follows u) (n : String) : u.isPin n = t.isPin n := by
  rw [SymbolTable.isPin, SymbolTable.isPin, findPin?_congr h.pins]

theorem Follows.allows_iff (h : t.Follows u) : u.Allows name ↔ t.Allows name := by
  simp only [Allows, isReserved, h.reserved, h.isPin, h.isFunction]

/-- A name that may not be a variable never becomes one. -/
theorem Follows.isVariable_eq_false (h : t.Follows u) (hn : ¬ t.Allows name) :
    u.isVariable name = false := by
  rw [Bool.eq_false_iff]
  exact fun hv => hn (h.allows_iff.mp (h.exclusive.allows hv))

theorem Follows.retypes (h : t.Follows u) (hr : u.Retypes name type v) (hg : u.Grows v) :
    t.Follows v where
  board := hr.board.trans h.board
  reserved := hr.reserved.trans h.reserved
  pins := hr.pins.trans h.pins
  isFunction n := by rw [← h.isFunction n, SymbolTable.isFunction, findFunction?, hr.functions]; rfl
  exclusive := h.exclusive.grows hg
  known n hn := hg.isVariable (h.known n hn)

theorem Retypes.types {u : Use} (h : t.Retypes u.name (u.type (t.typeOf? u.name)) v) :
    v.typeOf? = Use.act t.typeOf? u := by
  funext n
  by_cases hn : n = u.name
  · rw [Use.act, if_pos hn, hn, h.self]
  · rw [Use.act, if_neg hn, h.others n hn]

end
end SymbolTable

namespace Build
open SymbolTable

/-- How a run that goes well changes the session. -/
structure Ends (t : SymbolTable) (us : List Use) (s u : Session) : Prop where
  follows : t.Follows u.table
  accepted : s.Accepted → u.Accepted
  types : u.table.typeOf? = Use.actAll s.table.typeOf? us

/-- In all sessions of a second pass the step gives the same answer and makes the same uses, or it
is refused in all of them. -/
def Uniform (t : SymbolTable) {α : Type} (m : Int → Build α) : Prop :=
  (∀ line, Extending (m line)) ∧
    ((∃ a us, ∀ line s, t.Follows s.table → ∃ u, m line s = .ok a u ∧ Ends t us s u) ∨
      ∀ line s a u, t.Follows s.table → m line s = .ok a u → ¬ u.Accepted)

section
variable {t : SymbolTable} {α β : Type}

/-- One run without errors tells of all others. -/
theorem Uniform.of_accepted {m : Int → Build α} (h : Uniform t m) {line : Int} {s u : Session}
    {a : α} (hs : t.Follows s.table) (hm : m line s = .ok a u) (hacc : u.Accepted) :
    ∃ us, ∀ line s, t.Follows s.table → ∃ u, m line s = .ok a u ∧ Ends t us s u := by
  rcases h.2 with ⟨b, us, hall⟩ | hrefused
  · obtain ⟨v, hv, -⟩ := hall line s hs
    rw [hm] at hv
    cases hv
    exact ⟨us, hall⟩
  · exact absurd hacc (hrefused line s a u hs hm)

theorem Ends.refl {s : Session} (hs : t.Follows s.table) : Ends t [] s s := ⟨hs, id, rfl⟩

theorem Ends.trans {us vs : List Use} {s u v : Session} (h : Ends t us s u) (h' : Ends t vs u v) :
    Ends t (us ++ vs) s v :=
  ⟨h'.follows, h'.accepted ∘ h.accepted, by rw [h'.types, h.types, Use.actAll_append]⟩

/-- A change of the log or the findings, without an error. -/
theorem Ends.of_table {s u : Session} (hs : t.Follows s.table) (htable : u.table = s.table)
    (hacc : s.Accepted → u.Accepted) : Ends t [] s u :=
  ⟨by rwa [htable], hacc, by rw [htable]; rfl⟩

theorem Ends.log {us : List Use} {s u : Session} (h : Ends t us s u) (log : List Event) :
    Ends t us s { u with log } := ⟨h.follows, h.accepted, h.types⟩

theorem uniform_pure (a : α) : Uniform t fun _ => (pure a : Build α) :=
  ⟨fun _ => extending_pure a, .inl ⟨a, [], fun _ s hs => ⟨s, rfl, .refl hs⟩⟩⟩

theorem Uniform.bind {m : Int → Build α} {f : α → Int → Build β} (hm : Uniform t m)
    (hf : ∀ a, Uniform t (f a)) : Uniform t fun line => m line >>= fun a => f a line := by
  refine ⟨fun line => (hm.1 line).bind fun a => (hf a).1 line, ?_⟩
  rcases hm.2 with ⟨a, us, hrun⟩ | hrefused
  · rcases (hf a).2 with ⟨b, vs, hrun'⟩ | hrefused
    · refine .inl ⟨b, us ++ vs, fun line s hs => ?_⟩
      obtain ⟨u, hu, hends⟩ := hrun line s hs
      obtain ⟨v, hv, hends'⟩ := hrun' line u hends.follows
      exact ⟨v, bind_eq_ok.mpr ⟨a, u, hu, hv⟩, hends.trans hends'⟩
    · refine .inr fun line s b v hs h => ?_
      obtain ⟨u, hu, hends⟩ := hrun line s hs
      obtain ⟨a', u', hu', hv⟩ := bind_eq_ok.mp h
      rw [hu] at hu'
      cases hu'
      exact hrefused line u b v hends.follows hv
  · refine .inr fun line s b v hs h hacc => ?_
    obtain ⟨a, u, hu, hv⟩ := bind_eq_ok.mp h
    exact hrefused line s a u hs hu (hacc.of_isPrefix (((hf a).1 line).ok hv).findings)

/-- A step that is another one in all sessions of the second pass. -/
theorem Uniform.congr {m m' : Int → Build α} (h : Uniform t m')
    (hext : ∀ line, Extending (m line)) (heq : ∀ line s, t.Follows s.table → m line s = m' line s) :
    Uniform t m := by
  refine ⟨hext, ?_⟩
  rcases h.2 with ⟨a, us, hrun⟩ | hrefused
  · refine .inl ⟨a, us, fun line s hs => ?_⟩
    rw [heq line s hs]
    exact hrun line s hs
  · refine .inr fun line s a u hs hm => ?_
    rw [heq line s hs] at hm
    exact hrefused line s a u hs hm

/-- A step that looks at the table sees the same in all sessions of the second pass. -/
theorem uniform_table {g : SymbolTable → Int → Build α}
    (hext : ∀ line, Extending (table >>= fun u => g u line))
    (hg : ∀ u, t.Follows u → g u = g t) (h : Uniform t (g t)) :
    Uniform t fun line => table >>= fun u => g u line := by
  refine h.congr hext fun line s hs => ?_
  rw [table_bind, hg s.table hs]

theorem uniform_ofExcept (x : Except Fault α) : Uniform t fun _ => ofExcept x := by
  cases x with
  | ok a => exact uniform_pure a
  | error f => exact ⟨fun _ s => .refl s, .inr fun _ _ _ _ _ h => by cases h⟩

theorem uniform_report (p : Problem) : Uniform t fun line => report line p := by
  refine ⟨fun line s => ⟨.refl _, s.reported_isPrefix line p⟩, ?_⟩
  cases hp : p.severity with
  | error =>
    refine .inr fun line s a u _ h => ?_
    cases h
    exact not_accepted_reported hp
  | warning =>
    refine .inl ⟨(), [], fun line s hs => ⟨s.reported line p, rfl, .of_table hs rfl ?_⟩⟩
    exact accepted_of_warning (f := ⟨line, p⟩) (by simp [Finding.isError, hp]) rfl

/-- A warning in front of a step, if a condition holds. -/
theorem uniform_warning (c : Bool) (p : Problem) {m : Int → Build α} (hm : Uniform t m) :
    Uniform t fun line => if c then report line p >>= fun _ => m line else m line := by
  cases c with
  | true => exact (uniform_report p).bind fun _ => hm
  | false => exact hm

end

/-! ## The steps of statements -/

section
variable {t : SymbolTable} {name : String}

theorem observeVariable_of_not_identifier (h : Line.isIdentifier name.toList = false)
    (type : ValueType) (line : Int) (s : Session) :
    observeVariable name type line s = .ok false s := by
  rw [observeVariable, table_bind, h]
  rfl

/-- A name that may not be a variable. -/
theorem uniform_observe_of_not_allows (h : ¬ t.Allows name) (type : ValueType) :
    Uniform t (observeVariable name type) := by
  refine ⟨fun line => (observeVariable_elementary name type line).extending, ?_⟩
  cases hid : Line.isIdentifier name.toList with
  | false =>
    refine .inl ⟨false, [], fun line s hs => ⟨s, ?_, .refl hs⟩⟩
    exact observeVariable_of_not_identifier hid type line s
  | true =>
    refine .inr fun line s b u hs hu => ?_
    obtain ⟨v, hv, -, hrefused⟩ :=
      observeVariable_of_not_allows (mt hs.allows_iff.mp h) type line
    rw [hv] at hu
    cases hu
    rcases hrefused with ⟨hnot, -⟩ | hrefused
    · rw [hid] at hnot
      cases hnot
    · exact hrefused

theorem uniform_observe (name : String) : Uniform t (observeVariable name .long) := by
  by_cases h : t.Allows name
  · refine ⟨fun line => (observeVariable_elementary name .long line).extending, ?_⟩
    refine .inl ⟨true, [⟨name, true⟩], fun line s hs => ?_⟩
    obtain ⟨u, hu, hacc, hretypes⟩ := observeVariable_of_allows (hs.allows_iff.mpr h) .long line
    have hgrows := ((observeVariable_elementary name .long line).extending.ok hu).table
    exact ⟨u, hu, hs.retypes hretypes hgrows, hacc, Retypes.types (u := ⟨name, true⟩) hretypes⟩
  · exact uniform_observe_of_not_allows h .long

/-- Where a new variable becomes a `long` and a known one is left alone. -/
theorem ends_of_new (line : Int) {s : Session} (hs : t.Follows s.table) (h : t.Allows name)
    {m : Build Bool} (hm : m s = if s.table.isVariable name then .ok true s
      else observeVariable name .long line s) :
    ∃ u, m s = .ok true u ∧ Ends t [⟨name, false⟩] s u := by
  rw [hm]
  cases hknown : s.table.isVariable name with
  | true =>
    rw [isVariable_eq_typeOf?] at hknown
    exact ⟨s, rfl, hs, id, (Use.act_mention hknown).symm⟩
  | false =>
    obtain ⟨u, hu, hacc, hretypes⟩ := observeVariable_of_allows (hs.allows_iff.mpr h) .long line
    have hgrows := ((observeVariable_elementary name .long line).extending.ok hu).table
    rw [isVariable_eq_typeOf?, Option.isSome_eq_false_iff, Option.isNone_iff_eq_none] at hknown
    rw [hknown] at hretypes
    refine ⟨u, hu, hs.retypes hretypes hgrows, hacc, Retypes.types (u := ⟨name, false⟩) ?_⟩
    rwa [hknown]

theorem uniform_mention (name : String) : Uniform t (mention name) := by
  have hext : ∀ line, Extending (mention name line) :=
    fun line => (mention_elementary name line).extending
  cases hpin : t.isPin name with
  | true =>
    refine (uniform_pure true).congr hext fun line s hs => ?_
    rw [mention, table_bind, hs.isPin, hpin]
    rfl
  | false =>
    by_cases h : t.Allows name
    · refine ⟨hext, .inl ⟨true, [⟨name, false⟩], fun line s hs => ends_of_new line hs h ?_⟩⟩
      rw [mention, table_bind, hs.isPin, hpin, Bool.false_or]
      split <;> rfl
    · refine (uniform_observe_of_not_allows h .long).congr hext fun line s hs => ?_
      rw [mention, table_bind, hs.isPin, hpin, hs.isVariable_eq_false h]
      rfl

theorem uniform_mentionAll (names : List String) :
    Uniform t fun line => mentionAll line names := by
  induction names with
  | nil => exact uniform_pure ()
  | cons n ns ih => exact (uniform_mention n).bind fun _ => ih

theorem uniform_useNames (cs : List Char) : Uniform t (useNames cs) := by
  refine (uniform_mentionAll (Expression.names t.reserved cs)).congr
    (fun line => (useNames_elementary cs line).extending) fun line s hs => ?_
  rw [useNames, table_bind, hs.reserved]

theorem uniform_writeTarget {type : ValueType} (h : Takes t name type) :
    Uniform t (writeTarget name type) := by
  have hext : ∀ line, Extending (writeTarget name type line) :=
    fun line => (writeTarget_elementary name type line).extending
  cases hknown : t.isVariable name with
  | true =>
    refine (uniform_pure true).congr hext fun line s hs => ?_
    rw [writeTarget, table_bind, hs.known name hknown]
    rfl
  | false =>
    by_cases hallows : t.Allows name
    · rcases h with hadm | rfl
      · exact absurd (admits_iff.mpr ⟨hallows, hknown⟩) hadm
      · refine ⟨hext, .inl ⟨true, [⟨name, false⟩], fun line s hs =>
          ends_of_new line hs hallows ?_⟩⟩
        rw [writeTarget, table_bind]
        split <;> rfl
    · refine (uniform_observe_of_not_allows hallows type).congr hext fun line s hs => ?_
      rw [writeTarget, table_bind, hs.isVariable_eq_false hallows]
      rfl

theorem uniform_pinOfWord (token : List Char) : Uniform t (pinOfWord token) := by
  unfold pinOfWord
  refine uniform_table (fun line => (pinOfWord_elementary token line).extending) ?_ ?_
  · intro u hu
    rw [hu.board, findPin?_congr hu.pins]
  · cases Line.analogLabel? token with
    | some label => exact uniform_warning _ _ (uniform_pure _)
    | none =>
      cases Line.isIntLiteral token with
      | true => exact (uniform_ofExcept _).bind fun n => uniform_warning _ _ (uniform_pure _)
      | false => exact uniform_pure _

theorem uniform_checkPwm (ref : PinRef) : Uniform t (checkPwm ref) := by
  have hext : ∀ line, Extending (checkPwm ref line) :=
    fun line => (checkPwm_elementary ref line).extending
  obtain ⟨target, kind, consumed, number⟩ := ref
  cases kind with
  | analog => exact uniform_report _
  | digital =>
    cases number with
    | none => exact uniform_pure ()
    | some n =>
      refine (uniform_warning (!t.board.hasPwm n) (.pwmUnsupported n) (uniform_pure ())).congr hext
        fun line s hs => ?_
      simp only [checkPwm, table_bind, hs.board]
      rfl

/-- The steps of statements are uniform, for variables that may be taken. -/
theorem compositional_uniform (t : SymbolTable) : Compositional
    (fun _ _ m => Uniform t m) (Takes t) where
  pure _ := uniform_pure _
  bind hm hf := hm.bind hf
  ofExcept x := uniform_ofExcept x
  report p := uniform_report p
  useNames cs := uniform_useNames cs
  observe name := uniform_observe name
  writeTarget h := uniform_writeTarget h
  pinOfWord token := uniform_pinOfWord token
  checkPwm ref := uniform_checkPwm ref
  isFunction name := by
    refine (uniform_pure (t.isFunction name)).congr (fun _ s => .refl s) fun line s hs => ?_
    rw [← hs.isFunction name]
    rfl

end
end Build
end PlainSketch
