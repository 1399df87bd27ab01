import PlainSketch.Proofs.LineSorts
import PlainSketch.Proofs.Renumbering

/-!
# The order of the kinds of statements

A line goes to the first kind of statement whose shape fits. Where two shapes fit the same line they
are both of a kind that begins with `set`, or with `read`, or with `print`: every other kind begins
with a word of its own. So the kinds may be tried in any order that keeps these three groups as they
are, and every line is still compiled as before.
-/
namespace PlainSketch
open Text Shape

/-- The kinds of statements. -/
inductive Statement.Kind where
  | pinMode | digitalWrite | toggle | pwmWrite
  | readAnalog | readTime | readMicros | readDigital
  | wait | serialBegin
  | printText | printTextValue | printValue
  | assign | change | map | limit | random | randomSeed | tone | noTone | call
deriving DecidableEq, Repr

/-- Kinds of which more than one may fit a line, and each of the others by itself. -/
inductive Statement.Group where
  | set
  | read
  | print
  | single (k : Statement.Kind)
deriving DecidableEq, Repr

namespace Statement

def kind : Statement → Kind
  | pinMode _ => .pinMode
  | digitalWrite _ => .digitalWrite
  | toggle _ => .toggle
  | pwmWrite .. => .pwmWrite
  | readAnalog .. => .readAnalog
  | readTime _ => .readTime
  | readMicros _ => .readMicros
  | readDigital .. => .readDigital
  | wait .. => .wait
  | serialBegin _ => .serialBegin
  | printText _ => .printText
  | printTextValue .. => .printTextValue
  | printValue _ => .printValue
  | assign .. => .assign
  | change .. => .change
  | map .. => .map
  | limit .. => .limit
  | random .. => .random
  | randomSeed _ => .randomSeed
  | tone .. => .tone
  | noTone _ => .noTone
  | call _ => .call

namespace Kind

def shape : Kind → Shape Statement
  | pinMode => pinModeShape
  | digitalWrite => digitalWriteShape
  | toggle => toggleShape
  | pwmWrite => pwmWriteShape
  | readAnalog => readAnalogShape
  | readTime => readTimeShape
  | readMicros => readMicrosShape
  | readDigital => readDigitalShape
  | wait => waitShape
  | serialBegin => serialBeginShape
  | printText => printTextShape
  | printTextValue => printTextValueShape
  | printValue => printValueShape
  | assign => assignShape
  | change => changeShape
  | map => mapShape
  | limit => limitShape
  | random => randomShape
  | randomSeed => randomSeedShape
  | tone => toneShape
  | noTone => noToneShape
  | call => callShape

/-- All kinds, in the order in which they are tried. -/
def all : List Kind :=
  [pinMode, digitalWrite, toggle, pwmWrite, readAnalog, readTime, readMicros, readDigital, wait,
   serialBegin, printText, printTextValue, printValue, assign, change, map, limit, random,
   randomSeed, tone, noTone, call]

def group : Kind → Group
  | pwmWrite | assign => .set
  | readAnalog | readTime | readMicros | readDigital => .read
  | printText | printTextValue | printValue => .print
  | k => .single k

/-- The words that a line of the kind may begin with. -/
def words : Kind → List String
  | pinMode => ["make"]
  | digitalWrite => ["turn"]
  | toggle => ["toggle"]
  | pwmWrite | assign => ["set"]
  | readAnalog | readTime | readMicros | readDigital => ["read"]
  | wait => ["wait"]
  | serialBegin => ["start"]
  | printText | printTextValue | printValue => ["print"]
  | change => ["change"]
  | map => ["map"]
  | limit => ["limit"]
  | random => ["pick"]
  | randomSeed => ["seed", "random"]
  | tone => ["play"]
  | noTone => ["stop"]
  | call => ["call"]

theorem shapes_eq : shapes = all.map shape := rfl

theorem mem_all (k : Kind) : k ∈ all := by
  cases k <;> decide

theorem apart_words : ∀ k ∈ all, ∀ k' ∈ all, k.group ≠ k'.group →
    apart k.words k'.words = true := by
  decide

/-- The first kind in the given order whose shape fits, with what it reads. -/
def firstOf? (order : List Kind) (code : List Char) : Option (Kind × Statement) :=
  order.findSome? fun k => (k.shape.first? code).map (k, ·)

/-- The kinds of one group, in the order in which they stand. -/
def ofGroup (g : Group) (order : List Kind) : List Kind := order.filter (·.group = g)

section
variable {k k' : Kind} {code : List Char} {st : Statement}

theorem kind_of_first? (h : k.shape.first? code = some st) : st.kind = k := by
  have hyields : Yields (fun st => st.kind = k) k.shape := by
    cases k <;>
    · repeat refine yields_bind fun _ => ?_
      exact yields_pure rfl
  obtain ⟨r, hr⟩ := first?_eq_some.mp h
  exact hyields code st r hr

/-- A line begins with a word of every kind that fits it. -/
theorem beginsWith_words (h : k.shape.fits code = true) : BeginsWith k.words code := by
  have begins : ∀ {w : String} {s : Shape Statement}, Begins w s → s.fits code = true →
      BeginsWith [w] code := fun {w s} hs hf => ⟨w, by simp, hs.fits hf⟩
  cases k with
  | pinMode | digitalWrite | toggle => exact begins (keyword_begins (by decide)).bind.bind h
  | randomSeed =>
    obtain ⟨x, hx⟩ := Option.isSome_iff_exists.mp h
    obtain ⟨_, r, hwords, -⟩ := bind_eq_some.mp hx
    rcases (Option.orElse_eq_some _ _ _).mp hwords with hseed | ⟨-, hrandom⟩
    · obtain ⟨_, r', hkey, -⟩ := bind_eq_some.mp hseed
      exact ⟨"seed", by simp [words], keyword_begins (by decide) _ _ _ hkey⟩
    · obtain ⟨_, r', hkey, -⟩ := bind_eq_some.mp hrandom
      exact ⟨"random", by simp [words], keyword_begins (by decide) _ _ _ hkey⟩
  | _ => exact begins (keyword_begins (by decide)).bind h

/-- Two kinds that fit the same line are of one group. -/
theorem group_eq_of_fits (h : k.shape.fits code = true) (h' : k'.shape.fits code = true) :
    k.group = k'.group := by
  by_contra hne
  have hapart := apart_words k (mem_all k) k' (mem_all k') hne
  exact (beginsWith_words h).not_both (beginsWith_words h') hapart

end

/-! ## The first that fits -/

theorem firstOf?_all (code : List Char) :
    firstOf? all code = (ofCode? code).map fun st => (st.kind, st) := by
  rw [firstOf?, ofCode?, Shape.firstOf?, shapes_eq, List.findSome?_map, List.map_findSome?]
  congr 1
  funext k
  cases h : k.shape.first? code with
  | none => simp [h]
  | some st => simp [h, kind_of_first? h]

/-- Kinds that do not fit may be left out. -/
theorem firstOf?_ofGroup {g : Group} {code : List Char} {order : List Kind}
    (h : ∀ k ∈ order, k.shape.fits code = true → k.group = g) :
    firstOf? (ofGroup g order) code = firstOf? order code := by
  induction order with
  | nil => rfl
  | cons k order ih =>
    obtain ⟨hk, horder⟩ := List.forall_mem_cons.mp h
    have hrest := ih horder
    simp only [firstOf?, ofGroup] at hrest ⊢
    by_cases hg : k.group = g
    · rw [List.filter_cons_of_pos (by simpa using hg), List.findSome?_cons, List.findSome?_cons,
        hrest]
    · have hnone : k.shape.first? code = none := by
        rw [Shape.first?, Option.map_eq_none_iff, ← Option.not_isSome_iff_eq_none]
        exact fun hfits => hg (hk hfits)
      rw [List.filter_cons_of_neg (by simpa using hg), List.findSome?_cons, hnone, hrest]
      rfl

/-- Every line has a group that all kinds belong to which fit it. -/
theorem exists_group (code : List Char) :
    ∃ g, ∀ k : Kind, k.shape.fits code = true → k.group = g := by
  by_cases h : ∃ k : Kind, k.shape.fits code = true
  · obtain ⟨k, hk⟩ := h
    exact ⟨k.group, fun k' hk' => group_eq_of_fits hk' hk⟩
  · exact ⟨.set, fun k hk => (h ⟨k, hk⟩).elim⟩

section
variable {order : List Kind}

/-- A kind that is a group by itself keeps its place in the group, whatever the order. -/
theorem ofGroup_eq (hperm : order.Perm all)
    (hgroups : ∀ g ∈ [Group.set, .read, .print], ofGroup g order = ofGroup g all) (g : Group) :
    ofGroup g order = ofGroup g all := by
  cases g with
  | set | read | print => exact hgroups _ (by simp)
  | single k =>
    have hone : ∀ k ∈ all, (ofGroup (.single k) all).length ≤ 1 := by decide
    exact Sketch.perm_eq_of_length_le_one (hperm.filter _) (hone k (mem_all k))

theorem firstOf?_reordered (hperm : order.Perm all)
    (hgroups : ∀ g ∈ [Group.set, .read, .print], ofGroup g order = ofGroup g all)
    (code : List Char) : firstOf? order code = firstOf? all code := by
  obtain ⟨g, hg⟩ := exists_group code
  rw [← firstOf?_ofGroup fun k _ => hg k, ofGroup_eq hperm hgroups g,
    firstOf?_ofGroup fun k _ => hg k]

end

end Kind
end Statement

open Statement (Kind Group)

/-- Compiles a line as the first kind in the given order that fits it. Answers the kind, and what
the line becomes. -/
def Build.dispatch (order : List Kind) (code : List Char) (line : Int) :
    Build (Option (Kind × List Instr)) := do
  match Kind.firstOf? order code with
  | some (k, st) => return some (k, ← Build.statement line st)
  | none => return none

theorem Build.dispatch_of_some {order : List Kind} {code : List Char} {k : Kind} {st : Statement}
    (h : Kind.firstOf? order code = some (k, st)) (line : Int) (s : Session) :
    dispatch order code line s = match Build.statement line st s with
      | .ok is t => .ok (some (k, is)) t
      | .error f t => .error f t := by
  simp only [dispatch, h, bind, EStateM.bind]
  cases Build.statement line st s <;> rfl

/-- Compiles a statement into the open body, trying its kinds in the given order. -/
def Assemble.commandIn (order : List Kind) (code : List Char) (line : Int) :
    Assemble (List Instr) := do
  if (← get).body.isSome then
    match ← build (Build.dispatch order code line) with
    | some (_, is) => emit is
    | none =>
      report line (.unknownCommand (String.ofList code))
      return []
  else
    report line .commandOutsideBlock
    return []

theorem Assemble.commandIn_all (code : List Char) (line : Int) :
    commandIn Kind.all code line = command code line := by
  funext a
  obtain ⟨session, sketch, stack, body, sawSetup, sawLoop, ids⟩ := a
  cases body with
  | none => rfl
  | some b =>
    cases hst : Statement.ofCode? code with
    | none =>
      have hfirst : Kind.firstOf? Kind.all code = none := by rw [Kind.firstOf?_all, hst]; rfl
      simp only [commandIn, command, hst, Build.dispatch, hfirst]
      rfl
    | some st =>
      have hfirst : Kind.firstOf? Kind.all code = some (st.kind, st) := by
        rw [Kind.firstOf?_all, hst]; rfl
      simp only [command, hst]
      show (build (Build.dispatch Kind.all code line) >>= _) _ =
        (build (Build.statement line st) >>= _) _
      rw [build_bind, build_bind, Build.dispatch_of_some hfirst]
      cases Build.statement line st session <;> rfl

/-- The order of the kinds matters only inside the groups that begin with `set`, with `read` and
with `print`. -/
theorem dispatch_reordered (code : List Char) :
    (∀ k k' : Kind, k.shape.fits code = true → k'.shape.fits code = true → k.group = k'.group) ∧
      ∀ order : List Kind, order.Perm Kind.all →
        (∀ g ∈ [Group.set, .read, .print], Kind.ofGroup g order = Kind.ofGroup g Kind.all) →
        ∀ line, Build.dispatch order code line = Build.dispatch Kind.all code line ∧
          Assemble.commandIn order code line = Assemble.command code line := by
  refine ⟨fun k k' => Kind.group_eq_of_fits, fun order hperm hgroups line => ?_⟩
  have hfirst := Kind.firstOf?_reordered hperm hgroups code
  have hdispatch : Build.dispatch order code line = Build.dispatch Kind.all code line := by
    rw [Build.dispatch, Build.dispatch, hfirst]
  refine ⟨hdispatch, ?_⟩
  rw [← Assemble.commandIn_all, Assemble.commandIn, Assemble.commandIn, hdispatch]

/-- The groups may change places as a whole and come apart. A line that two kinds fit goes to the
first of them as before. -/
theorem dispatch_reordered_set :
    let code := "set led to pwm 128".toList
    let order : List Kind := [.call, .noTone, .tone, .printText, .pwmWrite, .randomSeed, .random,
      .readAnalog, .limit, .map, .printTextValue, .change, .assign, .readTime, .serialBegin, .wait,
      .printValue, .readMicros, .toggle, .readDigital, .digitalWrite, .pinMode]
    (Kind.pwmWrite.shape.fits code = true ∧ Kind.assign.shape.fits code = true ∧
        Kind.pwmWrite.group = Kind.assign.group) ∧
      order.Perm Kind.all ∧
      (∀ g ∈ [Group.set, .read, .print], Kind.ofGroup g order = Kind.ofGroup g Kind.all) ∧
      Build.dispatch order code 1 = Build.dispatch Kind.all code 1 ∧
      Assemble.commandIn order code 1 = Assemble.command code 1 := by
  intro code order
  have hpwm : Kind.pwmWrite.shape.fits code = true := by decide
  have hassign : Kind.assign.shape.fits code = true := by decide
  have hperm : order.Perm Kind.all := by decide
  have hgroups : ∀ g ∈ [Group.set, .read, .print],
      Kind.ofGroup g order = Kind.ofGroup g Kind.all := by decide
  obtain ⟨hgroup, hsame⟩ := dispatch_reordered code
  exact ⟨⟨hpwm, hassign, hgroup _ _ hpwm hassign⟩, hperm, hgroups, hsame order hperm hgroups 1⟩

/-- Inside a group the order does matter: tried the other way round, the line is an assignment. -/
example :
    let code := "set led to pwm 128".toList
    (Kind.firstOf? Kind.all code).map Prod.fst = some .pwmWrite ∧
      (Kind.firstOf? Kind.all.reverse code).map Prod.fst = some .assign := by
  decide +kernel

end PlainSketch
