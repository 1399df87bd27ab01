import PlainSketch.Tool.Run

/-!
# What a run does to the files

A run changes at most one file, and only if it ends well: compiling without `--json` puts the sketch
of a script without errors where its output path leads, and formatting with `-w` and without
`--check` lays out its input anew. Both write once, after everything that can fail. That a path
leads to what was written through it is not evident, since the parts of a path are looked up in the
store that the writing changes: `Files.follow_put` says that the way there stays open.
-/
namespace PlainSketch

/-! ## Writing to a store -/

namespace Files

/-- The place at which a file is or may be put. -/
def Node.place? : Node → Option Place
  | .file place _ | .vacant place => some place
  | .directory | .unreachable _ => none

section
variable {s t : Files} {place q : Place} {bytes : ByteArray}

theorem lookup_cons_eq (f : Place × ByteArray) (files : List (Place × ByteArray)) (q : Place) :
    (f :: files).lookup q = if q = f.1 then some f.2 else files.lookup q := by
  rw [List.lookup_cons]
  split
  · next hq => rw [if_pos (beq_iff_eq.mp hq)]
  · next hq => rw [if_neg (by simpa using hq)]

theorem lookup_map_put (files : List (Place × ByteArray)) (place q : Place) (bytes : ByteArray) :
    (files.map fun f => if f.1 == place then (place, bytes) else f).lookup q =
      if q = place then (files.lookup q).map fun _ => bytes else files.lookup q := by
  induction files with
  | nil => simp
  | cons f files ih =>
    rw [List.map_cons, lookup_cons_eq, lookup_cons_eq, ih]
    by_cases hq : q = place
    · subst hq
      by_cases hf : f.1 = q
      · simp [hf]
      · simp [hf, Ne.symm hf]
    · by_cases hf : f.1 = place
      · simp [hf, hq]
      · simp [hf, hq]

/-- A file that is put somewhere is there, and every other file stays. -/
theorem get?_put (s : Files) (place q : Place) (bytes : ByteArray) :
    (s.put place bytes).get? q = if q = place then some bytes else s.get? q := by
  unfold put
  split
  · next hsome =>
    obtain ⟨old, hold⟩ := Option.isSome_iff_exists.mp hsome
    rw [get?, lookup_map_put]
    split
    · next hq =>
      rw [hq, show s.files.lookup place = some old from hold]
      rfl
    · rfl
  · next hnone =>
    have hnew : s.files.lookup place = none := Option.not_isSome_iff_eq_none.mp hnone
    rw [get?, List.lookup_append, lookup_cons_eq]
    split
    · next hq =>
      rw [hq, hnew]
      rfl
    · exact Option.or_none

theorem directories_put (s : Files) (place : Place) (bytes : ByteArray) :
    (s.put place bytes).directories = s.directories := by
  unfold put
  split <;> rfl

theorem isSome_lookup_iff (files : List (Place × ByteArray)) (q : Place) :
    (files.lookup q).isSome = true ↔ q ∈ files.map Prod.fst := by
  induction files with
  | nil => simp
  | cons f files ih =>
    rw [lookup_cons_eq, List.map_cons, List.mem_cons, ← ih]
    split
    · next hq => simp [hq]
    · next hq => simp [hq]

/-- A directory stays one as long as the files in it stay. -/
theorem isDirectory_of_get? (hdirs : t.directories = s.directories)
    (hget : ∀ r, (s.get? r).isSome = true → (t.get? r).isSome = true)
    (h : s.isDirectory place = true) : t.isDirectory place = true := by
  simp only [isDirectory, hdirs, Bool.or_eq_true] at h ⊢
  refine h.imp_right fun hany => ?_
  obtain ⟨f, hf, hbelow⟩ := List.any_eq_true.mp hany
  have hmem := hget f.1 ((isSome_lookup_iff _ _).mpr (List.mem_map_of_mem hf))
  obtain ⟨g, hg, hfg⟩ := List.mem_map.mp ((isSome_lookup_iff _ _).mp hmem)
  exact List.any_eq_true.mpr ⟨g, hg, hfg ▸ hbelow⟩

/-- Putting a file somewhere leaves every directory a directory. -/
theorem isDirectory_put (h : s.isDirectory q = true) :
    (s.put place bytes).isDirectory q = true := by
  refine isDirectory_of_get? (directories_put s place bytes) (fun r hr => ?_) h
  rw [get?_put]
  split
  · rfl
  · exact hr

/-- Every directory of `s` is one in `t`, and no file stands in its place. -/
structure KeepsDirectories (s t : Files) : Prop where
  isDirectory {r : Place} : s.isDirectory r = true → t.isDirectory r = true
  noFile {r : Place} : s.get? r = none → s.isDirectory r = true → t.get? r = none

theorem KeepsDirectories.refl (s : Files) : s.KeepsDirectories s := ⟨id, fun h _ => h⟩

section
variable {here : Place} {part : String} {parts : List String}

/-- The last part of a path names a place. -/
theorem follow_eq_file_iff (hidle : ¬ Path.isIdle part = true) (hup : ¬ (part == "..") = true)
    (hlong : ¬ part.utf8ByteSize > nameLimit) :
    s.follow here [part] = .file (here ++ [part]) bytes ↔
      s.get? (here ++ [part]) = some bytes := by
  rw [follow, if_neg hidle, if_neg hup, if_neg hlong]
  cases s.get? (here ++ [part]) with
  | some found => simp
  | none =>
    simp only [follow]
    split <;> simp

/-- A part on the way to a file leads on to a directory, or it is the last part and names the
place, where no directory is in the way. -/
theorem follow_cons_cases (h : (s.follow here (part :: parts)).place? = some place) :
    (∃ there, ∀ t, s.KeepsDirectories t → t.follow here (part :: parts) = t.follow there parts) ∨
      Path.isIdle part = false ∧ parts = [] ∧ place = here ++ [part] ∧
        ((s.get? place).isSome = true ∨ s.isDirectory place = false) ∧
        ∀ (t : Files) bytes,
          t.follow here (part :: parts) = .file place bytes ↔ t.get? place = some bytes := by
  rw [follow] at h
  split at h
  · next hidle => exact .inl ⟨here, fun t _ => by rw [follow, if_pos hidle]⟩
  next hidle =>
  split at h
  · next hup =>
    split at h
    · next hparent =>
      refine .inl ⟨parent here, fun t ht => ?_⟩
      rw [follow, if_neg hidle, if_pos hup, if_pos (ht.isDirectory hparent)]
    · cases h
  next hup =>
  split at h
  · cases h
  next hlong =>
  -- From here on `part` is a name, to be looked up under `here`.
  have hnamed : Path.isIdle part = false := by simpa using hidle
  split at h
  · next found hfound =>
    split at h
    · next hlast =>
      cases h
      cases List.isEmpty_iff.mp hlast
      exact .inr ⟨hnamed, rfl, rfl, .inl (by rw [hfound]; rfl),
        fun t bytes => follow_eq_file_iff hidle hup hlong⟩
    · cases h
  · next hnone =>
    split at h
    · next hdir =>
      refine .inl ⟨here ++ [part], fun t ht => ?_⟩
      rw [follow, if_neg hidle, if_neg hup, if_neg hlong, ht.noFile hnone hdir]
      exact if_pos (ht.isDirectory hdir)
    · next hdir =>
      split at h
      · next hlast =>
        cases h
        cases List.isEmpty_iff.mp hlast
        exact .inr ⟨hnamed, rfl, rfl, .inr (by simpa using hdir),
          fun t bytes => follow_eq_file_iff hidle hup hlong⟩
      · cases h

/-- Where a file may be put, there is no directory in the way. -/
theorem not_isDirectory_of_follow (h : (s.follow here parts).place? = some place) :
    (s.get? place).isSome = true ∨ s.isDirectory place = false := by
  induction parts generalizing here with
  | nil => cases h
  | cons part parts ih =>
    rcases follow_cons_cases h with ⟨there, hthere⟩ | ⟨-, -, -, hfree, -⟩
    · exact ih (hthere s (.refl s) ▸ h)
    · exact hfree

/-- The way to a file passes through directories only, so it stays open as long as these do. -/
theorem follow_of_get? (hkeeps : s.KeepsDirectories t)
    (h : (s.follow here parts).place? = some place) (hget : t.get? place = some bytes) :
    t.follow here parts = .file place bytes := by
  induction parts generalizing here with
  | nil => cases h
  | cons part parts ih =>
    rcases follow_cons_cases h with ⟨there, hthere⟩ | ⟨-, -, -, -, hfile⟩
    · rw [hthere t hkeeps]
      exact ih (hthere s (.refl s) ▸ h)
    · exact (hfile t bytes).mpr hget

/-- A file is put in the way of no path if there is no directory where it goes. -/
theorem keepsDirectories_of_get? (hdir : ∀ {r}, s.isDirectory r = true → t.isDirectory r = true)
    (hget : ∀ r, r ≠ place → t.get? r = s.get? r)
    (hfree : (s.get? place).isSome = true ∨ s.isDirectory place = false) :
    s.KeepsDirectories t := by
  refine ⟨hdir, fun {r} hnone hr => ?_⟩
  have hne : r ≠ place := by
    rintro rfl
    rcases hfree with hsome | hno
    · rw [hnone] at hsome
      cases hsome
    · rw [hr] at hno
      cases hno
  rw [hget r hne, hnone]

/-- A file that is put where a path leads is found there. -/
theorem follow_put (bytes : ByteArray) (h : (s.follow here parts).place? = some place) :
    (s.put place bytes).follow here parts = .file place bytes := by
  have hkeeps : s.KeepsDirectories (s.put place bytes) :=
    keepsDirectories_of_get? isDirectory_put (fun r hr => by rw [get?_put, if_neg hr])
      (not_isDirectory_of_follow h)
  exact follow_of_get? hkeeps h (by rw [get?_put, if_pos rfl])

end

/-- `t` is `s` but for the file that a path leads to, and in `t` this file holds a text. -/
def Rewrites (s : Files) (p : Path) (text : String) (t : Files) : Prop :=
  ∃ place, (s.find p).place? = some place ∧ t.find p = .file place text.toUTF8 ∧
    (∀ q, q ≠ place → t.get? q = s.get? q) ∧ t.directories = s.directories

/-- Whether a path can be followed at all, and from where, does not depend on the files. -/
theorem exists_find_eq_follow {p : Path} (h : (s.find p).place? = some place) :
    ∃ here, ∀ t : Files, t.find p = t.follow here (Path.rawParts p.render) := by
  unfold find findWritten at h ⊢
  split at h
  · cases h
  next hnull =>
  split at h
  · cases h
  next hempty =>
  split at h
  · cases h
  next hlong =>
  exact ⟨_, fun t => by rw [if_neg hnull, if_neg hempty, if_neg hlong]⟩

theorem find_put {p : Path} (bytes : ByteArray) (h : (s.find p).place? = some place) :
    (s.put place bytes).find p = .file place bytes := by
  obtain ⟨here, hfind⟩ := exists_find_eq_follow h
  rw [hfind] at h ⊢
  exact follow_put bytes h

theorem write_eq (s : Files) (p : Path) (text : String) (place : Place)
    (h : (s.find p).place? = some place) : s.write p text = .ok (s.put place text.toUTF8) := by
  unfold write
  cases hp : s.find p with
  | file found old | vacant found =>
    rw [hp] at h
    cases h
    rfl
  | directory | unreachable reason =>
    rw [hp] at h
    cases h

/-- Writing to a path changes the file that it leads to, and nothing else. -/
theorem rewrites_of_write {p : Path} {text : String} (h : s.write p text = .ok t) :
    s.Rewrites p text t := by
  cases hplace : (s.find p).place? with
  | none =>
    unfold write at h
    cases hp : s.find p with
    | file | vacant =>
      rw [hp] at hplace
      cases hplace
    | directory | unreachable =>
      rw [hp] at h
      cases h
  | some place =>
    rw [write_eq s p text place hplace] at h
    cases h
    refine ⟨place, hplace, find_put _ hplace, fun q hq => ?_, directories_put s place _⟩
    rw [get?_put, if_neg hq]

end
end Files

/-! ## Commands -/

theorem Blame.exitCode_ne_zero (b : Blame) : b.exitCode ≠ 0 := by
  cases b <;> decide

/-- The run ended well. -/
def Outcome.Succeeds (o : Outcome) : Prop := ∃ out err, o = .done 0 out err

namespace Outcome

theorem succeeds_said (out log notes : String) : (said 0 out log notes).Succeeds := ⟨_, _, rfl⟩

theorem not_succeeds_failed (f : Failure) (err : String) : ¬ (failed f err).Succeeds := by
  rintro ⟨out, err', h⟩
  exact f.blame.exitCode_ne_zero (done.inj h).1

theorem not_succeeds_usage : ¬ usage.Succeeds := by
  rintro ⟨out, err, h⟩
  cases h

theorem not_succeeds_uncaught (f : Failure) : ¬ (uncaught f).Succeeds := by
  rintro ⟨out, err, h⟩
  cases h

theorem not_succeeds_refused (r : Refusal) : ¬ (refused r).Succeeds := by
  cases r with
  | usage => exact not_succeeds_usage
  | nullByte path => exact not_succeeds_uncaught _

end Outcome

namespace Command

/-- The text of an input that compiles without errors, and what it compiles to. -/
def Compiles (s : Files) (input : Path) (board : Board) (c : Compilation) : Prop :=
  ∃ text, s.readText input = .ok text ∧
    (PlainSketch.compile { board } text input.render).result = .ok c ∧ c.success = true

section
variable {s : Files} {verbose json write check : Bool} {input output : Path}
  {output? : Option Path} {board : Board} {c : Compilation} {log : String}

/-- Writing the sketch either fails and leaves the files alone, or ends well. -/
theorem writeSketch_cases (s : Files) (verbose : Bool) (input output : Path) (board : Board)
    (c : Compilation) (log : String) :
    (¬ (writeSketch s verbose input output board c log).1.Succeeds ∧
        (writeSketch s verbose input output board c log).2 = s) ∨
      ((writeSketch s verbose input output board c log).1.Succeeds ∧
        s.Rewrites output c.code (writeSketch s verbose input output board c log).2) := by
  unfold writeSketch
  dsimp only
  split
  · exact .inl ⟨Outcome.not_succeeds_failed _ _, rfl⟩
  · next t ht => exact .inr ⟨Outcome.succeeds_said _ _ _, Files.rewrites_of_write ht⟩

/-- A run of `compile` leaves the files alone, or it is not for `--json`, the input has no errors
and its sketch stands where the output path leads. -/
theorem runCompile_cases (s : Files) (verbose : Bool) (input : Path) (output? : Option Path)
    (board : Board) (json : Bool) :
    ((runCompile s verbose input output? board json).2 = s ∧
        ((runCompile s verbose input output? board json).1.Succeeds → json = true)) ∨
      ((runCompile s verbose input output? board json).1.Succeeds ∧ json = false ∧
        ∃ c, Compiles s input board c ∧
          s.Rewrites (output?.getD (input.withExtension ".ino")) c.code
            (runCompile s verbose input output? board json).2) := by
  unfold runCompile
  dsimp only
  cases htext : s.readText input with
  | error f => exact .inl ⟨rfl, fun h => absurd h (Outcome.not_succeeds_failed f "")⟩
  | ok text =>
    dsimp only
    cases hrun : (PlainSketch.compile { board } text input.render).result with
    | error f => exact .inl ⟨rfl, fun h => absurd h (Outcome.not_succeeds_failed _ _)⟩
    | ok c =>
      dsimp only
      cases json with
      | true => exact .inl ⟨rfl, fun _ => rfl⟩
      | false =>
        cases hsuccess : c.success with
        | false => exact .inl ⟨rfl, fun h => absurd h (Outcome.not_succeeds_failed _ _)⟩
        | true =>
          rcases writeSketch_cases s verbose input (output?.getD (input.withExtension ".ino")) board
            c (logText verbose (PlainSketch.compile { board } text input.render).log) with
            ⟨hfails, hsame⟩ | ⟨hends, hwritten⟩
          · exact .inl ⟨hsame, fun h => absurd h hfails⟩
          · exact .inr ⟨hends, rfl, c, ⟨text, htext, hrun, hsuccess⟩, hwritten⟩

/-- A run of `format` leaves the files alone, or it is with `-w` and without `--check`, and the
input is laid out anew. It ends well with these options only if the input was in order or is now. -/
theorem runFormat_cases (s : Files) (input : Path) (write check : Bool) :
    ((runFormat s input write check).2 = s ∧
        ((runFormat s input write check).1.Succeeds → write = true → check = false →
          ∃ text, s.readText input = .ok text ∧
            String.ofList (Layout.reformat text.toList) = text)) ∨
      ((runFormat s input write check).1.Succeeds ∧ write = true ∧ check = false ∧
        ∃ text, s.readText input = .ok text ∧
          s.Rewrites input (String.ofList (Layout.reformat text.toList))
            (runFormat s input write check).2) := by
  unfold runFormat
  cases htext : s.readText input with
  | error f => exact .inl ⟨rfl, fun h => absurd h (Outcome.not_succeeds_uncaught f)⟩
  | ok text =>
    dsimp only
    cases check with
    | true =>
      refine .inl ⟨?_, fun _ _ h => by cases h⟩
      rw [if_pos rfl]
      split <;> rfl
    | false =>
      cases write with
      | false => exact .inl ⟨rfl, fun _ h => by cases h⟩
      | true =>
        cases hsame : String.ofList (Layout.reformat text.toList) == text with
        | true => exact .inl ⟨rfl, fun _ _ _ => ⟨text, rfl, beq_iff_eq.mp hsame⟩⟩
        | false =>
          cases hwrite : s.write input (String.ofList (Layout.reformat text.toList)) with
          | error f => exact .inl ⟨rfl, fun h => absurd h (Outcome.not_succeeds_uncaught _)⟩
          | ok t =>
            exact .inr ⟨Outcome.succeeds_said _ _ _, rfl, rfl, text, rfl,
              Files.rewrites_of_write hwrite⟩

end

/-! ## Requests -/

section
variable {s : Files} {p : ParsedArgs} {verbose : Bool} {command : Command}

/-- What stands after a check is reached only if the check passes. -/
theorem bind_ok {α β : Type} {x : Except Refusal α} {f : α → Except Refusal β} {b : β}
    (h : (x >>= f) = .ok b) : ∃ a, x = .ok a ∧ f a = .ok b := by
  cases x with
  | error r => cases h
  | ok a => exact ⟨a, rfl, h⟩

theorem input_ok {file : String} (h : input s p = .ok file) : p.rest = [file] := by
  unfold input at h
  split at h
  · cases h
  · next path more hrest =>
    obtain ⟨_, -, h⟩ := bind_ok h
    split at h
    · next hmore =>
      cases h
      rw [hrest, List.isEmpty_iff.mp hmore]
    · cases h

theorem ofRequest_compile (h : ofRequest s (.command verbose .compile p) = .ok command) :
    ∃ file chosen, p.rest = [file] ∧ board p = .ok chosen ∧
      command = .compile verbose file (p.value? .output) chosen (p.has .json) := by
  obtain ⟨_, -, h⟩ := bind_ok h
  obtain ⟨file, hfile, h⟩ := bind_ok h
  obtain ⟨chosen, hboard, h⟩ := bind_ok h
  cases h
  exact ⟨file, chosen, input_ok hfile, hboard, rfl⟩

theorem ofRequest_format (h : ofRequest s (.command verbose .format p) = .ok command) :
    ∃ file, p.rest = [file] ∧ command = .format file (p.has .write) (p.has .check) := by
  obtain ⟨_, -, h⟩ := bind_ok h
  obtain ⟨file, hfile, h⟩ := bind_ok h
  cases h
  exact ⟨file, input_ok hfile, rfl⟩

theorem ofRequest_symbols (h : ofRequest s (.command verbose .symbols p) = .ok command) :
    ∃ file chosen, command = .symbols verbose file chosen (p.has .json) := by
  obtain ⟨_, -, h⟩ := bind_ok h
  obtain ⟨file, -, h⟩ := bind_ok h
  obtain ⟨chosen, -, h⟩ := bind_ok h
  cases h
  exact ⟨file, chosen, rfl⟩

theorem ofRequest_boards (h : ofRequest s (.command verbose .boards p) = .ok command) :
    command = .boards := by
  obtain ⟨_, -, h⟩ := bind_ok h
  dsimp only at h
  split at h
  · cases h
    rfl
  · cases h

end
end Command

/-- The arguments ask for a sketch to be written: they are those of `compile` without `--json`. The
sketch goes to the path given last, or else beside the input. -/
def AsksForSketch (args : List String) (input output : Path) (board : Board) : Prop :=
  ∃ verbose p file, Request.ofArgs? args = some (.command verbose .compile p) ∧
    p.has .json = false ∧ p.rest = [file] ∧ Command.board p = .ok board ∧ input = .ofString file ∧
    output = ((p.value? .output).map .ofString).getD (input.withExtension ".ino")

/-- The arguments ask for a script to be laid out in its place: they are those of `format` with `-w`
and without `--check`. -/
def AsksForLayout (args : List String) (input : Path) : Prop :=
  ∃ verbose p file, Request.ofArgs? args = some (.command verbose .format p) ∧
    p.has .write = true ∧ p.has .check = false ∧ p.rest = [file] ∧ input = .ofString file

section
variable {s : Files} {args : List String}

theorem runTool_changes (h : (runTool s args).2 ≠ s) : (runTool s args).1.Succeeds ∧
    ((∃ input output board, AsksForSketch args input output board) ∨
      ∃ input, AsksForLayout args input) := by
  unfold runTool at h ⊢
  cases hargs : Request.ofArgs? args with
  | none =>
    rw [hargs] at h
    exact absurd rfl h
  | some r =>
    rw [hargs] at h
    dsimp only [Request.run] at h ⊢
    cases hcommand : Command.ofRequest s r with
    | error refusal =>
      rw [hcommand] at h
      exact absurd rfl h
    | ok command =>
      rw [hcommand] at h
      dsimp only at h ⊢
      cases r with
      | version =>
        cases hcommand
        exact absurd rfl h
      | command verbose name p =>
        cases name with
        | compile =>
          obtain ⟨file, board, hrest, hboard, rfl⟩ := Command.ofRequest_compile hcommand
          rcases Command.runCompile_cases s verbose (.ofString file)
            ((p.value? .output).map .ofString) board (p.has .json) with
            ⟨hsame, -⟩ | ⟨hends, hjson, -⟩
          · exact absurd hsame h
          · exact ⟨hends, .inl ⟨_, _, board, verbose, p, file, hargs, hjson, hrest, hboard, rfl,
              rfl⟩⟩
        | format =>
          obtain ⟨file, hrest, rfl⟩ := Command.ofRequest_format hcommand
          rcases Command.runFormat_cases s (.ofString file) (p.has .write) (p.has .check) with
            ⟨hsame, -⟩ | ⟨hends, hwrite, hcheck, -⟩
          · exact absurd hsame h
          · exact ⟨hends, .inr ⟨_, verbose, p, file, hargs, hwrite, hcheck, hrest, rfl⟩⟩
        -- the two commands left only print
        | symbols =>
          obtain ⟨file, board, rfl⟩ := Command.ofRequest_symbols hcommand
          exact absurd rfl h
        | boards =>
          cases Command.ofRequest_boards hcommand
          exact absurd rfl h

theorem runTool_sketch {input output : Path} {board : Board}
    (hasks : AsksForSketch args input output board) (h : (runTool s args).1.Succeeds) :
    ∃ c, Command.Compiles s input board c ∧ s.Rewrites output c.code (runTool s args).2 := by
  obtain ⟨verbose, p, file, hargs, hjson, hrest, hboard, rfl, rfl⟩ := hasks
  unfold runTool at h ⊢
  rw [hargs] at h ⊢
  dsimp only [Request.run] at h ⊢
  cases hcommand : Command.ofRequest s (.command verbose .compile p) with
  | error refusal =>
    rw [hcommand] at h
    exact absurd h (Outcome.not_succeeds_refused refusal)
  | ok command =>
    rw [hcommand] at h
    obtain ⟨file', board', hrest', hboard', rfl⟩ := Command.ofRequest_compile hcommand
    cases hrest.symm.trans hrest'
    cases hboard.symm.trans hboard'
    rcases Command.runCompile_cases s verbose (.ofString file)
      ((p.value? .output).map .ofString) board (p.has .json) with
      ⟨-, hsilent⟩ | ⟨-, -, c, hc, hwritten⟩
    · rw [hsilent h] at hjson
      cases hjson
    · exact ⟨c, hc, hwritten⟩

theorem runTool_layout {input : Path} (hasks : AsksForLayout args input)
    (h : (runTool s args).1.Succeeds) : ∃ text, s.readText input = .ok text ∧
      ((runTool s args).2 = s ∧ String.ofList (Layout.reformat text.toList) = text ∨
        s.Rewrites input (String.ofList (Layout.reformat text.toList)) (runTool s args).2) := by
  obtain ⟨verbose, p, file, hargs, hwrite, hcheck, hrest, rfl⟩ := hasks
  unfold runTool at h ⊢
  rw [hargs] at h ⊢
  dsimp only [Request.run] at h ⊢
  cases hcommand : Command.ofRequest s (.command verbose .format p) with
  | error refusal =>
    rw [hcommand] at h
    exact absurd h (Outcome.not_succeeds_refused refusal)
  | ok command =>
    rw [hcommand] at h
    obtain ⟨file', hrest', rfl⟩ := Command.ofRequest_format hcommand
    cases hrest.symm.trans hrest'
    rcases Command.runFormat_cases s (.ofString file) (p.has .write) (p.has .check) with
      ⟨hsame, htidy⟩ | ⟨-, -, -, text, htext, hwritten⟩
    · obtain ⟨text, htext, hlaid⟩ := htidy h hwrite hcheck
      exact ⟨text, htext, .inl ⟨hsame, hlaid⟩⟩
    · exact ⟨text, htext, .inr hwritten⟩

end

/-- **A run changes at most the file that it is asked to write, and only if it ends well.** The
files change only in a run with exit code 0 that asks for a sketch or for a layout in place. After
such a run for a sketch, the output path leads to a file with exactly the code that the decoded
input compiles to without errors; after one for a layout, the input is laid out as `Layout.reformat`
says, or it was in order already. In both cases every other file is as it was. -/
theorem files_change_only_as_asked (s : Files) (args : List String) :
    ((runTool s args).2 ≠ s → (runTool s args).1.Succeeds ∧
      ((∃ input output board, AsksForSketch args input output board) ∨
        ∃ input, AsksForLayout args input)) ∧
    ((runTool s args).1.Succeeds →
      (∀ input output board, AsksForSketch args input output board →
        ∃ c, Command.Compiles s input board c ∧ s.Rewrites output c.code (runTool s args).2) ∧
      ∀ input, AsksForLayout args input → ∃ text, s.readText input = .ok text ∧
        ((runTool s args).2 = s ∧ String.ofList (Layout.reformat text.toList) = text ∨
          s.Rewrites input (String.ofList (Layout.reformat text.toList)) (runTool s args).2)) :=
  ⟨runTool_changes, fun h =>
    ⟨fun _ _ _ hasks => runTool_sketch hasks h, fun _ hasks => runTool_layout hasks h⟩⟩

/-- A sketch goes over an older one, and the script beside it can be laid out in its place. -/
theorem files_change_only_as_asked_blink :
    let s : Files := ⟨[(["blink.aes"], "setup:\nmake 13 output\nend\nloop:\nend".toUTF8),
      (["blink.ino"], "".toUTF8)], []⟩
    (∃ c, Command.Compiles s (.ofString "blink.aes") .uno c ∧
      s.Rewrites (.ofString "blink.ino") c.code (runTool s ["compile", "blink.aes"]).2) ∧
    ∃ text, s.readText (.ofString "blink.aes") = .ok text ∧
      ((runTool s ["format", "-w", "blink.aes"]).2 = s ∧
          String.ofList (Layout.reformat text.toList) = text ∨
        s.Rewrites (.ofString "blink.aes") (String.ofList (Layout.reformat text.toList))
          (runTool s ["format", "-w", "blink.aes"]).2) := by
  intro s
  have ends : ∀ {o : Outcome}, (match o with | .done 0 _ _ => true | _ => false) = true →
      o.Succeeds := by
    intro o ho
    split at ho
    · exact ⟨_, _, rfl⟩
    · cases ho
  refine ⟨((files_change_only_as_asked s _).2 (ends (by decide +kernel))).1 _ _ _ ?_,
    ((files_change_only_as_asked s _).2 (ends (by decide +kernel))).2 _ ?_⟩
  · exact ⟨false, ⟨[], ["blink.aes"]⟩, "blink.aes", by decide +kernel, rfl, rfl, rfl, rfl,
      by decide +kernel⟩
  · exact ⟨false, ⟨[(.write, "")], ["blink.aes"]⟩, "blink.aes", by decide +kernel, rfl, rfl, rfl,
      rfl⟩

end PlainSketch
