import PlainSketch.Proofs.PinAliases

/-!
# Pins by their names

Where a pin is asked for, the word `pin` in any case, analog labels and numbers are recognized
before the names of declared pins. No name is a number, but `A1` is a name, and so is `Pin`, since
reserved words are told by their exact spelling. A declared pin therefore answers to its name
exactly if the name is neither the keyword, in any case, nor a label.
-/
namespace PlainSketch
open Text Line

/-- Where the name of a pin should lead. -/
def Pin.byName (p : Pin) : Build.PinRef :=
  { target := .named p.name, kind := p.kind, consumed := 1, number := p.number }

/-! ## Names and numbers -/

namespace Line

/-- No number begins like a name. -/
theorem isDigit_of_isNameHead {c : Char} (h : isNameHead c = true) : isDigit c = false := by
  have hletter : 65 ≤ c.toNat ∧ c.toNat ≤ 122 := by
    rcases (Bool.or_eq_true _ _).mp h with h | h
    · exact toNat_of_isAlpha h
    · rw [eq_of_beq h]
      decide
  have hzeros : ∀ z ∈ zeros, z + 10 ≤ 65 ∨ 122 < z := by decide
  rw [isDigit, digitValue?, Option.isSome_map, Option.isSome_eq_false_iff,
    Option.isNone_iff_eq_none, List.find?_eq_none]
  intro z hz
  have hrange := hzeros z hz
  simp only [Bool.and_eq_true, decide_eq_true_eq]
  omega

theorem isIntLiteral_of_isIdentifier {cs : List Char} (h : isIdentifier cs = true) :
    isIntLiteral cs = false := by
  cases cs with
  | nil => cases h
  | cons c cs =>
    have hhead : isNameHead c = true := ((Bool.and_eq_true _ _).mp h).1
    have hminus : c ≠ '-' := by
      rintro rfl
      cases hhead
    have hblank : isBlank c = false := isBlank_of_class (by decide +kernel) hhead
    rw [isIntLiteral, trim_cons hblank]
    simp [isInteger, hminus, isNatural, isDigit_of_isNameHead hhead]

end Line

theorem IsWord.trim_eq {n : String} (h : IsWord n) : trim n.toList = n.toList :=
  trim_eq_self (fun c hc => h c (List.mem_of_mem_head? hc))
    fun c hc => h c (List.mem_of_mem_getLast? hc)

namespace Build

theorem table_after_outline (lines : List (List Char)) (s : Session) :
    (after (outline lines) s).table = (after (outlineFrom 0 (numbered lines)) s).table := by
  rw [outline, after_bind, after]
  cases outlineFrom 0 (numbered lines) s <;> rfl

section
variable {w : List Char} {ws : List (List Char)} {line : Int} {s t : Session} {ref : PinRef}

theorem consumed_of_keyword (hpin : isWord "pin" w = true)
    (h : resolvePin (w :: ws) line s = .ok (some ref) t) : ref.consumed = 2 := by
  simp only [resolvePin, hpin, if_true] at h
  cases ws with
  | nil => cases h
  | cons x ws =>
    obtain ⟨r, u, -, h⟩ := bind_eq_ok.mp h
    cases r with
    | none => cases h
    | some r =>
      cases h
      rfl

theorem resolvePin_of_pinOfWord (hpin : isWord "pin" w = false)
    (h : pinOfWord w line s = .ok (some ref) t) :
    resolvePin (w :: ws) line s = .ok (some ref) t := by
  simp only [resolvePin, hpin, Bool.false_eq_true, if_false]
  exact bind_eq_ok.mpr ⟨some ref, t, h, rfl⟩

theorem pinOfWord_of_label (h : isAnalogLiteral w = true) (line : Int) (s : Session) :
    ∃ label t, pinOfWord w line s = .ok (some { target := .label label, kind := .analog }) t := by
  obtain ⟨label, hlabel⟩ := Option.isSome_iff_exists.mp h
  rw [pinOfWord, table_bind, hlabel]
  dsimp only
  split
  · exact ⟨_, _, rfl⟩
  · exact ⟨_, _, rfl⟩

theorem pinOfWord_of_name {p : Pin} (ht : s.table.Exclusive) (hp : p ∈ s.table.pins)
    (hword : IsWord p.name) (hlabel : isAnalogLiteral p.name.toList = false) (line : Int) :
    pinOfWord p.name.toList line s = .ok (some p.byName) s := by
  have hname : p.name ∈ s.table.names := List.mem_append_left _ (List.mem_map_of_mem hp)
  have hint := isIntLiteral_of_isIdentifier (ht.identifiers p.name hname)
  have hfind : s.table.findPin? p.name = some p :=
    (SymbolTable.find?_key_eq_some_iff ht.pins).mpr ⟨hp, rfl⟩
  have hnone : analogLabel? p.name.toList = none := by
    rwa [isAnalogLiteral, Option.isSome_eq_false_iff, Option.isNone_iff_eq_none] at hlabel
  rw [pinOfWord, table_bind, hnone]
  simp only [hint, Bool.false_eq_true, if_false, hword.trim_eq, String.ofList_toList, hfind]
  rfl

end

/-- **A declared pin answers to its name**, in every table that a first pass leads to, also one that
stops at a fault: whatever words follow, the name leads to the pin, takes up one word and nothing is
reported. It does so exactly if it is neither `pin`, in any case, nor an analog label. -/
theorem resolvePin_name_iff (board : Board) (reserved : List String) (lines : List (List Char))
    {s : Session} (hs : s.table = (after (outline lines) (.start board reserved)).table)
    {p : Pin} (hp : p ∈ s.table.pins) (ws : List (List Char)) (line : Int) :
    resolvePin (p.name.toList :: ws) line s = .ok (some p.byName) s ↔
      isWord "pin" p.name.toList = false ∧ isAnalogLiteral p.name.toList = false := by
  have hexclusive : s.table.Exclusive := by
    rw [hs]
    exact (SymbolTable.exclusive_start board reserved).grows (outline_extending lines _).table
  have hword : IsWord p.name := by
    rw [hs, table_after_outline] at hp
    exact isWord_after_outlineFrom 0 (fun _ h => absurd h List.not_mem_nil) p hp
  constructor
  · -- The keyword takes up two words, and a label never leads to a declared pin.
    intro h
    have hpin : isWord "pin" p.name.toList = false := by
      rw [Bool.eq_false_iff]
      intro hpin
      cases consumed_of_keyword hpin h
    refine ⟨hpin, ?_⟩
    rw [Bool.eq_false_iff]
    intro hlabel
    obtain ⟨label, t, hfound⟩ := pinOfWord_of_label hlabel line s
    rw [resolvePin_of_pinOfWord hpin hfound] at h
    cases h
  · rintro ⟨hpin, hlabel⟩
    exact resolvePin_of_pinOfWord hpin (pinOfWord_of_name hexclusive hp hword hlabel line)

theorem resolvePin_led : ∃ s led,
    s = after (outline ["pin led is 13".toList]) (.start .uno reservedWords) ∧
      led ∈ s.table.pins ∧ isWord "pin" led.name.toList = false ∧
      isAnalogLiteral led.name.toList = false ∧
      resolvePin [led.name.toList, "high".toList] 2 s = .ok (some led.byName) s := by
  have hpins : (after (outline ["pin led is 13".toList]) (.start .uno reservedWords)).table.pins =
      [⟨"led", .number 13, .digital, "13", 1, some 13⟩] := by decide +kernel
  obtain ⟨s, hs⟩ : ∃ s, s = after (outline ["pin led is 13".toList]) (.start .uno reservedWords) :=
    ⟨_, rfl⟩
  rw [← hs] at hpins
  have hled : ⟨"led", .number 13, .digital, "13", 1, some 13⟩ ∈ s.table.pins := by
    rw [hpins]
    exact List.mem_singleton_self _
  have hword : isWord "pin" "led".toList = false := by decide
  have hlabel : isAnalogLiteral "led".toList = false := by decide +kernel
  exact ⟨s, _, hs, hled, hword, hlabel, (resolvePin_name_iff .uno reservedWords _
    (congrArg Session.table hs) hled ["high".toList] 2).mpr ⟨hword, hlabel⟩⟩

/-- Two pins are declared without complaint, but the name of one is taken for the keyword and that
of the other for an analog label. -/
theorem declared_pins_misread : ∃ s,
    s = after (outline ["pin Pin is 13".toList, "pin A1 is 7".toList]) (.start .uno reservedWords) ∧
      s.table.pins.map Pin.byName =
        [⟨.named "Pin", .digital, 1, some 13⟩, ⟨.named "A1", .digital, 1, some 7⟩] ∧
      s.findings = [] ∧
      resolvePin ["Pin".toList] 1 s =
        .ok none { s with findings := [⟨1, .pinMissingAfterKeyword⟩] } ∧
      resolvePin ["A1".toList] 1 s = .ok (some ⟨.label "A1", .analog, 1, none⟩) s := by
  -- Only the facts that are needed of the run are computed.
  obtain ⟨s, hs, hpins, hfindings, hboard⟩ : ∃ s,
      s = after (outline ["pin Pin is 13".toList, "pin A1 is 7".toList])
        (.start .uno reservedWords) ∧
      s.table.pins.map Pin.byName =
        [⟨.named "Pin", .digital, 1, some 13⟩, ⟨.named "A1", .digital, 1, some 7⟩] ∧
      s.findings = [] ∧ s.table.board.hasAnalog "A1" = true :=
    ⟨_, rfl, by decide +kernel, by decide +kernel, by decide +kernel⟩
  refine ⟨s, hs, hpins, hfindings, ?_, ?_⟩
  · have hread : resolvePin ["Pin".toList] 1 s =
        .ok none { s with findings := s.findings ++ [⟨1, .pinMissingAfterKeyword⟩] } := rfl
    rw [hread, hfindings]
    rfl
  · have hlabel : analogLabel? "A1".toList = some "A1".toList := by decide +kernel
    refine resolvePin_of_pinOfWord (by decide) ?_
    rw [pinOfWord, table_bind, hlabel]
    simp only [String.ofList_toList, hboard, Bool.not_true, Bool.false_eq_true, if_false]
    rfl

end Build
end PlainSketch
