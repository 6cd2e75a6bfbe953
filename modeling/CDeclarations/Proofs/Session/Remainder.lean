import CDeclarations.Proofs.Grammar.Acceptance
import CDeclarations.Proofs.LongestMatch.EndOfInput
import CDeclarations.Session.Entry

namespace CDeclarations

/-- A line begins with a declaration of the grammar that there is room for, and these bytes stand
behind the declaration. -/
def Declares (capacity : Nat) (line : String) (d : Derivation) (left : List UInt8) : Prop :=
  d.front.length ≤ capacity ∧
    ∃ rest, ReadsOff (lineStream line) d.tokens rest ∧ rest.events = left.map .byte

/-- A line is reported for the token that stands behind its declaration, or for the reason why
none could be read there. -/
def Failure.IsFor (left : List UInt8) (failure : Failure) : Prop :=
  match (LongestMatch.token left).1 with
  | .ok found => failure = .trailing found ∧ failure.headline = "unexpected input after declaration"
  | .error cause => failure = .token cause ∧ failure.headline = "invalid token"

section Declares

variable {capacity : Nat} {line : String} {d : Derivation} {left : List UInt8}

theorem readDeclaration_of_declares (h : Declares capacity line d left) :
    ∃ rest, rest.events = left.map .byte ∧
      readDeclaration capacity (lineStream line) .unbounded =
        ⟨.ok d.declaration, Text.utf8 d.declaration.sentence, rest, .unbounded⟩ := by
  obtain ⟨hroom, rest, hread, hleft⟩ := h
  exact ⟨rest, hleft, readDeclaration_eq_ok_iff.mpr ⟨d, hread, hroom, rfl, rfl⟩⟩

theorem exists_declares {declaration : Declaration}
    (h : (readDeclaration capacity (lineStream line) .unbounded).result = .ok declaration) :
    ∃ (d : Derivation) (left : List UInt8), Declares capacity line d left := by
  obtain ⟨d, hread, hroom, -, -⟩ := exists_derivation h
  obtain ⟨left, -, hleft⟩ := hread.suffix (ByteStream.events_ofBytes (Text.utf8 line))
  exact ⟨d, left, hroom, _, hread, hleft⟩

theorem Declares.behind_semicolon (h : Declares capacity line d left) :
    ∃ before, Text.utf8 line = before ++ ';'.toUInt8 :: left := by
  obtain ⟨-, rest, hread, hleft⟩ := h
  obtain ⟨before, left', hline, hleft'⟩ :=
    hread.behind_semicolon (ByteStream.events_ofBytes (Text.utf8 line))
  have hsame : left.map ReadEvent.byte = left'.map .byte := hleft.symm.trans hleft'
  obtain rfl := List.map_injective_iff.mpr (fun _ _ => ReadEvent.byte.inj) hsame
  exact ⟨before, hline⟩

/-- What stands behind a declaration decides what is said of its line. -/
theorem describeLine_of_declares (h : Declares capacity line d left) :
    describeLine capacity line =
      match (LongestMatch.token left).1 with
      | .error .endOfInput => (Text.utf8 d.declaration.sentence, none)
      | .error cause => ([], some (.token cause))
      | .ok token => ([], some (.trailing token)) := by
  obtain ⟨rest, hleft, hreading⟩ := readDeclaration_of_declares h
  have hanswer := (agrees_nextToken hleft).1
  have hok : (Report.clear.recordResult (.ok d.declaration)).isOk = true := rfl
  unfold describeLine
  simp only [hreading, hok, Bool.not_true, Bool.false_eq_true, if_false]
  rw [← hanswer]
  generalize nextToken rest = next
  obtain ⟨(_ | _) | _, behind⟩ := next <;> rfl

theorem describeLine_of_end (h : Declares capacity line d left)
    (hend : IsGap left ∨ DanglingTag left) :
    describeLine capacity line = (Text.utf8 d.declaration.sentence, none) := by
  rw [describeLine_of_declares h, token_eq_endOfInput_iff.mpr hend]

theorem describeLine_of_more (h : Declares capacity line d left)
    (hmore : ¬ (IsGap left ∨ DanglingTag left)) :
    ∃ failure, describeLine capacity line = ([], some failure) ∧ failure.IsFor left := by
  rw [describeLine_of_declares h]
  unfold Failure.IsFor
  rw [← token_eq_endOfInput_iff] at hmore
  cases hanswer : (LongestMatch.token left).1 with
  | ok token => exact ⟨_, rfl, rfl, rfl⟩
  | error cause =>
    have hcause : cause ≠ .endOfInput := by
      intro heq
      exact hmore (heq ▸ hanswer)
    refine ⟨.token cause, ?_, rfl, rfl⟩
    cases cause <;> first | rfl | exact absurd rfl hcause

theorem describeLine_of_not_declares (h : ∀ d left, ¬ Declares capacity line d left) :
    ∃ report, report.status ≠ .ok ∧
      describeLine capacity line = ([], some (.declaration report)) := by
  have hstatus : (Report.clear.recordResult
      (readDeclaration capacity (lineStream line) .unbounded).result).status ≠ .ok := by
    rw [Ne, Report.status_recordResult_eq_ok_iff]
    intro h
    obtain ⟨declaration, hresult⟩ := h
    obtain ⟨d, left, hdeclares⟩ := exists_declares hresult
    exact h d left hdeclares
  refine ⟨_, hstatus, ?_⟩
  unfold describeLine
  exact if_pos (by simp [Report.isOk, hstatus])

theorem describeLine_eq_described_iff {text : List UInt8} :
    describeLine capacity line = (text, none) ↔
      ∃ d left, Declares capacity line d left ∧ (IsGap left ∨ DanglingTag left) ∧
        text = Text.utf8 d.declaration.sentence := by
  constructor
  · intro h
    by_cases hdeclares : ∃ d left, Declares capacity line d left
    · obtain ⟨d, left, hdeclares⟩ := hdeclares
      by_cases hend : IsGap left ∨ DanglingTag left
      · rw [describeLine_of_end hdeclares hend] at h
        exact ⟨d, left, hdeclares, hend, (Prod.mk.inj h).1.symm⟩
      · obtain ⟨failure, hfailure, -⟩ := describeLine_of_more hdeclares hend
        rw [hfailure] at h
        cases h
    · obtain ⟨report, -, hreport⟩ := describeLine_of_not_declares fun d left hd =>
        hdeclares ⟨d, left, hd⟩
      rw [hreport] at h
      cases h
  · intro h
    obtain ⟨d, left, hdeclares, hend, rfl⟩ := h
    exact describeLine_of_end hdeclares hend

end Declares

/-- A line is described when it is one declaration with nothing behind it but a gap, or a gap and a
tag without a name. With anything else behind its declaration nothing is said, and the line is
reported for it. -/
theorem describeLine_remainder (capacity : Nat) (line : String) :
    (∀ text, describeLine capacity line = (text, none) ↔
      ∃ d left, Declares capacity line d left ∧ (IsGap left ∨ DanglingTag left) ∧
        text = Text.utf8 d.declaration.sentence) ∧
    (∀ d left, Declares capacity line d left →
      (∃ before, Text.utf8 line = before ++ ';'.toUInt8 :: left) ∧
      (¬ (IsGap left ∨ DanglingTag left) →
        ∃ failure, describeLine capacity line = ([], some failure) ∧ failure.IsFor left)) ∧
    ((∀ d left, ¬ Declares capacity line d left) →
      ∃ report, report.status ≠ .ok ∧
        describeLine capacity line = ([], some (.declaration report))) := by
  refine ⟨fun text => describeLine_eq_described_iff, ?_, describeLine_of_not_declares⟩
  intro d left hdeclares
  exact ⟨hdeclares.behind_semicolon, describeLine_of_more hdeclares⟩

/-- With `struct` behind its declaration a line is described, though that is no gap. -/
theorem describeLine_tagBehind :
    describeLine 20 "int a; struct" = (Text.utf8 "a: int\n", none) ∧
      ∀ d left, Declares 20 "int a; struct" d left → ¬ IsGap left := by
  refine ⟨by decide +kernel, fun d left hdeclares => ?_⟩
  obtain ⟨rest, hleft, hreading⟩ := readDeclaration_of_declares hdeclares
  have hrest : (readDeclaration 20 (lineStream "int a; struct") .unbounded).rest.events =
      (Text.utf8 " struct").map .byte := by decide +kernel
  rw [hreading, hleft] at hrest
  obtain rfl := List.map_injective_iff.mpr (fun _ _ => ReadEvent.byte.inj) hrest
  exact DanglingTag.not_isGap ⟨.struct, [], .space (by decide) (.nothing _), .nothing []⟩

end CDeclarations
