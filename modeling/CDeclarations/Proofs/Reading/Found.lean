import CDeclarations.Proofs.LongestMatch.Token

namespace CDeclarations

theorem Reading.andThen_eq_ok_iff {α β : Type} {first : Reading α}
    {second : α → ByteStream → Reading β} {b : β} {rest : ByteStream} :
    first.andThen second = (.ok b, rest) ↔
      ∃ a between, first = (.ok a, between) ∧ second a between = (.ok b, rest) := by
  obtain ⟨_ | a, between⟩ := first
  · simp
  · constructor
    · intro h
      exact ⟨a, between, rfl, h⟩
    · intro h
      obtain ⟨a', between', hfirst, hsecond⟩ := h
      cases hfirst
      exact hsecond

theorem Scanner.read_eq_ok_iff {σ α : Type} {m : Scanner σ (Except TokenError α)} {state : σ}
    {s rest : ByteStream} {a : α} :
    m.read state s = (.ok a, rest) ↔ m.run state s.events = (.ok (.ok a), rest) := by
  unfold Scanner.read
  split <;> simp_all

/-- A step goes on in a state, or ends the scan with an answer, that is as wanted. -/
def Step.Keeps {σ α : Type} (P : σ → Prop) (Q : α → Prop) : Step σ α → Prop
  | .goOn state => P state
  | .stop answer | .giveBack answer => Q answer

/-- What every step keeps holds of the answer of a scan. -/
theorem Scanner.run_invariant {σ α : Type} {m : Scanner σ α} {P : σ → Prop} {Q : α → Prop}
    (hstep : ∀ state b, P state → (m.step state b).Keeps P Q)
    (hresume : ∀ state next, P state → m.resume state = some next → P next)
    (hfinish : ∀ state, P state → Q (m.finish state)) {state : σ} {events : List ReadEvent}
    {answer : α} {rest : ByteStream} (hstate : P state)
    (h : m.run state events = (.ok answer, rest)) : Q answer := by
  induction events generalizing state with
  | nil =>
    cases h
    exact hfinish state hstate
  | cons event events ih =>
    cases event with
    | byte b =>
      have hnext := hstep state b hstate
      rw [run] at h
      split at h <;> rename_i hb <;> rw [hb] at hnext
      · exact ih hnext h
      · cases h
        exact hnext
      · cases h
        exact hnext
    | fault cause =>
      rw [run] at h
      split at h
      · exact ih hstate h
      · cases h
    | ended =>
      rw [run] at h
      split at h
      · rename_i next hnext
        exact ih (hresume state next hstate hnext) h
      · cases h
        exact hfinish state hstate

namespace Gap

theorem eq_of_step_stop {g : Gap} {b c : UInt8} (h : g.step c = .stop (.ok (some b))) : c = b := by
  cases g <;> grind [step]

theorem eq_slash_of_giveBack {g : Gap} {b c : UInt8}
    (h : g.step c = .giveBack (.ok (some b))) : b = '/'.toUInt8 := by
  cases g <;> grind [step]

/-- A byte other than a slash is found where it stands, as the last that was read. -/
theorem run_found {g : Gap} {events : List ReadEvent} {b : UInt8} {rest : ByteStream}
    (h : scanner.run g events = (.ok (.ok (some b)), rest)) (hb : b ≠ '/'.toUInt8) :
    rest.held = none ∧ ∃ before, events = before ++ .byte b :: rest.unread := by
  induction events generalizing g with
  | nil =>
    cases g <;> cases h
    exact absurd rfl hb
  | cons event events ih =>
    have later : ∀ {g}, scanner.run g events = (.ok (.ok (some b)), rest) →
        rest.held = none ∧ ∃ before, event :: events = before ++ .byte b :: rest.unread := by
      intro g h
      obtain ⟨hheld, before, hevents⟩ := ih h
      exact ⟨hheld, event :: before, by rw [hevents, List.cons_append]⟩
    cases event with
    | byte c =>
      rw [Scanner.run] at h
      split at h <;> rename_i hstep
      · exact later h
      · cases h
        obtain rfl := eq_of_step_stop hstep
        exact ⟨rfl, [], rfl⟩
      · cases h
        exact absurd (eq_slash_of_giveBack hstep) hb
    | fault cause =>
      rw [Scanner.run] at h
      split at h
      · exact later h
      · cases h
    | ended =>
      rw [Scanner.run] at h
      split at h
      · exact later h
      · cases g <;> cases h
        exact absurd rfl hb

end Gap

theorem skipGap_found {s rest : ByteStream} {b : UInt8} (h : skipGap s = (.ok (some b), rest))
    (hb : b ≠ '/'.toUInt8) :
    rest.held = none ∧ ∃ before, s.events = before ++ .byte b :: rest.unread :=
  Gap.run_found (Scanner.read_eq_ok_iff.mp h) hb

/-- The byte behind the gap tells what the token is, and is the first of a word or a number. -/
theorem nextToken_of_found {s between : ByteStream} {b : UInt8}
    (h : skipGap s = (.ok (some b), between)) :
    nextToken s =
      if Text.isWordStart (Char.ofUInt8 b) then
        (readText wordGoesOn b ⟨none, between.unread⟩).andThen tokenOfWord
      else if (Char.ofUInt8 b).isDigit then
        (readText numberGoesOn b ⟨none, between.unread⟩).andThen fun literal rest =>
          (.ok (.number literal), rest)
      else
        match Punctuation.ofSymbol? (Char.ofUInt8 b) with
        | some mark => (.ok (.punctuation mark), between)
        | none => (.error (.unknownCharacter (Char.ofUInt8 b)), between) := by
  unfold nextToken
  rw [h, Reading.andThen_ok]
  dsimp only
  split
  · rename_i hstart
    obtain ⟨hheld, -⟩ := skipGap_found h (ne_slash_of_isWordStart hstart)
    rw [ByteStream.putBack_eq_ok hheld, Reading.andThen_ok, readWord_held hstart]
  · split
    · rename_i hdigit
      obtain ⟨hheld, -⟩ := skipGap_found h (ne_slash_of_isDigit hdigit)
      rw [ByteStream.putBack_eq_ok hheld, Reading.andThen_ok, readNumber_held hdigit]
    · rfl

theorem exists_found_of_ok {s rest : ByteStream} {t : Token} (h : nextToken s = (.ok t, rest)) :
    ∃ b between, skipGap s = (.ok (some b), between) := by
  obtain ⟨found, between, hskip, hfound⟩ := Reading.andThen_eq_ok_iff.mp h
  cases found with
  | none => cases hfound
  | some b => exact ⟨b, between, hskip⟩

theorem tokenOfWord_ne_punctuation {word : String} {s rest : ByteStream} {mark : Punctuation} :
    tokenOfWord word s ≠ (.ok (.punctuation mark), rest) := by
  intro h
  unfold tokenOfWord at h
  split at h <;> try cases h
  obtain ⟨name, behind, -, hname⟩ := Reading.andThen_eq_ok_iff.mp h
  cases hname

/-- A mark other than a slash is told by its own byte, and nothing is read behind that. -/
theorem nextToken_punctuation {s rest : ByteStream} {mark : Punctuation}
    (h : nextToken s = (.ok (.punctuation mark), rest)) (hmark : mark ≠ .slash) :
    rest.held = none ∧ ∃ before, s.events = before ++ .byte mark.symbol.toUInt8 :: rest.unread := by
  obtain ⟨b, between, hskip⟩ := exists_found_of_ok h
  rw [nextToken_of_found hskip] at h
  split at h
  · obtain ⟨word, behind, -, hword⟩ := Reading.andThen_eq_ok_iff.mp h
    exact absurd hword tokenOfWord_ne_punctuation
  · split at h
    · obtain ⟨literal, behind, -, hliteral⟩ := Reading.andThen_eq_ok_iff.mp h
      cases hliteral
    · split at h
      · rename_i found hfound
        cases h
        have hsymbol : mark.symbol = Char.ofUInt8 b := by simpa using List.find?_some hfound
        have hbyte : mark.symbol.toUInt8 = b := by rw [hsymbol, toUInt8_ofUInt8]
        rw [hbyte]
        refine skipGap_found hskip ?_
        rw [← hbyte]
        cases mark <;> first | decide | exact absurd rfl hmark
      · cases h

end CDeclarations
