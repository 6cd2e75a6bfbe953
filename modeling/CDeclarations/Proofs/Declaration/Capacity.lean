import CDeclarations.Proofs.Declaration.Writes
import CDeclarations.Proofs.Grammar.Answers

namespace CDeclarations

section Room

variable {stack larger pushed : TokenStack} {token : Token}

/-- A stack holds the tokens that a larger one does, which has no less room for more. -/
structure TokenStack.Within (stack larger : TokenStack) : Prop where
  tokens_eq : larger.tokens = stack.tokens
  room_le : stack.room ≤ larger.room

theorem TokenStack.within_withCapacity {capacity more : Nat} (h : capacity ≤ more) :
    (withCapacity capacity).Within (withCapacity more) := ⟨rfl, h⟩

/-- What can be pushed on a stack can be pushed on a larger one. -/
theorem TokenStack.Within.exists_push? (h : stack.Within larger)
    (hpush : stack.push? token = some pushed) :
    ∃ later, larger.push? token = some later ∧ pushed.Within later := by
  obtain ⟨htokens, hroom⟩ := push?_eq_some_iff.mp hpush
  have hle := h.room_le
  have hlarger : larger.push? token = some ⟨token :: larger.tokens, larger.room - 1⟩ :=
    push?_eq_some_iff.mpr ⟨rfl, by simp only; omega⟩
  refine ⟨_, hlarger, ?_, ?_⟩
  · rw [htokens, h.tokens_eq]
  · simp only
    omega

/-- What a reading up to a name comes to with some room, and what with more: only a stack that was
full makes a difference. -/
inductive SameUnlessFull : Except DeclarationError (String × TokenStack) × ByteStream →
    Except DeclarationError (String × TokenStack) × ByteStream → Prop
  | full {rest : ByteStream} {other : Except DeclarationError (String × TokenStack) × ByteStream} :
      SameUnlessFull (.error .tooManyTokens, rest) other
  | error {e : DeclarationError} {rest : ByteStream} :
      SameUnlessFull (.error e, rest) (.error e, rest)
  | name {name : String} {stack larger : TokenStack} {rest : ByteStream} :
      stack.Within larger → SameUnlessFull (.ok (name, stack), rest) (.ok (name, larger), rest)

/-- Token by token the two readings keep the same on their stacks. -/
theorem readToName_sameUnlessFull (h : stack.Within larger) (s : ByteStream) :
    SameUnlessFull (readToName stack s) (readToName larger s) := by
  fun_induction readToName stack s generalizing larger with
  | case1 stack s e next hnext =>
    rw [readToName_of_error hnext]
    exact .error
  | case2 stack s name next hnext =>
    rw [readToName_of_identifier hnext]
    exact .name h
  | case3 stack s token next hname hnext hpush => exact .full
  | case4 stack s token next hname hnext pushed hpush hlt ih =>
    obtain ⟨later, hlater, hwithin⟩ := h.exists_push? hpush
    rw [readToName_of_push hnext hname hlater]
    exact ih hwithin

end Room

/-- Behind a name only the tokens on the stack matter. -/
theorem behindName_congr {stack larger : TokenStack} (h : larger.tokens = stack.tokens)
    (name : String) (outcome : Except DeclarationError (Nat × Token)) :
    behindName name larger outcome = behindName name stack outcome := by
  unfold behindName
  rw [h]

/-- Behind a name nothing can be wrong but a token, or what the tokens make. -/
theorem eq_of_behindName_error {name : String} {stack : TokenStack} {s : ByteStream}
    {e : DeclarationError} (h : (behindName name stack (readClosing 0 s).1).2 = .error e) :
    (∃ cause, e = .ofTokenError cause) ∨ ∃ cause, e = .malformed cause := by
  cases houtcome : (readClosing 0 s).1 with
  | error e' =>
    rw [houtcome] at h
    obtain rfl : e' = e := Except.error.inj h
    exact .inl (exists_eq_of_readClosing_error houtcome)
  | ok closing =>
    rw [houtcome] at h
    unfold behindName at h
    dsimp only at h
    split at h
    · exact .inr ⟨_, (Except.error.inj h).symm⟩
    · cases hunwind : (unwind name closing.1 stack.tokens).2 with
      | error cause =>
        rw [hunwind] at h
        exact .inr ⟨cause, (Except.error.inj h).symm⟩
      | ok d =>
        rw [hunwind] at h
        cases h

theorem behindName_ne_tooManyTokens (name : String) (stack : TokenStack) (s : ByteStream) :
    (behindName name stack (readClosing 0 s).1).2 ≠ .error .tooManyTokens := by
  intro h
  rcases eq_of_behindName_error h with ⟨cause, hcause⟩ | ⟨cause, hcause⟩
  · cases cause <;> cases hcause
  · cases hcause

section Overflow

variable {capacity more : Nat} {s : ByteStream} {sink : Sink}

/-- The stack can only be full in front of a name, where nothing has been said. -/
theorem readDeclaration_of_tooManyTokens
    (h : (readDeclaration capacity s sink).result = .error .tooManyTokens) :
    (readDeclaration capacity s sink).said = [] ∧
      (readDeclaration capacity s sink).sink = sink := by
  cases hname : readToName (.withCapacity capacity) s with
  | mk outcome between =>
    rcases outcome with e | ⟨name, stack⟩
    · rw [readDeclaration_of_name_error hname]
      exact ⟨rfl, rfl⟩
    · have hbehind := behindName_ne_tooManyTokens name stack between
      rw [readDeclaration_of_name hname] at h
      dsimp only at h
      split at h
      · dsimp only at h
        split at h
        · exact absurd h hbehind
        · cases h
      · cases h

theorem readDeclaration_of_capacity_le (hle : capacity ≤ more)
    (hfits : (readDeclaration capacity s sink).result ≠ .error .tooManyTokens) :
    readDeclaration more s sink = readDeclaration capacity s sink := by
  have hsame := readToName_sameUnlessFull (TokenStack.within_withCapacity hle) s
  cases hfirst : readToName (.withCapacity capacity) s with
  | mk outcome rest =>
    cases hsecond : readToName (.withCapacity more) s with
    | mk outcome' rest' =>
      rw [hfirst, hsecond] at hsame
      cases hsame with
      | full =>
        rw [readDeclaration_of_name_error hfirst] at hfits
        exact absurd rfl hfits
      | error =>
        rw [readDeclaration_of_name_error hfirst, readDeclaration_of_name_error hsecond]
      | name hwithin =>
        rw [readDeclaration_of_name hfirst, readDeclaration_of_name hsecond,
          behindName_congr hwithin.tokens_eq]

theorem Report.status_recordResult_eq_tooManyTokens_iff (r : Report)
    (result : Except DeclarationError Declaration) :
    (r.recordResult result).status = .tooManyTokens ↔ result = .error .tooManyTokens := by
  rcases result with (_ | cause | _ | _ | cause) | d
  case error.malformed =>
    simp only [recordResult, record]
    split <;> simp
  all_goals simp [recordResult, record]

end Overflow

/-- With more room a declaration is read as it is with less, unless there was too little room for
it, and then nothing is said of it. -/
theorem describe_of_capacity_le {capacity more : Nat} (hle : capacity ≤ more) (s : ByteStream)
    (sink : Sink) (report : Option Report) :
    ((describe capacity s sink report).status ≠ .tooManyTokens →
      describe more s sink report = describe capacity s sink report) ∧
    ((describe more s sink report).status = .tooManyTokens →
      (describe capacity s sink report).status = .tooManyTokens) ∧
    ∀ room, (describe room s sink report).status = .tooManyTokens →
      (describe room s sink report).said = [] ∧ (describe room s sink report).sink = sink := by
  have hfull : ∀ room, (describe room s sink report).status = .tooManyTokens ↔
      (readDeclaration room s sink).result = .error .tooManyTokens := fun room =>
    Report.status_recordResult_eq_tooManyTokens_iff _ _
  have hsame : (describe capacity s sink report).status ≠ .tooManyTokens →
      describe more s sink report = describe capacity s sink report := by
    intro hfits
    rw [Ne, hfull] at hfits
    unfold describe
    rw [readDeclaration_of_capacity_le hle hfits]
  refine ⟨hsame, fun hmore => ?_, fun room hroom => ?_⟩
  · refine Decidable.byContradiction fun hfits => ?_
    rw [hsame hfits] at hmore
    exact hfits hmore
  · exact readDeclaration_of_tooManyTokens ((hfull room).mp hroom)

/-- There are four tokens in front of this name, and the output is lost behind it. -/
theorem describe_of_capacity_le_four :
    let s := .ofBytes (Text.utf8 "char ***p; q")
    (describe 4 s (.bounded 5) none).status = .outputFailed ∧
      describe 20 s (.bounded 5) none = describe 4 s (.bounded 5) none ∧
      (describe 3 s (.bounded 5) none).status = .tooManyTokens ∧
      (describe 2 s (.bounded 5) none).status = .tooManyTokens ∧
      (describe 3 s (.bounded 5) none).said = [] := by
  intro s
  have hlost : (describe 4 s (.bounded 5) none).status = .outputFailed := by decide +kernel
  have hfull : (describe 3 s (.bounded 5) none).status = .tooManyTokens := by decide +kernel
  have hfits : (describe 4 s (.bounded 5) none).status ≠ .tooManyTokens := by
    rw [hlost]
    decide
  have hsame := (describe_of_capacity_le (by decide : 4 ≤ 20) s (.bounded 5) none).1 hfits
  obtain ⟨-, hless, hsilent⟩ := describe_of_capacity_le (by decide : 2 ≤ 3) s (.bounded 5) none
  exact ⟨hlost, hsame, hfull, hless hfull, (hsilent 3 hfull).1⟩

end CDeclarations
