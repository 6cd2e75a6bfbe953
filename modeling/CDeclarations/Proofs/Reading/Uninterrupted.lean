import CDeclarations.Proofs.Grammar.Answers

namespace CDeclarations

/-- The stream without the reads that are interrupted. -/
def ByteStream.uninterrupted (s : ByteStream) : ByteStream :=
  { s with unread := s.unread.filter (· ≠ .fault .interrupted) }

/-- Interrupted reads make no difference to what is read, nor to what else is left. -/
def Indifferent {ε α : Type} (read : ByteStream → Except ε α × ByteStream) : Prop :=
  ∀ s, read s.uninterrupted = ((read s).1, (read s).2.uninterrupted)

theorem ByteStream.events_uninterrupted (s : ByteStream) :
    s.uninterrupted.events = s.events.filter (· ≠ .fault .interrupted) := by
  obtain ⟨_ | b, unread⟩ := s
  · rfl
  · rw [events_held, List.filter_cons_of_pos (by simp)]
    rfl

/-- An interrupted read leaves a scan where it is. -/
theorem Scanner.run_uninterrupted {σ α : Type} (m : Scanner σ α) (state : σ)
    (events : List ReadEvent) :
    m.run state (events.filter (· ≠ .fault .interrupted)) =
      ((m.run state events).1, (m.run state events).2.uninterrupted) := by
  induction events generalizing state with
  | nil => rfl
  | cons event events ih =>
    by_cases hevent : event = .fault .interrupted
    · rw [List.filter_cons_of_neg (by simp [hevent]), ih, hevent, run, if_pos rfl]
    · rw [List.filter_cons_of_pos (by simp [hevent])]
      cases event with
      | byte b =>
        rw [run, run]
        split
        · exact ih _
        · rfl
        · rfl
      | fault cause =>
        have hcause : cause ≠ .interrupted := fun h => hevent (congrArg _ h)
        rw [run, run, if_neg hcause, if_neg hcause]
        rfl
      | ended =>
        rw [run, run]
        split
        · exact ih _
        · rfl

section Indifferent

variable {α β : Type}

theorem indifferent_answer {ε : Type} (outcome : Except ε α) :
    Indifferent fun s => (outcome, s) := fun _ => rfl

theorem Indifferent.andThen {first : ByteStream → Reading α} {second : α → ByteStream → Reading β}
    (hfirst : Indifferent first) (hsecond : ∀ a, Indifferent (second a)) :
    Indifferent fun s => (first s).andThen second := by
  intro s
  dsimp only
  rw [hfirst s]
  generalize first s = read
  obtain ⟨e | a, rest⟩ := read
  · rfl
  · exact hsecond a rest

theorem Scanner.indifferent_read {σ : Type} (m : Scanner σ (Except TokenError α)) (state : σ) :
    Indifferent (m.read state) := by
  intro s
  unfold Scanner.read
  rw [ByteStream.events_uninterrupted, run_uninterrupted]
  generalize m.run state s.events = answer
  obtain ⟨_ | _, rest⟩ := answer <;> rfl

theorem indifferent_putBack (b : UInt8) : Indifferent (·.putBack b) := by
  intro s
  obtain ⟨_ | held, unread⟩ := s <;> rfl

theorem indifferent_skipGap : Indifferent skipGap := Gap.scanner.indifferent_read .blank

theorem indifferent_readText (goesOn : List UInt8 → UInt8 → Bool) (first : UInt8) :
    Indifferent (readText goesOn first) :=
  ((textScanner goesOn).indifferent_read [first]).andThen fun _ => indifferent_answer _

theorem indifferent_reject (b : UInt8) : Indifferent (reject b) := by
  intro s
  unfold reject
  split
  · rfl
  · exact indifferent_putBack b s

theorem indifferent_readItem (starts : Char → Bool) (goesOn : List UInt8 → UInt8 → Bool)
    (otherwise : TokenError) : Indifferent (readItem starts goesOn otherwise) := by
  refine indifferent_skipGap.andThen fun found => ?_
  cases found with
  | none => exact indifferent_answer _
  | some b =>
    dsimp only
    split
    · exact indifferent_readText goesOn b
    · exact (indifferent_reject b).andThen fun _ => indifferent_answer _

theorem indifferent_tokenOfWord (word : String) : Indifferent (tokenOfWord word) := by
  unfold tokenOfWord
  split
  case h_5 => exact (indifferent_readItem _ _ _).andThen fun _ => indifferent_answer _
  all_goals exact indifferent_answer _

theorem indifferent_nextToken : Indifferent nextToken := by
  refine indifferent_skipGap.andThen fun found => ?_
  cases found with
  | none => exact indifferent_answer _
  | some b =>
    dsimp only
    split
    · refine Indifferent.andThen ?_ indifferent_tokenOfWord
      exact (indifferent_putBack b).andThen fun _ => indifferent_readItem _ _ _
    · split
      · refine Indifferent.andThen ?_ fun _ => indifferent_answer _
        exact (indifferent_putBack b).andThen fun _ => indifferent_readItem _ _ _
      · split <;> exact indifferent_answer _

theorem nextToken_uninterrupted {s rest : ByteStream} {outcome : Except TokenError Token}
    (h : nextToken s = (outcome, rest)) :
    nextToken s.uninterrupted = (outcome, rest.uninterrupted) := by
  rw [indifferent_nextToken, h]

theorem indifferent_readToName (stack : TokenStack) : Indifferent (readToName stack) := by
  intro s
  fun_induction readToName stack s with
  | case1 stack s e next hnext => exact readToName_of_error (nextToken_uninterrupted hnext)
  | case2 stack s name next hnext => exact readToName_of_identifier (nextToken_uninterrupted hnext)
  | case3 stack s token next hname hnext hpush =>
    exact readToName_of_full (nextToken_uninterrupted hnext) hname hpush
  | case4 stack s token next hname hnext pushed hpush hlt ih =>
    rw [readToName_of_push (nextToken_uninterrupted hnext) hname hpush, ih]

theorem indifferent_readClosing (count : Nat) : Indifferent (readClosing count) := by
  intro s
  fun_induction readClosing count s with
  | case1 count s e next hnext => exact readClosing_of_error (nextToken_uninterrupted hnext)
  | case2 count s next hnext hlt ih =>
    rw [readClosing_of_rightParen (nextToken_uninterrupted hnext), ih]
  | case3 count s token next hother hnext =>
    exact readClosing_of_other (nextToken_uninterrupted hnext) hother

end Indifferent

theorem readDeclaration_uninterrupted (capacity : Nat) (s : ByteStream) (sink : Sink) :
    readDeclaration capacity s.uninterrupted sink =
      { readDeclaration capacity s sink with
        rest := (readDeclaration capacity s sink).rest.uninterrupted } := by
  unfold readDeclaration
  rw [indifferent_readToName]
  generalize readToName (.withCapacity capacity) s = named
  obtain ⟨e | ⟨name, stack⟩, between⟩ := named
  · rfl
  · dsimp only
    split
    · rfl
    · rw [indifferent_readClosing]
      generalize readClosing 0 between = closed
      obtain ⟨e | ⟨closing, token⟩, rest⟩ := closed
      · rfl
      · dsimp only
        split <;> rfl

end CDeclarations
