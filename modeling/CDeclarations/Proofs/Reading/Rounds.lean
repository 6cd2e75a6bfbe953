import CDeclarations.Declaration.Read
import CDeclarations.Proofs.Reading.UpToEnd

namespace CDeclarations

/-- What a round of a loop comes to: another round, or the answer of the loop. -/
inductive Round (σ α : Type)
  | again (state : σ)
  | done (answer : α)

/-- The answer of a loop, if it takes no more than so many rounds. -/
def answerWithin {σ α : Type} (round : σ → Round σ α) : Nat → σ → Option α
  | 0, _ => none
  | n + 1, state =>
    match round state with
    | .again next => answerWithin round n next
    | .done answer => some answer

/-- The rounds of a loop make for a result, and each but the last leaves less to be done. -/
structure RoundsTo {σ α : Type} (round : σ → Round σ α) (result : σ → α) (size : σ → Nat) :
    Prop where
  done : ∀ state answer, round state = .done answer → result state = answer
  again : ∀ state next, round state = .again next →
    result state = result next ∧ size next < size state

theorem RoundsTo.answerWithin_eq {σ α : Type} {round : σ → Round σ α} {result : σ → α}
    {size : σ → Nat} (h : RoundsTo round result size) {n : Nat} {state : σ}
    (hn : size state < n) : answerWithin round n state = some (result state) := by
  induction n generalizing state with
  | zero => exact absurd hn (Nat.not_lt_zero _)
  | succ n ih =>
    rw [answerWithin]
    cases hround : round state with
    | done answer => rw [h.done state answer hround]
    | again next =>
      obtain ⟨hresult, hless⟩ := h.again state next hround
      have hnext : size next < n := by omega
      rw [hresult]
      exact ih hnext

section Loops

/-- One read of a scan. -/
def Scanner.round {σ α : Type} (m : Scanner σ α) :
    σ × List ReadEvent → Round (σ × List ReadEvent) (Except ReadFault α × ByteStream)
  | (state, []) => .done (.ok (m.finish state), ⟨none, []⟩)
  | (state, .byte b :: events) =>
    match m.step state b with
    | .goOn next => .again (next, events)
    | .stop answer => .done (.ok answer, ⟨none, events⟩)
    | .giveBack answer => .done (.ok answer, ⟨some b, events⟩)
  | (state, .fault cause :: events) =>
    if cause = .interrupted then .again (state, events) else .done (.error cause, ⟨none, events⟩)
  | (state, .ended :: events) =>
    match m.resume state with
    | some next => .again (next, events)
    | none => .done (.ok (m.finish state), ⟨none, events⟩)

/-- One token in front of a name. -/
def nameRound : TokenStack × ByteStream →
    Round (TokenStack × ByteStream) (Except DeclarationError (String × TokenStack) × ByteStream)
  | (stack, s) =>
    match nextToken s with
    | (.error e, rest) => .done (.error (.ofTokenError e), rest)
    | (.ok (.identifier name), rest) => .done (.ok (name, stack), rest)
    | (.ok token, rest) =>
      match stack.push? token with
      | none => .done (.error .tooManyTokens, rest)
      | some pushed => .again (pushed, rest)

/-- One token behind a name. -/
def closingRound : Nat × ByteStream →
    Round (Nat × ByteStream) (Except DeclarationError (Nat × Token) × ByteStream)
  | (count, s) =>
    match nextToken s with
    | (.error e, rest) => .done (.error (.ofTokenError e), rest)
    | (.ok (.punctuation .rightParen), rest) => .again (count + 1, rest)
    | (.ok token, rest) => .done (.ok (count, token), rest)

/-- One of the readings that only the end of the input ends. -/
def outcomeRound : List (Except TokenError Token) × ByteStream →
    Round (List (Except TokenError Token) × ByteStream) (List (Except TokenError Token))
  | (outcomes, s) =>
    match nextToken s with
    | (.error .endOfInput, _) => .done outcomes
    | (outcome, rest) => .again (outcomes ++ [outcome], rest)

theorem Scanner.roundsTo_run {σ α : Type} (m : Scanner σ α) :
    RoundsTo m.round (fun p => m.run p.1 p.2) fun p => p.2.length := by
  constructor
  · intro ⟨state, events⟩ answer h
    cases events with
    | nil =>
      cases h
      rfl
    | cons event events => cases event <;> grind [round, run]
  · intro ⟨state, events⟩ next h
    cases events with
    | nil => cases h
    | cons event events => cases event <;> grind [round, run]

theorem roundsTo_readToName :
    RoundsTo nameRound (fun p => readToName p.1 p.2) fun p => p.2.size := by
  constructor
  · intro ⟨stack, s⟩ answer h
    dsimp only [nameRound] at h
    split at h
    case h_1 hnext =>
      cases h
      exact readToName_of_error hnext
    case h_2 hnext =>
      cases h
      exact readToName_of_identifier hnext
    case h_3 token rest hname hnext =>
      split at h
      · cases h
        rename_i hfull
        exact readToName_of_full hnext hname hfull
      · cases h
  · intro ⟨stack, s⟩ next h
    dsimp only [nameRound] at h
    split at h
    case h_1 => cases h
    case h_2 => cases h
    case h_3 token rest hname hnext =>
      split at h
      · cases h
      · cases h
        rename_i hpush
        exact ⟨readToName_of_push hnext hname hpush, nextToken_size_lt_of_ok hnext⟩

theorem roundsTo_readClosing :
    RoundsTo closingRound (fun p => readClosing p.1 p.2) fun p => p.2.size := by
  constructor
  · intro ⟨count, s⟩ answer h
    dsimp only [closingRound] at h
    split at h
    case h_1 hnext =>
      cases h
      exact readClosing_of_error hnext
    case h_2 => cases h
    case h_3 token rest hother hnext =>
      cases h
      exact readClosing_of_other hnext hother
  · intro ⟨count, s⟩ next h
    dsimp only [closingRound] at h
    split at h
    case h_1 => cases h
    case h_2 rest hnext =>
      cases h
      exact ⟨readClosing_of_rightParen hnext, nextToken_size_lt_of_ok hnext⟩
    case h_3 => cases h

theorem roundsTo_readTokens :
    RoundsTo outcomeRound (fun p => p.1 ++ (readTokens p.2).1) fun p => p.2.size := by
  constructor
  · intro ⟨outcomes, s⟩ answer h
    dsimp only [outcomeRound] at h
    split at h
    case h_1 rest hnext =>
      cases h
      dsimp only
      rw [readTokens_end hnext, List.append_nil]
    case h_2 => cases h
  · intro ⟨outcomes, s⟩ next h
    dsimp only [outcomeRound] at h
    split at h
    case h_1 => cases h
    case h_2 outcome rest hmore hnext =>
      cases h
      refine ⟨?_, size_lt_of_more hnext hmore⟩
      dsimp only
      rw [readTokens_cons hnext hmore, List.append_assoc, List.singleton_append]

end Loops

section Memory

variable {s : ByteStream} {bytes : List UInt8}

/-- The end of bytes in memory is found when all of them have been used up. -/
theorem nothing_of_nextToken_end (hs : s.events = bytes.map .byte)
    (h : (nextToken s).1 = .error .endOfInput) : (nextToken s).2.events = [] := by
  obtain ⟨hanswer, hleft⟩ := agrees_nextToken hs
  rw [h] at hanswer
  have hnone : (LongestMatch.token bytes).2 = [] :=
    left_of_token_end (Prod.ext hanswer.symm rfl : LongestMatch.token bytes = (_, _))
  rw [hleft, hnone]
  rfl

theorem nextToken_of_nothing (hs : s.events = []) :
    (nextToken s).1 = .error .endOfInput ∧ (nextToken s).2.events = [] := by
  have hmemory : s.events = ([] : List UInt8).map .byte := hs
  have hend : (nextToken s).1 = .error .endOfInput :=
    (agrees_nextToken hmemory).1.trans (token_eq_endOfInput_iff.mpr (.inl (.nothing [])))
  exact ⟨hend, nothing_of_nextToken_end hmemory hend⟩

/-- Where there is nothing left to read, every reading finds the end. -/
theorem answer_of_nothing (hs : s.events = []) (n : Nat) : answer s n = .error .endOfInput := by
  induction n generalizing s with
  | zero => exact (nextToken_of_nothing hs).1
  | succ n ih =>
    have hrest : (behind 1 s).events = [] := (nextToken_of_nothing hs).2
    rw [Nat.add_comm, ← answer_behind]
    exact ih hrest

end Memory

/-- Each reading of bytes in memory uses some of them up, unless it finds the end, which is where
none are left and where it is found from then on. So there are no more outcomes than bytes, errors
among them, and no loop takes more rounds than there are bytes and one more: not the one over
these outcomes, not those over the tokens in front of a name and behind it, and not those over the
bytes of white space, comments, words and numbers. -/
theorem nextToken_usesUp (held : Option UInt8) (bytes : List UInt8) :
    let s : ByteStream := ⟨held, bytes.map .byte⟩
    let count := (held.toList ++ bytes).length
    ((∃ left : List UInt8, (nextToken s).2.events = left.map .byte ∧
        ((nextToken s).1 ≠ .error .endOfInput → left.length < count) ∧
        ((nextToken s).1 = .error .endOfInput →
          left = [] ∧ ∀ n, answer (nextToken s).2 n = .error .endOfInput)) ∧
      UpToEnd s (readTokens s).1 ∧ (readTokens s).1.length ≤ count) ∧
    ∀ n > count,
      answerWithin outcomeRound n ([], s) = some (readTokens s).1 ∧
      (∀ stack, answerWithin nameRound n (stack, s) = some (readToName stack s)) ∧
      (∀ closing, answerWithin closingRound n (closing, s) = some (readClosing closing s)) ∧
      (∀ gap : Gap, answerWithin Gap.scanner.round n (gap, s.events) =
        some (Gap.scanner.run gap s.events)) ∧
      ∀ goesOn text, answerWithin (textScanner goesOn).round n (text, s.events) =
        some ((textScanner goesOn).run text s.events) := by
  intro s count
  have hs : s.events = (held.toList ++ bytes).map .byte := by
    cases held <;> rfl
  have hcount : s.size = count := by rw [ByteStream.size, hs, List.length_map]
  obtain ⟨-, hleft⟩ := agrees_nextToken hs
  refine ⟨⟨⟨_, hleft, fun hmore => ?_, fun hend => ?_⟩, upToEnd_readTokens s, ?_⟩, fun n hn => ?_⟩
  · have hless := nextToken_size_lt hmore
    rwa [hcount, ByteStream.size, hleft, List.length_map] at hless
  · have hnothing := nothing_of_nextToken_end hs hend
    refine ⟨?_, answer_of_nothing hnothing⟩
    rw [hleft] at hnothing
    exact List.map_eq_nil_iff.mp hnothing
  · rw [← hcount]
    exact takeTokens_length_le _ s
  · have hsize : s.size < n := hcount ▸ hn
    have hevents : s.events.length < n := hsize
    exact ⟨roundsTo_readTokens.answerWithin_eq hsize,
      fun stack => roundsTo_readToName.answerWithin_eq hsize,
      fun closing => roundsTo_readClosing.answerWithin_eq hsize,
      fun gap => Gap.scanner.roundsTo_run.answerWithin_eq hevents,
      fun goesOn text =>
        (textScanner goesOn).roundsTo_run.answerWithin_eq hevents⟩

end CDeclarations
