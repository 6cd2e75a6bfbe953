import CDeclarations.Proofs.LongestMatch.EndOfInput
import CDeclarations.Proofs.Reading.Answer
import CDeclarations.Token.Sequence

namespace CDeclarations

/-- All that readings one after another bring, up to the first that finds the end of the input. -/
structure UpToEnd (s : ByteStream) (outcomes : List (Except TokenError Token)) : Prop where
  answers : ∀ i < outcomes.length, outcomes[i]? = some (answer s i)
  ended : answer s outcomes.length = .error .endOfInput
  first : .error .endOfInput ∉ outcomes

section Readings

variable {s rest : ByteStream} {outcome : Except TokenError Token}
  {outcomes : List (Except TokenError Token)}

theorem UpToEnd.nothing (h : nextToken s = (.error .endOfInput, rest)) : UpToEnd s [] :=
  ⟨fun i hi => absurd hi (Nat.not_lt_zero i), congrArg Prod.fst h, List.not_mem_nil⟩

theorem UpToEnd.cons (h : nextToken s = (outcome, rest)) (hmore : outcome ≠ .error .endOfInput)
    (later : UpToEnd rest outcomes) : UpToEnd s (outcome :: outcomes) := by
  have hrest : behind 1 s = rest := congrArg Prod.snd h
  have hnext : ∀ i, answer s (i + 1) = answer rest i := by
    intro i
    rw [Nat.add_comm, ← answer_behind, hrest]
  refine ⟨fun i hi => ?_, ?_, ?_⟩
  · cases i with
    | zero => exact congrArg some (congrArg Prod.fst h).symm
    | succ i =>
      rw [List.getElem?_cons_succ, hnext]
      exact later.answers i (Nat.lt_of_succ_lt_succ hi)
  · rw [List.length_cons, hnext]
    exact later.ended
  · intro hmem
    rcases List.mem_cons.mp hmem with hfirst | hlater
    · exact hmore hfirst.symm
    · exact later.first hlater

/-- Every outcome is the answer of one of the readings. -/
theorem UpToEnd.exists_answer (h : UpToEnd s outcomes) (hmem : outcome ∈ outcomes) :
    ∃ i, answer s i = outcome := by
  obtain ⟨i, hi, hget⟩ := List.mem_iff_getElem.mp hmem
  have hanswer := h.answers i hi
  rw [List.getElem?_eq_getElem hi, hget] at hanswer
  exact ⟨i, (Option.some.inj hanswer).symm⟩

theorem takeTokens_succ (h : nextToken s = (outcome, rest)) (hmore : outcome ≠ .error .endOfInput)
    (n : Nat) : (takeTokens (n + 1) s).1 = outcome :: (takeTokens n rest).1 := by
  rw [takeTokens]
  split
  · rename_i hend
    rw [h] at hend
    cases hend
    exact absurd rfl hmore
  · rename_i hnext
    rw [h] at hnext
    cases hnext
    rfl

theorem takeTokens_end (h : nextToken s = (.error .endOfInput, rest)) (n : Nat) :
    (takeTokens (n + 1) s).1 = [] := by
  rw [takeTokens, h]

theorem size_lt_of_more (h : nextToken s = (outcome, rest))
    (hmore : outcome ≠ .error .endOfInput) : rest.size < s.size := by
  have hlt := nextToken_size_lt (s := s)
  rw [h] at hlt
  exact hlt hmore

/-- With more readings than there is to read, it is all one how many there are. -/
theorem takeTokens_eq_readTokens {n : Nat} (h : s.size < n) :
    (takeTokens n s).1 = (readTokens s).1 := by
  rw [readTokens]
  generalize hm : s.size + 1 = m
  have hlt : s.size < m := by omega
  clear hm
  induction n generalizing s m with
  | zero => exact absurd h (Nat.not_lt_zero _)
  | succ n ih =>
    cases m with
    | zero => exact absurd hlt (Nat.not_lt_zero _)
    | succ m =>
      cases hnext : nextToken s with
      | mk outcome rest =>
        by_cases hend : outcome = .error .endOfInput
        · rw [hend] at hnext
          rw [takeTokens_end hnext, takeTokens_end hnext]
        · have hsize := size_lt_of_more hnext hend
          have hlater : (takeTokens n rest).1 = (takeTokens m rest).1 :=
            ih (by omega) m (by omega)
          rw [takeTokens_succ hnext hend, takeTokens_succ hnext hend, hlater]

theorem readTokens_end (h : nextToken s = (.error .endOfInput, rest)) : (readTokens s).1 = [] :=
  takeTokens_end h s.size

theorem readTokens_cons (h : nextToken s = (outcome, rest))
    (hmore : outcome ≠ .error .endOfInput) :
    (readTokens s).1 = outcome :: (readTokens rest).1 := by
  have hsize := size_lt_of_more h hmore
  rw [readTokens, takeTokens_succ h hmore, takeTokens_eq_readTokens hsize]

end Readings

section Memory

variable {s : ByteStream} {bytes left : List UInt8} {outcome : Except TokenError Token}

theorem exists_nextToken (hs : s.events = bytes.map .byte)
    (h : LongestMatch.token bytes = (outcome, left)) :
    ∃ rest, nextToken s = (outcome, rest) ∧ rest.events = left.map .byte := by
  obtain ⟨hanswer, hleft⟩ := agrees_nextToken hs
  rw [h] at hanswer hleft
  exact ⟨(nextToken s).2, Prod.ext hanswer rfl, hleft⟩

theorem readTokens_of_end (hs : s.events = bytes.map .byte)
    (h : LongestMatch.token bytes = (.error .endOfInput, left)) : (readTokens s).1 = [] := by
  obtain ⟨rest, hnext, -⟩ := exists_nextToken hs h
  exact readTokens_end hnext

theorem readTokens_of_token (hs : s.events = bytes.map .byte)
    (h : LongestMatch.token bytes = (outcome, left)) (hmore : outcome ≠ .error .endOfInput) :
    ∃ rest, rest.events = left.map .byte ∧ (readTokens s).1 = outcome :: (readTokens rest).1 := by
  obtain ⟨rest, hnext, hrest⟩ := exists_nextToken hs h
  exact ⟨rest, hrest, readTokens_cons hnext hmore⟩

theorem length_lt_of_token (h : LongestMatch.token bytes = (outcome, left))
    (hmore : outcome ≠ .error .endOfInput) : left.length < bytes.length := by
  obtain ⟨rest, hnext, hrest⟩ := exists_nextToken (ByteStream.events_ofBytes bytes) h
  have hsize := size_lt_of_more hnext hmore
  rwa [ByteStream.size, ByteStream.size, hrest, ByteStream.events_ofBytes, List.length_map,
    List.length_map] at hsize

theorem readTokens_of_isGap (hs : s.events = bytes.map .byte) (h : IsGap bytes) :
    (readTokens s).1 = [] := by
  have hend : (LongestMatch.token bytes).1 = .error .endOfInput :=
    token_eq_endOfInput_iff.mpr (.inl h)
  exact readTokens_of_end hs (Prod.ext hend rfl : LongestMatch.token bytes = (_, _))

end Memory

/-- The readings of a stream come to its end. -/
theorem upToEnd_readTokens (s : ByteStream) : UpToEnd s (readTokens s).1 := by
  induction hsize : s.size using Nat.strongRecOn generalizing s with
  | ind size ih =>
    cases hnext : nextToken s with
    | mk outcome rest =>
      by_cases hend : outcome = .error .endOfInput
      · rw [hend] at hnext
        rw [readTokens_end hnext]
        exact .nothing hnext
      · have hlt := size_lt_of_more hnext hend
        rw [readTokens_cons hnext hend]
        exact .cons hnext hend (ih rest.size (hsize ▸ hlt) rest rfl)

end CDeclarations
