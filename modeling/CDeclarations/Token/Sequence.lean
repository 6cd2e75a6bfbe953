import CDeclarations.Token.Next

namespace CDeclarations

/-- The outcomes of at most so many readings one after another. The end of the input ends them
and is not among them, other errors are. -/
def takeTokens : Nat → ByteStream → List (Except TokenError Token) × ByteStream
  | 0, s => ([], s)
  | n + 1, s =>
    match nextToken s with
    | (.error .endOfInput, rest) => ([], rest)
    | (outcome, rest) =>
      let (outcomes, last) := takeTokens n rest
      (outcome :: outcomes, last)

/-- The outcomes up to the end of the input. Each uses something up, so there are no more of
them than the stream has to give. -/
def readTokens (s : ByteStream) : List (Except TokenError Token) × ByteStream :=
  takeTokens (s.size + 1) s

theorem takeTokens_length_le (n : Nat) (s : ByteStream) :
    (takeTokens n s).1.length ≤ s.size := by
  induction n generalizing s with
  | zero => exact Nat.zero_le _
  | succ n ih =>
    unfold takeTokens
    split
    · exact Nat.zero_le _
    · rename_i outcome rest hend h
      have hlt := nextToken_size_lt (s := s)
      rw [h] at hlt
      exact Nat.lt_of_le_of_lt (ih rest) (hlt hend)

end CDeclarations
