import CDeclarations.Proofs.Reading.Faults

namespace CDeclarations

/-- The stream behind so many readings, whatever came of them. -/
def behind : Nat → ByteStream → ByteStream
  | 0, s => s
  | n + 1, s => behind n (nextToken s).2

/-- What comes of the reading behind so many others. -/
def answer (s : ByteStream) (n : Nat) : Except TokenError Token := (nextToken (behind n s)).1

theorem behind_add (m n : Nat) (s : ByteStream) : behind (m + n) s = behind n (behind m s) := by
  induction m generalizing s with
  | zero => rw [Nat.zero_add, behind]
  | succ m ih => rw [Nat.succ_add, behind, ih, behind]

theorem nextToken_behind (s : ByteStream) (n : Nat) :
    nextToken (behind n s) = (answer s n, behind (n + 1) s) := by
  rw [behind_add n 1 s]
  rfl

theorem answer_behind (m n : Nat) (s : ByteStream) : answer (behind m s) n = answer s (m + n) := by
  rw [answer, answer, behind_add]

theorem behind_suffix (n : Nat) (s : ByteStream) : (behind n s).events <:+ s.events := by
  induction n generalizing s with
  | zero => exact List.suffix_rfl
  | succ n ih => exact (ih _).trans (nextToken_suffix s)

/-- Each token uses something up, so that not all answers are tokens. -/
theorem exists_answer_error (s : ByteStream) : ∃ n e, answer s n = .error e := by
  induction hsize : s.size using Nat.strongRecOn generalizing s with
  | ind size ih =>
    cases hread : nextToken s with
    | mk outcome rest =>
      cases outcome with
      | error e => exact ⟨0, e, congrArg Prod.fst hread⟩
      | ok t =>
        have hlt := nextToken_size_lt_of_ok hread
        obtain ⟨n, e, herror⟩ := ih rest.size (hsize ▸ hlt) rest rfl
        have hrest : behind 1 s = rest := congrArg Prod.snd hread
        refine ⟨1 + n, e, ?_⟩
        rw [← answer_behind, hrest, herror]

end CDeclarations
