import CDeclarations.Input.Scan
import CDeclarations.Token.Error

namespace CDeclarations

/-- What was read, or why it was not, and the stream behind it. -/
abbrev Reading (α : Type) := Except TokenError α × ByteStream

namespace Reading

variable {α β : Type}

/-- Reads on behind a success and stops at an error. -/
def andThen (first : Reading α) (second : α → ByteStream → Reading β) : Reading β :=
  match first with
  | (.ok a, rest) => second a rest
  | (.error e, rest) => (.error e, rest)

@[simp] theorem andThen_ok (a : α) (rest : ByteStream) (second : α → ByteStream → Reading β) :
    Reading.andThen (.ok a, rest) second = second a rest := rfl

@[simp] theorem andThen_error (e : TokenError) (rest : ByteStream)
    (second : α → ByteStream → Reading β) :
    Reading.andThen (.error e, rest) second = (.error e, rest) := rfl

end Reading

/-- A scan whose faults join the errors of its answer. -/
def Scanner.read {σ α : Type} (m : Scanner σ (Except TokenError α)) (state : σ)
    (s : ByteStream) : Reading α :=
  match m.run state s.events with
  | (.ok answer, rest) => (answer, rest)
  | (.error cause, rest) => (.error (.readFailed cause), rest)

theorem Scanner.read_rest {σ α : Type} (m : Scanner σ (Except TokenError α)) (state : σ)
    (s : ByteStream) : (m.read state s).2 = (m.run state s.events).2 := by
  unfold Scanner.read
  split <;> simp_all

theorem Scanner.read_events_suffix {σ α : Type} (m : Scanner σ (Except TokenError α))
    (state : σ) (s : ByteStream) : (m.read state s).2.events <:+ s.events := by
  rw [m.read_rest state s]
  exact m.run_events_suffix state s.events

/-- Puts a byte back into the stream, where there may be no room for it. -/
def ByteStream.putBack (s : ByteStream) (b : UInt8) : Reading Unit :=
  match s.putBack? b with
  | some s => (.ok (), s)
  | none => (.error .putBackFailed, s)

theorem ByteStream.putBack_eq_ok {s : ByteStream} (h : s.held = none) (b : UInt8) :
    s.putBack b = (.ok (), ⟨some b, s.unread⟩) := by
  simp [putBack, putBack?, h]

theorem ByteStream.size_putBack_le (s : ByteStream) (b : UInt8) :
    (s.putBack b).2.size ≤ s.size + 1 := by
  obtain ⟨_ | _, unread⟩ := s <;> simp [putBack, putBack?, size, events]

end CDeclarations
