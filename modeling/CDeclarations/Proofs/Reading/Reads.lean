import CDeclarations.Token.Gap
import CDeclarations.Token.Run

namespace CDeclarations

section Read

/-- Reads a single byte, or none at the end. A fault is one of the errors of tokens. -/
def ByteStream.readByte (s : ByteStream) : Reading (Option UInt8) :=
  match s.next with
  | (.ok found, rest) => (.ok found, rest)
  | (.error cause, rest) => (.error (.readFailed cause), rest)

variable {s : ByteStream} {events : List ReadEvent}

theorem ByteStream.readByte_nil (hs : s.events = []) : s.readByte = (.ok none, ⟨none, []⟩) := by
  rw [readByte, next, hs]
  rfl

theorem ByteStream.readByte_byte {b : UInt8} (hs : s.events = .byte b :: events) :
    s.readByte = (.ok (some b), ⟨none, events⟩) := by
  rw [readByte, next, hs]
  rfl

theorem ByteStream.readByte_ended (hs : s.events = .ended :: events) :
    s.readByte = (.ok none, ⟨none, events⟩) := by
  rw [readByte, next, hs]
  rfl

theorem ByteStream.readByte_interrupted (hs : s.events = .fault .interrupted :: events) :
    s.readByte = (ofEvents events).readByte := by
  rw [readByte, next, hs]
  rfl

theorem ByteStream.readByte_fault {cause : ReadFault} (hcause : cause ≠ .interrupted)
    (hs : s.events = .fault cause :: events) :
    s.readByte = (.error (.readFailed cause), ⟨none, events⟩) := by
  rw [readByte, next, hs, Scanner.run, if_neg hcause]

/-- Whatever comes of a read, the stream holds no byte behind it. -/
theorem ByteStream.held_readByte (s : ByteStream) : s.readByte.2.held = none := by
  generalize hs : s.events = events
  induction events generalizing s with
  | nil => rw [readByte_nil hs]
  | cons event events ih =>
    cases event with
    | byte b => rw [readByte_byte hs]
    | ended => rw [readByte_ended hs]
    | fault cause =>
      by_cases hcause : cause = .interrupted
      · subst hcause
        rw [readByte_interrupted hs]
        exact ih _ rfl
      · rw [readByte_fault hcause hs]

/-- The byte that was read can be put back, for which there is no room otherwise. -/
theorem ByteStream.putBack_readByte (s : ByteStream) (b : UInt8) :
    s.readByte.2.putBack b = (.ok (), ⟨some b, s.readByte.2.unread⟩) :=
  putBack_eq_ok s.held_readByte b

end Read

namespace Scanner

variable {σ α : Type} {m : Scanner σ (Except TokenError α)}

/-- What a scan does behind one read. A byte is given back by putting it back, which might fail. -/
def behindRead (m : Scanner σ (Except TokenError α)) (state : σ) :
    Option UInt8 → ByteStream → Reading α
  | none, rest =>
    match m.resume state with
    | some next => m.read next rest
    | none => (m.finish state, rest)
  | some b, rest =>
    match m.step state b with
    | .goOn next => m.read next rest
    | .stop answer => (answer, rest)
    | .giveBack answer => (rest.putBack b).andThen fun _ rest => (answer, rest)

/-- Reading on behind the end does not change what is found if the end is all there is. -/
def ResumesAlike (m : Scanner σ (Except TokenError α)) : Prop :=
  ∀ state next, m.resume state = some next → m.finish next = m.finish state

/-- A scan is made of single reads, and of a byte put back where one is given back. -/
theorem read_eq_behindRead (hresume : m.ResumesAlike) (state : σ) (s : ByteStream) :
    m.read state s = s.readByte.andThen (m.behindRead state) := by
  generalize hs : s.events = events
  induction events generalizing s with
  | nil =>
    rw [ByteStream.readByte_nil hs, Reading.andThen_ok, behindRead, read, hs, run]
    cases hnext : m.resume state with
    | none => rfl
    | some next =>
      dsimp only
      rw [read, ByteStream.events_none, run, hresume state next hnext]
  | cons event events ih =>
    cases event with
    | byte b =>
      rw [ByteStream.readByte_byte hs, Reading.andThen_ok, behindRead, read, hs, run]
      cases m.step state b with
      | goOn next => rfl
      | stop answer => rfl
      | giveBack answer => rfl
    | ended =>
      rw [ByteStream.readByte_ended hs, Reading.andThen_ok, behindRead, read, hs, run]
      cases m.resume state with
      | none => rfl
      | some next => rfl
    | fault cause =>
      by_cases hcause : cause = .interrupted
      · subst hcause
        have hagain : m.read state s = m.read state (.ofEvents events) := by
          rw [read, read, hs, run, if_pos rfl, ByteStream.events_ofEvents]
        rw [ByteStream.readByte_interrupted hs, hagain]
        exact ih _ rfl
      · rw [ByteStream.readByte_fault hcause hs, Reading.andThen_error, read, hs, run,
          if_neg hcause]

end Scanner

theorem Gap.resumesAlike_scanner : Gap.scanner.ResumesAlike := by
  intro g next hnext
  cases g with
  | lineComment =>
    cases hnext
    rfl
  | _ => cases hnext

theorem resumesAlike_textScanner (goesOn : List UInt8 → UInt8 → Bool) :
    (textScanner goesOn).ResumesAlike := by
  intro text next hnext
  cases hnext

/-- White space, comments, words and numbers are read byte by byte, and what does not belong to them
is put back behind the read that brought it. -/
theorem read_eq_readByte (s : ByteStream) :
    (∀ g : Gap, Gap.scanner.read g s = s.readByte.andThen (Gap.scanner.behindRead g)) ∧
    (∀ goesOn text, (textScanner goesOn).read text s =
      s.readByte.andThen ((textScanner goesOn).behindRead text)) ∧
    ∀ b, s.readByte.2.putBack b = (.ok (), ⟨some b, s.readByte.2.unread⟩) :=
  ⟨fun g => Scanner.read_eq_behindRead Gap.resumesAlike_scanner g s,
    fun goesOn text => Scanner.read_eq_behindRead (resumesAlike_textScanner goesOn) text s,
    s.putBack_readByte⟩

end CDeclarations
