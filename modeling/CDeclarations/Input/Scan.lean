import CDeclarations.Input.Stream

namespace CDeclarations

/-- What a scanner does about the byte in front of it. -/
inductive Step (σ α : Type)
  /-- The byte is taken and the scan goes on. -/
  | goOn (state : σ)
  /-- The byte is taken and ends the scan. -/
  | stop (answer : α)
  /-- The scan is over, the byte belongs to what follows. -/
  | giveBack (answer : α)

/-- A machine that reads a stream byte by byte, with one byte of lookahead. -/
structure Scanner (σ α : Type) where
  step : σ → UInt8 → Step σ α
  /-- A state that reads on behind a report of the end, if there is one. -/
  resume : σ → Option σ
  finish : σ → α

namespace Scanner

variable {σ α : Type}

/-- An interrupted read is tried again, any other fault ends the scan. A byte that is given back is
the one just read and is held by the stream, which held none behind that read, so that there always
is room for it. -/
def run (m : Scanner σ α) : σ → List ReadEvent → Except ReadFault α × ByteStream
  | state, [] => (.ok (m.finish state), ⟨none, []⟩)
  | state, .byte b :: events =>
    match m.step state b with
    | .goOn state => m.run state events
    | .stop answer => (.ok answer, ⟨none, events⟩)
    | .giveBack answer => (.ok answer, ⟨some b, events⟩)
  | state, .fault cause :: events =>
    if cause = .interrupted then m.run state events else (.error cause, ⟨none, events⟩)
  | state, .ended :: events =>
    match m.resume state with
    | some state => m.run state events
    | none => (.ok (m.finish state), ⟨none, events⟩)

/-- A scan takes reads from the front only. -/
theorem run_events_suffix (m : Scanner σ α) (state : σ) (events : List ReadEvent) :
    (m.run state events).2.events <:+ events := by
  induction events generalizing state with
  | nil => exact List.suffix_rfl
  | cons event events ih =>
    have later : ∀ state, (m.run state events).2.events <:+ event :: events :=
      fun state => (ih state).trans (List.suffix_cons event events)
    cases event with
    | byte b =>
      rw [run]
      split
      · exact later _
      · exact List.suffix_cons _ _
      · exact List.suffix_rfl
    | fault cause =>
      rw [run]
      split
      · exact later _
      · exact List.suffix_cons _ _
    | ended =>
      rw [run]
      split
      · exact later _
      · exact List.suffix_cons _ _

/-- Takes a single byte, or none if the end is reported first. -/
def oneByte : Scanner Unit (Option UInt8) where
  step _ b := .stop (some b)
  resume _ := none
  finish _ := none

end Scanner

/-- The next byte, or none if the end of the input is reported instead. -/
def ByteStream.next (s : ByteStream) : Except ReadFault (Option UInt8) × ByteStream :=
  Scanner.oneByte.run () s.events

@[simp] theorem ByteStream.next_held (b : UInt8) (unread : List ReadEvent) :
    (ByteStream.mk (some b) unread).next = (.ok (some b), ⟨none, unread⟩) := rfl

/-- What was put back is what is read next. -/
theorem ByteStream.next_putBack? {s t : ByteStream} {b : UInt8} (h : s.putBack? b = some t) :
    t.next = (.ok (some b), s) := by
  obtain ⟨_ | _, unread⟩ := s
  · cases h; rfl
  · cases h

end CDeclarations
