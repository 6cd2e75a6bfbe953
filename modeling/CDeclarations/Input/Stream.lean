namespace CDeclarations

/-- Why one read from a source of bytes can fail. These are some of the kinds that systems tell
apart, not all of them. Only an interrupted read is treated in a way of its own, any other kind is
told from the rest by its words alone. -/
inductive ReadFault
  | notFound
  | permissionDenied
  | connectionReset
  | brokenPipe
  | wouldBlock
  | invalidInput
  | invalidData
  | timedOut
  | writeZero
  | interrupted
  | unexpectedEnd
  | outOfMemory
  | other
  deriving DecidableEq

/-- The words for a fault in messages to the user. -/
def ReadFault.message : ReadFault → String
  | .notFound => "entity not found"
  | .permissionDenied => "permission denied"
  | .connectionReset => "connection reset"
  | .brokenPipe => "broken pipe"
  | .wouldBlock => "operation would block"
  | .invalidInput => "invalid input parameter"
  | .invalidData => "invalid data"
  | .timedOut => "timed out"
  | .writeZero => "write zero"
  | .interrupted => "operation interrupted"
  | .unexpectedEnd => "unexpected end of file"
  | .outOfMemory => "out of memory"
  | .other => "other error"

/-- What one read brings. The news that the input has ended is not final: a source such as a
terminal may bring more on a later read. -/
inductive ReadEvent
  | byte (value : UInt8)
  | fault (cause : ReadFault)
  | ended
  deriving DecidableEq

/-- The reads still to come, behind room for one byte that was read and put back. -/
structure ByteStream where
  held : Option UInt8
  unread : List ReadEvent
  deriving DecidableEq

namespace ByteStream

def ofEvents (events : List ReadEvent) : ByteStream := ⟨none, events⟩

def ofBytes (bytes : List UInt8) : ByteStream := ofEvents (bytes.map .byte)

/-- All that is still to come, a held byte first. -/
def events (s : ByteStream) : List ReadEvent :=
  match s.held with
  | none => s.unread
  | some b => .byte b :: s.unread

def size (s : ByteStream) : Nat := s.events.length

/-- Fails if a byte is held already: there is room for one only. -/
def putBack? (s : ByteStream) (b : UInt8) : Option ByteStream :=
  match s.held with
  | none => some ⟨some b, s.unread⟩
  | some _ => none

@[simp] theorem events_ofEvents (events : List ReadEvent) : (ofEvents events).events = events := rfl

@[simp] theorem events_ofBytes (bytes : List UInt8) :
    (ofBytes bytes).events = bytes.map .byte := rfl

@[simp] theorem events_held (b : UInt8) (unread : List ReadEvent) :
    (ByteStream.mk (some b) unread).events = .byte b :: unread := rfl

@[simp] theorem events_none (unread : List ReadEvent) :
    (ByteStream.mk none unread).events = unread := rfl

theorem events_putBack? {s t : ByteStream} {b : UInt8} (h : s.putBack? b = some t) :
    t.events = .byte b :: s.events := by
  obtain ⟨_ | _, unread⟩ := s
  · cases h; rfl
  · cases h

theorem putBack?_eq_none_iff {s : ByteStream} {b : UInt8} :
    s.putBack? b = none ↔ s.held.isSome := by
  obtain ⟨_ | _, unread⟩ := s <;> simp [putBack?]

end ByteStream

/-- The bytes up to the next report of the end, with faults passed over, and the reads behind
that report. -/
def drainEvents : List ReadEvent → List UInt8 × List ReadEvent
  | [] => ([], [])
  | .byte b :: events =>
    let (bytes, later) := drainEvents events
    (b :: bytes, later)
  | .fault _ :: events => drainEvents events
  | .ended :: events => ([], events)

/-- Reads on until the end is reported, taking no notice of faults. -/
def ByteStream.drain (s : ByteStream) : List UInt8 × ByteStream :=
  let (bytes, later) := drainEvents s.events
  (bytes, .ofEvents later)

theorem drainEvents_bytes (bytes : List UInt8) :
    drainEvents (bytes.map .byte) = (bytes, []) := by
  induction bytes with
  | nil => rfl
  | cons b bytes ih => simp [drainEvents, ih]

end CDeclarations
