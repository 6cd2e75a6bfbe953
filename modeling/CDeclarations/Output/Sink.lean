import CDeclarations.Text.Bytes

namespace CDeclarations

/-- Why output is lost. -/
inductive SinkFault
  | closed
  | flushFailed
  deriving DecidableEq

def SinkFault.message : SinkFault → String
  | .closed => "closed"
  | .flushFailed => "flush failed"

/-- A place for output that takes so many more bytes, or any number of them. -/
structure Sink where
  room : Option Nat
  flushes : Bool
  deriving DecidableEq

/-- What came of a write: the bytes that were taken, the sink afterwards, and whether these
were all. -/
structure Written where
  taken : List UInt8
  sink : Sink
  complete : Bool
  deriving DecidableEq

namespace Sink

/-- A sink that never fails. -/
def unbounded : Sink := ⟨none, true⟩

def bounded (room : Nat) : Sink := ⟨some room, true⟩

/-- A write that does not fit fills the sink and fails. One of no bytes never does. -/
def write (sink : Sink) (bytes : List UInt8) : Written :=
  match sink.room with
  | none => ⟨bytes, sink, true⟩
  | some room =>
    ⟨bytes.take room, { sink with room := some (room - bytes.length) },
      decide (bytes.length ≤ room)⟩

def flush (sink : Sink) : Except SinkFault Unit :=
  if sink.flushes then .ok () else .error .flushFailed

@[simp] theorem write_unbounded (bytes : List UInt8) :
    unbounded.write bytes = ⟨bytes, unbounded, true⟩ := rfl

/-- One write behind another is a single write of both, if the first is complete. -/
theorem write_append {sink : Sink} {a b : List UInt8} (h : (sink.write a).complete) :
    sink.write (a ++ b) =
      ⟨(sink.write a).taken ++ ((sink.write a).sink.write b).taken,
        ((sink.write a).sink.write b).sink, ((sink.write a).sink.write b).complete⟩ := by
  obtain ⟨_ | room, flushes⟩ := sink
  · rfl
  · have hle : a.length ≤ room := by simpa [write] using h
    simp only [write, List.take_append, List.length_append, Written.mk.injEq, Sink.mk.injEq,
      Option.some.injEq, and_true, decide_eq_decide, true_and]
    omega

/-- Behind an incomplete write nothing more is taken. -/
theorem write_append_of_not_complete {sink : Sink} {a b : List UInt8}
    (h : (sink.write a).complete = false) :
    sink.write (a ++ b) = sink.write a := by
  obtain ⟨_ | room, flushes⟩ := sink
  · simp [write] at h
  · have hlt : room < a.length := by simpa [write] using h
    simp only [write, List.length_append, Written.mk.injEq, Sink.mk.injEq, Option.some.injEq,
      and_true, decide_eq_decide]
    refine ⟨List.take_append_of_le_length (by omega), ?_, ?_⟩ <;> omega

end Sink

end CDeclarations
