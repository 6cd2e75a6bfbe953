import CDeclarations.Proofs.Declaration.Writes

namespace CDeclarations

namespace Sink

/-- Writes pieces one after another, up to the first that is not taken in full. -/
def writeAll (sink : Sink) : List (List UInt8) → Written
  | [] => ⟨[], sink, true⟩
  | piece :: pieces =>
    let first := sink.write piece
    if first.complete then
      let later := first.sink.writeAll pieces
      ⟨first.taken ++ later.taken, later.sink, later.complete⟩
    else first

/-- It is all one how the bytes are cut into pieces, and whether some of these are empty. -/
theorem writeAll_eq_write (sink : Sink) (pieces : List (List UInt8)) :
    sink.writeAll pieces = sink.write pieces.flatten := by
  induction pieces generalizing sink with
  | nil => rw [writeAll, List.flatten_nil, write_nil]
  | cons piece pieces ih =>
    rw [writeAll, List.flatten_cons]
    by_cases hfirst : (sink.write piece).complete
    · rw [if_pos hfirst, write_append hfirst, ih]
    · have hcut : (sink.write piece).complete = false := by simpa using hfirst
      rw [if_neg hfirst, write_append_of_not_complete hcut]

end Sink

/-- A way to cut what is written into pieces. -/
structure Cutting where
  pieces : List UInt8 → List (List UInt8)
  flatten_pieces : ∀ bytes, (pieces bytes).flatten = bytes

theorem Cutting.writeAll_pieces (cutting : Cutting) (sink : Sink) (bytes : List UInt8) :
    sink.writeAll (cutting.pieces bytes) = sink.write bytes := by
  rw [Sink.writeAll_eq_write, cutting.flatten_pieces]

/-- A reading into a sink that loses output has said what the sink takes of what is said in full.
All else is as there if that is everything, and the loss is what is wrong if it is not. -/
structure InStep (full cut : DeclarationReading) (written : Written) : Prop where
  said : cut.said = written.taken
  sink : cut.sink = written.sink
  of_complete : written.complete = true → cut.result = full.result ∧ cut.rest = full.rest
  of_incomplete : written.complete = false → cut.result = .error .outputFailed

/-- The two readings go in step, through the name and through all that is said behind it. -/
theorem readDeclaration_inStep (capacity : Nat) (s : ByteStream) (sink : Sink) :
    InStep (readDeclaration capacity s .unbounded) (readDeclaration capacity s sink)
      (sink.write (readDeclaration capacity s .unbounded).said) := by
  cases hname : readToName (.withCapacity capacity) s with
  | mk outcome between =>
    rcases outcome with e | ⟨name, stack⟩
    · rw [readDeclaration_of_name_error hname, readDeclaration_of_name_error hname, Sink.write_nil]
      exact ⟨rfl, rfl, fun _ => ⟨rfl, rfl⟩, fun h => by cases h⟩
    · rw [readDeclaration_of_name hname, readDeclaration_of_name hname]
      simp only [Sink.write_unbounded, if_true]
      cases hhead : (sink.write (Phrase.bytes [.name name])).complete with
      | false =>
        -- The loss is in the name, so that the rest of what is said is not even tried.
        rw [Sink.write_append_of_not_complete hhead]
        refine ⟨rfl, rfl, fun hall => ?_, fun _ => rfl⟩
        rw [hhead] at hall
        cases hall
      | true =>
        rw [Sink.write_append hhead]
        refine ⟨rfl, rfl, fun hall => ?_, fun hless => ?_⟩
        · exact ⟨if_pos hall, rfl⟩
        · dsimp only at hless ⊢
          rw [hless]
          rfl

/-- With room for so many bytes, the first bytes of all that is said are taken, whatever the pieces
in which it is said. Nothing else is different if there is room for all of them. If there is not the
output is lost, whatever else would have been wrong. -/
theorem describe_bounded (capacity n : Nat) (s : ByteStream) (report : Option Report) :
    let full := describe capacity s .unbounded report
    let cut := describe capacity s (.bounded n) report
    cut.said = full.said.take n ∧
      (∀ pieces : List (List UInt8), pieces.flatten = full.said →
        cut.said = ((Sink.bounded n).writeAll pieces).taken ∧
        cut.sink = ((Sink.bounded n).writeAll pieces).sink) ∧
      (full.said.length ≤ n →
        cut.status = full.status ∧ cut.report = full.report ∧ cut.rest = full.rest) ∧
      (n < full.said.length →
        cut.status = .outputFailed ∧
        cut.report = report.map fun _ => ⟨.ok, "", .outputFailed, ""⟩) := by
  have hstep := readDeclaration_inStep capacity s (.bounded n)
  refine ⟨hstep.said, fun pieces hpieces => ?_, fun hroom => ?_, fun hless => ?_⟩
  · rw [Sink.writeAll_eq_write, hpieces]
    exact ⟨hstep.said, hstep.sink⟩
  · have hcomplete := decide_eq_true hroom
    obtain ⟨hresult, hrest⟩ := hstep.of_complete hcomplete
    unfold describe
    dsimp only
    rw [hresult]
    exact ⟨rfl, rfl, hrest⟩
  · have hincomplete := decide_eq_false (Nat.not_le_of_lt hless)
    have hresult := hstep.of_incomplete hincomplete
    unfold describe
    dsimp only
    rw [hresult]
    exact ⟨rfl, rfl⟩

end CDeclarations
