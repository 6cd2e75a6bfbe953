import CDeclarations.Declaration.Read

namespace CDeclarations

theorem Sink.write_nil (sink : Sink) : sink.write [] = ⟨[], sink, true⟩ := by
  obtain ⟨_ | room, flushes⟩ := sink
  · rfl
  · simp [write]

/-- What is still to be said behind a name, and how the reading comes out if all of it is. -/
def behindName (name : String) (stack : TokenStack) :
    Except DeclarationError (Nat × Token) → List UInt8 × Except DeclarationError Declaration
  | .error e => ([], .error e)
  | .ok (closing, token) =>
    if token ≠ .punctuation .semicolon then ([], .error (.malformed (.incomplete name)))
    else
      let (phrases, result) := unwind name closing stack.tokens
      (Phrase.bytes phrases, result.mapError .malformed)

theorem behindName_of_other {name : String} {stack : TokenStack} {closing : Nat} {token : Token}
    (h : token ≠ .punctuation .semicolon) :
    behindName name stack (.ok (closing, token)) = ([], .error (.malformed (.incomplete name))) :=
  if_pos h

section Writes

variable {capacity : Nat} {s between : ByteStream}

theorem readDeclaration_of_name_error {e : DeclarationError}
    (h : readToName (.withCapacity capacity) s = (.error e, between)) (sink : Sink) :
    readDeclaration capacity s sink = ⟨.error e, [], between, sink⟩ := by
  rw [readDeclaration, h]

variable {name : String} {stack : TokenStack}

/-- A reading writes twice at most: the name, and what is said behind it. -/
theorem readDeclaration_of_name
    (hname : readToName (.withCapacity capacity) s = (.ok (name, stack), between)) (sink : Sink) :
    readDeclaration capacity s sink =
      let head := sink.write (Phrase.bytes [.name name])
      let behind := behindName name stack (readClosing 0 between).1
      let tail := head.sink.write behind.1
      if head.complete then
        ⟨if tail.complete then behind.2 else .error .outputFailed, head.taken ++ tail.taken,
          (readClosing 0 between).2, tail.sink⟩
      else ⟨.error .outputFailed, head.taken, between, head.sink⟩ := by
  unfold readDeclaration
  rw [hname]
  dsimp only
  cases (sink.write (Phrase.bytes [.name name])).complete with
  | false => rfl
  | true =>
    simp only [Bool.not_true, Bool.false_eq_true, if_false, if_true]
    cases readClosing 0 between with
    | mk outcome rest =>
      rcases outcome with e | ⟨closing, token⟩
      · simp [behindName, Sink.write_nil]
      · by_cases htoken : token = .punctuation .semicolon
        · simp [behindName, htoken]
        · simp [behindName, htoken, Sink.write_nil]

theorem readDeclaration_unbounded
    (hname : readToName (.withCapacity capacity) s = (.ok (name, stack), between)) :
    readDeclaration capacity s .unbounded =
      let behind := behindName name stack (readClosing 0 between).1
      ⟨behind.2, Text.utf8 (name ++ ":") ++ behind.1, (readClosing 0 between).2, .unbounded⟩ := by
  have hbytes : Phrase.bytes [.name name] = Text.utf8 (name ++ ":") := List.append_nil _
  rw [readDeclaration_of_name hname, ← hbytes]
  rfl

end Writes

end CDeclarations
