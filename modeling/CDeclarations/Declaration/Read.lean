import CDeclarations.Declaration.Report
import CDeclarations.Declaration.TokenStack
import CDeclarations.Declaration.Unwind
import CDeclarations.Output.Sink
import CDeclarations.Token.Next

namespace CDeclarations

/-- Keeps the tokens in front of a name on the stack, up to the name. Each token uses up part of
the stream. -/
def readToName (stack : TokenStack) (s : ByteStream) :
    Except DeclarationError (String × TokenStack) × ByteStream :=
  match h : nextToken s with
  | (.error e, rest) => (.error (.ofTokenError e), rest)
  | (.ok (.identifier name), rest) => (.ok (name, stack), rest)
  | (.ok token, rest) =>
    match stack.push? token with
    | none => (.error .tooManyTokens, rest)
    | some stack =>
      have := nextToken_size_lt_of_ok h
      readToName stack rest
termination_by s.size

/-- Counts the closing parentheses up to the first other token. -/
def readClosing (count : Nat) (s : ByteStream) :
    Except DeclarationError (Nat × Token) × ByteStream :=
  match h : nextToken s with
  | (.error e, rest) => (.error (.ofTokenError e), rest)
  | (.ok (.punctuation .rightParen), rest) =>
    have := nextToken_size_lt_of_ok h
    readClosing (count + 1) rest
  | (.ok token, rest) => (.ok (count, token), rest)
termination_by s.size

theorem readToName_of_error {stack : TokenStack} {s rest : ByteStream} {e : TokenError}
    (h : nextToken s = (.error e, rest)) :
    readToName stack s = (.error (.ofTokenError e), rest) := by
  rw [readToName]
  split <;> simp_all

theorem readToName_of_identifier {stack : TokenStack} {s rest : ByteStream} {name : String}
    (h : nextToken s = (.ok (.identifier name), rest)) :
    readToName stack s = (.ok (name, stack), rest) := by
  rw [readToName]
  split <;> simp_all

theorem readToName_of_full {stack : TokenStack} {s rest : ByteStream} {token : Token}
    (h : nextToken s = (.ok token, rest)) (hname : ∀ name, token ≠ .identifier name)
    (hfull : stack.push? token = none) :
    readToName stack s = (.error .tooManyTokens, rest) := by
  rw [readToName]
  split <;> rename_i hread <;> rw [h] at hread <;> cases hread
  · exact absurd rfl (hname _)
  · rw [hfull]

theorem readToName_of_push {stack pushed : TokenStack} {s rest : ByteStream} {token : Token}
    (h : nextToken s = (.ok token, rest)) (hname : ∀ name, token ≠ .identifier name)
    (hpush : stack.push? token = some pushed) :
    readToName stack s = readToName pushed rest := by
  rw [readToName]
  split <;> rename_i hread <;> rw [h] at hread <;> cases hread
  · exact absurd rfl (hname _)
  · rw [hpush]

theorem readClosing_of_error {count : Nat} {s rest : ByteStream} {e : TokenError}
    (h : nextToken s = (.error e, rest)) :
    readClosing count s = (.error (.ofTokenError e), rest) := by
  rw [readClosing]
  split <;> simp_all

theorem readClosing_of_rightParen {count : Nat} {s rest : ByteStream}
    (h : nextToken s = (.ok (.punctuation .rightParen), rest)) :
    readClosing count s = readClosing (count + 1) rest := by
  rw [readClosing]
  split <;> simp_all

theorem readClosing_of_other {count : Nat} {s rest : ByteStream} {token : Token}
    (h : nextToken s = (.ok token, rest)) (hother : token ≠ .punctuation .rightParen) :
    readClosing count s = (.ok (count, token), rest) := by
  rw [readClosing]
  split <;> simp_all

/-- What came of reading a declaration: the declaration or the error, the bytes said about it,
and what is left of the stream and of the sink. -/
structure DeclarationReading where
  result : Except DeclarationError Declaration
  said : List UInt8
  rest : ByteStream
  sink : Sink

/-- Reads one declaration and says it in English. The name is said as soon as it is read, all
else when the semicolon has been read, in a single write here since it makes no difference how that
is cut into pieces. A sink that does not take what is said stops the reading. -/
def readDeclaration (capacity : Nat) (s : ByteStream) (sink : Sink) : DeclarationReading :=
  match readToName (.withCapacity capacity) s with
  | (.error e, rest) => ⟨.error e, [], rest, sink⟩
  | (.ok (name, stack), rest) =>
    let head := sink.write (Phrase.bytes [.name name])
    if !head.complete then ⟨.error .outputFailed, head.taken, rest, head.sink⟩
    else
      match readClosing 0 rest with
      | (.error e, rest) => ⟨.error e, head.taken, rest, head.sink⟩
      | (.ok (closing, token), rest) =>
        if token ≠ .punctuation .semicolon then
          ⟨.error (.malformed (.incomplete name)), head.taken, rest, head.sink⟩
        else
          let (phrases, result) := unwind name closing stack.tokens
          let tail := head.sink.write (Phrase.bytes phrases)
          ⟨if tail.complete then result.mapError .malformed else .error .outputFailed,
            head.taken ++ tail.taken, rest, tail.sink⟩

/-- A reading with the report that it leaves behind. -/
structure Description where
  status : DeclarationStatus
  report : Option Report
  said : List UInt8
  rest : ByteStream
  sink : Sink

/-- Reads one declaration and records how it came out in the report, if one is given. -/
def describe (capacity : Nat) (s : ByteStream) (sink : Sink) (report : Option Report) :
    Description :=
  let reading := readDeclaration capacity s sink
  let recorded := (report.getD .clear).recordResult reading.result
  ⟨recorded.status, report.map fun _ => recorded, reading.said, reading.rest, reading.sink⟩

end CDeclarations
