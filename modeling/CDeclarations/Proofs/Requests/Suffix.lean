import CDeclarations.Proofs.Declaration.Tokens

namespace CDeclarations

/-- What a client asks of a stream: a token, or a declaration, which is said into a sink and
recorded in a report if one is given. -/
inductive Request
  | token
  | declaration (capacity : Nat) (sink : Sink) (report : Option Report)

/-- What comes of a request. The result of reading a declaration is not shown as it is, but by the
status and the report. -/
inductive Reply
  | token (outcome : Except TokenError Token)
  | declaration (result : Except DeclarationError Declaration) (status : DeclarationStatus)
      (report : Option Report) (said : List UInt8) (sink : Sink)

def Request.serve : Request → ByteStream → Reply × ByteStream
  | .token, s => (.token (nextToken s).1, (nextToken s).2)
  | .declaration capacity sink report, s =>
    let d := describe capacity s sink report
    (.declaration (readDeclaration capacity s sink).result d.status d.report d.said d.sink, d.rest)

/-- The replies to requests one after another, each with the stream that it leaves. -/
def serveAll : List Request → ByteStream → List (Reply × ByteStream)
  | [], _ => []
  | request :: requests, s => request.serve s :: serveAll requests (request.serve s).2

/-- The token error that a reply comes of, shown or not. -/
def Reply.error? : Reply → Option TokenError
  | .token outcome => errorOf? outcome
  | .declaration result .. => tokenErrorOf? result

/-- The token status that a reply shows. -/
def Reply.tokenStatus? : Reply → Option TokenStatus
  | .token outcome => some ((errorOf? outcome).elim .ok TokenError.status)
  | .declaration _ _ report _ _ => report.map (·.tokenStatus)

theorem readsUpTo_serve (request : Request) (s : ByteStream) :
    ReadsUpTo s (request.serve s).1.error? (request.serve s).2 := by
  cases request with
  | token => exact readsUpTo_nextToken s
  | declaration capacity sink report => exact (comesTo_readDeclaration capacity s sink).reads

/-- The report of a reading shows the token error that it came of, and none else. -/
theorem Report.tokenStatus_recordResult (r : Report) (result : Except DeclarationError Declaration) :
    (r.recordResult result).tokenStatus = (tokenErrorOf? result).elim .ok TokenError.status := by
  rcases result with e | d
  · cases e with
    | malformed cause =>
      rw [recordResult, record]
      dsimp only
      split <;> rfl
    | _ => rfl
  · rfl

/-- A reply shows the status of the error that it comes of, unless it shows none. -/
theorem tokenStatus?_serve (request : Request) (s : ByteStream) {status : TokenStatus}
    (h : (request.serve s).1.tokenStatus? = some status) :
    status = (request.serve s).1.error?.elim .ok TokenError.status := by
  cases request with
  | token => exact (Option.some.inj h).symm
  | declaration capacity sink report =>
    cases report with
    | none => cases h
    | some r =>
      have hrecorded := r.tokenStatus_recordResult (readDeclaration capacity s sink).result
      exact (Option.some.inj h).symm.trans hrecorded

/-- No reply comes of an error that cannot arise, and none shows such an error. -/
theorem serve_arises (request : Request) (s : ByteStream) :
    (∀ e, (request.serve s).1.error? = some e → e ≠ .putBackFailed ∧ e ≠ .notNumber) ∧
      ∀ status, (request.serve s).1.tokenStatus? = some status →
        status ≠ .putBackFailed ∧ status ≠ .notNumber := by
  have harises := (readsUpTo_serve request s).arises
  refine ⟨fun e he => ?_, fun status hstatus => ?_⟩
  · cases harises e he <;> exact ⟨nofun, nofun⟩
  · rw [tokenStatus?_serve request s hstatus]
    cases herror : (request.serve s).1.error? with
    | none => exact ⟨nofun, nofun⟩
    | some e => exact (harises e herror).status_ne

/-- What a request leaves is an end of what it found. -/
theorem serve_suffix (request : Request) (s : ByteStream) :
    (request.serve s).2.events <:+ s.events := (readsUpTo_serve request s).took.suffix

theorem exists_of_mem_serveAll {requests : List Request} {s : ByteStream}
    {answered : Reply × ByteStream} (h : answered ∈ serveAll requests s) :
    ∃ (request : Request) (before : ByteStream), answered = request.serve before := by
  induction requests generalizing s with
  | nil => cases h
  | cons request requests ih =>
    rcases List.mem_cons.mp h with hfirst | hlater
    · exact ⟨request, s, hfirst⟩
    · exact ih hlater

theorem suffix_of_mem_serveAll {requests : List Request} {s : ByteStream}
    {answered : Reply × ByteStream} (h : answered ∈ serveAll requests s) :
    answered.2.events <:+ s.events := by
  induction requests generalizing s with
  | nil => cases h
  | cons request requests ih =>
    have hfirst := serve_suffix request s
    rcases List.mem_cons.mp h with rfl | hlater
    · exact hfirst
    · exact (ih hlater).trans hfirst

theorem serveAll_pairwise_suffix (requests : List Request) (s : ByteStream) :
    (s :: (serveAll requests s).map Prod.snd).Pairwise
      fun before after => after.events <:+ before.events := by
  induction requests generalizing s with
  | nil => exact List.pairwise_singleton _ s
  | cons request requests ih =>
    refine List.pairwise_cons.mpr ⟨fun after hafter => ?_, ih _⟩
    obtain ⟨answered, hmem, rfl⟩ := List.mem_map.mp hafter
    exact suffix_of_mem_serveAll hmem

/-- Whatever is asked of a stream, and whatever its source does, the stream behind each reply is an
end of what it was before. A byte is never put back where there is no room for it, and a number is
never looked for in vain. -/
theorem serveAll_suffix (requests : List Request) (s : ByteStream) :
    (∀ answered ∈ serveAll requests s,
      (∀ e, answered.1.error? = some e → e ≠ .putBackFailed ∧ e ≠ .notNumber) ∧
        ∀ status, answered.1.tokenStatus? = some status →
          status ≠ .putBackFailed ∧ status ≠ .notNumber) ∧
    (s :: (serveAll requests s).map Prod.snd).Pairwise
      fun before after => after.events <:+ before.events := by
  refine ⟨fun answered h => ?_, serveAll_pairwise_suffix requests s⟩
  obtain ⟨request, before, rfl⟩ := exists_of_mem_serveAll h
  exact serve_arises request before

end CDeclarations
