import CDeclarations.Proofs.Reading.Uninterrupted
import CDeclarations.Proofs.Requests.Suffix

namespace CDeclarations

/-- The fault that a reply comes of. -/
def Reply.fault? (reply : Reply) : Option ReadFault := reply.error?.bind TokenError.fault?

/-- A reply that comes of a fault shows it, with the fault as the last of the reads that were
taken. Behind any other reply there was no fault among them. -/
def Reply.TellsOf (used : List ReadEvent) : Reply → Prop
  | .token (.error (.readFailed cause)) => UpToFault used (some cause)
  | .token _ => UpToFault used none
  | .declaration (.error (.token (.readFailed cause))) status report _ _ =>
    UpToFault used (some cause) ∧ status = .tokenError ∧
      ∀ r, report = some r → r = ⟨.readFailed, "", .tokenError, ""⟩
  | .declaration _ _ report _ _ =>
    UpToFault used none ∧ ∀ r, report = some r → r.tokenStatus ≠ .readFailed

/-- Each reply tells of the reads between the stream that it found and the one that it left. -/
inductive TellsInTurn :
    ByteStream → List (Reply × ByteStream) → List (List ReadEvent) → ByteStream → Prop
  | nothing (s : ByteStream) : TellsInTurn s [] [] s
  | next {s rest last : ByteStream} {reply : Reply} {later : List (Reply × ByteStream)}
      {used : List ReadEvent} {more : List (List ReadEvent)} :
      s.events = used ++ rest.events → reply.TellsOf used → TellsInTurn rest later more last →
        TellsInTurn s ((reply, rest) :: later) (used :: more) last

/-- What a declaration reads up to a fault is recorded as that, and nothing else is. -/
theorem Report.tellsOf_recordResult (r : Report) (result : Except DeclarationError Declaration)
    {used : List ReadEvent}
    (h : UpToFault used ((tokenErrorOf? result).bind TokenError.fault?)) (given : Option Report)
    (said : List UInt8) (sink : Sink) :
    (Reply.declaration result (r.recordResult result).status
      (given.map fun _ => r.recordResult result) said sink).TellsOf used := by
  have hrecorded : ∀ r', (given.map fun _ => r.recordResult result) = some r' →
      r' = r.recordResult result := by
    intro r' hr'
    obtain ⟨_, -, heq⟩ := Option.map_eq_some_iff.mp hr'
    exact heq.symm
  have hstatus := r.tokenStatus_recordResult result
  rcases result with e | d
  · cases e with
    | token cause =>
      cases cause with
      | readFailed fault => exact ⟨h, rfl, hrecorded⟩
      | _ => exact ⟨h, fun r' hr' => hrecorded r' hr' ▸ nofun⟩
    | malformed cause =>
      refine ⟨h, fun r' hr' => ?_⟩
      rw [hrecorded r' hr', hstatus]
      exact nofun
    | _ => exact ⟨h, fun r' hr' => hrecorded r' hr' ▸ nofun⟩
  · exact ⟨h, fun r' hr' => hrecorded r' hr' ▸ nofun⟩

/-- A request takes the reads that its reply tells of. -/
theorem exists_tellsOf_serve (request : Request) (s : ByteStream) :
    ∃ used, s.events = used ++ (request.serve s).2.events ∧ (request.serve s).1.TellsOf used ∧
      faults used = (request.serve s).1.fault?.toList := by
  obtain ⟨used, hevents, hused⟩ := (readsUpTo_serve request s).took
  refine ⟨used, hevents, ?_, hused.faults_eq⟩
  cases request with
  | token =>
    have houtcome : UpToFault used ((errorOf? (nextToken s).1).bind TokenError.fault?) := hused
    show (Reply.token (nextToken s).1).TellsOf used
    generalize (nextToken s).1 = outcome at houtcome
    rcases outcome with e | t
    · cases e <;> exact houtcome
    · exact houtcome
  | declaration capacity sink report =>
    exact (report.getD .clear).tellsOf_recordResult _ hused report _ _

theorem exists_tellsInTurn (requests : List Request) (s : ByteStream) :
    ∃ used last, TellsInTurn s (serveAll requests s) used last ∧
      s.events = used.flatten ++ last.events ∧
      faults used.flatten = (serveAll requests s).filterMap (·.1.fault?) := by
  induction requests generalizing s with
  | nil => exact ⟨[], s, .nothing s, rfl, rfl⟩
  | cons request requests ih =>
    obtain ⟨first, hevents, htells, hfaults⟩ := exists_tellsOf_serve request s
    obtain ⟨more, last, hlater, hmore, hall⟩ := ih (request.serve s).2
    refine ⟨first :: more, last, .next hevents htells hlater, ?_, ?_⟩
    · rw [List.flatten_cons, List.append_assoc, ← hmore, hevents]
    · rw [List.flatten_cons, faults_append, hfaults, hall, serveAll, List.filterMap_cons]
      cases (request.serve s).1.fault? <;> rfl

theorem serve_uninterrupted (request : Request) (s : ByteStream) :
    request.serve s.uninterrupted = ((request.serve s).1, (request.serve s).2.uninterrupted) := by
  cases request with
  | token =>
    have hsame := indifferent_nextToken s
    simp only [Request.serve, hsame]
  | declaration capacity sink report =>
    have hsame := readDeclaration_uninterrupted capacity s sink
    simp only [Request.serve, describe, hsame]

theorem serveAll_uninterrupted (requests : List Request) (s : ByteStream) :
    serveAll requests s.uninterrupted =
      (serveAll requests s).map fun answered => (answered.1, answered.2.uninterrupted) := by
  induction requests generalizing s with
  | nil => rfl
  | cons request requests ih => rw [serveAll, serveAll, serve_uninterrupted, ih, List.map_cons]

/-- Each fault of the source that is met makes one request fail there and then, and is shown by the
reply to that. No other reply comes of a fault, and none is met without such a reply. Interrupted
reads make no difference to the replies. -/
theorem serveAll_faults (requests : List Request) (s : ByteStream) :
    (∃ used last, TellsInTurn s (serveAll requests s) used last ∧
      s.events = used.flatten ++ last.events ∧
      faults used.flatten = (serveAll requests s).filterMap (·.1.fault?)) ∧
    serveAll requests s.uninterrupted =
      (serveAll requests s).map fun answered => (answered.1, answered.2.uninterrupted) :=
  ⟨exists_tellsInTurn requests s, serveAll_uninterrupted requests s⟩

end CDeclarations
