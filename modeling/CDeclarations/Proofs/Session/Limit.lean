import CDeclarations.Proofs.Declaration.Limit
import CDeclarations.Proofs.Session.Append

namespace CDeclarations

/-- The entries that a session comes to. -/
def reached (settings : Settings) (entries : List Entry) : List Entry :=
  if settings.keepGoing then entries else throughFailure entries

theorem reached_nil (settings : Settings) : reached settings [] = [] := by
  unfold reached
  split <;> rfl

theorem reached_cons (settings : Settings) (e : Entry) (entries : List Entry) :
    reached settings (e :: entries) =
      e :: if settings.keepGoing ∨ e.failure = none then reached settings entries else [] := by
  unfold reached
  cases hkeep : settings.keepGoing with
  | true => rfl
  | false => cases hfailure : e.failure <;> simp [throughFailure, hfailure]

section Deliver

variable {e : Entry} {entries : List Entry} {sink : Sink}

theorem deliver_of_not_complete (h : (sink.write e.text).complete = false) :
    deliver (e :: entries) sink = ⟨(sink.write e.text).taken, [], .error .closed⟩ := by
  rw [deliver]
  simp only [h, Bool.not_false, if_true]

theorem deliver_of_complete (h : (sink.write e.text).complete = true) :
    deliver (e :: entries) sink =
      let later := deliver entries (sink.write e.text).sink
      ⟨(sink.write e.text).taken ++ later.said, e.finding?.toList ++ later.findings,
        later.outcome.map (e.failure.isNone && ·)⟩ := by
  rw [deliver]
  simp only [h, Bool.not_true, Bool.false_eq_true, if_false]

theorem deliver_of_ok (h : (sink.write e.text).complete = true) (hok : e.failure = none) :
    deliver (e :: entries) sink =
      let later := deliver entries (sink.write e.text).sink
      ⟨(sink.write e.text).taken ++ later.said, later.findings, later.outcome⟩ := by
  rw [deliver_of_complete h, Entry.finding?, hok]
  cases hlater : (deliver entries (sink.write e.text).sink).outcome <;> simp [hlater, Except.map]

theorem deliver_of_failure {failure : Failure} (h : (sink.write e.text).complete = true)
    (hfailure : e.failure = some failure) :
    deliver (e :: entries) sink =
      let later := deliver entries (sink.write e.text).sink
      ⟨(sink.write e.text).taken ++ later.said,
        ⟨failure.headline, e.number, e.line, failure.note⟩ :: later.findings,
        later.outcome.map fun _ => false⟩ := by
  rw [deliver_of_complete h, Entry.finding?, hfailure]
  rfl

end Deliver

namespace Cutting

/-- Writes the row of one token after another, up to the first error or loss. A loss is not a
failure of the line. -/
def listInto (cutting : Cutting) :
    List (Except TokenError Token) → Sink → Written × Option Failure
  | [], sink => (⟨[], sink, true⟩, none)
  | .error cause :: _, sink => (⟨[], sink, true⟩, some (.token cause))
  | .ok token :: outcomes, sink =>
    let row := sink.writeAll (cutting.pieces (Text.utf8 (listingRow token)))
    if row.complete then
      let (later, failure) := cutting.listInto outcomes row.sink
      (⟨row.taken ++ later.taken, later.sink, later.complete⟩, failure)
    else (row, none)

/-- Writes a listing row by row, and a description once it is known to be one. -/
def sayLine (cutting : Cutting) (settings : Settings) (line : String) (sink : Sink) :
    Written × Option Failure :=
  if settings.listTokens then cutting.listInto (readTokens (lineStream line)).1 sink
  else
    match describeLine settings.capacity line with
    | (text, none) => (sink.writeAll (cutting.pieces text), none)
    | (_, some failure) => (⟨[], sink, true⟩, some failure)

/-- Treats the lines one by one, where nothing is known of a line before the one above is done. -/
def sayLines (cutting : Cutting) (settings : Settings) : Nat → List String → Sink → Transcript
  | _, [], sink => ⟨[], [], sink.flush.map fun _ => true⟩
  | number, line :: lines, sink =>
    if isBlank line then cutting.sayLines settings (number + 1) lines sink
    else
      match cutting.sayLine settings line sink with
      | (written, failure) =>
        if !written.complete then ⟨written.taken, [], .error .closed⟩
        else
          match failure with
          | none =>
            let later := cutting.sayLines settings (number + 1) lines written.sink
            ⟨written.taken ++ later.said, later.findings, later.outcome⟩
          | some failure =>
            let finding := ⟨failure.headline, number, line, failure.note⟩
            if settings.keepGoing then
              let later := cutting.sayLines settings (number + 1) lines written.sink
              ⟨written.taken ++ later.said, finding :: later.findings,
                later.outcome.map fun _ => false⟩
            else ⟨written.taken, [finding], written.sink.flush.map fun _ => false⟩

variable (cutting : Cutting)

/-- All rows together are written as one, and what is wrong comes up unless output is lost. -/
theorem listInto_eq (outcomes : List (Except TokenError Token)) (sink : Sink) :
    cutting.listInto outcomes sink =
      (sink.write (listing outcomes).1,
        if (sink.write (listing outcomes).1).complete then (listing outcomes).2 else none) := by
  induction outcomes generalizing sink with
  | nil => simp [listInto, listing, Sink.write_nil]
  | cons outcome outcomes ih =>
    cases outcome with
    | error cause => simp [listInto, listing, Sink.write_nil]
    | ok token =>
      rw [listInto, listing, writeAll_pieces]
      dsimp only
      cases hrow : (sink.write (Text.utf8 (listingRow token))).complete with
      | false =>
        rw [Sink.write_append_of_not_complete hrow, hrow]
        rfl
      | true =>
        rw [Sink.write_append hrow, ih]
        rfl

theorem sayLine_eq (settings : Settings) (number : Nat) (line : String) (sink : Sink) :
    let e := Entry.ofLine settings number line
    cutting.sayLine settings line sink =
      (sink.write e.text, if (sink.write e.text).complete then e.failure else none) := by
  unfold sayLine Entry.ofLine
  by_cases hlist : settings.listTokens
  · rw [if_pos hlist, if_pos hlist]
    exact cutting.listInto_eq _ sink
  · rw [if_neg hlist, if_neg hlist]
    rcases describeLine_cases settings.capacity line with ⟨text, -, heq⟩ | ⟨failure, heq⟩
    · simp [heq, writeAll_pieces]
    · simp [heq, Sink.write_nil]

/-- Line by line and piece by piece, that is a session. -/
theorem sayLines_eq (settings : Settings) (number : Nat) (lines : List String) (sink : Sink) :
    cutting.sayLines settings number lines sink =
      deliver (reached settings (entriesFrom settings number lines)) sink := by
  induction lines generalizing number sink with
  | nil => rw [entriesFrom, reached_nil]; rfl
  | cons line lines ih =>
    rw [sayLines, entriesFrom]
    by_cases hblank : isBlank line
    · rw [if_pos hblank, if_pos hblank, ih]
    · have hline : (Entry.ofLine settings number line).line = line := rfl
      have hnumber : (Entry.ofLine settings number line).number = number := rfl
      rw [if_neg hblank, if_neg hblank, sayLine_eq cutting settings number, reached_cons]
      generalize Entry.ofLine settings number line = e at hline hnumber
      cases hwritten : (sink.write e.text).complete with
      | false =>
        rw [deliver_of_not_complete hwritten]
        simp only [hwritten, Bool.not_false, if_true]
      | true =>
        simp only [hwritten, Bool.not_true, Bool.false_eq_true, if_true, if_false]
        cases hfailure : e.failure with
        | none =>
          rw [if_pos (.inr rfl), deliver_of_ok hwritten hfailure, ih]
        | some failure =>
          rw [deliver_of_failure hwritten hfailure, hline, hnumber]
          by_cases hkeep : settings.keepGoing
          · rw [if_pos (.inl hkeep), ← ih]
            simp only [hkeep, if_true]
          · have hlast : ¬ (settings.keepGoing ∨ some failure = none) := by simp [hkeep]
            rw [if_neg hlast, deliver]
            cases hflush : (sink.write e.text).sink.flush <;> simp [hkeep, Except.map]

end Cutting

/-- A transcript of a session that lost all output behind so many bytes. -/
structure Transcript.CutAt (n : Nat) (full cut : Transcript) : Prop where
  said : cut.said = full.said.take n
  of_le : full.said.length ≤ n → cut = full
  of_lt : n < full.said.length → cut.outcome = .error .closed ∧ cut.findings <+: full.findings

/-- The two sessions are in step up to the entry in which the room ends, if there is one. -/
theorem deliver_cutAt (entries : List Entry) (n : Nat) (flushes : Bool) :
    (deliver entries ⟨none, flushes⟩).CutAt n (deliver entries ⟨some n, flushes⟩) := by
  induction entries generalizing n with
  | nil => exact ⟨List.take_nil.symm, fun _ => rfl, nofun⟩
  | cons e entries ih =>
    have hall : (Sink.write ⟨none, flushes⟩ e.text).complete = true := rfl
    rw [deliver_of_complete hall]
    by_cases hroom : e.text.length ≤ n
    · have hfits : (Sink.write ⟨some n, flushes⟩ e.text).complete = true := decide_eq_true hroom
      obtain ⟨hsaid, hle, hlt⟩ := ih (n - e.text.length)
      rw [deliver_of_complete hfits]
      dsimp only [Sink.write]
      generalize deliver entries ⟨none, flushes⟩ = full at hsaid hle hlt
      generalize deliver entries ⟨some (n - e.text.length), flushes⟩ = cut at hsaid hle hlt
      refine ⟨?_, fun h => ?_, fun h => ?_⟩
      · rw [hsaid, List.take_append]
      · rw [List.length_append] at h
        rw [hle (by omega), List.take_of_length_le hroom]
      · rw [List.length_append] at h
        obtain ⟨hclosed, hfindings⟩ := hlt (by omega)
        refine ⟨?_, (List.prefix_append_right_inj _).mpr hfindings⟩
        rw [hclosed]
        rfl
    · have hcut : (Sink.write ⟨some n, flushes⟩ e.text).complete = false := decide_eq_false hroom
      rw [deliver_of_not_complete hcut]
      dsimp only [Sink.write]
      refine ⟨?_, fun h => ?_, fun _ => ⟨rfl, List.nil_prefix⟩⟩
      · rw [List.take_append_of_le_length (by omega)]
      · rw [List.length_append] at h
        omega

/-- With room for so many bytes a session says the first bytes of all that there is to say. Nothing
else is different if there is room for all of them. If there is not, the session ends there, and
what was found up to there is all that it shows. In what pieces a line is written, and whether
anything is known of the lines below it by then, makes no difference. -/
theorem runSession_bounded (settings : Settings) (source : String) (n : Nat) :
    let full := runSession settings source .unbounded
    let cut := runSession settings source (.bounded n)
    cut.said = full.said.take n ∧
    (full.said.length ≤ n → cut = full) ∧
    (n < full.said.length →
      cut.outcome = .error .closed ∧ cut.findings <+: full.findings ∧
      ∀ colors d, ∃ unsaid, renderFindings colors d full.findings =
        renderFindings colors d cut.findings ++ unsaid) ∧
    ∀ (cutting : Cutting) (sink : Sink),
      cutting.sayLines settings 1 (Text.lines source) sink = runSession settings source sink := by
  have hcut := deliver_cutAt (reached settings (entries settings source)) n true
  refine ⟨hcut.said, hcut.of_le, fun hless => ?_, fun cutting sink => ?_⟩
  · obtain ⟨hclosed, hfindings⟩ := hcut.of_lt hless
    refine ⟨hclosed, hfindings, fun colors d => ?_⟩
    obtain ⟨later, hlater⟩ := hfindings
    refine ⟨renderFindings colors d later, ?_⟩
    rw [← renderFindings_append]
    exact congrArg _ hlater.symm
  · exact cutting.sayLines_eq settings 1 (Text.lines source) sink

/-- Room for five bytes ends in the second row of this listing, and room for seventeen behind it. -/
theorem runSession_bounded_listing :
    let full := runSession ⟨true, true, 20⟩ "$\nint a\n" .unbounded
    5 < full.said.length ∧ full.said.length ≤ 17 ∧
    (runSession ⟨true, true, 20⟩ "$\nint a\n" (.bounded 5)).outcome = .error .closed ∧
    (runSession ⟨true, true, 20⟩ "$\nint a\n" (.bounded 5)).findings <+: full.findings ∧
    runSession ⟨true, true, 20⟩ "$\nint a\n" (.bounded 17) = full := by
  intro full
  have hlength : full.said.length = 17 := by decide +kernel
  have hless : 5 < full.said.length := by omega
  have hroom : full.said.length ≤ 17 := by omega
  have hfive := runSession_bounded ⟨true, true, 20⟩ "$\nint a\n" 5
  have hall := runSession_bounded ⟨true, true, 20⟩ "$\nint a\n" 17
  exact ⟨hless, hroom, (hfive.2.2.1 hless).1, (hfive.2.2.1 hless).2.1, hall.2.1 hroom⟩

end CDeclarations
