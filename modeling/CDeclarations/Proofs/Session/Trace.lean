import CDeclarations.Proofs.Grammar.Sentence
import CDeclarations.Proofs.Session.Remainder
import CDeclarations.Session.Run

namespace CDeclarations

/-- What a session leaves behind about one line. -/
structure Trace where
  text : List UInt8
  findings : List Finding

namespace Trace

def ofEntry (e : Entry) : Trace := ⟨e.text, e.finding?.toList⟩

def Silent (t : Trace) : Prop := t.text = [] ∧ t.findings = []

/-- A single finding, and it is about the line with this number. -/
def Reports (t : Trace) (number : Nat) (line : String) : Prop :=
  ∃ finding, t.findings = [finding] ∧ finding.number = number ∧ finding.line = line

/-- Either a description and no finding or a finding and no text. -/
def Describes (t : Trace) (number : Nat) (line : String) : Prop :=
  (IsLine t.text ∧ t.findings = []) ∨ (t.text = [] ∧ t.Reports number line)

/-- The rows of some tokens, with a finding behind them unless they are all that there is. -/
def Lists (t : Trace) (number : Nat) (line : String) : Prop :=
  ∃ tokens : List Token, t.text = tokens.flatMap (fun token => Text.utf8 (listingRow token)) ∧
    ((tokens ≠ [] ∧ t.findings = []) ∨ t.Reports number line)

/-- A line without a token, which may yet have a tag on it, leaves nothing behind. Every other one
is described or listed, or reported. -/
structure Of (t : Trace) (listTokens : Bool) (line : String) (number : Nat) : Prop where
  silent : t.Silent ↔ IsGap (Text.utf8 line) ∨ DanglingTag (Text.utf8 line)
  answered : ¬ t.Silent → if listTokens then t.Lists number line else t.Describes number line

end Trace

theorem isBlank_iff {line : String} :
    isBlank line ↔ IsGap (Text.utf8 line) ∨ DanglingTag (Text.utf8 line) := by
  have hanswer := (agrees_nextToken (ByteStream.events_ofBytes (Text.utf8 line))).1
  rw [← token_eq_endOfInput_iff, ← hanswer]
  unfold isBlank lineStream
  generalize nextToken (.ofBytes (Text.utf8 line)) = next
  obtain ⟨(_ | _) | _, rest⟩ := next <;> simp

theorem deliver_unbounded (entries : List Entry) :
    deliver entries .unbounded =
      ⟨entries.flatMap (·.text), entries.flatMap (·.finding?.toList),
        .ok (entries.flatMap (·.finding?.toList)).isEmpty⟩ := by
  induction entries with
  | nil => rfl
  | cons e entries ih =>
    rw [deliver]
    simp only [Sink.write_unbounded, Bool.not_true, Bool.false_eq_true, if_false, ih]
    cases hfailure : e.failure <;> simp [Entry.finding?, hfailure, Except.map]

/-- A line is described in one line, or nothing is said of it and it is reported. -/
theorem describeLine_cases (capacity : Nat) (line : String) :
    (∃ text, IsLine text ∧ describeLine capacity line = (text, none)) ∨
      ∃ failure, describeLine capacity line = ([], some failure) := by
  by_cases h : ∃ d left, Declares capacity line d left
  · obtain ⟨d, left, hdeclares⟩ := h
    by_cases hend : IsGap left ∨ DanglingTag left
    · obtain ⟨-, rest, hread, -⟩ := id hdeclares
      exact .inl ⟨_, hread.isLine_sentence, describeLine_of_end hdeclares hend⟩
    · obtain ⟨failure, hfailure, -⟩ := describeLine_of_more hdeclares hend
      exact .inr ⟨failure, hfailure⟩
  · obtain ⟨report, -, hreport⟩ := describeLine_of_not_declares fun d left hdeclares =>
      h ⟨d, left, hdeclares⟩
    exact .inr ⟨_, hreport⟩

/-- A listing has a row for each token up to the first error, and for all outcomes if none of them
is one. -/
theorem listing_rows (outcomes : List (Except TokenError Token)) :
    ∃ tokens : List Token,
      (listing outcomes).1 = tokens.flatMap (fun token => Text.utf8 (listingRow token)) ∧
        ((listing outcomes).2 = none → outcomes = tokens.map .ok) := by
  induction outcomes with
  | nil => exact ⟨[], rfl, fun _ => rfl⟩
  | cons outcome outcomes ih =>
    cases outcome with
    | error cause => exact ⟨[], rfl, fun h => by cases h⟩
    | ok token =>
      obtain ⟨tokens, hrows, hall⟩ := ih
      refine ⟨token :: tokens, ?_, fun h => ?_⟩
      · rw [listing, List.flatMap_cons, ← hrows]
      · rw [hall h]
        rfl

theorem readTokens_ne_nil {line : String} (h : ¬ isBlank line) :
    (readTokens (lineStream line)).1 ≠ [] := by
  unfold isBlank at h
  unfold readTokens takeTokens
  generalize nextToken (lineStream line) = next at h
  obtain ⟨(_ | _) | _, rest⟩ := next <;> simp at h ⊢

theorem listingRow_ne_nil (token : Token) : Text.utf8 (listingRow token) ≠ [] := by
  unfold listingRow
  split <;> rw [Text.utf8_append] <;> exact List.append_ne_nil_of_right_ne_nil _ (by decide)

namespace Trace

variable {t : Trace} {number : Nat} {line : String}

theorem Reports.not_silent (h : t.Reports number line) : ¬ t.Silent := by
  intro h
  obtain ⟨-, hnone⟩ := h
  obtain ⟨finding, hone, -⟩ := h
  rw [hnone] at hone
  cases hone

theorem Describes.not_silent (h : t.Describes number line) : ¬ t.Silent := by
  rcases h with ⟨hline, -⟩ | ⟨-, hreports⟩
  · exact fun hsilent => hline.ne_nil hsilent.1
  · exact hreports.not_silent

theorem Lists.not_silent (h : t.Lists number line) : ¬ t.Silent := by
  obtain ⟨tokens, htext, ⟨hne, -⟩ | hreports⟩ := h
  · intro h
    obtain ⟨hnone, -⟩ := h
    cases tokens with
    | nil => exact hne rfl
    | cons token tokens =>
      rw [hnone, List.flatMap_cons] at htext
      exact listingRow_ne_nil token (List.append_eq_nil_iff.mp htext.symm).1
  · exact hreports.not_silent

theorem of_isBlank (listTokens : Bool) (number : Nat) (h : isBlank line) :
    (Trace.mk [] []).Of listTokens line number :=
  ⟨iff_of_true ⟨rfl, rfl⟩ (isBlank_iff.mp h), fun hsilent => absurd ⟨rfl, rfl⟩ hsilent⟩

theorem findings_ofEntry {e : Entry} (h : e.failure = none) : (ofEntry e).findings = [] := by
  simp [ofEntry, Entry.finding?, h]

theorem reports_ofEntry {e : Entry} {failure : Failure} (h : e.failure = some failure) :
    (ofEntry e).Reports e.number e.line :=
  ⟨⟨failure.headline, e.number, e.line, failure.note⟩, by simp [ofEntry, Entry.finding?, h], rfl, rfl⟩

theorem describes_ofEntry (keepGoing : Bool) (capacity number : Nat) (line : String) :
    (ofEntry (.ofLine ⟨false, keepGoing, capacity⟩ number line)).Describes number line := by
  have hentry : Entry.ofLine ⟨false, keepGoing, capacity⟩ number line =
      ⟨number, line, (describeLine capacity line).1, (describeLine capacity line).2⟩ := rfl
  rw [hentry]
  rcases describeLine_cases capacity line with ⟨text, hline, heq⟩ | ⟨failure, heq⟩
  · rw [heq]
    exact .inl ⟨hline, findings_ofEntry rfl⟩
  · rw [heq]
    exact .inr ⟨rfl, reports_ofEntry rfl⟩

theorem lists_ofEntry (keepGoing : Bool) (capacity number : Nat) (h : ¬ isBlank line) :
    (ofEntry (.ofLine ⟨true, keepGoing, capacity⟩ number line)).Lists number line := by
  have hentry : Entry.ofLine ⟨true, keepGoing, capacity⟩ number line =
      ⟨number, line, (listLine line).1, (listLine line).2⟩ := rfl
  obtain ⟨tokens, hrows, hall⟩ := listing_rows (readTokens (lineStream line)).1
  rw [hentry]
  refine ⟨tokens, hrows, ?_⟩
  cases hfailure : (listLine line).2 with
  | none =>
    refine .inl ⟨?_, findings_ofEntry rfl⟩
    intro h
    subst h
    exact readTokens_ne_nil h (hall hfailure)
  | some failure => exact .inr (reports_ofEntry rfl)

theorem of_ofEntry (settings : Settings) (number : Nat) (h : ¬ isBlank line) :
    (ofEntry (.ofLine settings number line)).Of settings.listTokens line number := by
  obtain ⟨listTokens, keepGoing, capacity⟩ := settings
  have hother : ¬ (IsGap (Text.utf8 line) ∨ DanglingTag (Text.utf8 line)) := by
    intro hend
    exact h (isBlank_iff.mpr hend)
  cases listTokens with
  | false =>
    have hdescribes := describes_ofEntry keepGoing capacity number line
    exact ⟨iff_of_false hdescribes.not_silent hother, fun _ => hdescribes⟩
  | true =>
    have hlists := lists_ofEntry keepGoing capacity number h
    exact ⟨iff_of_false hlists.not_silent hother, fun _ => hlists⟩

/-- Every line has its trace among those that the entries leave together. -/
theorem exists_traces (settings : Settings) (number : Nat) (lines : List String) :
    ∃ traces : List Trace,
      List.Forall₂ (fun numbered t => Of t settings.listTokens numbered.1 numbered.2)
        (lines.zipIdx number) traces ∧
      (entriesFrom settings number lines).flatMap (·.text) = traces.flatMap (·.text) ∧
      (entriesFrom settings number lines).flatMap (·.finding?.toList) =
        traces.flatMap (·.findings) := by
  induction lines generalizing number with
  | nil => exact ⟨[], .nil, rfl, rfl⟩
  | cons line lines ih =>
    obtain ⟨traces, hof, htext, hfindings⟩ := ih (number + 1)
    rw [entriesFrom, List.zipIdx_cons]
    by_cases hblank : isBlank line
    · rw [if_pos hblank]
      exact ⟨_ :: traces, .cons (of_isBlank settings.listTokens number hblank) hof, htext,
        hfindings⟩
    · rw [if_neg hblank]
      refine ⟨_ :: traces, .cons (of_ofEntry settings number hblank) hof, ?_, ?_⟩
      · rw [List.flatMap_cons, htext]
        rfl
      · rw [List.flatMap_cons, hfindings]
        rfl

end Trace

/-- With nothing to stop it a session is the traces of its lines one after another, and in the end
all is well if none of them is a finding. -/
theorem runSession_traces (listTokens : Bool) (capacity : Nat) (source : String) :
    ∃ traces : List Trace,
      List.Forall₂ (fun numbered t => t.Of listTokens numbered.1 numbered.2)
        ((Text.lines source).zipIdx 1) traces ∧
      runSession ⟨listTokens, true, capacity⟩ source .unbounded =
        ⟨traces.flatMap (·.text), traces.flatMap (·.findings),
          .ok (traces.flatMap (·.findings)).isEmpty⟩ := by
  obtain ⟨traces, hof, htext, hfindings⟩ :=
    Trace.exists_traces ⟨listTokens, true, capacity⟩ 1 (Text.lines source)
  refine ⟨traces, hof, ?_⟩
  rw [← htext, ← hfindings]
  exact deliver_unbounded _

/-- A line with nothing on it but `struct` leaves nothing behind, though that is no gap. -/
theorem runSession_tagAlone :
    Text.lines "struct\n" = ["struct"] ∧ ¬ IsGap (Text.utf8 "struct") ∧
      ∀ listTokens capacity, runSession ⟨listTokens, true, capacity⟩ "struct\n" .unbounded =
        ⟨[], [], .ok true⟩ := by
  have hlines : Text.lines "struct\n" = ["struct"] := by decide +kernel
  have hdangling : DanglingTag (Text.utf8 "struct") :=
    ⟨.struct, [], .nothing _, .nothing []⟩
  have hblank : isBlank "struct" := isBlank_iff.mpr (.inr hdangling)
  refine ⟨hlines, hdangling.not_isGap, fun listTokens capacity => ?_⟩
  have hentries : entries ⟨listTokens, true, capacity⟩ "struct\n" = [] := by
    rw [entries, hlines, entriesFrom, if_pos hblank, entriesFrom]
  unfold runSession
  rw [hentries]
  rfl

end CDeclarations
