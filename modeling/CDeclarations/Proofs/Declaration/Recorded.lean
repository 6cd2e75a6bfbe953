import CDeclarations.Proofs.Declaration.Consecutive
import CDeclarations.Proofs.Declaration.Tokens
import CDeclarations.Proofs.Malformed.Statement

namespace CDeclarations

namespace Text

/-- A character has four bytes at most, so where there is room for these the first one is kept. -/
theorem capped_ne_empty {limit : Nat} {text : String} (hlimit : 4 ≤ limit) (htext : text ≠ "") :
    capped limit text ≠ "" := by
  cases hcs : text.toList with
  | nil => exact absurd (String.toList_eq_nil_iff.mp hcs) htext
  | cons c cs =>
    have hc : c.utf8Size ≤ limit := c.utf8Size_le_four.trans hlimit
    have htoList : (capped limit text).toList = c :: fitting (limit - c.utf8Size) cs := by
      rw [capped, String.toList_ofList, hcs, fitting, if_pos hc]
    intro hempty
    rw [hempty] at htoList
    cases htoList

end Text

theorem SyntaxError.message_ne_empty (e : SyntaxError) : e.message ≠ "" := by
  have happend : ∀ {a b : String}, b ≠ "" → a ++ b ≠ "" := fun hb hempty =>
    hb (String.append_eq_empty_iff.mp hempty).2
  cases e with
  | duplicateQualifier word target => exact happend (by cases target <;> decide)
  | unexpectedToken token part => exact happend (by cases part <;> decide)
  | outOfTokens => decide
  | conflictingSigns => decide
  | _ => exact happend (by decide)

/-- The parts of a report do not contradict each other. -/
structure Report.Consistent (r : Report) : Prop where
  eq_clear : r.status = .ok → r = .clear
  tokenStatus_ne_ok : r.tokenStatus ≠ .ok ↔ r.status = .endOfInput ∨ r.status = .tokenError
  of_endOfInput : r.status = .endOfInput → r.tokenStatus = .endOfInput
  of_tokenError : r.status = .tokenError →
    r.tokenStatus = .notIdentifier ∨ r.tokenStatus = .badToken ∨ r.tokenStatus = .readFailed
  tokenText_ne_empty : r.tokenText ≠ "" ↔ r.tokenStatus = .badToken
  text_ne_empty : r.text ≠ "" ↔ r.status = .malformed ∨ r.status = .errorTextTooLong
  explained : r.status ≠ .noErrorText
  tokenText_fits : r.tokenText.utf8ByteSize ≤ maxTokenLength
  text_fits : r.text.utf8ByteSize ≤ maxErrorTextLength

namespace Report

/-- Where no token and no text is to blame. -/
theorem consistent_of_status {status : DeclarationStatus}
    (h : status = .ok ∨ status = .tooManyTokens ∨ status = .outputFailed) :
    Consistent ⟨.ok, "", status, ""⟩ := by
  constructor <;> rcases h with rfl | rfl | rfl <;> simp [clear]

theorem consistent_ofTokenError {e : TokenError} (h : e.Arises) : (ofTokenError e).Consistent := by
  have hfits : e.text.utf8ByteSize ≤ maxTokenLength := h.fits
  obtain ⟨hputBack, hnumber⟩ := h.status_ne
  have htext : e.status = .badToken → e.text ≠ "" := h.text_ne_empty
  cases e with
  | endOfInput => constructor <;> simp [ofTokenError]
  | putBackFailed => exact absurd rfl hputBack
  | notNumber => exact absurd rfl hnumber
  | notIdentifier => constructor <;> simp [ofTokenError, TokenError.status, TokenError.text]
  | badToken text =>
    have hne : text ≠ "" := htext rfl
    have hle : text.utf8ByteSize ≤ maxTokenLength := hfits
    constructor <;> simp [ofTokenError, TokenError.status, TokenError.text, hne, hle]
  | readFailed cause => constructor <;> simp [ofTokenError, TokenError.status, TokenError.text]

theorem consistent_ofSyntaxError (e : SyntaxError) : (ofSyntaxError e).Consistent := by
  have hmessage := e.message_ne_empty
  unfold ofSyntaxError
  split_ifs with hfits
  · constructor <;> simp [hmessage, hfits]
  · have hcapped : Text.capped maxErrorTextLength e.message ≠ "" :=
      Text.capped_ne_empty (by decide) hmessage
    have hle := Text.utf8ByteSize_capped_le maxErrorTextLength e.message
    constructor <;> simp [hcapped, hle]

/-- Whatever was in the report before, it tells of the reading it is written for. -/
theorem consistent_recordResult {s rest : ByteStream} {result : Except DeclarationError Declaration}
    (h : ComesTo s result rest) (r : Report) : (r.recordResult result).Consistent := by
  cases hcause : tokenErrorOf? result with
  | some e =>
    have harises : e.Arises := h.reads.arises e hcause
    rw [h.ofTokenError e hcause, r.recordResult_ofTokenError harises.fits]
    exact consistent_ofTokenError harises
  | none =>
    rcases result with (_ | cause | _ | _ | cause) | d
    · cases hcause
    · cases hcause
    · exact consistent_of_status (.inr (.inl rfl))
    · exact consistent_of_status (.inr (.inr rfl))
    · rw [recordResult_ofSyntaxError]
      exact consistent_ofSyntaxError cause
    · exact consistent_of_status (.inl rfl)

end Report

/-- A reading leaves a consistent report, the same whatever the one given says. Its status is the
answer, and without a report all else is the same. -/
theorem describe_recorded (capacity : Nat) (s : ByteStream) (sink : Sink) (report : Report) :
    let d := describe capacity s sink (some report)
    (∀ other, describe capacity s sink (some other) = d) ∧
    describe capacity s sink none = { d with report := none } ∧
    ∃ recorded : Report, d.report = some recorded ∧ d.status = recorded.status ∧
      recorded.Consistent := by
  refine ⟨fun other => describe_some capacity s sink other report, ?_, _, rfl, rfl, ?_⟩
  · simp only [describe, Option.getD_none, Option.getD_some, Option.map_none,
      Report.recordResult_congr .clear report]
  · exact Report.consistent_recordResult (comesTo_readDeclaration capacity s sink) report

end CDeclarations
