import CDeclarations.Proofs.Declaration.Capacity
import CDeclarations.Proofs.Declaration.Recorded
import CDeclarations.Proofs.Malformed.Subject
import CDeclarations.Proofs.Session.Modes

namespace CDeclarations

section Texts

variable {e : TokenError}

theorem TokenStatus.isPrintable_message (status : TokenStatus) :
    Text.IsPrintable status.message := by
  cases status <;> decide

theorem TokenStatus.message_ne_empty (status : TokenStatus) : status.message ≠ "" := by
  cases status <;> decide

theorem ReadFault.isPrintable_message (fault : ReadFault) : Text.IsPrintable fault.message := by
  cases fault <;> decide

/-- A byte that is no token is named in a way that can be shown. -/
theorem TokenError.Arises.isPrintable_text (h : e.Arises) : Text.IsPrintable e.text := by
  cases h with
  | tooLong => decide
  | unterminatedComment => decide
  | unknownCharacter b =>
    have hbyte := Text.isPrintable_escaped b
    exact (Text.IsPrintable.append (by decide) hbyte).append (by decide)
  | _ => exact Text.isPrintable_empty

theorem TokenError.Arises.isPrintable_message (h : e.Arises) : Text.IsPrintable e.message := by
  have htext := h.isPrintable_text
  cases e with
  | badToken text => exact htext
  | readFailed cause => exact Text.IsPrintable.append (by decide) cause.isPrintable_message
  | _ => exact TokenStatus.isPrintable_message _

theorem TokenError.Arises.message_ne_empty (h : e.Arises) : e.message ≠ "" := by
  have htext := h.text_ne_empty
  cases e with
  | badToken text => exact htext rfl
  | readFailed cause =>
    intro hempty
    have hfront := (String.append_eq_empty_iff.mp hempty).1
    exact absurd hfront (by decide)
  | _ => decide

theorem Failure.isPrintable_headline (f : Failure) : Text.IsPrintable f.headline := by
  cases f with
  | token cause =>
    show Text.IsPrintable "invalid token"
    decide
  | declaration report =>
    unfold headline
    dsimp only
    cases report.status <;> decide
  | trailing found =>
    show Text.IsPrintable "unexpected input after declaration"
    decide

/-- What a failing reading tells of the tokens of a declaration can be shown. -/
theorem isPrintable_of_readDeclaration {capacity : Nat} {s : ByteStream} {sink : Sink}
    {e : SyntaxError} (h : (readDeclaration capacity s sink).result = .error (.malformed e)) :
    Text.IsPrintable e.message := by
  rcases incomplete_or_exists_readsStatement h with
    ⟨name, hname, rfl⟩ | ⟨front, name, closing, rest, hreads, hunwind⟩
  · exact (Text.IsPrintable.append (by decide) hname.isWord.isPrintable).append (by decide)
  · exact (about_of_unwind hunwind).isPrintable_message hreads.isName hreads.isReadable

end Texts

section Reports

/-- The texts of a report can be shown. -/
structure Report.IsPrintable (r : Report) : Prop where
  tokenText : Text.IsPrintable r.tokenText
  text : Text.IsPrintable r.text

variable {r : Report}

theorem Report.isPrintable_ofTokenError {e : TokenError} (h : e.Arises) :
    (ofTokenError e).IsPrintable := by
  have htext := h.isPrintable_text
  cases e with
  | endOfInput => exact ⟨Text.isPrintable_empty, Text.isPrintable_empty⟩
  | _ => exact ⟨htext, Text.isPrintable_empty⟩

theorem Report.isPrintable_ofSyntaxError {e : SyntaxError} (h : Text.IsPrintable e.message) :
    (ofSyntaxError e).IsPrintable := by
  unfold ofSyntaxError
  split
  · exact ⟨Text.isPrintable_empty, h⟩
  · exact ⟨Text.isPrintable_empty, h.capped maxErrorTextLength⟩

theorem Report.isPrintable_recordResult (r : Report) (capacity : Nat) (s : ByteStream)
    (sink : Sink) : (r.recordResult (readDeclaration capacity s sink).result).IsPrintable := by
  have hcomes := comesTo_readDeclaration capacity s sink
  cases hresult : (readDeclaration capacity s sink).result with
  | ok d => exact ⟨Text.isPrintable_empty, Text.isPrintable_empty⟩
  | error error =>
    cases error with
    | malformed e =>
      rw [r.recordResult_ofSyntaxError]
      exact isPrintable_ofSyntaxError (isPrintable_of_readDeclaration hresult)
    | token cause =>
      rw [hresult] at hcomes
      have harises : cause.Arises := hcomes.reads.arises cause rfl
      rw [hcomes.ofTokenError cause rfl, r.recordResult_ofTokenError harises.fits]
      exact isPrintable_ofTokenError harises
    | _ => exact ⟨Text.isPrintable_empty, Text.isPrintable_empty⟩

theorem Report.IsPrintable.details (h : r.IsPrintable) :
    Text.IsPrintable (Failure.declaration r).details := by
  unfold Failure.details
  dsimp only
  split
  · split
    · exact r.tokenStatus.isPrintable_message
    · exact h.tokenText
  · exact h.text

/-- Where no output is lost, a failure has details unless the input or the room is at its end. -/
theorem Report.Consistent.details_eq_empty_iff (h : r.Consistent) (hfailed : r.status ≠ .ok)
    (hwritten : r.status ≠ .outputFailed) :
    (Failure.declaration r).details = "" ↔ r.status = .endOfInput ∨ r.status = .tooManyTokens := by
  have htext := h.text_ne_empty
  have hexplained := h.explained
  unfold Failure.details
  dsimp only
  by_cases htoken : r.status = .tokenError
  · have hmessage := r.tokenStatus.message_ne_empty
    rw [if_pos htoken, htoken]
    split <;> simp [*]
  · have hless : r.text = "" ↔ ¬ (r.status = .malformed ∨ r.status = .errorTextTooLong) := by
      rw [← htext, ne_eq, not_not]
    rw [if_neg htoken, hless]
    cases hstatus : r.status <;> simp_all

end Reports

section Line

variable {capacity : Nat} {line : String} {f : Failure}

theorem exists_error_of_listing {outcomes : List (Except TokenError Token)}
    (h : (listing outcomes).2 = some f) : ∃ e, .error e ∈ outcomes ∧ f = .token e := by
  induction outcomes with
  | nil => cases h
  | cons outcome outcomes ih =>
    cases outcome with
    | error e =>
      obtain rfl : Failure.token e = f := Option.some.inj h
      exact ⟨e, List.mem_cons_self, rfl⟩
    | ok token =>
      rw [listing] at h
      obtain ⟨e, he, hf⟩ := ih h
      exact ⟨e, List.mem_cons_of_mem _ he, hf⟩

/-- A line that cannot be listed always has details to tell. -/
theorem details_of_listLine (h : (listLine line).2 = some f) :
    Text.IsPrintable f.details ∧ f.details ≠ "" := by
  obtain ⟨e, he, rfl⟩ := exists_error_of_listing h
  obtain ⟨i, hi⟩ := (upToEnd_readTokens (lineStream line)).exists_answer he
  have harises : e.Arises := errorsArise_nextToken (behind i (lineStream line)) e hi
  exact ⟨harises.isPrintable_message, harises.message_ne_empty⟩

/-- Output that takes everything is not what a reading fails for. -/
theorem result_ne_outputFailed (capacity : Nat) (s : ByteStream) :
    (readDeclaration capacity s .unbounded).result ≠ .error .outputFailed := by
  intro h
  cases hname : readToName (.withCapacity capacity) s with
  | mk outcome between =>
    rcases outcome with e | ⟨name, stack⟩
    · rw [readDeclaration_of_name_error hname] at h
      obtain rfl : e = .outputFailed := Except.error.inj h
      rcases eq_of_readToName_error (congrArg Prod.fst hname) with hfull | ⟨cause, hcause⟩
      · cases hfull
      · cases cause <;> cases hcause
    · rw [readDeclaration_unbounded hname] at h
      rcases eq_of_behindName_error h with ⟨cause, hcause⟩ | ⟨cause, hcause⟩
      · cases cause <;> cases hcause
      · cases hcause

theorem status_recordResult_ne_outputFailed {e : DeclarationError} (he : e ≠ .outputFailed) :
    (Report.clear.recordResult (.error e)).status ≠ .outputFailed := by
  cases e with
  | malformed cause =>
    rw [Report.recordResult_ofSyntaxError, Report.ofSyntaxError]
    split <;> simp
  | outputFailed => exact absurd rfl he
  | _ => simp [Report.recordResult, Report.record]

/-- What stands behind a declaration can always be told. -/
theorem details_of_declared {d : Declaration}
    (hresult : (readDeclaration capacity (lineStream line) .unbounded).result = .ok d)
    (h : (describeLine capacity line).2 = some f) :
    Text.IsPrintable f.details ∧ f.details ≠ "" := by
  rw [failure_describeLine_of_ok hresult] at h
  cases hnext : nextToken (readDeclaration capacity (lineStream line) .unbounded).rest with
  | mk outcome last =>
    rw [hnext] at h
    cases outcome with
    | error e =>
      have harises := errorsArise_nextToken _ e (congrArg Prod.fst hnext)
      cases e with
      | endOfInput => cases h
      | _ =>
        obtain rfl := Option.some.inj h
        exact ⟨harises.isPrintable_message, harises.message_ne_empty⟩
    | ok token =>
      have hspelling := Token.isPrintable_spelling (isReadable_of_nextToken hnext)
      have hdetails : (Failure.trailing token).details = "found `" ++ token.spelling ++ "`" := rfl
      obtain rfl := Option.some.inj h
      refine ⟨(Text.IsPrintable.append (by decide) hspelling).append (by decide), ?_⟩
      rw [hdetails]
      simp

/-- A line that cannot be described has details to tell, unless the line is at its end or there are
too many tokens in it. -/
theorem details_of_describeLine (h : (describeLine capacity line).2 = some f) :
    let status := (describe capacity (lineStream line) .unbounded (some .clear)).status
    Text.IsPrintable f.details ∧
      (f.details = "" ↔ status = .endOfInput ∨ status = .tooManyTokens) := by
  intro status
  have hstatus : status = (Report.clear.recordResult
    (readDeclaration capacity (lineStream line) .unbounded).result).status := rfl
  cases hresult : (readDeclaration capacity (lineStream line) .unbounded).result with
  | ok d =>
    obtain ⟨hprintable, hne⟩ := details_of_declared hresult h
    rw [hresult] at hstatus
    have hok : status = .ok := hstatus
    exact ⟨hprintable, iff_of_false hne (by simp [hok])⟩
  | error e =>
    have hprintable := Report.clear.isPrintable_recordResult capacity (lineStream line) .unbounded
    have hconsistent := Report.consistent_recordResult
      (comesTo_readDeclaration capacity (lineStream line) .unbounded) .clear
    have hlost := result_ne_outputFailed capacity (lineStream line)
    rw [hresult] at hstatus hprintable hconsistent hlost
    have hfailed : (Report.clear.recordResult (.error e)).status ≠ .ok := by
      rw [Ne, Report.status_recordResult_eq_ok_iff]
      intro hok
      obtain ⟨d, hd⟩ := hok
      cases hd
    have hwritten := status_recordResult_ne_outputFailed fun he => hlost (congrArg _ he)
    rw [describeLine_of_error hresult] at h
    obtain rfl := Option.some.inj h
    rw [hstatus]
    exact ⟨hprintable.details, hconsistent.details_eq_empty_iff hfailed hwritten⟩

end Line

end CDeclarations
