import CDeclarations.Declaration.Report
import CDeclarations.Proofs.Text.Boundary

namespace CDeclarations

/-- All that a report is told at once. -/
structure Recording where
  tokenStatus : TokenStatus
  tokenText : String
  status : DeclarationStatus
  text : Option String

namespace Report

/-- The report behind recordings that are made one after another. -/
def recordAll (r : Report) (recordings : List Recording) : Report :=
  recordings.foldl (fun r c => r.record c.tokenStatus c.tokenText c.status c.text) r

/-- What a report tells of a recording. A text is there only where a status calls for it, and then
as far as it fits. -/
structure Keeps (r : Report) (c : Recording) : Prop where
  tokenStatus_eq : r.tokenStatus = c.tokenStatus
  tokenText_of_badToken : c.tokenStatus = .badToken →
    Text.IsLongestFront maxTokenLength c.tokenText r.tokenText
  tokenText_of_ne_badToken : c.tokenStatus ≠ .badToken → r.tokenText = ""
  text_of_malformed : ∀ text, c.status = .malformed → c.text = some text →
    Text.IsLongestFront maxErrorTextLength text r.text ∧
      (r.status = .malformed ∨ r.status = .errorTextTooLong)
  of_noText : c.status = .malformed → c.text = none → r.text = "" ∧ r.status = .noErrorText
  altered_iff : c.status = .malformed →
    ((∃ text, c.text = some text ∧ r.text ≠ text) ↔ r.status = .errorTextTooLong)
  of_ne_malformed : c.status ≠ .malformed → r.text = "" ∧ r.status = c.status

section Record

variable (r : Report) (tokenStatus : TokenStatus) (tokenText : String)
  (status : DeclarationStatus) (text : Option String)

/-- What is told of a token is kept without regard to the rest. -/
theorem token_record :
    let recorded := r.record tokenStatus tokenText status text
    recorded.tokenStatus = tokenStatus ∧
      recorded.tokenText =
        if tokenStatus = .badToken then Text.capped maxTokenLength tokenText else "" := by
  cases status with
  | malformed =>
    cases text with
    | none => exact ⟨rfl, rfl⟩
    | some text =>
      by_cases hfits : text.utf8ByteSize ≤ maxErrorTextLength
      · simp only [record, if_pos hfits, and_self]
      · simp only [record, if_neg hfits, and_self]
  | _ => exact ⟨rfl, rfl⟩

/-- A text that fits is its own longest beginning that does. -/
theorem text_record_malformed (text : String) :
    (r.record tokenStatus tokenText .malformed (some text)).text =
      Text.capped maxErrorTextLength text := by
  simp only [record]
  split
  · rename_i hfits
    exact (Text.capped_eq_self hfits).symm
  · rfl

theorem status_record_malformed (text : String) :
    (r.record tokenStatus tokenText .malformed (some text)).status =
      if text.utf8ByteSize ≤ maxErrorTextLength then .malformed else .errorTextTooLong := by
  simp only [record]
  split <;> rfl

/-- What is kept is another text just where the status says so. -/
theorem text_record_ne_iff (text : String) :
    (r.record tokenStatus tokenText .malformed (some text)).text ≠ text ↔
      (r.record tokenStatus tokenText .malformed (some text)).status = .errorTextTooLong := by
  rw [text_record_malformed, status_record_malformed, Ne, Text.capped_eq_iff]
  split <;> simp [*]

theorem record_of_ne_malformed (h : status ≠ .malformed) :
    let recorded := r.record tokenStatus tokenText status text
    recorded.text = "" ∧ recorded.status = status := by
  cases status with
  | malformed => exact absurd rfl h
  | _ => exact ⟨rfl, rfl⟩

end Record

/-- Whatever the report told before. -/
theorem keeps_record (r : Report) (c : Recording) :
    (r.record c.tokenStatus c.tokenText c.status c.text).Keeps c := by
  obtain ⟨tokenStatus, tokenText, status, text⟩ := c
  obtain ⟨hstatus, htext⟩ := r.token_record tokenStatus tokenText status text
  constructor
  case tokenStatus_eq => exact hstatus
  case tokenText_of_badToken =>
    intro hbad
    rw [htext, if_pos hbad]
    exact Text.isLongestFront_capped _ _
  case tokenText_of_ne_badToken =>
    intro hbad
    rw [htext, if_neg hbad]
  case text_of_malformed =>
    intro text hmalformed hsome
    subst hmalformed hsome
    rw [text_record_malformed, status_record_malformed]
    refine ⟨Text.isLongestFront_capped _ _, ?_⟩
    split
    · exact .inl rfl
    · exact .inr rfl
  case of_noText =>
    intro hmalformed hnone
    subst hmalformed hnone
    exact ⟨rfl, rfl⟩
  case altered_iff =>
    intro hmalformed
    subst hmalformed
    cases text with
    | none => simp [record]
    | some text =>
      rw [← text_record_ne_iff]
      simp
  case of_ne_malformed => exact r.record_of_ne_malformed _ _ _ _

section Unique

variable {r other : Report} {c : Recording}

theorem Keeps.tokenText_unique (h : r.Keeps c) (hother : other.Keeps c) :
    r.tokenText = other.tokenText := by
  by_cases hbad : c.tokenStatus = .badToken
  · exact (h.tokenText_of_badToken hbad).unique (hother.tokenText_of_badToken hbad)
  · rw [h.tokenText_of_ne_badToken hbad, hother.tokenText_of_ne_badToken hbad]

/-- Whether the status is that of a text cut short can be seen from the text. -/
theorem Keeps.status_eq (h : r.Keeps c) {text : String} (hmalformed : c.status = .malformed)
    (htext : c.text = some text) :
    r.status = if r.text = text then .malformed else .errorTextTooLong := by
  have haltered : r.text ≠ text ↔ r.status = .errorTextTooLong := by
    rw [← h.altered_iff hmalformed, htext]
    simp
  split
  · rename_i hwhole
    apply (h.text_of_malformed text hmalformed htext).2.resolve_right
    intro hlong
    exact haltered.mpr hlong hwhole
  · rename_i hcut
    exact haltered.mp hcut

theorem Keeps.text_unique (h : r.Keeps c) (hother : other.Keeps c) :
    r.text = other.text ∧ r.status = other.status := by
  by_cases hmalformed : c.status = .malformed
  · cases htext : c.text with
    | none =>
      obtain ⟨hnone, hstatus⟩ := h.of_noText hmalformed htext
      obtain ⟨hnone', hstatus'⟩ := hother.of_noText hmalformed htext
      exact ⟨hnone.trans hnone'.symm, hstatus.trans hstatus'.symm⟩
    | some text =>
      have hfront := (h.text_of_malformed text hmalformed htext).1
      have hsame : r.text = other.text :=
        hfront.unique (hother.text_of_malformed text hmalformed htext).1
      refine ⟨hsame, ?_⟩
      rw [h.status_eq hmalformed htext, hother.status_eq hmalformed htext, hsame]
  · obtain ⟨hnone, hstatus⟩ := h.of_ne_malformed hmalformed
    obtain ⟨hnone', hstatus'⟩ := hother.of_ne_malformed hmalformed
    exact ⟨hnone.trans hnone'.symm, hstatus.trans hstatus'.symm⟩

/-- A recording leaves nothing open of the report that tells of it. -/
theorem Keeps.unique (h : r.Keeps c) (hother : other.Keeps c) : r = other := by
  have htokenStatus : r.tokenStatus = other.tokenStatus :=
    h.tokenStatus_eq.trans hother.tokenStatus_eq.symm
  have htokenText := h.tokenText_unique hother
  obtain ⟨htext, hstatus⟩ := h.text_unique hother
  cases r
  cases other
  rw [Report.mk.injEq]
  exact ⟨htokenStatus, htokenText, hstatus, htext⟩

end Unique

/-- From the first recording on, a report tells of the last one. -/
theorem keeps_recordAll (r : Report) (earlier : List Recording) (last : Recording) :
    (r.recordAll (earlier ++ [last])).Keeps last := by
  rw [recordAll, List.foldl_append]
  exact keeps_record _ last

end Report

/-- However many recordings are made, and in whatever report, it is the last one alone that decides
on the report behind them. The texts that are kept of it are cut to 79 and 255 bytes. -/
theorem recordAll_keepsLast (r : Report) (earlier : List Recording) (last : Recording) :
    let recorded := r.recordAll (earlier ++ [last])
    (∀ (other : Report) (before : List Recording),
      other.recordAll (before ++ [last]) = recorded) ∧
    recorded.Keeps last := by
  intro recorded
  have hkeeps : recorded.Keeps last := r.keeps_recordAll earlier last
  refine ⟨?_, hkeeps⟩
  intro other before
  exact (other.keeps_recordAll before last).unique hkeeps

end CDeclarations
