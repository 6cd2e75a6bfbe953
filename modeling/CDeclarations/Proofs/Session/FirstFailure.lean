import CDeclarations.Proofs.Declaration.Writes
import CDeclarations.Proofs.Session.Append

namespace CDeclarations

/-- The description of a line that is one declaration with nothing behind it. -/
def acceptedText? (capacity : Nat) (line : String) : Option (List UInt8) :=
  let d := describe capacity (lineStream line) .unbounded none
  if d.status = .ok ∧ (nextToken d.rest).1 = .error .endOfInput then some d.said else none

/-- Nothing is wrong with a line that is blank or accepted. -/
def passes (capacity : Nat) (line : String) : Bool :=
  isBlank line || (acceptedText? capacity line).isSome

section Line

variable {capacity : Nat} {line : String}

theorem acceptedText?_of_isBlank (h : isBlank line) : acceptedText? capacity line = none := by
  obtain ⟨rest, hnext⟩ : ∃ rest, nextToken (lineStream line) = (.error .endOfInput, rest) := by
    unfold isBlank at h
    split at h
    · exact ⟨_, ‹_›⟩
    · cases h
  have hname : readToName (.withCapacity capacity) (lineStream line) = (.error .endOfInput, rest) :=
    readToName_of_error hnext
  refine if_neg fun haccepted => ?_
  obtain ⟨hok, -⟩ := haccepted
  rw [describe, readDeclaration_of_name_error hname] at hok
  cases hok

/-- A line that is not accepted is reported, and nothing that was said of it remains. -/
theorem describeLine_eq_accepted (capacity : Nat) (line : String) :
    (describeLine capacity line).1 = (acceptedText? capacity line).getD [] ∧
      (describeLine capacity line).2.isNone = (acceptedText? capacity line).isSome := by
  unfold describeLine acceptedText? describe
  simp only [Option.getD_none]
  generalize readDeclaration capacity (lineStream line) .unbounded = reading
  by_cases hok : (Report.clear.recordResult reading.result).status = .ok
  · have hisOk : (Report.clear.recordResult reading.result).isOk = true := decide_eq_true hok
    rw [hisOk]
    simp only [Bool.not_true, Bool.false_eq_true, if_false]
    generalize nextToken reading.rest = next
    obtain ⟨(_ | _) | _, rest⟩ := next <;> simp [hok]
  · have hisOk : (Report.clear.recordResult reading.result).isOk = false := decide_eq_false hok
    rw [hisOk]
    simp [hok]

end Line

section Entries

/-- Whether a session goes on behind failures makes no difference to what it has to say about a
line. -/
theorem entriesFrom_keepGoing (listTokens keepGoing : Bool) (capacity number : Nat)
    (lines : List String) :
    entriesFrom ⟨listTokens, keepGoing, capacity⟩ number lines =
      entriesFrom ⟨listTokens, true, capacity⟩ number lines := by
  induction lines generalizing number with
  | nil => rfl
  | cons line lines ih =>
    rw [entriesFrom, entriesFrom, ih]
    rfl

theorem throughFailure_isPrefix (entries : List Entry) : throughFailure entries <+: entries := by
  induction entries with
  | nil => exact List.prefix_rfl
  | cons e entries ih =>
    rw [throughFailure, List.prefix_cons_inj]
    split
    · exact List.nil_prefix
    · exact ih

theorem throughFailure_eq_self_of_findings {entries : List Entry}
    (h : entries.flatMap (·.finding?.toList) = []) : throughFailure entries = entries := by
  refine throughFailure_eq_self fun e he => ?_
  have hnone := List.flatMap_eq_nil_iff.mp h e he
  cases hfailure : e.failure with
  | none => rfl
  | some failure => simp [Entry.finding?, hfailure] at hnone

variable (keepGoing : Bool) (capacity number : Nat) (lines : List String)

theorem text_entriesFrom_describing :
    (entriesFrom ⟨false, keepGoing, capacity⟩ number lines).flatMap (·.text) =
      (lines.filterMap (acceptedText? capacity)).flatten := by
  induction lines generalizing number with
  | nil => rfl
  | cons line lines ih =>
    rw [entriesFrom]
    by_cases hblank : isBlank line
    · rw [if_pos hblank, ih, List.filterMap_cons_none (acceptedText?_of_isBlank hblank)]
    · have htext : (Entry.ofLine ⟨false, keepGoing, capacity⟩ number line).text =
          (acceptedText? capacity line).getD [] := (describeLine_eq_accepted capacity line).1
      rw [if_neg hblank, List.flatMap_cons, htext, ih]
      cases haccepted : acceptedText? capacity line with
      | none => rw [List.filterMap_cons_none haccepted, Option.getD_none, List.nil_append]
      | some text =>
        rw [List.filterMap_cons_some haccepted, Option.getD_some, List.flatten_cons]

/-- The line that fails leaves nothing behind, and none below it is looked at. -/
theorem text_throughFailure_describing :
    (throughFailure (entriesFrom ⟨false, keepGoing, capacity⟩ number lines)).flatMap (·.text) =
      ((lines.takeWhile (passes capacity)).filterMap (acceptedText? capacity)).flatten := by
  induction lines generalizing number with
  | nil => rfl
  | cons line lines ih =>
    rw [entriesFrom]
    by_cases hblank : isBlank line
    · have hpasses : passes capacity line := by rw [passes, hblank, Bool.true_or]
      rw [if_pos hblank, ih, List.takeWhile_cons_of_pos hpasses,
        List.filterMap_cons_none (acceptedText?_of_isBlank hblank)]
    · obtain ⟨htext, hfailure⟩ := describeLine_eq_accepted capacity line
      have hentry : Entry.ofLine ⟨false, keepGoing, capacity⟩ number line =
          ⟨number, line, (describeLine capacity line).1, (describeLine capacity line).2⟩ := rfl
      rw [if_neg hblank, hentry, htext, throughFailure]
      dsimp only
      cases haccepted : acceptedText? capacity line with
      | none =>
        have hpasses : ¬ passes capacity line := by simp [passes, hblank, haccepted]
        rw [haccepted, Option.isSome_none, Option.isNone_eq_false_iff] at hfailure
        rw [if_pos hfailure, List.takeWhile_cons_of_neg hpasses]
        rfl
      | some text =>
        have hpasses : passes capacity line := by simp [passes, haccepted]
        rw [haccepted, Option.isSome_some, Option.isNone_iff_eq_none] at hfailure
        rw [hfailure, List.flatMap_cons, List.takeWhile_cons_of_pos hpasses,
          List.filterMap_cons_some haccepted, List.flatten_cons, ← ih (number + 1)]
        rfl

end Entries

/-- A session that stops at the first failure leaves a beginning of what one leaves that goes on,
and comes to the same result. It shows the first of the findings if there are any, and if there are
none the two are the same in every way. Where lines are described, the descriptions are those of the
accepted lines and of no others, up to the line that fails. -/
theorem runSession_untilFailure (listTokens : Bool) (capacity : Nat) (source : String) :
    let full := runSession ⟨listTokens, true, capacity⟩ source .unbounded
    let cut := runSession ⟨listTokens, false, capacity⟩ source .unbounded
    ∃ accepted, cut.outcome = .ok accepted ∧ full.outcome = .ok accepted ∧
      cut.said <+: full.said ∧
      cut.findings = full.findings.take 1 ∧
      (∀ colors d, ∃ unsaid, renderFindings colors d full.findings =
        renderFindings colors d cut.findings ++ unsaid) ∧
      (accepted = true → cut = full) ∧
      (listTokens = false →
        cut.said = (((Text.lines source).takeWhile (passes capacity)).filterMap
          (acceptedText? capacity)).flatten ∧
        full.said = ((Text.lines source).filterMap (acceptedText? capacity)).flatten) := by
  intro full cut
  let all := entriesFrom ⟨listTokens, true, capacity⟩ 1 (Text.lines source)
  have hfull : full = deliver all .unbounded := rfl
  have hcut : cut = deliver (throughFailure all) .unbounded := by
    have hsame : all = entriesFrom ⟨listTokens, false, capacity⟩ 1 (Text.lines source) :=
      (entriesFrom_keepGoing listTokens false capacity 1 _).symm
    rw [hsame]
    rfl
  have hfindings : cut.findings = full.findings.take 1 := by
    rw [hcut, hfull, deliver_unbounded, deliver_unbounded, findings_throughFailure]
  have hcutOutcome : cut.outcome = .ok full.findings.isEmpty := by
    have hempty : (full.findings.take 1).isEmpty = full.findings.isEmpty := by
      cases full.findings <;> rfl
    rw [← hempty, ← hfindings, hcut, deliver_unbounded]
  refine ⟨full.findings.isEmpty, hcutOutcome, outcome_fullSession listTokens capacity source, ?_,
    hfindings, fun colors d => ?_, fun haccepted => ?_, fun hdescribes => ?_⟩
  · obtain ⟨later, hlater⟩ := throughFailure_isPrefix all
    refine ⟨later.flatMap (·.text), ?_⟩
    rw [hcut, hfull, deliver_unbounded, deliver_unbounded, ← List.flatMap_append, hlater]
  · refine ⟨renderFindings colors d (full.findings.drop 1), ?_⟩
    rw [← renderFindings_append, hfindings, List.take_append_drop]
  · have hnone : full.findings = [] := List.isEmpty_iff.mp haccepted
    rw [hfull, deliver_unbounded] at hnone
    rw [hcut, hfull, throughFailure_eq_self_of_findings hnone]
  · subst hdescribes
    rw [hcut, hfull, deliver_unbounded, deliver_unbounded]
    exact ⟨text_throughFailure_describing true capacity 1 _,
      text_entriesFrom_describing true capacity 1 _⟩

/-- Of the failing line the name and the pointer were understood, and nothing of it is said. -/
theorem runSession_untilFailure_second :
    let source := "int a;\n\nsigned double *b;\nchar c;\n"
    let full := runSession ⟨false, true, 20⟩ source .unbounded
    let cut := runSession ⟨false, false, 20⟩ source .unbounded
    let first := runSession ⟨false, false, 20⟩ "int a;\n" .unbounded
    (describe 20 (lineStream "signed double *b;") .unbounded none).said =
        Text.utf8 "b: pointer to" ∧
      cut.said = Text.utf8 "a: int\n" ∧ full.said = Text.utf8 "a: int\nc: char\n" ∧
      cut.said <+: full.said ∧ cut.findings = full.findings.take 1 ∧
      cut.said = (((Text.lines source).takeWhile (passes 20)).filterMap
        (acceptedText? 20)).flatten ∧
      first = runSession ⟨false, true, 20⟩ "int a;\n" .unbounded := by
  intro source full cut first
  obtain ⟨accepted, -, -, hbegins, hfindings, -, -, hsaid⟩ := runSession_untilFailure false 20 source
  obtain ⟨all, houtcome, -, -, -, -, hsame, -⟩ := runSession_untilFailure false 20 "int a;\n"
  have hall : first.outcome = .ok true := by decide +kernel
  have haccepted : all = true := Except.ok.inj (houtcome.symm.trans hall)
  exact ⟨by decide +kernel, by decide +kernel, by decide +kernel, hbegins, hfindings, (hsaid rfl).1,
    hsame haccepted⟩

end CDeclarations
