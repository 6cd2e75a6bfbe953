import CDeclarations.Proofs.Declaration.Outcome
import CDeclarations.Proofs.Declaration.Tokens
import CDeclarations.Proofs.Reading.UpToEnd
import CDeclarations.Proofs.Session.Append

namespace CDeclarations

/-- What a listing fails for when it comes to an error. The end of the input ends it instead. -/
def TokenError.failure? : TokenError → Option Failure
  | .endOfInput => none
  | e => some (.token e)

theorem TokenError.failure?_eq {e : TokenError} (h : e ≠ .endOfInput) :
    e.failure? = some (.token e) := by
  cases e <;> first | rfl | exact absurd rfl h

section Listing

variable {s rest : ByteStream} {error : Option TokenError}

theorem failure_listing_of_error {e : TokenError} (h : nextToken s = (.error e, rest)) :
    (listing (readTokens s).1).2 = e.failure? := by
  by_cases hend : e = .endOfInput
  · subst hend
    rw [readTokens_end h]
    rfl
  · have hmore : Except.error e ≠ (.error .endOfInput : Except TokenError Token) := by
      simpa using hend
    rw [readTokens_cons h hmore, TokenError.failure?_eq hend]
    rfl

theorem failure_listing_of_token {t : Token} (h : nextToken s = (.ok t, rest)) :
    (listing (readTokens s).1).2 = (listing (readTokens rest).1).2 := by
  rw [readTokens_cons h nofun, listing]

/-- A listing fails for the first error, wherever the reading of the tokens is broken off. -/
theorem ReadsUpTo.failure_listing (h : ReadsUpTo s error rest) :
    (listing (readTokens s).1).2 =
      error.elim (listing (readTokens rest).1).2 TokenError.failure? := by
  induction h with
  | nothing s => rfl
  | error hnext => exact failure_listing_of_error hnext
  | token hnext hlater ih => exact (failure_listing_of_token hnext).trans ih

end Listing

/-- The details of an error are the same by way of a report, where its text is kept in full. -/
theorem TokenError.Arises.details_ofTokenError {e : TokenError} (h : e.Arises)
    (hmore : e ≠ .endOfInput) (hfault : e.fault? = none) :
    (Failure.declaration (.ofTokenError e)).details = (Failure.token e).details := by
  have htext := h.text_ne_empty
  cases e with
  | badToken text => exact if_neg (htext rfl)
  | endOfInput => exact absurd rfl hmore
  | readFailed cause => cases hfault
  | _ => rfl

/-- How the description of a line comes out, by the tokens that were read for it. -/
inductive DescribedBy (line : String) : Option Failure → Prop
  | described {rest : ByteStream} :
      ReadsUpTo (lineStream line) (some .endOfInput) rest → DescribedBy line none
  /-- The error came up behind the declaration. -/
  | behind {e : TokenError} {rest : ByteStream} :
      ReadsUpTo (lineStream line) (some e) rest → e ≠ .endOfInput →
        DescribedBy line (some (.token e))
  /-- The error came up in the declaration, which was reported for it. -/
  | within {e : TokenError} {rest : ByteStream} :
      ReadsUpTo (lineStream line) (some e) rest → e ≠ .endOfInput →
        DescribedBy line (some (.declaration (.ofTokenError e)))
  | otherwise {failure : Failure} :
      failure.headline ≠ "invalid token" → DescribedBy line (some failure)

section Line

variable {capacity : Nat} {line : String}

theorem describeLine_of_error {e : DeclarationError}
    (h : (readDeclaration capacity (lineStream line) .unbounded).result = .error e) :
    describeLine capacity line =
      ([], some (.declaration (Report.clear.recordResult (.error e)))) := by
  have hstatus : (Report.clear.recordResult (.error e)).status ≠ .ok := by
    rw [Ne, Report.status_recordResult_eq_ok_iff]
    exact fun ⟨d, hd⟩ => nomatch hd
  unfold describeLine
  dsimp only
  rw [h]
  exact if_pos (by simp [Report.isOk, hstatus])

theorem failure_describeLine_of_ok {d : Declaration}
    (h : (readDeclaration capacity (lineStream line) .unbounded).result = .ok d) :
    (describeLine capacity line).2 =
      match (nextToken (readDeclaration capacity (lineStream line) .unbounded).rest).1 with
      | .error e => e.failure?
      | .ok token => some (.trailing token) := by
  have hok : (Report.clear.recordResult (.ok d)).isOk = true := rfl
  unfold describeLine
  simp only [h, hok, Bool.not_true, Bool.false_eq_true, if_false]
  generalize nextToken (readDeclaration capacity (lineStream line) .unbounded).rest = next
  obtain ⟨(_ | _) | _, behind⟩ := next <;> rfl

theorem headline_recordResult_ne {e : DeclarationError} (h : e.tokenError? = none) :
    (Failure.declaration (Report.clear.recordResult (.error e))).headline ≠ "invalid token" := by
  cases e with
  | endOfInput => cases h
  | token cause => cases h
  | tooManyTokens => decide
  | outputFailed => decide
  | malformed cause =>
    have hother : (Failure.declaration (Report.clear.recordResult
        (.error (.malformed cause)))).headline = "invalid declaration" := by
      simp only [Report.recordResult, Report.record]
      split <;> rfl
    rw [hother]
    decide

theorem describedBy_describeLine (capacity : Nat) (line : String) :
    DescribedBy line (describeLine capacity line).2 := by
  have hcomes := comesTo_readDeclaration capacity (lineStream line) .unbounded
  cases hresult : (readDeclaration capacity (lineStream line) .unbounded).result with
  | error error =>
    rw [hresult] at hcomes
    rw [describeLine_of_error hresult]
    have hreads := hcomes.reads
    cases htoken : tokenErrorOf? (.error error : Except _ Declaration) with
    | none => exact .otherwise (headline_recordResult_ne htoken)
    | some e =>
      rw [htoken] at hreads
      obtain rfl : error = .ofTokenError e := Except.error.inj (hcomes.ofTokenError e htoken)
      rw [Report.recordResult_ofTokenError _ (hreads.arises e rfl).fits]
      by_cases hend : e = .endOfInput
      · subst hend
        exact .otherwise (by decide)
      · exact .within hreads hend
  | ok d =>
    have hall := hcomes.reads
    rw [hresult] at hall
    rw [failure_describeLine_of_ok hresult]
    cases hnext : nextToken (readDeclaration capacity (lineStream line) .unbounded).rest with
    | mk outcome last =>
      cases outcome with
      | error e =>
        have hreads := ReadsUpTo.trans hall (.error hnext)
        dsimp only
        by_cases hend : e = .endOfInput
        · subst hend
          exact .described hreads
        · rw [TokenError.failure?_eq hend]
          exact .behind hreads hend
      | ok token =>
        have hheadline : (Failure.trailing token).headline = "unexpected input after declaration" :=
          rfl
        refine .otherwise ?_
        rw [hheadline]
        decide

/-- The listing of a line that is described comes to the end of the line. -/
theorem failure_listLine_eq_none (h : (describeLine capacity line).2 = none) :
    (listLine line).2 = none := by
  have hdescribed := describedBy_describeLine capacity line
  rw [h] at hdescribed
  cases hdescribed with
  | described hreads => exact hreads.failure_listing

/-- A token error is shown in the same words, whether it comes up by itself, behind a declaration,
or in one and so by way of a report. -/
theorem exists_failure_listLine {f : Failure} (h : (describeLine capacity line).2 = some f)
    (hheadline : f.headline = "invalid token") :
    ∃ e, (listLine line).2 = some (.token e) ∧ f.details = (Failure.token e).details := by
  have hdescribed := describedBy_describeLine capacity line
  rw [h] at hdescribed
  cases hdescribed with
  | behind hreads hmore =>
    exact ⟨_, hreads.failure_listing.trans (TokenError.failure?_eq hmore), rfl⟩
  | within hreads hmore =>
    have hfault := hreads.fault?_eq_none (ByteStream.events_ofBytes (Text.utf8 line))
    have hdetails := (hreads.arises _ rfl).details_ofTokenError hmore hfault
    exact ⟨_, hreads.failure_listing.trans (TokenError.failure?_eq hmore), hdetails⟩
  | otherwise hother => exact absurd hheadline hother

end Line

section Failures

variable {capacity : Nat} {line : String}

theorem failure?_listed (capacity : Nat) (line : String) :
    failure? ⟨true, true, capacity⟩ line = if isBlank line then none else (listLine line).2 := rfl

theorem failure?_described (capacity : Nat) (line : String) :
    failure? ⟨false, true, capacity⟩ line =
      if isBlank line then none else (describeLine capacity line).2 := rfl

theorem exists_failure?_described {f : Failure}
    (h : failure? ⟨true, true, capacity⟩ line = some f) :
    ∃ g, failure? ⟨false, true, capacity⟩ line = some g := by
  rw [failure?_listed] at h
  rw [failure?_described]
  split at h
  · cases h
  · rename_i hblank
    rw [if_neg hblank]
    cases hdescribed : (describeLine capacity line).2 with
    | some g => exact ⟨g, rfl⟩
    | none =>
      rw [failure_listLine_eq_none hdescribed] at h
      cases h

theorem exists_failure?_listed {g : Failure}
    (h : failure? ⟨false, true, capacity⟩ line = some g)
    (hheadline : g.headline = "invalid token") :
    ∃ f, failure? ⟨true, true, capacity⟩ line = some f ∧
      f.headline = g.headline ∧ f.note = g.note := by
  rw [failure?_described] at h
  rw [failure?_listed]
  split at h
  · cases h
  · rename_i hblank
    obtain ⟨e, hlist, hdetails⟩ := exists_failure_listLine h hheadline
    rw [if_neg hblank]
    refine ⟨.token e, hlist, hheadline.symm, ?_⟩
    rw [Failure.note, Failure.note, hdetails]

end Failures

section Findings

variable {listTokens : Bool} {capacity : Nat} {source : String} {f g : Finding}

theorem mem_findings_iff :
    f ∈ (fullSession listTokens capacity source).findings ↔
      ∃ line number failure, (line, number) ∈ (Text.lines source).zipIdx 1 ∧
        failure? ⟨listTokens, true, capacity⟩ line = some failure ∧
        f = ⟨failure.headline, number, line, failure.note⟩ := by
  rw [findings_fullSession, List.mem_filterMap]
  constructor
  · intro h
    obtain ⟨⟨line, number⟩, hline, hfound⟩ := h
    obtain ⟨failure, hfailure, rfl⟩ := Option.map_eq_some_iff.mp hfound
    exact ⟨line, number, failure, hline, hfailure, rfl⟩
  · intro h
    obtain ⟨line, number, failure, hline, hfailure, rfl⟩ := h
    refine ⟨(line, number), hline, ?_⟩
    rw [lineFinding?, hfailure]
    rfl

/-- No two findings of a session are about one line. -/
theorem eq_of_number_eq (hf : f ∈ (fullSession listTokens capacity source).findings)
    (hg : g ∈ (fullSession listTokens capacity source).findings) (h : f.number = g.number) :
    f = g := by
  obtain ⟨line, number, failure, hline, hfailure, rfl⟩ := mem_findings_iff.mp hf
  obtain ⟨line', number', failure', hline', hfailure', rfl⟩ := mem_findings_iff.mp hg
  obtain rfl : number = number' := h
  rw [List.mem_zipIdx_iff_le_and_getElem?_sub] at hline hline'
  obtain rfl : line = line' := Option.some.inj (hline.2.symm.trans hline'.2)
  obtain rfl : failure = failure' := Option.some.inj (hfailure.symm.trans hfailure')
  rfl

theorem exists_finding_described (h : f ∈ (fullSession true capacity source).findings) :
    ∃ g ∈ (fullSession false capacity source).findings, g.number = f.number ∧ g.line = f.line := by
  obtain ⟨line, number, failure, hline, hfailure, rfl⟩ := mem_findings_iff.mp h
  obtain ⟨failure', hfailure'⟩ := exists_failure?_described hfailure
  exact ⟨_, mem_findings_iff.mpr ⟨line, number, failure', hline, hfailure', rfl⟩, rfl, rfl⟩

theorem finding_listed (h : g ∈ (fullSession false capacity source).findings)
    (hheadline : g.headline = "invalid token") :
    g ∈ (fullSession true capacity source).findings := by
  obtain ⟨line, number, failure, hline, hfailure, rfl⟩ := mem_findings_iff.mp h
  obtain ⟨failure', hfailure', hhead, hnote⟩ := exists_failure?_listed hfailure hheadline
  refine mem_findings_iff.mpr ⟨line, number, failure', hline, hfailure', ?_⟩
  rw [hhead, hnote]

theorem outcome_fullSession_eq_ok_true_iff :
    (fullSession listTokens capacity source).outcome = .ok true ↔
      (fullSession listTokens capacity source).findings = [] := by
  rw [outcome_fullSession, Except.ok.injEq, List.isEmpty_iff]

end Findings

/-- A line whose tokens cannot be listed cannot be described either, so that what can be described
throughout can be listed throughout. Where a description finds a token that is wrong, the listing
finds the same about that line and nothing else. -/
theorem fullSession_modes (capacity : Nat) (source : String) :
    let listed := fullSession true capacity source
    let described := fullSession false capacity source
    (∀ f ∈ listed.findings, ∃ g ∈ described.findings, g.number = f.number ∧ g.line = f.line) ∧
    (described.outcome = .ok true → listed.outcome = .ok true ∧ listed.findings = []) ∧
    ∀ g ∈ described.findings, g.headline = "invalid token" →
      g ∈ listed.findings ∧ ∀ f ∈ listed.findings, f.number = g.number → f = g := by
  intro listed described
  have hfails : ∀ f ∈ listed.findings,
      ∃ g ∈ described.findings, g.number = f.number ∧ g.line = f.line :=
    fun f hf => exists_finding_described hf
  refine ⟨hfails, fun hok => ?_, fun g hg hheadline => ?_⟩
  · have hnone : described.findings = [] := outcome_fullSession_eq_ok_true_iff.mp hok
    have hempty : listed.findings = [] := by
      rw [List.eq_nil_iff_forall_not_mem]
      intro f hf
      obtain ⟨g, hg, -⟩ := hfails f hf
      rw [hnone] at hg
      cases hg
    exact ⟨outcome_fullSession_eq_ok_true_iff.mpr hempty, hempty⟩
  · have hlisted : g ∈ listed.findings := finding_listed hg hheadline
    exact ⟨hlisted, fun f hf hnumber => eq_of_number_eq hf hlisted hnumber⟩

/-- A wrong token is found in both ways, be it in a declaration or behind one. -/
theorem fullSession_modes_wrongToken :
    let listed := fullSession true 20 "int $a;\nint b; /* open\n"
    let described := fullSession false 20 "int $a;\nint b; /* open\n"
    let within : Finding := ⟨"invalid token", 1, "int $a;", some "unknown character token '$'"⟩
    let behind : Finding := ⟨"invalid token", 2, "int b; /* open", some "unterminated comment"⟩
    within ∈ described.findings ∧ within ∈ listed.findings ∧
    behind ∈ described.findings ∧ behind ∈ listed.findings ∧
    (fullSession false 20 "int a;\n").outcome = .ok true ∧
    (fullSession true 20 "int a;\n").outcome = .ok true := by
  intro listed described within behind
  have hwithin : within ∈ described.findings := by decide +kernel
  have hbehind : behind ∈ described.findings := by decide +kernel
  have hok : (fullSession false 20 "int a;\n").outcome = .ok true := by decide +kernel
  have hlisted := (fullSession_modes 20 "int $a;\nint b; /* open\n").2.2
  have hall := (fullSession_modes 20 "int a;\n").2.1 hok
  exact ⟨hwithin, (hlisted within hwithin rfl).1, hbehind, (hlisted behind hbehind rfl).1, hok,
    hall.1⟩

end CDeclarations
