import CDeclarations.Proofs.Declaration.Consecutive
import CDeclarations.Proofs.Declaration.Tokens
import CDeclarations.Proofs.Malformed.Subject

namespace CDeclarations

/-- The counts of a reading are those of a machine: how many tokens there is room for, and how many
parentheses close behind a name. -/
structure CountsFit (capacity : Nat) (s : ByteStream) : Prop where
  capacity_lt : capacity < 2 ^ 64
  closing_lt : ∀ front name closing rest, ReadsStatement capacity s front name closing rest →
    closing < 2 ^ 64

/-- Each parenthesis has been read, so there are no more of them than bytes. -/
theorem countsFit_of_size_lt {capacity : Nat} {s : ByteStream} (hcapacity : capacity < 2 ^ 64)
    (hsize : s.size < 2 ^ 64) : CountsFit capacity s := by
  refine ⟨hcapacity, fun front name closing rest h => ?_⟩
  have hread := h.reads.size_add_length_le
  simp only [List.length_append, List.length_replicate] at hread
  omega

/-- The text about the tokens in front of a name fits into a report, unless it is about two types
among them. -/
inductive FitsUnlessConflicting (front : List Token) (name : String) : SyntaxError → Prop
  | fits {e : SyntaxError} :
      e.message.utf8ByteSize ≤ maxErrorTextLength → FitsUnlessConflicting front name e
  | types {left right : TypeSpecifier} : List.Sublist [.type left, .type right] front →
      FitsUnlessConflicting front name (.conflictingTypes left right name)

section Unwind

variable {front : List Token} {name : String} {closing : Nat} {e : SyntaxError}

theorem SyntaxError.About.fitsUnlessConflicting (h : e.About front name closing)
    (hname : IsName name) (hreadable : ∀ t ∈ front, t.IsReadable) (hfront : front.length < 2 ^ 64)
    (hclosing : closing < 2 ^ 64) : FitsUnlessConflicting front name e := by
  cases h with
  | duplicateQualifier word target => exact .fits (duplicateQualifier_fits word target)
  | unexpectedToken part htoken => exact .fits (unexpectedToken_fits (hreadable _ htoken) part)
  | unbalancedParens hleft =>
    exact .fits (unbalancedParens_fits (Nat.lt_of_le_of_lt hleft hfront) hclosing)
  | outOfTokens => exact .fits (by decide)
  | conflictingTypes htypes => exact .types htypes
  | conflictingSigns => exact .fits (by decide)
  | duplicateSign word => exact .fits (duplicateSign_fits word)
  | invalidSign word htype => exact .fits (invalidSign_fits word (hreadable _ htype))
  | missingType => exact .fits (missingType_fits hname)

end Unwind

/-- Two tags stand among the tokens in front of the name of a statement. -/
structure TagsConflict (capacity : Nat) (s : ByteStream) (left right : TypeSpecifier)
    (name : String) : Prop where
  tagged : ∃ kind tag other otherTag, left = .tagged kind tag ∧ right = .tagged other otherTag
  reads : ∃ front closing rest, ReadsStatement capacity s front name closing rest ∧
    List.Sublist [.type left, .type right] front

section Malformed

variable {capacity : Nat} {s : ByteStream} {sink : Sink} {e : SyntaxError}

/-- A text that is too long is about two tags, and has no character of more than one byte. -/
theorem CountsFit.exists_tagsConflict (h : CountsFit capacity s)
    (hresult : (readDeclaration capacity s sink).result = .error (.malformed e))
    (hlong : maxErrorTextLength < e.message.utf8ByteSize) :
    ∃ left right name, e = .conflictingTypes left right name ∧
      TagsConflict capacity s left right name ∧ Text.IsAscii e.message := by
  rcases incomplete_or_exists_readsStatement hresult with
    ⟨name, hname, rfl⟩ | ⟨front, name, closing, rest, hreads, hunwind⟩
  · have hfits := SyntaxError.incomplete_fits hname.1
    omega
  · have hname := hreads.isName
    have hreadable := hreads.isReadable
    have hfront : front.length < 2 ^ 64 := Nat.lt_of_le_of_lt hreads.room h.capacity_lt
    have hclosing := h.closing_lt front name closing rest hreads
    have habout := about_of_unwind hunwind
    cases habout.fitsUnlessConflicting hname hreadable hfront hclosing with
    | fits hfits => omega
    | @types left right htypes =>
      have hleft := hreadable (.type left) (htypes.mem (by simp))
      have hright := hreadable (.type right) (htypes.mem (by simp))
      have htagged := SyntaxError.exists_tagged_of_conflictingTypes hleft hright hname hlong
      exact ⟨left, right, name, rfl, ⟨htagged, front, closing, rest, hreads, htypes⟩,
        (habout.isPrintable_message hname hreadable).isAscii⟩

end Malformed

namespace Report

variable (r : Report) (result : Except DeclarationError Declaration)

theorem status_recordResult_eq_errorTextTooLong_iff :
    (r.recordResult result).status = .errorTextTooLong ↔
      ∃ e, result = .error (.malformed e) ∧ maxErrorTextLength < e.message.utf8ByteSize := by
  rcases result with (_ | cause | _ | _ | cause) | d
  case error.malformed =>
    rw [recordResult_ofSyntaxError, ofSyntaxError]
    split_ifs with hfits <;> simpa using hfits
  all_goals simp [recordResult, record]

theorem status_recordResult_eq_tokenError_iff :
    (r.recordResult result).status = .tokenError ↔ ∃ cause, result = .error (.token cause) := by
  rcases result with (_ | cause | _ | _ | cause) | d
  case error.malformed =>
    rw [recordResult_ofSyntaxError, ofSyntaxError]
    split_ifs <;> simp
  all_goals simp [recordResult, record]

end Report

/-- The status says that a text is too long exactly when it is about two types and has more than so
many bytes, for which both of them have to be tags, and the text is cut behind the last byte that
fits. Any other text about tokens that make no declaration is kept whole, and so is that about a
token that could not be read. -/
theorem describe_errorText {capacity : Nat} {s : ByteStream} (h : CountsFit capacity s)
    (sink : Sink) (report : Report) :
    let fails (e : SyntaxError) : Prop :=
      (readDeclaration capacity s sink).result = .error (.malformed e)
    let message (left right : TypeSpecifier) (name : String) : String :=
      (SyntaxError.conflictingTypes left right name).message
    let d := describe capacity s sink (some report)
    ∃ recorded : Report, d.report = some recorded ∧ d.status = recorded.status ∧
      (d.status = .errorTextTooLong ↔ ∃ left right name,
        fails (.conflictingTypes left right name) ∧ 255 < (message left right name).utf8ByteSize) ∧
      (∀ left right name, fails (.conflictingTypes left right name) →
        255 < (message left right name).utf8ByteSize →
        TagsConflict capacity s left right name ∧
          Text.utf8 recorded.text = (Text.utf8 (message left right name)).take 255) ∧
      (∀ e, fails e → d.status ≠ .errorTextTooLong →
        d.status = .malformed ∧ recorded.text = e.message) ∧
      (d.status = .tokenError → ∃ cause rest, ReadsUpTo s (some cause) rest ∧
        recorded.tokenStatus = cause.status ∧ recorded.tokenText = cause.text) := by
  intro fails message d
  have hcomes := comesTo_readDeclaration capacity s sink
  have hlong : d.status = .errorTextTooLong ↔ ∃ e, fails e ∧ 255 < e.message.utf8ByteSize :=
    Report.status_recordResult_eq_errorTextTooLong_iff _ _
  let recorded := report.recordResult (readDeclaration capacity s sink).result
  have hrecorded : ∀ {e}, fails e → recorded = .ofSyntaxError e := by
    intro e hfails
    rw [← report.recordResult_ofSyntaxError, ← hfails]
  refine ⟨recorded, rfl, rfl, ?_, fun left right name hfails hsize => ?_, fun e hfails hnot => ?_,
    fun htoken => ?_⟩
  · rw [hlong]
    constructor
    · intro hexists
      obtain ⟨e, hfails, hsize⟩ := hexists
      obtain ⟨left, right, name, rfl, -, -⟩ := h.exists_tagsConflict hfails hsize
      exact ⟨left, right, name, hfails, hsize⟩
    · intro hexists
      obtain ⟨left, right, name, hfails, hsize⟩ := hexists
      exact ⟨_, hfails, hsize⟩
  · obtain ⟨_, _, _, he, htags, hascii⟩ := h.exists_tagsConflict hfails hsize
    obtain ⟨rfl, rfl, rfl⟩ := SyntaxError.conflictingTypes.inj he
    have hcut : recorded = ⟨.ok, "", .errorTextTooLong,
        Text.capped maxErrorTextLength (message left right name)⟩ :=
      (hrecorded hfails).trans (if_neg (Nat.not_le_of_lt hsize))
    rw [hcut]
    exact ⟨htags, hascii.utf8_capped maxErrorTextLength⟩
  · have hfits : e.message.utf8ByteSize ≤ maxErrorTextLength :=
      Nat.le_of_not_lt fun hsize => hnot (hlong.mpr ⟨e, hfails, hsize⟩)
    have hwhole : recorded = ⟨.ok, "", .malformed, e.message⟩ :=
      (hrecorded hfails).trans (if_pos hfits)
    exact ⟨congrArg Report.status hwhole, congrArg Report.text hwhole⟩
  · obtain ⟨cause, hcause⟩ := (Report.status_recordResult_eq_tokenError_iff _ _).mp htoken
    have hsome : tokenErrorOf? (readDeclaration capacity s sink).result = some cause := by
      rw [hcause]
      rfl
    have hreads := hcomes.reads
    rw [hsome] at hreads
    have hwhole : recorded = .ofTokenError cause := by
      rw [← report.recordResult_ofTokenError (hreads.arises cause rfl).fits,
        ← hcomes.ofTokenError cause hsome]
    refine ⟨cause, _, hreads, ?_⟩
    rw [hwhole]
    cases cause <;> exact ⟨rfl, rfl⟩

/-- The three longest names there are make a text of 296 bytes. -/
theorem describe_errorText_longest :
    let longest (c : Char) : String := String.ofList (List.replicate maxTokenLength c)
    let left : TypeSpecifier := .tagged .struct (longest 'a')
    let right : TypeSpecifier := .tagged .struct (longest 'b')
    let s := .ofBytes (Text.utf8 (left.spelling ++ " " ++ right.spelling ++ " " ++ longest 'x' ++ ";"))
    let message := (SyntaxError.conflictingTypes left right (longest 'x')).message
    let d := describe 20 s .unbounded (some .clear)
    CountsFit 20 s ∧ message.utf8ByteSize = 296 ∧ d.status = .errorTextTooLong ∧
      TagsConflict 20 s left right (longest 'x') ∧
      ∃ recorded : Report, d.report = some recorded ∧
        Text.utf8 recorded.text = (Text.utf8 message).take 255 := by
  intro longest left right s message d
  have hcounts : CountsFit 20 s := countsFit_of_size_lt (by decide) (by decide +kernel)
  have hfails : (readDeclaration 20 s .unbounded).result =
      .error (.malformed (.conflictingTypes left right (longest 'x'))) := by decide +kernel
  have hsize : message.utf8ByteSize = 296 := by decide +kernel
  have hlong : 255 < message.utf8ByteSize := by omega
  obtain ⟨recorded, hrecorded, -, hstatus, hcut, -⟩ :=
    describe_errorText hcounts .unbounded .clear
  obtain ⟨htags, htext⟩ := hcut _ _ _ hfails hlong
  exact ⟨hcounts, hsize, hstatus.mpr ⟨_, _, _, hfails, hlong⟩, htags, recorded, hrecorded, htext⟩

end CDeclarations
