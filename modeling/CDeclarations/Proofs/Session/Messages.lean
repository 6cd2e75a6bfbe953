import CDeclarations.Proofs.Diagnostic.Rows
import CDeclarations.Proofs.Session.Details
import CDeclarations.Proofs.Session.FirstFailure
import CDeclarations.Proofs.Session.Limit

namespace CDeclarations

/-- The status with which the description of a line is reported. A listing has none. -/
def lineStatus? (settings : Settings) (line : String) : Option DeclarationStatus :=
  if settings.listTokens then none
  else some (describe settings.capacity (lineStream line) .unbounded (some .clear)).status

section Lines

theorem mem_of_mem_endedLine {read : List Char} {c : Char} (h : c ∈ Text.endedLine read) :
    c ∈ read := by
  obtain ⟨cut, hread, -⟩ := Text.exists_eq_endedLine_append read.reverse
  rw [List.reverse_reverse] at hread
  have hmem : c ∈ read.reverse := by
    rw [hread]
    exact List.mem_append_left cut h
  exact List.mem_reverse.mp hmem

/-- What has been read of a line holds no newline, since a newline begins another line. -/
theorem newline_notMem_linesFrom {read cs : List Char} (h : '\n' ∉ read) :
    ∀ line ∈ Text.linesFrom read cs, '\n' ∉ line := by
  fun_induction Text.linesFrom read cs with
  | case1 => simp
  | case2 c read =>
    intro line hline
    obtain rfl := List.mem_singleton.mp hline
    rwa [List.mem_reverse]
  | case3 read cs ih =>
    refine List.forall_mem_cons.mpr ⟨fun hmem => h (mem_of_mem_endedLine hmem), ?_⟩
    exact ih List.not_mem_nil
  | case4 read c cs hc ih =>
    refine ih fun hmem => ?_
    rcases List.mem_cons.mp hmem with hfirst | hread
    · exact hc hfirst.symm
    · exact h hread

theorem newline_notMem_of_mem_lines {source line : String} (h : line ∈ Text.lines source) :
    '\n' ∉ line.toList := by
  obtain ⟨cs, hcs, rfl⟩ := List.mem_map.mp h
  rw [String.toList_ofList]
  exact newline_notMem_linesFrom List.not_mem_nil cs hcs

end Lines

section Findings

variable {settings : Settings} {source : String} {sink : Sink} {f : Finding}

/-- Whatever becomes of the output, nothing is found that is not there. -/
theorem findings_deliver_isPrefix (entries : List Entry) (sink : Sink) :
    (deliver entries sink).findings <+: entries.flatMap (·.finding?.toList) := by
  induction entries generalizing sink with
  | nil => exact List.nil_prefix
  | cons e entries ih =>
    cases hwritten : (sink.write e.text).complete with
    | false =>
      rw [deliver_of_not_complete hwritten]
      exact List.nil_prefix
    | true =>
      rw [deliver_of_complete hwritten, List.flatMap_cons]
      exact (List.prefix_append_right_inj _).mpr (ih _)

theorem exists_failure_of_mem_findings (h : f ∈ (runSession settings source sink).findings) :
    (f.line, f.number) ∈ (Text.lines source).zipIdx 1 ∧
      ∃ failure, failure? settings f.line = some failure ∧
        f.headline = failure.headline ∧ f.note = failure.note := by
  have hreached : reached settings (entries settings source) <+: entries settings source := by
    unfold reached
    split
    · exact List.prefix_rfl
    · exact throughFailure_isPrefix _
  have hfound := (findings_deliver_isPrefix _ sink).mem h
  obtain ⟨e, he, hf⟩ := List.mem_flatMap.mp hfound
  have hall : f ∈ (entries settings source).flatMap (·.finding?.toList) :=
    List.mem_flatMap.mpr ⟨e, hreached.mem he, hf⟩
  rw [entries, findings_entriesFrom, List.mem_filterMap] at hall
  obtain ⟨⟨line, number⟩, hline, hfinding⟩ := hall
  obtain ⟨failure, hfailure, rfl⟩ := Option.map_eq_some_iff.mp hfinding
  exact ⟨hline, failure, hfailure, rfl, rfl⟩

/-- What is told of a line that fails can be shown, and there is something to tell unless the
description ended with the input or for want of room. -/
theorem details_of_failure? {line : String} {failure : Failure}
    (h : failure? settings line = some failure) :
    let status := lineStatus? settings line
    Text.IsPrintable failure.details ∧
      (failure.details = "" ↔ status = some .endOfInput ∨ status = some .tooManyTokens) := by
  unfold failure? at h
  split at h
  · cases h
  · obtain ⟨listTokens, keepGoing, capacity⟩ := settings
    cases listTokens with
    | true =>
      obtain ⟨hprintable, hne⟩ := details_of_listLine (f := failure) h
      exact ⟨hprintable, iff_of_false hne (by simp [lineStatus?])⟩
    | false =>
      obtain ⟨hprintable, hempty⟩ := details_of_describeLine (f := failure) h
      refine ⟨hprintable, ?_⟩
      simpa [lineStatus?] using hempty

end Findings

section Rows

variable {settings : Settings} {source : String} {sink : Sink} {f : Finding}

theorem isPrintable_of_mem_findings (h : f ∈ (runSession settings source sink).findings) :
    Text.IsPrintable f.headline ∧ ∀ note, f.note = some note → Text.IsPrintable note := by
  obtain ⟨-, failure, hfailure, hheadline, hnote⟩ := exists_failure_of_mem_findings h
  obtain ⟨hdetails, -⟩ := details_of_failure? hfailure
  refine ⟨hheadline ▸ failure.isPrintable_headline, fun note hsome => ?_⟩
  rw [hnote, Failure.note] at hsome
  split at hsome
  · cases hsome
  · obtain rfl := Option.some.inj hsome
    exact hdetails

theorem fitsRows_of_mem_findings (h : f ∈ (runSession settings source sink).findings) :
    f.FitsRows := by
  obtain ⟨hline, -⟩ := exists_failure_of_mem_findings h
  obtain ⟨hheadline, hnote⟩ := isPrintable_of_mem_findings h
  obtain ⟨-, hget⟩ := List.mem_zipIdx_iff_le_and_getElem?_sub.mp hline
  have hmem : f.line ∈ Text.lines source := List.mem_of_getElem? hget
  exact ⟨hheadline.newline_notMem, newline_notMem_of_mem_lines hmem,
    fun note hsome => (hnote note hsome).newline_notMem⟩

end Rows

/-- Whatever is in a source, the message about a line that fails is three rows where the description
of the line ended with the input or for want of room, and else there is a fourth row with a note that
says something. But for the line itself, what a message tells of it can be shown, and the messages
stand one after another. -/
theorem runSession_messages (settings : Settings) (source : String) (sink : Sink)
    {file : Option String} (hfile : ∀ name, file = some name → '\n' ∉ name.toList) :
    let findings := (runSession settings source sink).findings
    let rows (f : Finding) := Text.rows (((Diagnostic.ofFile file).about f).render false)
    let first (f : Finding) :=
      ["error: " ++ f.headline, " --> " ++ file.getD "<stdin>" ++ ":" ++ toString f.number,
        gutter f.number ++ f.line]
    let printable (text : String) := ∀ b ∈ Text.utf8 text, 0x20 ≤ b.toNat ∧ b.toNat ≤ 0x7e
    (∀ f ∈ findings,
      let status := lineStatus? settings f.line
      (f.line, f.number) ∈ (Text.lines source).zipIdx 1 ∧ printable f.headline ∧
      ((status = some .endOfInput ∨ status = some .tooManyTokens) → rows f = first f) ∧
      (¬ (status = some .endOfInput ∨ status = some .tooManyTokens) →
        ∃ note, note ≠ "" ∧ printable note ∧
          rows f = first f ++ [blanks (gutter f.number).length ++ "= " ++ note])) ∧
    Text.rows (renderFindings false (.ofFile file) findings) = findings.flatMap rows ++ [""] := by
  intro findings rows first printable
  have hplace : '\n' ∉ (file.getD "<stdin>").toList := by
    cases file with
    | none => decide
    | some name => exact hfile name rfl
  have hrows : ∀ f ∈ findings, rows f = f.rows (file.getD "<stdin>") := fun f hf =>
    (fitsRows_of_mem_findings hf).rows_render hplace
  refine ⟨fun f hf => ?_, ?_⟩
  · obtain ⟨hline, failure, hfailure, -, hnote⟩ := exists_failure_of_mem_findings hf
    obtain ⟨hheadline, hnotes⟩ := isPrintable_of_mem_findings hf
    obtain ⟨-, hempty⟩ := details_of_failure? hfailure
    refine ⟨hline, hheadline.utf8, fun hends => ?_, fun hmore => ?_⟩
    · have hnone : f.note = none := hnote.trans (if_pos (hempty.mpr hends))
      rw [hrows f hf, Finding.rows, hnone]
      rfl
    · have hsome : f.note = some failure.details :=
        hnote.trans (if_neg fun hnothing => hmore (hempty.mp hnothing))
      refine ⟨failure.details, fun hnothing => hmore (hempty.mp hnothing),
        (hnotes _ hsome).utf8, ?_⟩
      rw [hrows f hf, Finding.rows, hsome]
      rfl
  · rw [rows_renderFindings hplace fun f hf => fitsRows_of_mem_findings hf]
    exact congrArg (· ++ [""]) (List.flatMap_congr fun f hf => (hrows f hf).symm)

/-- A line that is at its end, one with a control character, one with a letter that is no byte of
ASCII, and one with too many tokens. -/
theorem runSession_messages_controls :
    let file := some "d:1\t|-->.h"
    let source := "int b\n\x07;\nint é; \x0b\n((((x;\n"
    let findings := (runSession ⟨false, true, 3⟩ source .unbounded).findings
    let rows (f : Finding) := Text.rows (((Diagnostic.ofFile file).about f).render false)
    let ends : Finding :=
      ⟨"parser read end of input before finishing declaration", 1, "int b", none⟩
    let bell : Finding :=
      ⟨"invalid token", 2, "\x07;", some "unknown character token '\\u\x7b7\x7d'"⟩
    let accent : Finding :=
      ⟨"invalid token", 3, "int é; \x0b", some "unknown character token '\\u\x7bc3\x7d'"⟩
    let full : Finding := ⟨"too many tokens to fit on token stack", 4, "((((x;", none⟩
    (∀ name, file = some name → '\n' ∉ name.toList) ∧
      findings = [ends, bell, accent, full] ∧
      rows ends = ["error: parser read end of input before finishing declaration",
        " --> d:1\t|-->.h:1", "     1 | int b"] ∧
      (∃ note, note ≠ "" ∧ rows accent = ["error: invalid token", " --> d:1\t|-->.h:3",
        "     3 | int é; \x0b", "         = " ++ note]) ∧
      Text.rows (renderFindings false (.ofFile file) findings) = findings.flatMap rows ++ [""] := by
  intro file source findings rows ends bell accent full
  have hfile : ∀ name, file = some name → '\n' ∉ name.toList := by
    intro name hname
    obtain rfl := Option.some.inj hname
    decide
  have hfindings : findings = [ends, bell, accent, full] := by decide +kernel
  have hends : ends ∈ findings := by simp [hfindings]
  have haccent : accent ∈ findings := by simp [hfindings]
  have hearly : lineStatus? ⟨false, true, 3⟩ ends.line = some .endOfInput := by decide +kernel
  have hother : ¬ (lineStatus? ⟨false, true, 3⟩ accent.line = some .endOfInput ∨
      lineStatus? ⟨false, true, 3⟩ accent.line = some .tooManyTokens) := by decide +kernel
  have hmessages := runSession_messages ⟨false, true, 3⟩ source .unbounded hfile
  obtain ⟨-, -, hthree, -⟩ := hmessages.1 ends hends
  obtain ⟨-, -, -, hfour⟩ := hmessages.1 accent haccent
  obtain ⟨note, hne, -, hrows⟩ := hfour hother
  have hfirst : ["error: " ++ accent.headline,
      " --> " ++ file.getD "<stdin>" ++ ":" ++ toString accent.number,
      gutter accent.number ++ accent.line] =
      ["error: invalid token", " --> d:1\t|-->.h:3", "     3 | int é; \x0b"] := by decide +kernel
  have hindent : blanks (gutter accent.number).length ++ "= " = "         = " := by decide +kernel
  have hnoted : rows accent = ["error: invalid token", " --> d:1\t|-->.h:3",
      "     3 | int é; \x0b", "         = " ++ note] := by
    rw [← hindent]
    exact hrows.trans (congrArg (· ++ _) hfirst)
  exact ⟨hfile, hfindings, (hthree (.inl hearly)).trans (by decide +kernel), ⟨note, hne, hnoted⟩,
    hmessages.2⟩

end CDeclarations
