import CDeclarations.Proofs.Declaration.Consecutive
import CDeclarations.Proofs.Declaration.Outcome
import CDeclarations.Proofs.Session.Append
import CDeclarations.Proofs.Session.Source

namespace CDeclarations

section SameToken

variable {s t : ByteStream}

/-- The gap in front has no part in a reading. -/
theorem nextToken_of_dropGap {a b : List UInt8} (hs : s.events = a.map .byte)
    (ht : t.events = b.map .byte) (h : dropGap a = dropGap b) : nextToken s = nextToken t := by
  rw [nextToken, nextToken, skipGap_eq_read hs, skipGap_eq_read ht, h]

theorem readToName_congr (h : nextToken s = nextToken t) (stack : TokenStack) :
    readToName stack s = readToName stack t := by
  cases hs : nextToken s with
  | mk outcome rest =>
    have ht : nextToken t = (outcome, rest) := h.symm.trans hs
    cases outcome with
    | error e => rw [readToName_of_error hs, readToName_of_error ht]
    | ok token =>
      by_cases hname : ∃ name, token = .identifier name
      · obtain ⟨name, rfl⟩ := hname
        rw [readToName_of_identifier hs, readToName_of_identifier ht]
      · have hother : ∀ name, token ≠ .identifier name := fun name heq => hname ⟨name, heq⟩
        cases hpush : stack.push? token with
        | none => rw [readToName_of_full hs hother hpush, readToName_of_full ht hother hpush]
        | some pushed => rw [readToName_of_push hs hother hpush, readToName_of_push ht hother hpush]

theorem describe_congr (h : nextToken s = nextToken t) (capacity : Nat) (sink : Sink)
    (report : Option Report) :
    describe capacity s sink report = describe capacity t sink report := by
  have hname := readToName_congr h (.withCapacity capacity)
  unfold describe readDeclaration
  rw [hname]

theorem describeTimes_congr (h : nextToken s = nextToken t) (capacity n : Nat) (sink : Sink)
    (report : Option Report) :
    describeTimes capacity n s sink report = describeTimes capacity n t sink report := by
  cases n with
  | zero => rfl
  | succ n => rw [describeTimes, describe_congr h, describeTimes]

end SameToken

/-- A line is a declaration that is accepted, with nothing behind it but a gap. -/
def DeclaresOnly (capacity : Nat) (line : String) : Prop :=
  (describe capacity (lineStream line) .unbounded none).status = .ok ∧
    ∃ left, (describe capacity (lineStream line) .unbounded none).rest.events = left.map .byte ∧
      IsGap left

/-- The readings of one stream up to the first that finds no declaration, which is because it
finds the end of the input. -/
structure ReadsThrough (capacity : Nat) (bytes : List UInt8) (report : Option Report)
    (accepted : List Description) (last : Description) : Prop where
  readings : describeTimes capacity (accepted.length + 1) (.ofBytes bytes) .unbounded report =
    accepted ++ [last]
  accepted_ok : ∀ d ∈ accepted, d.status = .ok
  ended : last.status = .endOfInput
  silent : last.said = []

namespace ReadsThrough

variable {capacity : Nat} {report : Option Report} {accepted : List Description}
  {last : Description}

theorem nothing (capacity : Nat) (report : Option Report) :
    ReadsThrough capacity [] report [] (describe capacity (.ofBytes []) .unbounded report) := by
  have hend : answer (.ofBytes []) 0 = .error .endOfInput := rfl
  have hlast : describe capacity (.ofBytes []) .unbounded report = _ :=
    describe_of_answer_error (fun i hi => absurd hi (Nat.not_lt_zero i)) (Nat.zero_le _) hend
  refine ⟨rfl, by simp, ?_, ?_⟩
  · rw [hlast]
    rfl
  · rw [hlast]
    rfl

theorem of_dropGap {a b : List UInt8} (h : ReadsThrough capacity a report accepted last)
    (hgap : dropGap b = dropGap a) : ReadsThrough capacity b report accepted last := by
  have hsame : nextToken (.ofBytes b) = nextToken (.ofBytes a) :=
    nextToken_of_dropGap (ByteStream.events_ofBytes b) (ByteStream.events_ofBytes a) hgap
  refine ⟨?_, h.accepted_ok, h.ended, h.silent⟩
  rw [describeTimes_congr hsame]
  exact h.readings

theorem cons {bytes more : List UInt8} {first : Description}
    (hfirst : describe capacity (.ofBytes bytes) .unbounded report = first)
    (hok : first.status = .ok) (hrest : first.rest.events = more.map .byte)
    (h : ReadsThrough capacity more first.report accepted last) :
    ReadsThrough capacity bytes report (first :: accepted) last := by
  have hsame : nextToken first.rest = nextToken (.ofBytes more) :=
    nextToken_of_dropGap hrest (ByteStream.events_ofBytes more) rfl
  have hsink : first.sink = .unbounded := by
    rw [← hfirst]
    exact describe_sink_unbounded capacity (.ofBytes bytes) report
  refine ⟨?_, ?_, h.ended, h.silent⟩
  · rw [List.length_cons, describeTimes, hfirst, hsink, describeTimes_congr hsame, h.readings,
      List.cons_append]
  · intro d hd
    rcases List.mem_cons.mp hd with rfl | hlater
    · exact hok
    · exact h.accepted_ok d hlater

end ReadsThrough

section Line

variable {capacity : Nat} {line : String} {d : Derivation} {left : List UInt8}

theorem DeclaresOnly.exists_declares (h : DeclaresOnly capacity line) :
    ∃ d left, Declares capacity line d left ∧ IsGap left := by
  obtain ⟨hok, left, hleft, hgap⟩ := h
  rw [describe, Report.status_recordResult_eq_ok_iff] at hok
  obtain ⟨declaration, hresult⟩ := hok
  obtain ⟨d, hread, hroom, -, -⟩ := exists_derivation hresult
  exact ⟨d, left, ⟨hroom, _, hread, hleft⟩, hgap⟩

theorem Declares.isStatement (h : Declares capacity line d left) :
    IsStatement capacity d.tokens :=
  ⟨d.front, d.declarator.word, d.declarator.depth, d.identifier_notMem_front, h.1, d.tokens_eq⟩

theorem Declares.not_isBlank (h : Declares capacity line d left) : ¬ isBlank line := by
  obtain ⟨-, rest, hread, -⟩ := h
  obtain ⟨token, tokens, htokens⟩ : ∃ token tokens, d.tokens = token :: tokens :=
    List.exists_cons_of_ne_nil (by simp [Derivation.tokens])
  rw [htokens] at hread
  obtain ⟨next, hnext, -⟩ := readsOff_cons.mp hread
  simp [isBlank, hnext]

/-- In front of the rest of a source a declaration is read as it is on its line. -/
theorem Declares.describe_append (h : Declares capacity line d left) (more : List UInt8)
    (report : Option Report) :
    ∃ first, describe capacity (.ofBytes (Text.utf8 line ++ more)) .unbounded report = first ∧
      first.status = .ok ∧ first.said = Text.utf8 d.declaration.sentence ∧
      first.rest.events = (left ++ more).map .byte := by
  obtain ⟨rest, hleft, hreading⟩ := readDeclaration_of_declares h
  obtain ⟨-, rest', hread, -⟩ := id h
  have halone : describe capacity (lineStream line) .unbounded report =
      ⟨.ok, report.map fun _ => .clear, Text.utf8 d.declaration.sentence, rest, .unbounded⟩ := by
    unfold describe
    rw [hreading]
    rfl
  have hlonger :=
    CDeclarations.describe_append h.isStatement hread (more.map .byte) .unbounded report
  rw [halone] at hlonger
  refine ⟨_, rfl, ?_, ?_, ?_⟩
  all_goals rw [ByteStream.ofBytes_append, ← lineStream, hlonger]
  rw [ByteStream.events_append, hleft, List.map_append]

end Line

section Entries

variable {capacity : Nat} {line : String} (number : Nat) (lines : List String)

theorem entriesFrom_of_isGap (settings : Settings) (h : IsGap (Text.utf8 line)) :
    entriesFrom settings number (line :: lines) = entriesFrom settings (number + 1) lines := by
  rw [entriesFrom, if_pos (isBlank_iff.mpr (.inl h))]

theorem entriesFrom_of_declares (keepGoing : Bool) {d : Derivation} {left : List UInt8}
    (h : Declares capacity line d left) (hgap : IsGap left) :
    entriesFrom ⟨false, keepGoing, capacity⟩ number (line :: lines) =
      ⟨number, line, Text.utf8 d.declaration.sentence, none⟩ ::
        entriesFrom ⟨false, keepGoing, capacity⟩ (number + 1) lines := by
  have hline := describeLine_of_end h (.inl hgap)
  rw [entriesFrom, if_neg h.not_isBlank, Entry.ofLine]
  simp only [Bool.false_eq_true, if_false, hline]

end Entries

/-- The readings of a source are those of its lines, one by one. -/
theorem exists_readsThrough (keepGoing : Bool) {capacity : Nat} {bytes : List UInt8}
    {lines : List String} (hsplits : SplitsInto bytes lines)
    (h : ∀ line ∈ lines, IsGap (Text.utf8 line) ∨ DeclaresOnly capacity line) (number : Nat)
    (report : Option Report) :
    ∃ accepted last, ReadsThrough capacity bytes report accepted last ∧
      (entriesFrom ⟨false, keepGoing, capacity⟩ number lines).flatMap (·.text) =
        accepted.flatMap (·.said) ∧
      ∀ e ∈ entriesFrom ⟨false, keepGoing, capacity⟩ number lines, e.failure = none := by
  induction hsplits generalizing number report with
  | nothing =>
    have hnone : ∀ e ∈ entriesFrom ⟨false, keepGoing, capacity⟩ number [], e.failure = none := by
      intro e he
      cases he
    exact ⟨[], _, .nothing capacity report, rfl, hnone⟩
  | @line ending rest lines line hending later ih =>
    have hlater : ∀ line ∈ lines, IsGap (Text.utf8 line) ∨ DeclaresOnly capacity line :=
      fun line hmem => h line (List.mem_cons_of_mem _ hmem)
    rcases h line List.mem_cons_self with hgap | honly
    · obtain ⟨accepted, last, hreads, htext, hnone⟩ := ih hlater (number + 1) report
      rw [entriesFrom_of_isGap number lines _ hgap]
      exact ⟨accepted, last, hreads.of_dropGap (dropGap_line hgap hending), htext, hnone⟩
    · obtain ⟨d, left, hdeclares, hgap⟩ := honly.exists_declares
      obtain ⟨first, hfirst, hok, hsaid, hrest⟩ :=
        hdeclares.describe_append (ending ++ rest) report
      obtain ⟨accepted, last, hreads, htext, hnone⟩ := ih hlater (number + 1) first.report
      rw [← List.append_assoc] at hfirst hrest
      -- What the line leaves behind its semicolon is a part of the gap in front of the next token.
      have hbehind : ReadsThrough capacity (left ++ ending ++ rest) first.report accepted last :=
        hreads.of_dropGap (dropGap_line hgap hending)
      rw [entriesFrom_of_declares number lines keepGoing hdeclares hgap]
      refine ⟨first :: accepted, last, hbehind.cons hfirst hok hrest, ?_, ?_⟩
      · rw [List.flatMap_cons, List.flatMap_cons, htext, hsaid]
      · intro e he
        rcases List.mem_cons.mp he with rfl | hmem
        · rfl
        · exact hnone e hmem

/-- A source of which each line is a gap or one declaration is described in full. What is said
line by line is what repeated readings of the whole source as one stream say, up to the first that
finds no declaration, and that one finds the end of the input. -/
theorem runSession_eq_singleStream {capacity : Nat} {source : String}
    (h : ∀ line ∈ Text.lines source, IsGap (Text.utf8 line) ∨ DeclaresOnly capacity line)
    (keepGoing : Bool) (report : Option Report) :
    ∃ accepted last, ReadsThrough capacity (Text.utf8 source) report accepted last ∧
      runSession ⟨false, keepGoing, capacity⟩ source .unbounded =
        ⟨accepted.flatMap (·.said), [], .ok true⟩ := by
  obtain ⟨accepted, last, hreads, htext, hnone⟩ :=
    exists_readsThrough keepGoing (splitsInto_lines source) h 1 report
  refine ⟨accepted, last, hreads, ?_⟩
  rw [← entries] at htext hnone
  have hfindings : (entries ⟨false, keepGoing, capacity⟩ source).flatMap (·.finding?.toList) =
      [] := by
    rw [List.flatMap_eq_nil_iff]
    intro e he
    simp [Entry.finding?, hnone e he]
  unfold runSession
  dsimp only
  rw [throughFailure_eq_self hnone, ite_self, deliver_unbounded, hfindings, htext]
  rfl

/-- Two declarations, with a comment behind one of them and another on the line between. -/
theorem runSession_eq_singleStream_three :
    let source := "int a; // one\r\n/* two */\nchar *b;"
    (∀ line ∈ Text.lines source, IsGap (Text.utf8 line) ∨ DeclaresOnly 20 line) ∧
      ∃ accepted last, ReadsThrough 20 (Text.utf8 source) none accepted last ∧
        runSession ⟨false, false, 20⟩ source .unbounded =
          ⟨accepted.flatMap (·.said), [], .ok true⟩ := by
  intro source
  have hlines : Text.lines source = ["int a; // one", "/* two */", "char *b;"] := by
    decide +kernel
  have hcomment : IsGap (Text.utf8 " // one") := .space (by decide) (.lastLine (by decide))
  have hbody : ¬ ['*'.toUInt8, '/'.toUInt8] <:+: Text.utf8 " two " := by decide
  have hbetween : IsGap (Text.utf8 "/* two */") := .block hbody (.nothing [])
  have hfirst : DeclaresOnly 20 "int a; // one" :=
    ⟨by decide +kernel, Text.utf8 " // one", by decide +kernel, hcomment⟩
  have hlast : DeclaresOnly 20 "char *b;" := ⟨by decide +kernel, [], by decide +kernel, .nothing []⟩
  have hall : ∀ line ∈ Text.lines source, IsGap (Text.utf8 line) ∨ DeclaresOnly 20 line := by
    rw [hlines]
    intro line hline
    simp only [List.mem_cons, List.not_mem_nil, or_false] at hline
    rcases hline with rfl | rfl | rfl
    · exact .inr hfirst
    · exact .inl hbetween
    · exact .inr hlast
  exact ⟨hall, runSession_eq_singleStream hall false none⟩

end CDeclarations
