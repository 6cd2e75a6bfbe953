import CDeclarations.Proofs.Session.Trace

namespace CDeclarations

/-- What is put behind such a source begins on a line of its own. -/
def EndsLine (source : String) : Prop := source = "" ∨ ∃ front, source = front ++ "\n"

/-- What is wrong with a line, if it is not blank and something is. -/
def failure? (settings : Settings) (line : String) : Option Failure :=
  if isBlank line then none else (Entry.ofLine settings 0 line).failure

/-- The finding about a line that fails. -/
def lineFinding? (settings : Settings) (numbered : String × Nat) : Option Finding :=
  (failure? settings numbered.1).map fun f => ⟨f.headline, numbered.2, numbered.1, f.note⟩

/-- The same finding about a line so much further down. -/
def Finding.down (n : Nat) (f : Finding) : Finding := { f with number := f.number + n }

/-- A session that goes on behind failures and loses no output. -/
def fullSession (listTokens : Bool) (capacity : Nat) (source : String) : Transcript :=
  runSession ⟨listTokens, true, capacity⟩ source .unbounded

section Lines

theorem linesFrom_append (line read rest : List Char) :
    Text.linesFrom read (line ++ '\n' :: rest) =
      Text.linesFrom read (line ++ ['\n']) ++ Text.linesFrom [] rest := by
  induction line generalizing read with
  | nil => cases read <;> rfl
  | cons c line ih =>
    by_cases hc : c = '\n'
    · subst hc
      have hfirst : ∀ cs, Text.linesFrom read ('\n' :: cs) =
          Text.endedLine read :: Text.linesFrom [] cs := by
        intro cs
        cases read <;> rfl
      rw [List.cons_append, List.cons_append, hfirst, hfirst, ih, List.cons_append]
    · have hnext : ∀ cs, Text.linesFrom read (c :: cs) = Text.linesFrom (c :: read) cs :=
        fun cs => Text.linesFrom.eq_4 _ _ _ (fun he => hc he)
      rw [List.cons_append, List.cons_append, hnext, hnext, ih]

theorem lines_append {a : String} (h : EndsLine a) (b : String) :
    Text.lines (a ++ b) = Text.lines a ++ Text.lines b := by
  rcases h with rfl | ⟨front, rfl⟩
  · rw [String.empty_append]
    rfl
  · have hnewline : "\n".toList = ['\n'] := rfl
    unfold Text.lines
    rw [String.toList_append, String.toList_append, hnewline, List.append_assoc,
      List.singleton_append, linesFrom_append, List.map_append]

end Lines

section Entries

variable (settings : Settings)

theorem entriesFrom_append (number : Nat) (a b : List String) :
    entriesFrom settings number (a ++ b) =
      entriesFrom settings number a ++ entriesFrom settings (number + a.length) b := by
  induction a generalizing number with
  | nil => rfl
  | cons line a ih =>
    have hlater : number + 1 + a.length = number + (a.length + 1) := by omega
    rw [List.cons_append, entriesFrom, entriesFrom, ih, List.length_cons, hlater]
    split
    · rfl
    · rw [List.cons_append]

theorem finding?_ofLine (number : Nat) (line : String) :
    (Entry.ofLine settings number line).finding? =
      (Entry.ofLine settings 0 line).failure.map fun f => ⟨f.headline, number, line, f.note⟩ := rfl

/-- The number of a line has no part in what is said of it. -/
theorem text_entriesFrom (number number' : Nat) (lines : List String) :
    (entriesFrom settings number lines).flatMap (·.text) =
      (entriesFrom settings number' lines).flatMap (·.text) := by
  induction lines generalizing number number' with
  | nil => rfl
  | cons line lines ih =>
    rw [entriesFrom, entriesFrom]
    split
    · exact ih _ _
    · rw [List.flatMap_cons, List.flatMap_cons, ih (number + 1) (number' + 1)]
      rfl

/-- There is one finding for each line that fails, in the order of the lines. -/
theorem findings_entriesFrom (number : Nat) (lines : List String) :
    (entriesFrom settings number lines).flatMap (·.finding?.toList) =
      (lines.zipIdx number).filterMap (lineFinding? settings) := by
  induction lines generalizing number with
  | nil => rfl
  | cons line lines ih =>
    rw [entriesFrom, List.zipIdx_cons]
    by_cases hblank : isBlank line
    · have hnone : lineFinding? settings (line, number) = none := by
        rw [lineFinding?, failure?, if_pos hblank]
        rfl
      rw [if_pos hblank, List.filterMap_cons_none hnone, ih]
    · have hsome : (Entry.ofLine settings number line).finding? =
          lineFinding? settings (line, number) := by
        rw [lineFinding?, failure?, if_neg hblank, finding?_ofLine]
      rw [if_neg hblank, List.flatMap_cons, ih, hsome]
      cases hfinding : lineFinding? settings (line, number) with
      | none => rw [List.filterMap_cons_none hfinding]; rfl
      | some f => rw [List.filterMap_cons_some hfinding]; rfl

theorem lineFinding?_down (n : Nat) (line : String) (number : Nat) :
    lineFinding? settings (line, number + n) =
      (lineFinding? settings (line, number)).map (Finding.down n) := by
  rw [lineFinding?, lineFinding?, Option.map_map]
  rfl

theorem findings_down (number n : Nat) (lines : List String) :
    (lines.zipIdx (number + n)).filterMap (lineFinding? settings) =
      ((lines.zipIdx number).filterMap (lineFinding? settings)).map (Finding.down n) := by
  induction lines generalizing number with
  | nil => rfl
  | cons line lines ih =>
    have hlater := ih (number + 1)
    rw [Nat.add_right_comm] at hlater
    have hdown := lineFinding?_down settings n line number
    rw [List.zipIdx_cons, List.zipIdx_cons]
    cases hfinding : lineFinding? settings (line, number) with
    | none =>
      rw [hfinding] at hdown
      rw [List.filterMap_cons_none hdown, List.filterMap_cons_none hfinding, hlater]
    | some f =>
      rw [hfinding] at hdown
      rw [List.filterMap_cons_some hdown, List.filterMap_cons_some hfinding, hlater, List.map_cons]

theorem throughFailure_eq_self {entries : List Entry} (h : ∀ e ∈ entries, e.failure = none) :
    throughFailure entries = entries := by
  induction entries with
  | nil => rfl
  | cons e entries ih =>
    have hfirst : e.failure = none := h e List.mem_cons_self
    have hlater : ∀ e ∈ entries, e.failure = none :=
      fun e hmem => h e (List.mem_cons_of_mem _ hmem)
    rw [throughFailure, hfirst, ih hlater]
    rfl

/-- Where a session stops at the first failure, only that is found. -/
theorem findings_throughFailure (entries : List Entry) :
    (throughFailure entries).flatMap (·.finding?.toList) =
      (entries.flatMap (·.finding?.toList)).take 1 := by
  induction entries with
  | nil => rfl
  | cons e entries ih =>
    rw [throughFailure, List.flatMap_cons, List.flatMap_cons, Entry.finding?]
    cases hfailure : e.failure with
    | none => exact ih
    | some f => rfl

end Entries

/-- If no output is lost, everything that there is to find is found, and all is well when that is
nothing. -/
theorem deliver_ok {entries : List Entry} {sink : Sink} {accepted : Bool}
    (h : (deliver entries sink).outcome = .ok accepted) :
    (deliver entries sink).findings = entries.flatMap (·.finding?.toList) ∧
      accepted = (deliver entries sink).findings.isEmpty := by
  induction entries generalizing sink accepted with
  | nil =>
    rw [deliver] at h ⊢
    refine ⟨rfl, ?_⟩
    cases hflush : sink.flush with
    | error fault =>
      rw [hflush] at h
      cases h
    | ok done =>
      rw [hflush] at h
      cases h
      rfl
  | cons e entries ih =>
    rw [deliver] at h ⊢
    dsimp only at h ⊢
    cases hwritten : (sink.write e.text).complete with
    | false =>
      rw [hwritten] at h
      cases h
    | true =>
      rw [hwritten] at h
      simp only [Bool.not_true, Bool.false_eq_true, if_false] at h ⊢
      cases hlater : (deliver entries (sink.write e.text).sink).outcome with
      | error fault =>
        rw [hlater] at h
        cases h
      | ok accepted' =>
        obtain ⟨hfindings, haccepted⟩ := ih hlater
        rw [hlater] at h
        obtain rfl : (e.failure.isNone && accepted') = accepted := Except.ok.inj h
        rw [List.flatMap_cons, hfindings]
        refine ⟨rfl, ?_⟩
        rw [haccepted, hfindings]
        cases hfailure : e.failure <;> simp [Entry.finding?, hfailure]

section FullSession

variable (listTokens : Bool) (capacity : Nat)

theorem text_fullSession (source : String) :
    (fullSession listTokens capacity source).said =
      (entriesFrom ⟨listTokens, true, capacity⟩ 1 (Text.lines source)).flatMap (·.text) := by
  unfold fullSession runSession
  dsimp only
  rw [if_pos rfl, deliver_unbounded, entries]

theorem findings_fullSession (source : String) :
    (fullSession listTokens capacity source).findings =
      ((Text.lines source).zipIdx 1).filterMap (lineFinding? ⟨listTokens, true, capacity⟩) := by
  unfold fullSession runSession
  dsimp only
  rw [if_pos rfl, deliver_unbounded, entries, findings_entriesFrom]

theorem outcome_fullSession (source : String) :
    (fullSession listTokens capacity source).outcome =
      .ok (fullSession listTokens capacity source).findings.isEmpty := by
  unfold fullSession runSession
  dsimp only
  rw [if_pos rfl, deliver_unbounded]

theorem text_fullSession_append {a : String} (h : EndsLine a) (b : String) :
    (fullSession listTokens capacity (a ++ b)).said =
      (fullSession listTokens capacity a).said ++ (fullSession listTokens capacity b).said := by
  rw [text_fullSession, text_fullSession, text_fullSession, lines_append h, entriesFrom_append,
    List.flatMap_append, text_entriesFrom _ (1 + (Text.lines a).length) 1]

theorem findings_fullSession_append {a : String} (h : EndsLine a) (b : String) :
    (fullSession listTokens capacity (a ++ b)).findings =
      (fullSession listTokens capacity a).findings ++
        (fullSession listTokens capacity b).findings.map (Finding.down (Text.lines a).length) := by
  rw [findings_fullSession, findings_fullSession, findings_fullSession, lines_append h,
    List.zipIdx_append, List.filterMap_append, findings_down]

end FullSession

theorem renderFindings_append (colors : Bool) (d : Diagnostic) (a b : List Finding) :
    renderFindings colors d (a ++ b) = renderFindings colors d a ++ renderFindings colors d b := by
  unfold renderFindings
  rw [List.map_append, String.join_append]

/-- A session that goes on behind failures treats one source behind another as it treats each of
them, but for the numbers of the lines. Whatever the session and the sink, where no output is lost
there is one finding for each line that fails, or for the first of them, and all is well when there
is none. -/
theorem runSession_append :
    (∀ listTokens capacity a b, EndsLine a →
      let first := fullSession listTokens capacity a
      let second := fullSession listTokens capacity b
      let later := second.findings.map (Finding.down (Text.lines a).length)
      (∃ acceptedFirst acceptedSecond,
        first.outcome = .ok acceptedFirst ∧ second.outcome = .ok acceptedSecond ∧
        fullSession listTokens capacity (a ++ b) =
          ⟨first.said ++ second.said, first.findings ++ later,
            .ok (acceptedFirst && acceptedSecond)⟩) ∧
      ∀ colors d, renderFindings colors d (fullSession listTokens capacity (a ++ b)).findings =
        renderFindings colors d first.findings ++ renderFindings colors d later) ∧
    ∀ settings source sink accepted, (runSession settings source sink).outcome = .ok accepted →
      let failing := ((Text.lines source).zipIdx 1).filterMap (lineFinding? settings)
      (accepted = true ↔ (runSession settings source sink).findings = []) ∧
      (runSession settings source sink).findings =
        if settings.keepGoing then failing else failing.take 1 := by
  refine ⟨fun listTokens capacity a b h => ?_, fun settings source sink accepted h => ?_⟩
  · have hfindings := findings_fullSession_append listTokens capacity h b
    refine ⟨⟨_, _, outcome_fullSession listTokens capacity a,
      outcome_fullSession listTokens capacity b, ?_⟩, fun colors d => ?_⟩
    · have hsaid := text_fullSession_append listTokens capacity h b
      have hboth : ∀ first later : List Finding,
          (first ++ later.map (Finding.down (Text.lines a).length)).isEmpty =
            (first.isEmpty && later.isEmpty) := by
        intro first later
        cases first <;> simp
      have houtcome := outcome_fullSession listTokens capacity (a ++ b)
      rw [hfindings, hboth] at houtcome
      rw [← hsaid, ← hfindings, ← houtcome]
    · rw [hfindings, renderFindings_append]
  · obtain ⟨hfindings, haccepted⟩ := deliver_ok h
    refine ⟨?_, ?_⟩
    · rw [haccepted, List.isEmpty_iff]
      rfl
    · rw [runSession, hfindings]
      cases settings.keepGoing with
      | true => exact findings_entriesFrom settings 1 _
      | false =>
        have hthrough := findings_throughFailure (entries settings source)
        rwa [entries, findings_entriesFrom] at hthrough

/-- A comment that one source leaves open does not reach into the other, whose lines are counted
from there on. With a sink that is just large enough the first failure ends a session. -/
theorem runSession_append_openComment :
    let first := fullSession false 20 "int a;\n/* open\n"
    let second := fullSession false 20 "\nint b; */\n"
    EndsLine "int a;\n/* open\n" ∧
      (∀ colors d, renderFindings colors d
          (fullSession false 20 ("int a;\n/* open\n" ++ "\nint b; */\n")).findings =
        renderFindings colors d first.findings ++
          renderFindings colors d (second.findings.map (Finding.down 2))) ∧
      (runSession ⟨false, false, 20⟩ "int a;\n1;\n2;\n" (.bounded 7)).outcome = .ok false ∧
      (runSession ⟨false, false, 20⟩ "int a;\n1;\n2;\n" (.bounded 7)).findings =
        (((Text.lines "int a;\n1;\n2;\n").zipIdx 1).filterMap
          (lineFinding? ⟨false, false, 20⟩)).take 1 := by
  intro first second
  have hline : EndsLine "int a;\n/* open\n" := .inr ⟨"int a;\n/* open", rfl⟩
  have hcount : (Text.lines "int a;\n/* open\n").length = 2 := by decide +kernel
  have houtcome : (runSession ⟨false, false, 20⟩ "int a;\n1;\n2;\n" (.bounded 7)).outcome =
      .ok false := by decide +kernel
  have happend := (runSession_append.1 false 20 _ "\nint b; */\n" hline).2
  rw [hcount] at happend
  exact ⟨hline, happend, houtcome, (runSession_append.2 _ _ _ _ houtcome).2⟩

end CDeclarations
