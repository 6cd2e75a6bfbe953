import CDeclarations.Proofs.LongestMatch.Gap
import CDeclarations.Text.Bytes
import CDeclarations.Text.Lines

namespace CDeclarations

/-- What may stand between a line and the rest of a source. The last line need not be ended. -/
inductive IsEnding : List UInt8 → List UInt8 → Prop
  | newline (rest : List UInt8) : IsEnding ['\n'.toUInt8] rest
  | carriageReturn (rest : List UInt8) : IsEnding ['\r'.toUInt8, '\n'.toUInt8] rest
  | endOfInput : IsEnding [] []

/-- A source is these lines one after another, each with what ends it. -/
inductive SplitsInto : List UInt8 → List String → Prop
  | nothing : SplitsInto [] []
  | line {ending rest : List UInt8} {lines : List String} (text : String)
      (hending : IsEnding ending rest) (later : SplitsInto rest lines) :
      SplitsInto (Text.utf8 text ++ ending ++ rest) (text :: lines)

theorem splitsInto_ended {line : List Char} {rest : List UInt8} {lines : List String}
    (later : SplitsInto rest lines) :
    SplitsInto (Text.utf8 (.ofList (line ++ ['\n'])) ++ rest)
      (.ofList (Text.endedLine line.reverse) :: lines) := by
  obtain ⟨cut, hline, hcut⟩ := Text.exists_eq_endedLine_append line
  have hended : line ++ ['\n'] = Text.endedLine line.reverse ++ (cut ++ ['\n']) := by
    rw [← List.append_assoc, ← hline]
  rw [hended, String.ofList_append, Text.utf8_append]
  rcases hcut with rfl | rfl
  · exact .line _ (.newline rest) later
  · exact .line _ (.carriageReturn rest) later

/-- The recursion is on the length of what is left, since a line is taken off as a whole. -/
theorem splitsInto_linesFrom (cs : List Char) :
    SplitsInto (Text.utf8 (.ofList cs)) ((Text.linesFrom [] cs).map .ofList) := by
  by_cases hnewline : '\n' ∈ cs
  · obtain ⟨line, rest, hcs, hline⟩ := List.eq_append_cons_of_mem hnewline
    have hlength : rest.length < cs.length := by
      rw [hcs, List.length_append, List.length_cons]
      omega
    have hlater := splitsInto_linesFrom rest
    have hsplit : cs = (line ++ ['\n']) ++ rest := by simp [hcs]
    rw [hcs, Text.linesFrom_line hline, List.append_nil, ← hcs, hsplit, String.ofList_append,
      Text.utf8_append]
    exact splitsInto_ended hlater
  · cases cs with
    | nil => exact .nothing
    | cons c cs =>
      have hlast : Text.linesFrom [] (c :: cs) = [c :: cs] := by
        rw [Text.linesFrom_lastLine hnewline (by simp), List.append_nil, List.reverse_reverse]
      have hline : SplitsInto (Text.utf8 (.ofList (c :: cs)) ++ [] ++ []) [.ofList (c :: cs)] :=
        .line _ .endOfInput .nothing
      rw [hlast]
      simpa using hline
termination_by cs.length

theorem splitsInto_lines (source : String) : SplitsInto (Text.utf8 source) (Text.lines source) := by
  have hsplits := splitsInto_linesFrom source.toList
  rwa [String.ofList_toList] at hsplits

/-- A gap may be prolonged by white space. -/
theorem IsGap.append_space {gap : List UInt8} (h : IsGap gap) {b : UInt8}
    (hspace : Text.isSpace (Char.ofUInt8 b)) (hb : b ≠ '\n'.toUInt8) : IsGap (gap ++ [b]) := by
  unfold IsGap at h ⊢
  generalize hrest : ([] : List UInt8) = rest at h
  induction h with
  | nothing s =>
    subst hrest
    exact .space hspace (.nothing [])
  | space hfirst _ ih => exact .space hfirst (ih hrest)
  | line hbody _ ih =>
    have hline := GapThen.line hbody (ih hrest)
    simpa using hline
  | lastLine hbody =>
    refine GapThen.lastLine ?_
    simp [hbody, Ne.symm hb]
  | block hbody _ ih =>
    have hblock := GapThen.block hbody (ih hrest)
    simpa using hblock

/-- A newline ends a gap, and a line comment at its end with it. -/
theorem IsGap.append_newline {gap : List UInt8} (h : IsGap gap) (rest : List UInt8) :
    GapThen (gap ++ '\n'.toUInt8 :: rest) rest := by
  unfold IsGap at h
  generalize hnone : ([] : List UInt8) = none at h
  induction h with
  | nothing s =>
    subst hnone
    exact .space (by decide) (.nothing rest)
  | space hfirst _ ih => exact .space hfirst (ih hnone)
  | line hbody _ ih =>
    have hline := GapThen.line hbody (ih hnone)
    simpa using hline
  | lastLine hbody => exact .line hbody (.nothing rest)
  | block hbody _ ih =>
    have hblock := GapThen.block hbody (ih hnone)
    simpa using hblock

/-- With a gap at the end of a line nothing changes behind it. -/
theorem dropGap_line {gap ending rest : List UInt8} (h : IsGap gap)
    (hending : IsEnding ending rest) :
    dropGap (gap ++ ending ++ rest) = dropGap rest := by
  cases hending with
  | newline =>
    have hgap := dropGap_of_gapThen (h.append_newline rest)
    simpa using hgap
  | carriageReturn =>
    have hcarriage := h.append_space (b := '\r'.toUInt8) (by decide) (by decide)
    have hgap := dropGap_of_gapThen (hcarriage.append_newline rest)
    simpa using hgap
  | endOfInput =>
    have hgap := dropGap_of_gapThen h
    simpa using hgap

end CDeclarations
