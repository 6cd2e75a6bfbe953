import CDeclarations.Proofs.LongestMatch.Gap
import CDeclarations.Token.Run

namespace CDeclarations

namespace Gap

theorem run_lineComment (s : List UInt8) :
    scanner.run .lineComment (s.map .byte) = scanner.run .blank ((behindLine s).map .byte) := by
  induction s with
  | nil => rfl
  | cons b s ih =>
    rw [behindLine, List.map_cons, Scanner.run]
    by_cases hb : b = '\n'.toUInt8
    · simp [scanner, step, hb]
    · rw [if_neg hb, ← ih]
      simp [scanner, step, hb]

theorem run_afterStar (b : UInt8) (s : List UInt8) :
    scanner.run (.blockComment true) ((b :: s).map .byte) =
      if b = '/'.toUInt8 then scanner.run .blank (s.map .byte)
      else scanner.run (.blockComment false) ((b :: s).map .byte) := by
  rw [List.map_cons, Scanner.run, Scanner.run]
  by_cases hb : b = '/'.toUInt8 <;> simp [scanner, step, hb]

theorem run_blockComment (s : List UInt8) :
    scanner.run (.blockComment false) (s.map .byte) =
      (behindBlock? s).elim (.ok (.error .unterminatedComment), ⟨none, []⟩)
        fun later => scanner.run .blank (later.map .byte) := by
  fun_induction behindBlock? s with
  | case1 b c s hclose =>
    obtain ⟨rfl, rfl⟩ := hclose
    rfl
  | case2 b c s hopen ih =>
    have hstep : scanner.run (.blockComment false) ((b :: c :: s).map .byte) =
        scanner.run (.blockComment (b = '*'.toUInt8)) ((c :: s).map .byte) := by
      rw [List.map_cons, Scanner.run]
      simp [scanner, step]
    rw [hstep, ← ih]
    by_cases hb : b = '*'.toUInt8
    · have hc : c ≠ '/'.toUInt8 := fun hc => hopen ⟨hb, hc⟩
      rw [decide_eq_true hb, run_afterStar, if_neg hc]
    · rw [decide_eq_false hb]
  | case3 s hshort =>
    rcases s with _ | ⟨b, _ | ⟨c, s⟩⟩
    · rfl
    · rw [List.map_cons, Scanner.run]
      simp [scanner, step, Scanner.run, finish]
    · exact absurd rfl (hshort b c s)

theorem run_comment {s later : List UInt8} (h : behindComment? s = some later) :
    scanner.run .blank (s.map .byte) = scanner.run .blank (later.map .byte) := by
  rcases behindComment?_eq_some_iff.mp h with ⟨body, hbody, rfl⟩ | ⟨body, rfl, rfl⟩
  · have hrun := run_blockComment (body ++ '*'.toUInt8 :: '/'.toUInt8 :: later)
    rw [behindBlock?_eq_some_iff.mpr ⟨body, hbody, rfl⟩] at hrun
    exact hrun
  · exact run_lineComment body

/-- The scanner goes over the longest gap and no further. -/
theorem run_dropGap (s : List UInt8) :
    scanner.run .blank (s.map .byte) = scanner.run .blank ((dropGap s).map .byte) := by
  fun_induction dropGap s with
  | case1 => rfl
  | case2 b s hspace ih =>
    rw [← ih, List.map_cons, Scanner.run]
    simp [scanner, step, hspace]
  | case3 b s hspace later h _ ih => rw [run_comment h, ih]
  | case4 => rfl

end Gap

section Memory

variable {s : ByteStream} {bytes rest : List UInt8}

theorem skipGap_eq_read (hs : s.events = bytes.map .byte) :
    skipGap s = Gap.scanner.read .blank (.ofBytes (dropGap bytes)) := by
  rw [skipGap, Scanner.read, Scanner.read, hs, Gap.run_dropGap, ByteStream.events_ofBytes]

theorem skipGap_of_gap (hs : s.events = bytes.map .byte) (h : dropGap bytes = []) :
    skipGap s = (.ok none, ⟨none, []⟩) := by
  rw [skipGap_eq_read hs, h]
  rfl

theorem skipGap_of_openComment (hs : s.events = bytes.map .byte)
    (h : dropGap bytes = '/'.toUInt8 :: '*'.toUInt8 :: rest) :
    skipGap s = (.error .unterminatedComment, ⟨none, []⟩) := by
  have hopen : behindBlock? rest = none := (of_dropGap_eq_cons h).2
  have hrun := Gap.run_blockComment rest
  rw [hopen] at hrun
  have hread : Gap.scanner.run .blank (('/'.toUInt8 :: '*'.toUInt8 :: rest).map .byte) =
      (.ok (.error .unterminatedComment), ⟨none, []⟩) := hrun
  rw [skipGap_eq_read hs, h, Scanner.read, ByteStream.events_ofBytes, hread]

/-- A slash that opens no comment is found out by the byte behind it, which is held. -/
theorem skipGap_of_slash (hs : s.events = bytes.map .byte)
    (h : dropGap bytes = '/'.toUInt8 :: rest) (hrest : rest.head? ≠ some '*'.toUInt8) :
    ∃ left, skipGap s = (.ok (some '/'.toUInt8), left) ∧ left.events = rest.map .byte := by
  rw [skipGap_eq_read hs, h]
  cases rest with
  | nil => exact ⟨⟨none, []⟩, rfl, rfl⟩
  | cons c rest =>
    have hstar : c ≠ '*'.toUInt8 := fun hc => hrest (congrArg some hc)
    have hslash : c ≠ '/'.toUInt8 := by
      intro h
      subst h
      have hline : behindComment? ('/'.toUInt8 :: '/'.toUInt8 :: rest) = none :=
        (of_dropGap_eq_cons h).2
      rw [behindComment?_eq_some_iff.mpr (.inr ⟨rest, rfl, rfl⟩)] at hline
      cases hline
    refine ⟨⟨some c, rest.map .byte⟩, ?_, rfl⟩
    have hstep : Gap.step .slash c = .giveBack (.ok (some '/'.toUInt8)) := by
      simp [Gap.step, hstar, hslash]
    have hrun : Gap.scanner.run .slash ((c :: rest).map .byte) =
        (.ok (.ok (some '/'.toUInt8)), ⟨some c, rest.map .byte⟩) := by
      rw [List.map_cons, Scanner.run]
      simp [Gap.scanner, hstep]
    have hread : Gap.scanner.run .blank (('/'.toUInt8 :: c :: rest).map .byte) =
        (.ok (.ok (some '/'.toUInt8)), ⟨some c, rest.map .byte⟩) := hrun
    rw [Scanner.read, ByteStream.events_ofBytes, hread]

theorem skipGap_of_other {b : UInt8} (hs : s.events = bytes.map .byte)
    (h : dropGap bytes = b :: rest) (hb : b ≠ '/'.toUInt8) :
    skipGap s = (.ok (some b), ⟨none, rest.map .byte⟩) := by
  have hspace := (of_dropGap_eq_cons h).1
  rw [skipGap_eq_read hs, h, Scanner.read, ByteStream.events_ofBytes, List.map_cons, Scanner.run]
  simp [Gap.scanner, Gap.step, hspace, hb]

end Memory

end CDeclarations
