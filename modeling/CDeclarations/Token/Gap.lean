import CDeclarations.Token.Reading

namespace CDeclarations

/-- Where a reader stands in the white space and the comments between two tokens. -/
inductive Gap
  | blank
  /-- Behind a slash that may open a comment. -/
  | slash
  | lineComment
  | blockComment (afterStar : Bool)
  deriving DecidableEq

namespace Gap

/-- The byte that ends the gap is the first of a token. A slash that opens no comment is such a
byte too, known only when the byte behind it has been read. -/
def step : Gap → UInt8 → Step Gap (Except TokenError (Option UInt8))
  | .blank, b =>
    if Text.isSpace (Char.ofUInt8 b) then .goOn .blank
    else if b = '/'.toUInt8 then .goOn .slash
    else .stop (.ok (some b))
  | .slash, b =>
    if b = '*'.toUInt8 then .goOn (.blockComment false)
    else if b = '/'.toUInt8 then .goOn .lineComment
    else .giveBack (.ok (some '/'.toUInt8))
  | .lineComment, b => .goOn (if b = '\n'.toUInt8 then .blank else .lineComment)
  | .blockComment afterStar, b =>
    if afterStar && b = '/'.toUInt8 then .goOn .blank
    else .goOn (.blockComment (b = '*'.toUInt8))

def finish : Gap → Except TokenError (Option UInt8)
  | .blank | .lineComment => .ok none
  | .slash => .ok (some '/'.toUInt8)
  | .blockComment _ => .error .unterminatedComment

/-- A line comment may end with the input as well as with its line, reading then goes on. -/
def resume : Gap → Option Gap
  | .lineComment => some .blank
  | _ => none

def scanner : Scanner Gap (Except TokenError (Option UInt8)) where
  step := step
  resume := resume
  finish := finish

/-- The bytes that are read but not yet known to be passed over. -/
def pending : Gap → Nat
  | .blank | .lineComment => 0
  | .slash | .blockComment _ => 1

theorem step_pending_le {g g' : Gap} {b : UInt8} (h : g.step b = .goOn g') :
    g'.pending ≤ g.pending + 1 := by
  cases g' <;> simp [pending]

/-- Only a slash turns out to be a token after another byte has been read. -/
theorem eq_slash_of_step_giveBack {g : Gap} {b : UInt8} {answer}
    (h : g.step b = .giveBack answer) : g = .slash := by
  cases g <;> grind [step]

/-- All but the end of the input comes at the cost of a byte or a fault. -/
theorem run_size_lt (g : Gap) (events : List ReadEvent)
    (h : (scanner.run g events).1 ≠ .ok (.ok none)) :
    (scanner.run g events).2.size < events.length + g.pending := by
  induction events generalizing g with
  | nil => cases g <;> simp_all [Scanner.run, scanner, finish, pending, ByteStream.size]
  | cons event events ih =>
    cases event with
    | byte b =>
      rw [Scanner.run] at h ⊢
      split <;> rename_i hstep <;> rw [hstep] at h
      · have hle := step_pending_le hstep
        have hlt := ih _ h
        simp only [List.length_cons]
        omega
      · simp [ByteStream.size]; omega
      · obtain rfl := eq_slash_of_step_giveBack hstep
        simp [ByteStream.size, pending]
    | fault cause =>
      rw [Scanner.run] at h ⊢
      split <;> rename_i hcause
      · rw [if_pos hcause] at h
        have hlt := ih _ h
        simp only [List.length_cons]
        omega
      · simp [ByteStream.size]; omega
    | ended =>
      rw [Scanner.run] at h ⊢
      split <;> rename_i hresume <;> rw [hresume] at h
      · rename_i g'
        have hg : g'.pending = 0 := by
          cases g <;> simp [scanner, resume] at hresume
          subst hresume
          rfl
        have hlt := ih _ h
        simp only [List.length_cons]
        omega
      · simp [ByteStream.size]; omega

end Gap

/-- Passes over white space and comments and takes the first byte of the next token, or none at
the end of the input. -/
def skipGap (s : ByteStream) : Reading (Option UInt8) := Gap.scanner.read .blank s

theorem skipGap_size_lt {s : ByteStream} (h : (skipGap s).1 ≠ .ok none) :
    (skipGap s).2.size < s.size := by
  have hlt := Gap.run_size_lt .blank s.events
  rw [skipGap, Scanner.read_rest]
  refine hlt fun hend => h ?_
  rw [skipGap, Scanner.read]
  generalize Gap.scanner.run .blank s.events = answer at hend
  obtain ⟨answer, rest⟩ := answer
  subst hend
  rfl

theorem skipGap_size_le (s : ByteStream) : (skipGap s).2.size ≤ s.size :=
  (Gap.scanner.read_events_suffix .blank s).length_le

/-- A byte that is neither white space nor a slash is a token's first byte. -/
theorem skipGap_held {b : UInt8} (hspace : Text.isSpace (Char.ofUInt8 b) = false)
    (hslash : b ≠ '/'.toUInt8) (unread : List ReadEvent) :
    skipGap ⟨some b, unread⟩ = (.ok (some b), ⟨none, unread⟩) := by
  simp [skipGap, Scanner.read, Scanner.run, Gap.scanner, Gap.step, hspace, hslash]

end CDeclarations
