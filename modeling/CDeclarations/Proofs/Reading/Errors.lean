import CDeclarations.Proofs.Reading.Found

namespace CDeclarations

/-- The errors that a reading can come to. A byte is put back only where there is room for it, and
a number is looked for only where a digit has been found. -/
inductive TokenError.Arises : TokenError → Prop
  | endOfInput : Arises .endOfInput
  | notIdentifier : Arises .notIdentifier
  | tooLong : Arises .tooLong
  | unterminatedComment : Arises .unterminatedComment
  | unknownCharacter (b : UInt8) : Arises (.unknownCharacter (Char.ofUInt8 b))
  | readFailed (cause : ReadFault) : Arises (.readFailed cause)

/-- A bad token comes with a text that says why. -/
theorem TokenError.Arises.text_ne_empty {e : TokenError} (h : e.Arises)
    (hstatus : e.status = .badToken) : e.text ≠ "" := by
  cases h with
  | tooLong => decide
  | unterminatedComment => decide
  | unknownCharacter b =>
    have htext : (TokenError.unknownCharacter (Char.ofUInt8 b)).text =
        "unknown character token '" ++ Text.escaped (Char.ofUInt8 b) ++ "'" := rfl
    rw [htext]
    simp
  | _ => cases hstatus

theorem TokenError.Arises.status_ne {e : TokenError} (h : e.Arises) :
    e.status ≠ .putBackFailed ∧ e.status ≠ .notNumber := by
  cases h <;> exact ⟨nofun, nofun⟩

section Scan

variable {σ α : Type} {m : Scanner σ (Except TokenError α)} {state : σ} {s rest : ByteStream}
  {e : TokenError}

/-- An error of a scan is one that the scanner finds, or a fault of the source. -/
theorem Scanner.error_of_read {P : TokenError → Prop}
    (hstep : ∀ state b,
      (m.step state b).Keeps (fun _ => True) fun answer => ∀ e, answer = .error e → P e)
    (hfinish : ∀ state e, m.finish state = .error e → P e)
    (h : m.read state s = (.error e, rest)) :
    P e ∨ ∃ cause, e = .readFailed cause ∧ m.run state s.events = (.error cause, rest) := by
  unfold Scanner.read at h
  split at h
  · rename_i answer behind hrun
    have hanswer := m.run_invariant (fun state b _ => hstep state b) (fun _ _ _ _ => trivial)
      (fun state _ => hfinish state) trivial hrun
    exact .inl (hanswer e (congrArg Prod.fst h))
  · rename_i cause behind hrun
    obtain ⟨rfl, rfl⟩ : TokenError.readFailed cause = e ∧ behind = rest := by simpa using h
    exact .inr ⟨cause, rfl, hrun⟩

end Scan

section Errors

variable {s rest : ByteStream} {e : TokenError}

theorem error_of_skipGap (h : skipGap s = (.error e, rest)) :
    e = .unterminatedComment ∨
      ∃ cause, e = .readFailed cause ∧ Gap.scanner.run .blank s.events = (.error cause, rest) := by
  refine Scanner.error_of_read (P := (· = .unterminatedComment)) (fun g b => ?_)
    (fun g e hfinish => ?_) h
  · show (g.step b).Keeps _ _
    cases g <;> grind [Gap.step, Step.Keeps]
  · cases g <;> cases hfinish
    rfl

theorem error_of_readText {goesOn : List UInt8 → UInt8 → Bool} {first : UInt8}
    (h : readText goesOn first s = (.error e, rest)) :
    e = .tooLong ∨
      ∃ cause, e = .readFailed cause ∧
        (textScanner goesOn).run [first] s.events = (.error cause, rest) := by
  have hread : (textScanner goesOn).read [first] s = (.error e, rest) := by
    unfold readText at h
    generalize (textScanner goesOn).read [first] s = answer at h ⊢
    obtain ⟨_ | _, left⟩ := answer
    · cases h
      rfl
    · cases h
  refine Scanner.error_of_read (P := (· = .tooLong)) (fun text b => ?_) (fun text e hfinish => ?_)
    hread
  · grind [textScanner, Step.Keeps]
  · cases hfinish

end Errors

/-- What is not a word's first byte is left in front of what was behind it, unless it is a slash. -/
theorem readWord_of_found {s between : ByteStream} {b : UInt8}
    (h : skipGap s = (.ok (some b), between)) :
    readWord s =
      if Text.isWordStart (Char.ofUInt8 b) then readText wordGoesOn b between
      else (.error .notIdentifier,
        if b = '/'.toUInt8 then between else ⟨some b, between.unread⟩) := by
  unfold readWord readItem
  rw [h, Reading.andThen_ok]
  dsimp only
  split
  · rfl
  · unfold reject
    split
    · rfl
    · rename_i hb
      obtain ⟨hheld, -⟩ := skipGap_found h hb
      rw [ByteStream.putBack_eq_ok hheld]
      rfl

namespace Reading

variable {α β : Type}

def ErrorsArise (r : Reading α) : Prop := ∀ e, r.1 = .error e → e.Arises

theorem errorsArise_ok (a : α) (rest : ByteStream) : ErrorsArise (.ok a, rest) := by
  intro e h
  cases h

theorem errorsArise_error {e : TokenError} (he : e.Arises) (rest : ByteStream) :
    ErrorsArise (α := α) (.error e, rest) := by
  intro e' h
  cases h
  exact he

theorem ErrorsArise.andThen {first : Reading α} {second : α → ByteStream → Reading β}
    (hfirst : first.ErrorsArise) (hsecond : ∀ a rest, (second a rest).ErrorsArise) :
    (first.andThen second).ErrorsArise := by
  obtain ⟨e | a, rest⟩ := first
  · exact errorsArise_error (hfirst e rfl) rest
  · exact hsecond a rest

end Reading

theorem errorsArise_skipGap (s : ByteStream) : (skipGap s).ErrorsArise := by
  intro e h
  rcases error_of_skipGap (Prod.ext h rfl : skipGap s = (.error e, _)) with rfl | ⟨cause, rfl, -⟩
  · exact .unterminatedComment
  · exact .readFailed cause

theorem errorsArise_readText (goesOn : List UInt8 → UInt8 → Bool) (first : UInt8)
    (s : ByteStream) : (readText goesOn first s).ErrorsArise := by
  intro e h
  rcases error_of_readText (Prod.ext h rfl : readText goesOn first s = (.error e, _)) with
    rfl | ⟨cause, rfl, -⟩
  · exact .tooLong
  · exact .readFailed cause

theorem errorsArise_readWord (s : ByteStream) : (readWord s).ErrorsArise := by
  have hskip := errorsArise_skipGap s
  cases hgap : skipGap s with
  | mk found between =>
    rw [hgap] at hskip
    rcases found with e | _ | b
    · rw [readWord, readItem, hgap]
      exact Reading.errorsArise_error (hskip e rfl) between
    · rw [readWord, readItem, hgap]
      exact Reading.errorsArise_error .endOfInput between
    · rw [readWord_of_found hgap]
      split
      · exact errorsArise_readText wordGoesOn b between
      · exact Reading.errorsArise_error .notIdentifier _

theorem errorsArise_tokenOfWord (word : String) (s : ByteStream) :
    (tokenOfWord word s).ErrorsArise := by
  unfold tokenOfWord
  split
  case h_5 => exact (errorsArise_readWord s).andThen fun _ rest => Reading.errorsArise_ok _ rest
  all_goals exact Reading.errorsArise_ok _ s

/-- Whatever the source of the bytes, no other errors come of it. -/
theorem errorsArise_nextToken (s : ByteStream) : (nextToken s).ErrorsArise := by
  have hskip := errorsArise_skipGap s
  cases hgap : skipGap s with
  | mk found between =>
    rw [hgap] at hskip
    rcases found with e | _ | b
    · rw [nextToken, hgap]
      exact Reading.errorsArise_error (hskip e rfl) between
    · rw [nextToken, hgap]
      exact Reading.errorsArise_error .endOfInput between
    · rw [nextToken_of_found hgap]
      split
      · exact (errorsArise_readText wordGoesOn b _).andThen errorsArise_tokenOfWord
      · split
        · exact (errorsArise_readText numberGoesOn b _).andThen
            fun _ rest => Reading.errorsArise_ok _ rest
        · split
          · exact Reading.errorsArise_ok _ between
          · exact Reading.errorsArise_error (.unknownCharacter b) between

end CDeclarations
