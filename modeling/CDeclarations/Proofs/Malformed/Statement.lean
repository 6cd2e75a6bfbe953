import CDeclarations.Proofs.Declaration.Outcome
import CDeclarations.Proofs.Grammar.Sentence

namespace CDeclarations

/-- The next tokens are no more in front of a name than there is room for, the name, so many closing
parentheses and a semicolon. -/
structure ReadsStatement (capacity : Nat) (s : ByteStream) (front : List Token) (name : String)
    (closing : Nat) (rest : ByteStream) : Prop where
  reads : ReadsOff s ((front ++ [.identifier name]) ++
    (List.replicate closing (.punctuation .rightParen) ++ [.punctuation .semicolon])) rest
  names : ∀ word, Token.identifier word ∉ front
  room : front.length ≤ capacity

/-- The report about tokens that make no declaration. Only a text that is too long is cut. -/
def Report.ofSyntaxError (e : SyntaxError) : Report :=
  if e.message.utf8ByteSize ≤ maxErrorTextLength then ⟨.ok, "", .malformed, e.message⟩
  else ⟨.ok, "", .errorTextTooLong, Text.capped maxErrorTextLength e.message⟩

theorem Report.recordResult_ofSyntaxError (r : Report) (e : SyntaxError) :
    r.recordResult (.error (.malformed e)) = ofSyntaxError e := by
  by_cases h : e.message.utf8ByteSize ≤ maxErrorTextLength
  · rw [recordResult_malformed r h, ofSyntaxError, if_pos h]
  · simp only [recordResult, record, ofSyntaxError, if_neg h]
    rfl

/-- A reading whose tokens make no declaration, and what was said before that was found out. -/
def Description.malformed (given : Option Report) (e : SyntaxError) (said : List Phrase)
    (rest : ByteStream) : Description :=
  .failed given (.ofSyntaxError e) (Phrase.bytes said) rest

section

variable {capacity closing : Nat} {s rest : ByteStream} {front : List Token} {name : String}
  {phrases : List Phrase}

theorem ReadsStatement.isReadable (h : ReadsStatement capacity s front name closing rest) :
    ∀ t ∈ front, t.IsReadable := by
  intro t ht
  refine h.reads.isReadable t ?_
  exact List.mem_append_left _ (List.mem_append_left _ ht)

theorem ReadsStatement.isName (h : ReadsStatement capacity s front name closing rest) :
    IsName name :=
  (h.reads.isReadable (.identifier name) (by simp)).1

theorem DeclarationError.ofTokenError_ne_malformed (cause : TokenError) (e : SyntaxError) :
    ofTokenError cause ≠ .malformed e := by
  cases cause <;> simp [ofTokenError]

theorem readToName_ne_malformed (stack : TokenStack) (s : ByteStream) (e : SyntaxError) :
    (readToName stack s).1 ≠ .error (.malformed e) := by
  intro h
  rcases eq_of_readToName_error h with hfull | ⟨cause, hcause⟩
  · cases hfull
  · exact DeclarationError.ofTokenError_ne_malformed cause e hcause.symm

theorem readClosing_ne_malformed (count : Nat) (s : ByteStream) (e : SyntaxError) :
    (readClosing count s).1 ≠ .error (.malformed e) := by
  intro h
  obtain ⟨cause, hcause⟩ := exists_eq_of_readClosing_error h
  exact DeclarationError.ofTokenError_ne_malformed cause e hcause.symm

/-- Behind the name, tokens are wrong if no semicolon follows, or if they cannot be unwound. -/
theorem behindName_eq_malformed {stack : TokenStack} {s : ByteStream} {e : SyntaxError}
    (h : (behindName name stack (readClosing 0 s).1).2 = .error (.malformed e))
    (he : e ≠ .incomplete name) :
    ∃ closing rest, readClosing 0 s = (.ok (closing, .punctuation .semicolon), rest) ∧
      (unwind name closing stack.tokens).2 = .error e := by
  have hclosing := readClosing_ne_malformed 0 s e
  generalize readClosing 0 s = outcome at h hclosing
  obtain ⟨cause | ⟨closing, token⟩, rest⟩ := outcome
  · rw [Except.error.inj h] at hclosing
    exact absurd rfl hclosing
  · by_cases htoken : token = .punctuation .semicolon
    · subst htoken
      refine ⟨closing, rest, rfl, ?_⟩
      cases hunwind : (unwind name closing stack.tokens).2 with
      | error cause => simpa [behindName, hunwind, Except.mapError] using h
      | ok d => simp [behindName, hunwind, Except.mapError] at h
    · rw [behindName_of_other htoken] at h
      exact absurd (DeclarationError.malformed.inj (Except.error.inj h)).symm he

/-- That tokens make no declaration is found when no semicolon follows the name, or when it has been
read, whatever becomes of the output. -/
theorem incomplete_or_exists_readsStatement {sink : Sink} {e : SyntaxError}
    (h : (readDeclaration capacity s sink).result = .error (.malformed e)) :
    (∃ name, IsName name ∧ e = .incomplete name) ∨
      ∃ front name closing rest, ReadsStatement capacity s front name closing rest ∧
        (unwind name closing front.reverse).2 = .error e := by
  have hnamed := readToName_ne_malformed (.withCapacity capacity) s e
  cases hname : readToName (.withCapacity capacity) s with
  | mk outcome between =>
    rw [hname] at hnamed
    rcases outcome with cause | ⟨name, stack⟩
    · rw [readDeclaration_of_name_error hname] at h
      rw [Except.error.inj h] at hnamed
      exact absurd rfl hnamed
    · have hbehind : (behindName name stack (readClosing 0 between).1).2 =
          .error (.malformed e) := by
        rw [readDeclaration_of_name hname] at h
        dsimp only at h
        split at h
        · dsimp only at h
          split at h
          · exact h
          · cases h
        · cases h
      obtain ⟨front, hfront, hnames, hroom, rfl⟩ := readToName_eq_ok_iff.mp hname
      by_cases hincomplete : e = .incomplete name
      · exact .inl ⟨name, (hfront.isReadable (.identifier name) (by simp)).1, hincomplete⟩
      · obtain ⟨closing, rest, hclosing, hunwind⟩ := behindName_eq_malformed hbehind hincomplete
        obtain ⟨k, hk, hread, -⟩ := readClosing_eq_ok_iff.mp hclosing
        obtain rfl : closing = k := hk.trans (Nat.zero_add k)
        refine .inr ⟨front, name, closing, rest, ⟨?_, hnames, hroom⟩, ?_⟩
        · exact readsOff_append.mpr ⟨between, hfront, hread⟩
        · simpa using hunwind

theorem exists_readsStatement {sink : Sink} {e : SyntaxError}
    (h : (readDeclaration capacity s sink).result = .error (.malformed e))
    (he : ∀ name, e ≠ .incomplete name) :
    ∃ front name closing rest, ReadsStatement capacity s front name closing rest ∧
      (unwind name closing front.reverse).2 = .error e := by
  rcases incomplete_or_exists_readsStatement h with ⟨name, -, hincomplete⟩ | hstatement
  · exact absurd hincomplete (he name)
  · exact hstatement

end

end CDeclarations
