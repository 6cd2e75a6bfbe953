import CDeclarations.Proofs.Declaration.Writes
import CDeclarations.Proofs.Grammar.Answers
import CDeclarations.Proofs.Reading.Faults

namespace CDeclarations

/-- Tokens are read one after another, up to the first error if the reading comes to one. -/
inductive ReadsUpTo : ByteStream → Option TokenError → ByteStream → Prop
  | nothing (s : ByteStream) : ReadsUpTo s none s
  | error {s rest : ByteStream} {e : TokenError} :
      nextToken s = (.error e, rest) → ReadsUpTo s (some e) rest
  | token {s next rest : ByteStream} {t : Token} {error : Option TokenError} :
      nextToken s = (.ok t, next) → ReadsUpTo next error rest → ReadsUpTo s error rest

/-- The token error that is behind the failure of a declaration. -/
def DeclarationError.tokenError? : DeclarationError → Option TokenError
  | .endOfInput => some .endOfInput
  | .token cause => some cause
  | _ => none

/-- The token error that a reading failed with. -/
def tokenErrorOf? {α : Type} (result : Except DeclarationError α) : Option TokenError :=
  (errorOf? result).bind DeclarationError.tokenError?

section ReadsUpTo

variable {s between rest : ByteStream} {error : Option TokenError}

theorem ReadsUpTo.trans (h : ReadsUpTo s none between) (hmore : ReadsUpTo between error rest) :
    ReadsUpTo s error rest := by
  generalize hnone : (none : Option TokenError) = first at h
  induction h with
  | nothing s => exact hmore
  | error hnext => cases hnone
  | token hnext hlater ih => exact .token hnext (ih hmore hnone)

theorem ReadsUpTo.arises (h : ReadsUpTo s error rest) : ∀ e, error = some e → e.Arises := by
  induction h with
  | nothing s => exact nofun
  | error hnext =>
    intro e he
    obtain rfl := Option.some.inj he
    exact errorsArise_nextToken _ _ (congrArg Prod.fst hnext)
  | token hnext hlater ih => exact ih

theorem took_of_nextToken {outcome : Except TokenError Token}
    (h : nextToken s = (outcome, rest)) :
    Took s.events ((errorOf? outcome).bind TokenError.fault?) rest.events := by
  have htells := tells_nextToken s
  rwa [h] at htells

/-- The reads up to the first fault were taken, and the error tells of that. -/
theorem ReadsUpTo.took (h : ReadsUpTo s error rest) :
    Took s.events (error.bind TokenError.fault?) rest.events := by
  induction h with
  | nothing s => exact .nothing s.events
  | error hnext => exact took_of_nextToken hnext
  | token hnext hlater ih => exact (took_of_nextToken hnext).trans ih

/-- Bytes in memory can be read without a fault. -/
theorem ReadsUpTo.fault?_eq_none {bytes : List UInt8} {e : TokenError}
    (h : ReadsUpTo s (some e) rest) (hs : s.events = bytes.map .byte) : e.fault? = none := by
  obtain ⟨used, hevents, hused⟩ := h.took
  have hall : faults (used ++ rest.events) = [] := by
    rw [← hevents, hs]
    exact faults_bytes bytes
  rw [faults_append, List.append_eq_nil_iff] at hall
  have hnone : (some e).bind TokenError.fault? = none := by
    rw [← Option.toList_eq_nil_iff, ← hused.faults_eq]
    exact hall.1
  exact hnone

theorem readsUpTo_nextToken (s : ByteStream) :
    ReadsUpTo s (errorOf? (nextToken s).1) (nextToken s).2 := by
  cases hnext : nextToken s with
  | mk outcome rest =>
    cases outcome with
    | error e => exact .error hnext
    | ok t => exact .token hnext (.nothing rest)

end ReadsUpTo

/-- The tokens that were read up to `rest` make this the result, and if they come to an error it is
no other. -/
structure ComesTo {α : Type} (s : ByteStream) (result : Except DeclarationError α)
    (rest : ByteStream) : Prop where
  reads : ReadsUpTo s (tokenErrorOf? result) rest
  ofTokenError : ∀ e, tokenErrorOf? result = some e → result = .error (.ofTokenError e)

section ComesTo

variable {α β : Type} {s between rest : ByteStream} {result : Except DeclarationError α}

theorem ComesTo.error {e : TokenError} (h : nextToken s = (.error e, rest)) :
    ComesTo (α := α) s (.error (.ofTokenError e)) rest := by
  have hsame : tokenErrorOf? (Except.error (α := α) (.ofTokenError e)) = some e := by
    cases e <;> rfl
  refine ⟨?_, fun e' he' => ?_⟩
  · rw [hsame]
    exact .error h
  · rw [hsame] at he'
    rw [Option.some.inj he']

theorem ComesTo.of_none (h : ReadsUpTo s none rest) (hnone : tokenErrorOf? result = none) :
    ComesTo s result rest := by
  refine ⟨?_, fun e he => ?_⟩
  · rwa [hnone]
  · rw [hnone] at he
    cases he

theorem ComesTo.behind (h : ReadsUpTo s none between) (hmore : ComesTo between result rest) :
    ComesTo s result rest := ⟨h.trans hmore.reads, hmore.ofTokenError⟩

theorem ComesTo.of_error {e : DeclarationError} (h : ComesTo (α := α) s (.error e) rest) :
    ComesTo (α := β) s (.error e) rest := by
  refine ⟨h.reads, fun e' he' => ?_⟩
  rw [Except.error.inj (h.ofTokenError e' he')]

theorem comesTo_readToName (stack : TokenStack) (s : ByteStream) :
    ComesTo s (readToName stack s).1 (readToName stack s).2 := by
  fun_induction readToName stack s with
  | case1 stack s e next hnext => exact .error hnext
  | case2 stack s name next hnext => exact .of_none (.token hnext (.nothing next)) rfl
  | case3 stack s token next hname hnext hpush => exact .of_none (.token hnext (.nothing next)) rfl
  | case4 stack s token next hname hnext pushed hpush hlt ih =>
    exact .behind (.token hnext (.nothing next)) ih

theorem comesTo_readClosing (count : Nat) (s : ByteStream) :
    ComesTo s (readClosing count s).1 (readClosing count s).2 := by
  fun_induction readClosing count s with
  | case1 count s e next hnext => exact .error hnext
  | case2 count s next hnext hlt ih => exact .behind (.token hnext (.nothing next)) ih
  | case3 count s token next hother hnext => exact .of_none (.token hnext (.nothing next)) rfl

/-- What is wrong with the tokens of a declaration is no token error. -/
theorem tokenErrorOf?_behindName (name : String) (stack : TokenStack) (closing : Nat × Token) :
    tokenErrorOf? (behindName name stack (.ok closing)).2 = none := by
  unfold behindName
  dsimp only
  split
  · rfl
  · cases (unwind name closing.1 stack.tokens).2 <;> rfl

theorem comesTo_readDeclaration (capacity : Nat) (s : ByteStream) (sink : Sink) :
    ComesTo s (readDeclaration capacity s sink).result (readDeclaration capacity s sink).rest := by
  have hfirst := comesTo_readToName (.withCapacity capacity) s
  cases hname : readToName (.withCapacity capacity) s with
  | mk outcome between =>
    rw [hname] at hfirst
    rcases outcome with e | ⟨name, stack⟩
    · rw [readDeclaration_of_name_error hname]
      exact hfirst.of_error
    · have hnamed : ReadsUpTo s none between := hfirst.reads
      have hlater := comesTo_readClosing 0 between
      rw [readDeclaration_of_name hname]
      generalize readClosing 0 between = closing at hlater
      obtain ⟨e | closing, rest⟩ := closing
      · have hempty : (behindName name stack (.error e)).1 = [] := rfl
        dsimp only
        rw [hempty, Sink.write_nil]
        split
        · exact (ComesTo.behind hnamed hlater).of_error
        · exact .of_none hnamed rfl
      · have hclosed : ReadsUpTo s none rest := hnamed.trans hlater.reads
        have hnone := tokenErrorOf?_behindName name stack closing
        dsimp only
        split
        · split
          · exact .of_none hclosed hnone
          · exact .of_none hclosed rfl
        · exact .of_none hnamed rfl

end ComesTo

end CDeclarations
