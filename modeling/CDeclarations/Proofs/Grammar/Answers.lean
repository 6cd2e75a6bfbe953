import CDeclarations.Declaration.Read
import CDeclarations.Proofs.LongestMatch.Token
import CDeclarations.Token.Sequence
import Mathlib.Control.Monad.Basic

namespace CDeclarations

/-- The next readings give these tokens, none of them an error, and leave the rest. -/
def ReadsOff (s : ByteStream) (tokens : List Token) (rest : ByteStream) : Prop :=
  takeTokens tokens.length s = (tokens.map .ok, rest)

instance (s : ByteStream) (tokens : List Token) (rest : ByteStream) :
    Decidable (ReadsOff s tokens rest) :=
  inferInstanceAs (Decidable (_ = _))

section ReadsOff

variable {s rest : ByteStream} {tokens : List Token} {token : Token}

@[simp] theorem readsOff_nil : ReadsOff s [] rest ↔ s = rest := by
  simp [ReadsOff, takeTokens]

theorem readsOff_cons :
    ReadsOff s (token :: tokens) rest ↔
      ∃ next, nextToken s = (.ok token, next) ∧ ReadsOff next tokens rest := by
  simp only [ReadsOff, List.length_cons, takeTokens, List.map_cons]
  rcases h : nextToken s with ⟨_ | _, next⟩
  · rename_i e
    cases e <;> simp
  · simp [Prod.ext_iff, and_assoc]

theorem readsOff_append {more : List Token} :
    ReadsOff s (tokens ++ more) rest ↔
      ∃ between, ReadsOff s tokens between ∧ ReadsOff between more rest := by
  induction tokens generalizing s with
  | nil => simp
  | cons token tokens ih =>
    simp only [List.cons_append, readsOff_cons, ih]
    constructor
    · intro h
      obtain ⟨next, hnext, between, hfirst, hmore⟩ := h
      exact ⟨between, ⟨next, hnext, hfirst⟩, hmore⟩
    · intro h
      obtain ⟨between, ⟨next, hnext, hfirst⟩, hmore⟩ := h
      exact ⟨next, hnext, between, hfirst, hmore⟩

/-- Bytes in memory are used up from the front, token by token. -/
theorem ReadsOff.suffix {bytes : List UInt8} (h : ReadsOff s tokens rest)
    (hs : s.events = bytes.map .byte) : ∃ left, left <:+ bytes ∧ rest.events = left.map .byte := by
  induction tokens generalizing s bytes with
  | nil =>
    obtain rfl := readsOff_nil.mp h
    exact ⟨bytes, List.suffix_rfl, hs⟩
  | cons token tokens ih =>
    obtain ⟨next, hnext, hmore⟩ := readsOff_cons.mp h
    obtain ⟨behind, htoken, hbehind⟩ := token_of_nextToken hs hnext
    obtain ⟨left, hsuffix, hleft⟩ := ih hmore hbehind
    have hfirst := LongestMatch.token_suffix bytes
    rw [htoken] at hfirst
    exact ⟨left, hsuffix.trans hfirst, hleft⟩

end ReadsOff

/-- In front of a name nothing can be wrong but a token, or the number of them. -/
theorem eq_of_readToName_error {stack : TokenStack} {s : ByteStream} {e : DeclarationError}
    (h : (readToName stack s).1 = .error e) :
    e = .tooManyTokens ∨ ∃ cause, e = .ofTokenError cause := by
  fun_induction readToName stack s with
  | case1 stack s cause next hnext => exact .inr ⟨cause, (Except.error.inj h).symm⟩
  | case2 stack s name next hnext => cases h
  | case3 stack s token next hname hnext hpush => exact .inl (Except.error.inj h).symm
  | case4 stack s token next hname hnext pushed hpush hlt ih => exact ih h

theorem exists_eq_of_readClosing_error {count : Nat} {s : ByteStream} {e : DeclarationError}
    (h : (readClosing count s).1 = .error e) : ∃ cause, e = .ofTokenError cause := by
  fun_induction readClosing count s with
  | case1 count s cause next hnext => exact ⟨cause, (Except.error.inj h).symm⟩
  | case2 count s next hnext hlt ih => exact ih h
  | case3 count s token next hother hnext => cases h

/-- Up to a name, the tokens are kept as long as there is room. -/
theorem readToName_eq_ok_iff {stack stack' : TokenStack} {s rest : ByteStream} {name : String} :
    readToName stack s = (.ok (name, stack'), rest) ↔
      ∃ tokens, ReadsOff s (tokens ++ [.identifier name]) rest ∧
        (∀ word, Token.identifier word ∉ tokens) ∧ tokens.length ≤ stack.room ∧
        stack' = ⟨tokens.reverse ++ stack.tokens, stack.room - tokens.length⟩ := by
  constructor
  · intro h
    fun_induction readToName stack s with
    | case1 stack s e next hnext => cases h
    | case2 stack s word next hnext =>
      simp only [Prod.mk.injEq, Except.ok.injEq] at h
      obtain ⟨⟨rfl, rfl⟩, rfl⟩ := h
      exact ⟨[], readsOff_cons.mpr ⟨next, hnext, readsOff_nil.mpr rfl⟩, by simp, by simp, by simp⟩
    | case3 stack s token next hname hnext hpush => cases h
    | case4 stack s token next hname hnext pushed hpush hlt ih =>
      obtain ⟨tokens, hread, hnames, hroom, rfl⟩ := ih h
      obtain ⟨htokens, hless⟩ := TokenStack.push?_eq_some_iff.mp hpush
      refine ⟨token :: tokens, readsOff_cons.mpr ⟨next, hnext, hread⟩, ?_, ?_, ?_⟩
      · intro word hword
        rcases List.mem_cons.mp hword with hfirst | hlater
        · exact hname word hfirst.symm
        · exact hnames word hlater
      · rw [List.length_cons]
        omega
      · rw [htokens]
        simp only [List.reverse_cons, List.append_assoc, List.singleton_append, List.length_cons,
          TokenStack.mk.injEq, true_and]
        omega
  · intro h
    obtain ⟨tokens, hread, hnames, hroom, rfl⟩ := h
    induction tokens generalizing stack s with
    | nil =>
      obtain ⟨next, hnext, hrest⟩ := readsOff_cons.mp hread
      rw [readsOff_nil.mp hrest] at hnext
      rw [readToName_of_identifier hnext]
      rfl
    | cons token tokens ih =>
      obtain ⟨next, hnext, hrest⟩ := readsOff_cons.mp hread
      rw [List.length_cons] at hroom
      have hname : ∀ word, token ≠ .identifier word := by
        intro word h
        subst h
        exact hnames word (List.mem_cons_self ..)
      have hpush : stack.push? token = some ⟨token :: stack.tokens, stack.room - 1⟩ :=
        TokenStack.push?_eq_some_iff.mpr ⟨rfl, by simp only; omega⟩
      have hlater : ∀ word, Token.identifier word ∉ tokens :=
        fun word hword => hnames word (List.mem_cons_of_mem _ hword)
      have hle : tokens.length ≤ stack.room - 1 := by omega
      rw [readToName_of_push hnext hname hpush, ih hrest hlater hle]
      simp only [List.reverse_cons, List.append_assoc, List.singleton_append, List.length_cons,
        Nat.sub_sub, Nat.add_comm 1]

/-- Closing parentheses are counted up to the first other token, which is read with them. -/
theorem readClosing_eq_ok_iff {count n : Nat} {s rest : ByteStream} {token : Token} :
    readClosing count s = (.ok (n, token), rest) ↔
      ∃ k, n = count + k ∧
        ReadsOff s (List.replicate k (.punctuation .rightParen) ++ [token]) rest ∧
        token ≠ .punctuation .rightParen := by
  constructor
  · intro h
    fun_induction readClosing count s with
    | case1 count s e next hnext => cases h
    | case2 count s next hnext hlt ih =>
      obtain ⟨k, rfl, hread, hother⟩ := ih h
      refine ⟨k + 1, by omega, ?_, hother⟩
      rw [List.replicate_succ, List.cons_append]
      exact readsOff_cons.mpr ⟨next, hnext, hread⟩
    | case3 count s found next hother hnext =>
      simp only [Prod.mk.injEq, Except.ok.injEq] at h
      obtain ⟨⟨rfl, rfl⟩, rfl⟩ := h
      exact ⟨0, rfl, readsOff_cons.mpr ⟨next, hnext, readsOff_nil.mpr rfl⟩, hother⟩
  · intro h
    obtain ⟨k, rfl, hread, hother⟩ := h
    induction k generalizing count s with
    | zero =>
      obtain ⟨next, hnext, hrest⟩ := readsOff_cons.mp hread
      rw [readsOff_nil.mp hrest] at hnext
      exact readClosing_of_other hnext hother
    | succ k ih =>
      rw [List.replicate_succ, List.cons_append] at hread
      obtain ⟨next, hnext, hrest⟩ := readsOff_cons.mp hread
      rw [readClosing_of_rightParen hnext, ih hrest, Nat.add_right_comm, Nat.add_assoc]

end CDeclarations
