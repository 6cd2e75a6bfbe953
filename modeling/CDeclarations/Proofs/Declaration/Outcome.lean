import CDeclarations.Proofs.Declaration.Writes
import CDeclarations.Proofs.Reading.Answer
import CDeclarations.Proofs.Reading.Readable
import Mathlib.Order.Lattice.Nat

namespace CDeclarations

/-- A token, but not the name that is looked for. -/
def IsLeading (outcome : Except TokenError Token) : Prop :=
  ∃ t, outcome = .ok t ∧ ∀ name, t ≠ .identifier name

section Scan

variable {s : ByteStream}

/-- Leading tokens are put on the stack as long as there is room. -/
theorem readToName_leading {stack : TokenStack} {n : Nat} (h : ∀ i < n, IsLeading (answer s i))
    (hroom : n ≤ stack.room) :
    ∃ later : TokenStack, later.room = stack.room - n ∧
      readToName stack s = readToName later (behind n s) := by
  induction n with
  | zero => exact ⟨stack, rfl, rfl⟩
  | succ n ih =>
    obtain ⟨later, hlater, heq⟩ := ih (fun i hi => h i (Nat.lt_succ_of_lt hi)) (by omega)
    obtain ⟨t, ht, hname⟩ := h n (Nat.lt_succ_self n)
    have hread := nextToken_behind s n
    rw [ht] at hread
    have hpush : later.push? t = some ⟨t :: later.tokens, later.room - 1⟩ :=
      TokenStack.push?_eq_some_iff.mpr ⟨rfl, by simp only; omega⟩
    exact ⟨_, by simp only; omega, heq.trans (readToName_of_push hread hname hpush)⟩

theorem readToName_full (stack : TokenStack) (h : ∀ i ≤ stack.room, IsLeading (answer s i)) :
    readToName stack s = (.error .tooManyTokens, behind (stack.room + 1) s) := by
  obtain ⟨later, hlater, heq⟩ :=
    readToName_leading (n := stack.room) (fun i hi => h i (Nat.le_of_lt hi)) (Nat.le_refl _)
  obtain ⟨t, ht, hname⟩ := h stack.room (Nat.le_refl _)
  have hread := nextToken_behind s stack.room
  rw [ht] at hread
  have hfull : later.push? t = none := by
    rw [TokenStack.push?_eq_none_iff]
    simp [TokenStack.isFull, hlater]
  rw [heq, readToName_of_full hread hname hfull]

theorem readToName_error (stack : TokenStack) {k : Nat} {e : TokenError}
    (h : ∀ i < k, IsLeading (answer s i)) (hroom : k ≤ stack.room) (he : answer s k = .error e) :
    readToName stack s = (.error (.ofTokenError e), behind (k + 1) s) := by
  obtain ⟨later, -, heq⟩ := readToName_leading h hroom
  have hread := nextToken_behind s k
  rw [he] at hread
  rw [heq, readToName_of_error hread]

theorem readToName_name (stack : TokenStack) {k : Nat} {name : String}
    (h : ∀ i < k, IsLeading (answer s i)) (hroom : k ≤ stack.room)
    (hname : answer s k = .ok (.identifier name)) :
    ∃ later, readToName stack s = (.ok (name, later), behind (k + 1) s) := by
  obtain ⟨later, -, heq⟩ := readToName_leading h hroom
  have hread := nextToken_behind s k
  rw [hname] at hread
  exact ⟨later, heq.trans (readToName_of_identifier hread)⟩

theorem readClosing_rightParens {n : Nat}
    (h : ∀ i < n, answer s i = .ok (.punctuation .rightParen)) (count : Nat) :
    readClosing count s = readClosing (count + n) (behind n s) := by
  induction n with
  | zero => rfl
  | succ n ih =>
    have hread := nextToken_behind s n
    rw [h n (Nat.lt_succ_self n)] at hread
    rw [ih fun i hi => h i (Nat.lt_succ_of_lt hi), readClosing_of_rightParen hread]
    rfl

theorem readClosing_error {n : Nat} {e : TokenError}
    (h : ∀ i < n, answer s i = .ok (.punctuation .rightParen)) (he : answer s n = .error e)
    (count : Nat) : readClosing count s = (.error (.ofTokenError e), behind (n + 1) s) := by
  have hread := nextToken_behind s n
  rw [he] at hread
  rw [readClosing_rightParens h, readClosing_of_error hread]

theorem readClosing_other {n : Nat} {t : Token}
    (h : ∀ i < n, answer s i = .ok (.punctuation .rightParen)) (ht : answer s n = .ok t)
    (hother : t ≠ .punctuation .rightParen) (count : Nat) :
    readClosing count s = (.ok (count + n, t), behind (n + 1) s) := by
  have hread := nextToken_behind s n
  rw [ht] at hread
  rw [readClosing_rightParens h, readClosing_of_other hread hother]

end Scan

/-- The report about a token that could not be read. -/
def Report.ofTokenError : TokenError → Report
  | .endOfInput => ⟨.endOfInput, "", .endOfInput, ""⟩
  | e => ⟨e.status, e.text, .tokenError, ""⟩

theorem Report.recordResult_ofTokenError (r : Report) {e : TokenError} (he : e.Fits) :
    r.recordResult (.error (.ofTokenError e)) = ofTokenError e := by
  cases e with
  | badToken text =>
    have htext : Text.capped maxTokenLength text = text := Text.capped_eq_self he
    simp [recordResult, record, ofTokenError, DeclarationError.ofTokenError, TokenError.status,
      TokenError.text, htext]
  | _ => rfl

theorem Report.recordResult_malformed (r : Report) {cause : SyntaxError}
    (h : cause.message.utf8ByteSize ≤ maxErrorTextLength) :
    r.recordResult (.error (.malformed cause)) = ⟨.ok, "", .malformed, cause.message⟩ := by
  simp only [recordResult, record, if_pos h]
  rfl

theorem SyntaxError.utf8ByteSize_incomplete (name : String) :
    (incomplete name).message.utf8ByteSize = 39 + name.utf8ByteSize + 1 := by
  have hmessage : (incomplete name).message =
      "incomplete declaration for identifier `" ++ name ++ "`" := rfl
  have hfront : "incomplete declaration for identifier `".utf8ByteSize = 39 := rfl
  have hbehind : "`".utf8ByteSize = 1 := rfl
  rw [hmessage, String.utf8ByteSize_append, String.utf8ByteSize_append, hfront, hbehind]

theorem SyntaxError.incomplete_fits {name : String} (h : name.utf8ByteSize ≤ maxTokenLength) :
    (incomplete name).message.utf8ByteSize ≤ maxErrorTextLength := by
  rw [maxTokenLength] at h
  rw [utf8ByteSize_incomplete, maxErrorTextLength]
  omega

/-- A reading that failed: its report, what it had said before, and the stream behind it. -/
def Description.failed (given : Option Report) (report : Report) (said : List UInt8)
    (rest : ByteStream) : Description :=
  ⟨report.status, given.map fun _ => report, said, rest, .unbounded⟩

section Describe

variable {capacity : Nat} {s between rest : ByteStream} {stack : TokenStack} {name : String}
  {report : Option Report}

theorem describe_of_error {e : DeclarationError} {r : Report}
    (h : readToName (.withCapacity capacity) s = (.error e, rest))
    (hr : ∀ before : Report, before.recordResult (.error e) = r) :
    describe capacity s .unbounded report = .failed report r [] rest := by
  unfold describe
  rw [readDeclaration_of_name_error h]
  dsimp only
  rw [hr, Description.failed]

theorem describe_of_behindName_error {e : DeclarationError} {r : Report}
    {outcome : Except DeclarationError (Nat × Token)}
    (hname : readToName (.withCapacity capacity) s = (.ok (name, stack), between))
    (hclosing : readClosing 0 between = (outcome, rest))
    (h : behindName name stack outcome = ([], .error e))
    (hr : ∀ before : Report, before.recordResult (.error e) = r) :
    describe capacity s .unbounded report =
      .failed report r (Text.utf8 (name ++ ":")) rest := by
  unfold describe
  rw [readDeclaration_unbounded hname, hclosing]
  dsimp only
  rw [h]
  dsimp only
  rw [hr, List.append_nil, Description.failed]

theorem rest_describe_of_name
    (hname : readToName (.withCapacity capacity) s = (.ok (name, stack), between)) :
    (describe capacity s .unbounded report).rest = (readClosing 0 between).2 := by
  unfold describe
  rw [readDeclaration_unbounded hname]

theorem describe_of_leading (h : ∀ i ≤ capacity, IsLeading (answer s i)) :
    describe capacity s .unbounded report =
      .failed report ⟨.ok, "", .tooManyTokens, ""⟩ [] (behind (capacity + 1) s) :=
  describe_of_error (readToName_full (.withCapacity capacity) h) fun _ => rfl

theorem describe_of_answer_error {k : Nat} {e : TokenError}
    (h : ∀ i < k, IsLeading (answer s i)) (hk : k ≤ capacity) (he : answer s k = .error e) :
    describe capacity s .unbounded report =
      .failed report (.ofTokenError e) [] (behind (k + 1) s) :=
  describe_of_error (readToName_error (.withCapacity capacity) h hk he)
    fun r => r.recordResult_ofTokenError (errorsFit_nextToken (behind k s) e he)

end Describe

/-- The first answer that is no leading token is a name, and from there to another only closing
parentheses stand. -/
structure NameThen (capacity : Nat) (s : ByteStream) (k : Nat) (name : String) (m : Nat) :
    Prop where
  leading : ∀ i < k, IsLeading (answer s i)
  room : k ≤ capacity
  named : answer s k = .ok (.identifier name)
  later : k < m
  closing : ∀ j, k < j → j < m → answer s j = .ok (.punctuation .rightParen)

namespace NameThen

variable {capacity k m : Nat} {s : ByteStream} {name : String} {report : Option Report}

theorem readToName (h : NameThen capacity s k name m) :
    ∃ stack, readToName (.withCapacity capacity) s = (.ok (name, stack), behind (k + 1) s) :=
  readToName_name (.withCapacity capacity) h.leading h.room h.named

theorem exists_closing (h : NameThen capacity s k name m) :
    ∃ n, m = k + 1 + n ∧
      ∀ i < n, answer (behind (k + 1) s) i = .ok (.punctuation .rightParen) := by
  obtain ⟨n, rfl⟩ := Nat.exists_eq_add_of_le h.later
  refine ⟨n, rfl, fun i hi => ?_⟩
  rw [answer_behind]
  exact h.closing _ (by omega) (by omega)

theorem describe_of_error {e : TokenError} (h : NameThen capacity s k name m)
    (he : answer s m = .error e) :
    describe capacity s .unbounded report =
      .failed report (.ofTokenError e) (Text.utf8 (name ++ ":")) (behind (m + 1) s) := by
  obtain ⟨stack, hname⟩ := h.readToName
  obtain ⟨n, rfl, hclosing⟩ := h.exists_closing
  have herror := readClosing_error hclosing ((answer_behind _ _ s).trans he) 0
  rw [← behind_add] at herror
  exact describe_of_behindName_error hname herror rfl
    fun r => r.recordResult_ofTokenError (errorsFit_nextToken (behind _ s) e he)

theorem readClosing_of_ok {t : Token} (h : NameThen capacity s k name m)
    (ht : answer s m = .ok t) (hother : t ≠ .punctuation .rightParen) :
    ∃ closing, readClosing 0 (behind (k + 1) s) = (.ok (closing, t), behind (m + 1) s) := by
  obtain ⟨n, rfl, hclosing⟩ := h.exists_closing
  have hread := readClosing_other hclosing ((answer_behind _ _ s).trans ht) hother 0
  rw [← behind_add] at hread
  exact ⟨_, hread⟩

theorem describe_of_other {t : Token} (h : NameThen capacity s k name m)
    (ht : answer s m = .ok t) (hother : t ≠ .punctuation .rightParen)
    (hsemicolon : t ≠ .punctuation .semicolon) :
    describe capacity s .unbounded report =
      .failed report
        ⟨.ok, "", .malformed, "incomplete declaration for identifier `" ++ name ++ "`"⟩
        (Text.utf8 (name ++ ":")) (behind (m + 1) s) := by
  obtain ⟨stack, hname⟩ := h.readToName
  obtain ⟨closing, hread⟩ := h.readClosing_of_ok ht hother
  have htoken := nextToken_behind s k
  rw [h.named] at htoken
  exact describe_of_behindName_error hname hread (behindName_of_other hsemicolon)
    fun r => r.recordResult_malformed (SyntaxError.incomplete_fits (utf8ByteSize_of_nextToken htoken))

theorem rest_describe (h : NameThen capacity s k name m)
    (ht : answer s m = .ok (.punctuation .semicolon)) :
    (describe capacity s .unbounded report).rest = behind (m + 1) s := by
  obtain ⟨stack, hname⟩ := h.readToName
  obtain ⟨closing, hread⟩ := h.readClosing_of_ok ht (by simp)
  rw [rest_describe_of_name hname, hread]

end NameThen

/-- A semicolon is the last byte that was used up when it is an answer. -/
theorem behind_of_semicolon {s : ByteStream} {m : Nat}
    (h : answer s m = .ok (.punctuation .semicolon)) :
    (behind (m + 1) s).held = none ∧
      ∃ before, s.events = before ++ .byte ';'.toUInt8 :: (behind (m + 1) s).unread := by
  have hread := nextToken_behind s m
  rw [h] at hread
  obtain ⟨hheld, before, hevents⟩ := nextToken_punctuation hread (by decide)
  obtain ⟨earlier, hearlier⟩ := behind_suffix m s
  exact ⟨hheld, earlier ++ before, by rw [← hearlier, hevents, List.append_assoc]; rfl⟩

/-- Behind a name the first answer that is no closing parenthesis decides. -/
theorem describe_behind_name {capacity k : Nat} {s : ByteStream} {name : String}
    {report : Option Report} (hleading : ∀ i < k, IsLeading (answer s i)) (hroom : k ≤ capacity)
    (hname : answer s k = .ok (.identifier name)) :
    ∃ m, IsLeast {j | k < j ∧ answer s j ≠ .ok (.punctuation .rightParen)} m ∧
      match answer s m with
      | .error e =>
        describe capacity s .unbounded report =
          .failed report (.ofTokenError e) (Text.utf8 (name ++ ":")) (behind (m + 1) s)
      | .ok (.punctuation .semicolon) =>
        (describe capacity s .unbounded report).rest = behind (m + 1) s ∧
          (behind (m + 1) s).held = none ∧
          ∃ before, s.events = before ++ .byte ';'.toUInt8 :: (behind (m + 1) s).unread
      | .ok _ =>
        describe capacity s .unbounded report =
          .failed report
            ⟨.ok, "", .malformed, "incomplete declaration for identifier `" ++ name ++ "`"⟩
            (Text.utf8 (name ++ ":")) (behind (m + 1) s) := by
  -- The parentheses come to an end, since no stream has tokens without end.
  obtain ⟨n, e, herror⟩ := exists_answer_error (behind (k + 1) s)
  rw [answer_behind] at herror
  have hother : {j | k < j ∧ answer s j ≠ .ok (.punctuation .rightParen)}.Nonempty :=
    ⟨k + 1 + n, by omega, by simp [herror]⟩
  obtain ⟨m, hm, hleast⟩ : ∃ m, IsLeast _ m := ⟨_, isLeast_csInf hother⟩
  have hthen : NameThen capacity s k name m := by
    refine ⟨hleading, hroom, hname, hm.1, fun j hj hjm => ?_⟩
    by_contra hnot
    exact Nat.not_le_of_lt hjm (hleast ⟨hj, hnot⟩)
  refine ⟨m, ⟨hm, hleast⟩, ?_⟩
  have hparen := hm.2
  split
  · rename_i e he
    exact hthen.describe_of_error he
  · rename_i ht
    exact ⟨hthen.rest_describe ht, behind_of_semicolon ht⟩
  · rename_i t hsemicolon ht
    rw [ht] at hparen
    exact hthen.describe_of_other ht (fun h => hparen (h ▸ rfl)) fun h => hsemicolon (h ▸ rfl)

/-- The first answer that is no leading token decides, if it is found before the stack is full.
Behind a name the first answer that is no closing parenthesis does. Nothing is read behind the
answer that decides. -/
theorem describe_outcome (capacity : Nat) (s : ByteStream) (report : Option Report) :
    ((∀ i ≤ capacity, IsLeading (answer s i)) →
      describe capacity s .unbounded report =
        .failed report ⟨.ok, "", .tooManyTokens, ""⟩ [] (behind (capacity + 1) s)) ∧
    ((∃ i ≤ capacity, ¬ IsLeading (answer s i)) →
      ∃ k ≤ capacity, IsLeast {i | ¬ IsLeading (answer s i)} k ∧
        match answer s k with
        | .error e =>
          describe capacity s .unbounded report =
            .failed report (.ofTokenError e) [] (behind (k + 1) s)
        | .ok (.identifier name) =>
          ∃ m, IsLeast {j | k < j ∧ answer s j ≠ .ok (.punctuation .rightParen)} m ∧
            match answer s m with
            | .error e =>
              describe capacity s .unbounded report =
                .failed report (.ofTokenError e) (Text.utf8 (name ++ ":")) (behind (m + 1) s)
            | .ok (.punctuation .semicolon) =>
              (describe capacity s .unbounded report).rest = behind (m + 1) s ∧
                (behind (m + 1) s).held = none ∧
                ∃ before, s.events = before ++ .byte ';'.toUInt8 :: (behind (m + 1) s).unread
            | .ok _ =>
              describe capacity s .unbounded report =
                .failed report
                  ⟨.ok, "", .malformed, "incomplete declaration for identifier `" ++ name ++ "`"⟩
                  (Text.utf8 (name ++ ":")) (behind (m + 1) s)
        | .ok _ => False) := by
  refine ⟨describe_of_leading, fun hsome => ?_⟩
  obtain ⟨i, hi, hother⟩ := hsome
  have hnonempty : {i | ¬ IsLeading (answer s i)}.Nonempty := ⟨i, hother⟩
  obtain ⟨k, hk, hleast⟩ : ∃ k, IsLeast _ k := ⟨_, isLeast_csInf hnonempty⟩
  have hleading : ∀ i < k, IsLeading (answer s i) := by
    intro i hi
    by_contra hnot
    exact Nat.not_le_of_lt hi (hleast hnot)
  have hroom : k ≤ capacity := (hleast hother).trans hi
  refine ⟨k, hroom, ⟨hk, hleast⟩, ?_⟩
  cases hanswer : answer s k with
  | error e => exact describe_of_answer_error hleading hroom hanswer
  | ok t =>
    cases t with
    | identifier name => exact describe_behind_name hleading hroom hanswer
    | _ => exact hk ⟨_, hanswer, fun _ => Token.noConfusion⟩

end CDeclarations
