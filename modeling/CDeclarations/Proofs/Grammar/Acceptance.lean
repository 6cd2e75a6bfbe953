import CDeclarations.Proofs.Grammar.Answers
import CDeclarations.Proofs.Grammar.Unwind

namespace CDeclarations

/-- A reading succeeds when its three phases do: up to the name, up to the semicolon, and the
tokens that were kept taken off the stack. -/
theorem readDeclaration_eq_ok_iff_phases {capacity : Nat} {s rest : ByteStream}
    {declaration : Declaration} {said : List UInt8} :
    readDeclaration capacity s .unbounded = ⟨.ok declaration, said, rest, .unbounded⟩ ↔
      ∃ name stack between closing phrases,
        readToName (.withCapacity capacity) s = (.ok (name, stack), between) ∧
        readClosing 0 between = (.ok (closing, .punctuation .semicolon), rest) ∧
        unwind name closing stack.tokens = (phrases, .ok declaration) ∧
        said = Phrase.bytes (.name name :: phrases) := by
  unfold readDeclaration
  constructor
  · intro h
    split at h
    · cases h
    · rename_i name stack between hname
      simp only [Sink.write_unbounded, Bool.not_true, Bool.false_eq_true, if_false] at h
      split at h
      · cases h
      · rename_i closing token after hclosing
        split at h
        · cases h
        · rename_i hsemicolon
          obtain rfl : token = .punctuation .semicolon := not_not.mp hsemicolon
          cases hunwind : unwind name closing stack.tokens with
          | mk phrases result =>
            rw [hunwind] at h
            cases result with
            | error e => cases h
            | ok found =>
              simp only [if_true, Except.mapError, DeclarationReading.mk.injEq, Except.ok.injEq,
                and_true] at h
              obtain ⟨rfl, hsaid, rfl⟩ := h
              refine ⟨name, stack, between, closing, phrases, hname, hclosing, hunwind, ?_⟩
              rw [← hsaid]
              simp
  · intro h
    obtain ⟨name, stack, between, closing, phrases, hname, hclosing, hunwind, rfl⟩ := h
    simp [hname, hclosing, hunwind, Except.mapError]

/-- A reading that succeeds has found a declaration of the grammar, and says it. -/
theorem readDeclaration_eq_ok_iff {capacity : Nat} {s rest : ByteStream}
    {declaration : Declaration} {said : List UInt8} :
    readDeclaration capacity s .unbounded = ⟨.ok declaration, said, rest, .unbounded⟩ ↔
      ∃ d : Derivation, ReadsOff s d.tokens rest ∧ d.front.length ≤ capacity ∧
        declaration = d.declaration ∧ said = Text.utf8 d.declaration.sentence := by
  rw [readDeclaration_eq_ok_iff_phases]
  constructor
  · intro h
    obtain ⟨name, stack, between, closing, phrases, hname, hclosing, hunwind, rfl⟩ := h
    obtain ⟨tokens, hread, hnames, hroom, rfl⟩ := readToName_eq_ok_iff.mp hname
    obtain ⟨k, hk, hreadClosing, -⟩ := readClosing_eq_ok_iff.mp hclosing
    simp only [TokenStack.tokens_withCapacity, List.append_nil] at hunwind
    obtain ⟨d, rfl, rfl, hdepth, rfl, hphrases⟩ := unwind_eq_ok_iff.mp hunwind
    have hclosings : d.declarator.depth = k := hdepth.trans (hk.trans (Nat.zero_add k))
    refine ⟨d, ?_, hroom, rfl, ?_⟩
    · rw [d.tokens_eq, hclosings]
      exact readsOff_append.mpr ⟨between, hread, hreadClosing⟩
    · rw [hphrases, Declaration.bytes_phrases]
  · intro h
    obtain ⟨d, hread, hroom, rfl, rfl⟩ := h
    rw [d.tokens_eq] at hread
    obtain ⟨between, hfront, hbehind⟩ := readsOff_append.mp hread
    obtain ⟨phrases, hphrases⟩ : ∃ phrases, .name d.declarator.word :: phrases =
        d.declaration.phrases := ⟨_, rfl⟩
    refine ⟨d.declarator.word, _, between, d.declarator.depth, phrases,
      readToName_eq_ok_iff.mpr ⟨d.front, hfront, d.identifier_notMem_front, hroom, rfl⟩,
      readClosing_eq_ok_iff.mpr ⟨d.declarator.depth, (Nat.zero_add _).symm, hbehind, by simp⟩,
      ?_, ?_⟩
    · rw [TokenStack.tokens_withCapacity, List.append_nil]
      exact unwind_eq_ok_iff.mpr ⟨d, rfl, rfl, rfl, rfl, hphrases⟩
    · rw [hphrases, Declaration.bytes_phrases]

theorem readDeclaration_sink_unbounded (capacity : Nat) (s : ByteStream) :
    (readDeclaration capacity s .unbounded).sink = .unbounded := by
  unfold readDeclaration
  split
  · rfl
  · simp only [Sink.write_unbounded, Bool.not_true, Bool.false_eq_true, if_false]
    split
    · rfl
    · split <;> rfl

theorem exists_derivation {capacity : Nat} {s : ByteStream} {declaration : Declaration}
    (h : (readDeclaration capacity s .unbounded).result = .ok declaration) :
    ∃ d : Derivation, ReadsOff s d.tokens (readDeclaration capacity s .unbounded).rest ∧
      d.front.length ≤ capacity ∧ declaration = d.declaration ∧
      (readDeclaration capacity s .unbounded).said = Text.utf8 d.declaration.sentence := by
  have hsink := readDeclaration_sink_unbounded capacity s
  cases hreading : readDeclaration capacity s .unbounded with
  | mk result said rest sink =>
    rw [hreading] at h hsink
    obtain rfl : result = .ok declaration := h
    obtain rfl : sink = .unbounded := hsink
    exact readDeclaration_eq_ok_iff.mp hreading

theorem Report.status_recordResult_eq_ok_iff (r : Report)
    (result : Except DeclarationError Declaration) :
    (r.recordResult result).status = .ok ↔ ∃ d, result = .ok d := by
  cases result with
  | ok d => simp [recordResult, record]
  | error e =>
    cases e with
    | malformed cause =>
      simp only [recordResult, record, reduceCtorEq, exists_false, iff_false]
      split <;> simp
    | _ => simp [recordResult, record]

/-- The tokens of a declaration end with the byte of its semicolon. -/
theorem ReadsOff.behind_semicolon {s rest : ByteStream} {d : Derivation} {bytes : List UInt8}
    (h : ReadsOff s d.tokens rest) (hs : s.events = bytes.map .byte) :
    ∃ before left, bytes = before ++ ';'.toUInt8 :: left ∧ rest.events = left.map .byte := by
  obtain ⟨between, hinner, hlast⟩ := readsOff_append.mp h
  obtain ⟨next, hnext, hrest⟩ := readsOff_cons.mp hlast
  obtain rfl := readsOff_nil.mp hrest
  obtain ⟨after, hsuffix, hafter⟩ := hinner.suffix hs
  obtain ⟨left, htoken, hleft⟩ := token_of_nextToken hafter hnext
  have hbehind := (gapThen_dropGap after).suffix.trans hsuffix
  rw [LongestMatch.token_eq_punctuation htoken] at hbehind
  obtain ⟨before, hbefore⟩ := hbehind
  exact ⟨before, left, hbefore.symm, hleft⟩

/-- A declaration is accepted exactly when the tokens begin with one of the grammar that has no
more tokens in front of its name than there is room for. It is then said in English, and the bytes
left are those behind its semicolon. -/
theorem describe_ok_iff_derivation (capacity : Nat) (bytes : List UInt8) (report : Option Report) :
    ((describe capacity (.ofBytes bytes) .unbounded report).status = .ok ↔
      ∃ (d : Derivation) (rest : ByteStream),
        ReadsOff (.ofBytes bytes) d.tokens rest ∧ d.front.length ≤ capacity) ∧
    ∀ (d : Derivation) (rest : ByteStream),
      ReadsOff (.ofBytes bytes) d.tokens rest → d.front.length ≤ capacity →
      (describe capacity (.ofBytes bytes) .unbounded report).said =
          Text.utf8 d.declaration.sentence ∧
        (describe capacity (.ofBytes bytes) .unbounded report).rest = rest ∧
        ∃ before left, bytes = before ++ ';'.toUInt8 :: left ∧ rest.events = left.map .byte := by
  refine ⟨?_, fun d rest hread hroom => ?_⟩
  · rw [describe, Report.status_recordResult_eq_ok_iff]
    constructor
    · intro h
      obtain ⟨declaration, hresult⟩ := h
      obtain ⟨d, hread, hroom, -, -⟩ := exists_derivation hresult
      exact ⟨d, _, hread, hroom⟩
    · intro h
      obtain ⟨d, rest, hread, hroom⟩ := h
      exact ⟨d.declaration, by
        rw [readDeclaration_eq_ok_iff.mpr ⟨d, hread, hroom, rfl, rfl⟩]⟩
  · have hreading := readDeclaration_eq_ok_iff.mpr ⟨d, hread, hroom, rfl, rfl⟩
    rw [describe, hreading]
    exact ⟨rfl, rfl, hread.behind_semicolon (ByteStream.events_ofBytes bytes)⟩

example : (describe 6 (.ofBytes (Text.utf8 "unsigned char *const (*p); q")) .unbounded none).said =
    Text.utf8 "p: pointer to const pointer to unsigned char\n" := by cbv

end CDeclarations
