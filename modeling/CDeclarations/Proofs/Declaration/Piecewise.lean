import CDeclarations.Proofs.Declaration.Limit
import CDeclarations.Proofs.Grammar.Declarator

namespace CDeclarations

/-- What is said into a sink step by step: what the sink took, and what came of it. -/
abbrev Saying (α : Type) := Sink → Written × Except DeclarationError α

namespace Saying

variable {α β : Type}

/-- Comes to its end without a word. -/
def silent (result : Except DeclarationError α) : Saying α := fun sink => (⟨[], sink, true⟩, result)

/-- Writes a phrase. That not all of it is taken is an error. -/
def phrase (cutting : Cutting) (p : Phrase) : Saying Unit := fun sink =>
  let written := sink.writeAll (cutting.pieces (Text.utf8 p.text))
  (written, if written.complete then .ok () else .error .outputFailed)

/-- Goes on behind a success and stops at an error. -/
def andThen (first : Saying α) (second : α → Saying β) : Saying β := fun sink =>
  match first sink with
  | (written, .error e) => (written, .error e)
  | (written, .ok a) =>
    let (later, result) := second a written.sink
    (⟨written.taken ++ later.taken, later.sink, later.complete⟩, result)

/-- Writes all phrases at once and then comes to its end. -/
def atOnce (phrases : List Phrase) (result : Except DeclarationError α) : Saying α := fun sink =>
  let written := sink.write (Phrase.bytes phrases)
  (written, if written.complete then result else .error .outputFailed)

theorem silent_eq (result : Except DeclarationError α) : silent result = atOnce [] result := by
  funext sink
  rw [silent, atOnce, Phrase.bytes_nil, Sink.write_nil]
  rfl

theorem phrase_eq (cutting : Cutting) (p : Phrase) : phrase cutting p = atOnce [p] (.ok ()) := by
  have hbytes : Phrase.bytes [p] = Text.utf8 p.text := List.append_nil _
  funext sink
  rw [phrase, atOnce, cutting.writeAll_pieces, hbytes]

section Sequence

variable {phrases : List Phrase} {sink : Sink} {second : α → Saying β}

theorem andThen_of_error {first : Saying α} {written : Written} {e : DeclarationError}
    (h : first sink = (written, .error e)) : first.andThen second sink = (written, .error e) := by
  rw [andThen, h]

theorem andThen_of_ok {first : Saying α} {written : Written} {a : α}
    (h : first sink = (written, .ok a)) :
    first.andThen second sink =
      let later := second a written.sink
      (⟨written.taken ++ later.1.taken, later.1.sink, later.1.complete⟩, later.2) := by
  rw [andThen, h]

theorem atOnce_of_complete (result : Except DeclarationError α)
    (h : (sink.write (Phrase.bytes phrases)).complete = true) :
    atOnce phrases result sink = (sink.write (Phrase.bytes phrases), result) := by
  rw [atOnce, if_pos h]

theorem atOnce_of_not_complete (result : Except DeclarationError α)
    (h : (sink.write (Phrase.bytes phrases)).complete = false) :
    atOnce phrases result sink = (sink.write (Phrase.bytes phrases), .error .outputFailed) := by
  rw [atOnce, h, if_neg Bool.false_ne_true]

/-- Behind an error, and behind a loss, nothing more is said. -/
theorem atOnce_error_andThen (phrases : List Phrase) (e : DeclarationError) :
    (atOnce phrases (.error e)).andThen second = atOnce phrases (.error e) := by
  funext sink
  cases hfirst : (sink.write (Phrase.bytes phrases)).complete with
  | false =>
    rw [atOnce_of_not_complete _ hfirst, andThen_of_error (atOnce_of_not_complete _ hfirst)]
  | true => rw [atOnce_of_complete _ hfirst, andThen_of_error (atOnce_of_complete _ hfirst)]

/-- Phrases that are said at once, and then others, might as well all be said at once. -/
theorem atOnce_ok_andThen (phrases : List Phrase) {a : α} {later : List Phrase}
    {result : Except DeclarationError β} (h : second a = atOnce later result) :
    (atOnce phrases (.ok a)).andThen second = atOnce (phrases ++ later) result := by
  funext sink
  cases hfirst : (sink.write (Phrase.bytes phrases)).complete with
  | false =>
    rw [andThen_of_error (atOnce_of_not_complete _ hfirst), atOnce, Phrase.bytes_append,
      Sink.write_append_of_not_complete hfirst, hfirst, if_neg Bool.false_ne_true]
  | true =>
    rw [andThen_of_ok (atOnce_of_complete _ hfirst), h, atOnce, atOnce, Phrase.bytes_append,
      Sink.write_append hfirst]

/-- A phrase that is cut into pieces might as well be said with all that comes behind it. -/
theorem phrase_andThen (cutting : Cutting) (p : Phrase) {second : Unit → Saying β}
    {later : List Phrase} {result : Except DeclarationError β}
    (h : second () = atOnce later result) :
    (phrase cutting p).andThen second = atOnce (p :: later) result := by
  rw [phrase_eq, atOnce_ok_andThen [p] h, List.singleton_append]

theorem atOnce_andThen_silent (phrases : List Phrase) (result : Except DeclarationError α)
    (f : α → β) :
    (atOnce phrases result).andThen (fun a => silent (.ok (f a))) =
      atOnce phrases (result.map f) := by
  cases result with
  | error e => exact atOnce_error_andThen phrases e
  | ok a =>
    have hall : (atOnce phrases (.ok a)).andThen (fun a => silent (.ok (f a))) =
        atOnce (phrases ++ []) (.ok (f a)) := atOnce_ok_andThen phrases (silent_eq _)
    rw [hall, List.append_nil]
    rfl

end Sequence

end Saying

section Unwinding

variable (cutting : Cutting)

/-- Takes the pointers off the tokens in front of a name as `unwindPointers` does, and says each of
them when its asterisk is met. -/
def sayPointers (right : Nat) :
    Nat → Qualifiers → List Token → Saying (List Qualifiers × Qualifiers × List Token)
  | _, _, [] => .silent (.error (.malformed .outOfTokens))
  | left, found, .qualifier word :: tokens =>
    match found.insert? word with
    | none => .silent (.error (.malformed (.duplicateQualifier word .pointer)))
    | some found => sayPointers right left found tokens
  | left, found, .punctuation .leftParen :: tokens =>
    if found.isEmpty then sayPointers right (left + 1) found tokens
    else .silent (.error (.malformed (.unexpectedToken (.punctuation .leftParen) .pointers)))
  | left, found, .punctuation .asterisk :: tokens =>
    (Saying.phrase cutting (.pointer found)).andThen fun _ =>
      (sayPointers right left .empty tokens).andThen fun later =>
        .silent (.ok (found :: later.1, later.2))
  | left, found, token :: tokens =>
    if !found.isEmpty && !(token.isType || token.isSign) then
      .silent (.error (.malformed (.unexpectedToken token .pointers)))
    else if left ≠ right then .silent (.error (.malformed (.unbalancedParens left right)))
    else .silent (.ok ([], found, token :: tokens))

/-- Says the sign of a type, if there is one and the type may have one. -/
def saySign (specifier : TypeSpecifier) : Option Sign → Saying Unit
  | none => .silent (.ok ())
  | some word =>
    if specifier.isIntegral then .phrase cutting (.sign word)
    else .silent (.error (.malformed (.invalidSign word specifier)))

/-- Says the qualifiers of a type, its sign, and the type. -/
def sayType (name : String) (known : Specifiers) : Saying BaseType :=
  match known.type with
  | none => .silent (.error (.malformed (.missingType name)))
  | some specifier =>
    (Saying.phrase cutting (.qualifiers known.qualifiers)).andThen fun _ =>
      (saySign cutting specifier known.sign).andThen fun _ =>
        (Saying.phrase cutting (.type specifier)).andThen fun _ =>
          .silent (.ok ⟨known.qualifiers, known.sign, specifier⟩)

/-- Says pointers and type of a declaration while it is read from its name outwards. -/
def sayUnwound (name : String) (right : Nat) (tokens : List Token) : Saying Declaration :=
  (sayPointers cutting right 0 .empty tokens).andThen fun (pointers, found, tokens) =>
    match tokens.foldlM (Specifiers.add name) ⟨found, none, none⟩ with
    | .error e => .silent (.error (.malformed e))
    | .ok known =>
      (sayType cutting name known).andThen fun base => .silent (.ok ⟨name, pointers, base⟩)

/-- Reads one declaration and says each part of it when it is understood, with a write of its own
for each. -/
def sayDeclaration (capacity : Nat) (s : ByteStream) (sink : Sink) : DeclarationReading :=
  match readToName (.withCapacity capacity) s with
  | (.error e, rest) => ⟨.error e, [], rest, sink⟩
  | (.ok (name, stack), rest) =>
    match Saying.phrase cutting (.name name) sink with
    | (head, .error e) => ⟨.error e, head.taken, rest, head.sink⟩
    | (head, .ok ()) =>
      match readClosing 0 rest with
      | (.error e, rest) => ⟨.error e, head.taken, rest, head.sink⟩
      | (.ok (closing, token), rest) =>
        if token ≠ .punctuation .semicolon then
          ⟨.error (.malformed (.incomplete name)), head.taken, rest, head.sink⟩
        else
          let (tail, result) := sayUnwound cutting name closing stack.tokens head.sink
          ⟨result, head.taken ++ tail.taken, rest, tail.sink⟩

theorem sayPointers_eq (right left : Nat) (found : Qualifiers) (tokens : List Token) :
    sayPointers cutting right left found tokens =
      let unwound := unwindPointers right left found tokens
      .atOnce (unwound.1.map .pointer)
        ((unwound.2.mapError .malformed).map fun behind => (unwound.1, behind)) := by
  fun_induction unwindPointers right left found tokens with
  | case1 => exact Saying.silent_eq _
  | case2 left found word tokens hinsert =>
    rw [sayPointers, hinsert]
    exact Saying.silent_eq _
  | case3 left found word tokens inserted hinsert ih =>
    rw [sayPointers, hinsert]
    exact ih
  | case4 left found tokens hempty ih =>
    rw [sayPointers, if_pos hempty]
    exact ih
  | case5 left found tokens hempty =>
    rw [sayPointers, if_neg hempty]
    exact Saying.silent_eq _
  | case6 left found tokens pointers result hunwind ih =>
    rw [hunwind] at ih
    rw [sayPointers]
    apply Saying.phrase_andThen
    rw [ih, Saying.atOnce_andThen_silent]
    cases result with
    | error e => rfl
    | ok behind => rfl
  | case7 left found token tokens hqualifier hparen hasterisk hunexpected =>
    rw [sayPointers.eq_5 _ _ _ _ _ _ hqualifier hparen hasterisk, if_pos hunexpected]
    exact Saying.silent_eq _
  | case8 left found token tokens hqualifier hparen hasterisk hexpected hcount =>
    rw [sayPointers.eq_5 _ _ _ _ _ _ hqualifier hparen hasterisk, if_neg hexpected, if_pos hcount]
    exact Saying.silent_eq _
  | case9 left found token tokens hqualifier hparen hasterisk hexpected hcount =>
    rw [sayPointers.eq_5 _ _ _ _ _ _ hqualifier hparen hasterisk, if_neg hexpected, if_neg hcount]
    exact Saying.silent_eq _

theorem sayType_eq (name : String) (known : Specifiers) :
    sayType cutting name known =
      .atOnce (known.conclude name).1 ((known.conclude name).2.mapError .malformed) := by
  obtain ⟨qualifiers, sign, type⟩ := known
  cases type with
  | none => exact Saying.silent_eq _
  | some specifier =>
    have htype : ((Saying.phrase cutting (.type specifier)).andThen fun _ =>
        .silent (.ok (⟨qualifiers, sign, specifier⟩ : BaseType))) =
          .atOnce [.type specifier] (.ok ⟨qualifiers, sign, specifier⟩) :=
      Saying.phrase_andThen cutting _ (Saying.silent_eq _)
    rw [sayType]
    cases sign with
    | none =>
      apply Saying.phrase_andThen
      rw [saySign, Saying.silent_eq]
      exact Saying.atOnce_ok_andThen [] htype
    | some word =>
      by_cases hintegral : specifier.isIntegral
      · rw [Specifiers.conclude_of_isIntegral hintegral]
        apply Saying.phrase_andThen
        rw [saySign, if_pos hintegral]
        exact Saying.phrase_andThen cutting _ htype
      · rw [Specifiers.conclude_of_not_isIntegral hintegral]
        apply Saying.phrase_andThen
        rw [saySign, if_neg hintegral, Saying.silent_eq]
        exact Saying.atOnce_error_andThen _ _

theorem sayUnwound_eq (name : String) (right : Nat) (tokens : List Token) :
    sayUnwound cutting name right tokens =
      .atOnce (unwind name right tokens).1 ((unwind name right tokens).2.mapError .malformed) := by
  unfold sayUnwound unwind
  rw [sayPointers_eq]
  cases hpointers : unwindPointers right 0 .empty tokens with
  | mk pointers outcome =>
    cases outcome with
    | error e => exact Saying.atOnce_error_andThen _ _
    | ok behind =>
      obtain ⟨found, rest⟩ := behind
      apply Saying.atOnce_ok_andThen
      dsimp only
      unfold unwindBase
      cases hknown : rest.foldlM (Specifiers.add name) ⟨found, none, none⟩ with
      | error e => exact Saying.silent_eq _
      | ok known =>
        dsimp only
        rw [sayType_eq, Saying.atOnce_andThen_silent]
        cases (known.conclude name).2 with
        | error e => rfl
        | ok base => rfl

/-- With a write for each part, cut into whatever pieces, a declaration is read and said as it is
with one write for all that is said behind the name. -/
theorem sayDeclaration_eq (capacity : Nat) (s : ByteStream) (sink : Sink) :
    sayDeclaration cutting capacity s sink = readDeclaration capacity s sink := by
  unfold sayDeclaration readDeclaration
  cases readToName (.withCapacity capacity) s with
  | mk outcome between =>
    rcases outcome with e | ⟨name, stack⟩
    · rfl
    · dsimp only
      rw [Saying.phrase_eq]
      cases hhead : (sink.write (Phrase.bytes [.name name])).complete with
      | false =>
        rw [Saying.atOnce_of_not_complete _ hhead]
        rfl
      | true =>
        rw [Saying.atOnce_of_complete _ hhead]
        dsimp only
        cases readClosing 0 between with
        | mk outcome rest =>
          rcases outcome with e | ⟨closing, token⟩
          · rfl
          · by_cases htoken : token = .punctuation .semicolon
            · simp only [htoken, sayUnwound_eq, Saying.atOnce]
              rfl
            · dsimp only
              rw [if_pos htoken, if_pos htoken]
              rfl

end Unwinding

end CDeclarations
