import CDeclarations.Proofs.Grammar.Declarator
import CDeclarations.Proofs.Malformed.Flaw
import CDeclarations.Proofs.Malformed.Message
import CDeclarations.Proofs.Malformed.Statement
import Mathlib.Data.List.DropRight

namespace CDeclarations

/-- What may stand between a type and a name: qualifiers, asterisks and opening parentheses. -/
def Token.isPointerPart : Token → Bool
  | .qualifier _ | .punctuation .asterisk | .punctuation .leftParen => true
  | _ => false

/-- The qualifiers that tokens begin with. -/
def leadingQualifiers : List Token → List Qualifier
  | .qualifier word :: tokens => word :: leadingQualifiers tokens
  | _ => []

/-- The pointers among tokens, the rightmost first, with the qualifiers directly to the right of
each. -/
def pointersOf : List Token → List Qualifiers
  | [] => []
  | .punctuation .asterisk :: right => pointersOf right ++ [.ofList (leadingQualifiers right)]
  | _ :: right => pointersOf right

/-- What can be wrong with the pointers: a qualifier that is given twice for one of them, or that
stands directly behind a parenthesis. -/
inductive PointerFlaw : FlawRule
  | duplicate {word : Qualifier} {right : List Token} :
      .qualifier word ∈ right.takeWhile (· ≠ .punctuation .asterisk) →
      PointerFlaw (.qualifier word) right (.duplicateQualifier word .pointer)
  | paren {word : Qualifier} {right : List Token} :
      PointerFlaw (.punctuation .leftParen) (.qualifier word :: right)
        (.unexpectedToken (.punctuation .leftParen) .pointers)

section Chain

variable {chain tokens : List Token} {right left : Nat} {e : SyntaxError}

theorem leadingQualifiers_eq_nil_of_flawless
    (h : Flawless PointerFlaw (.punctuation .leftParen :: tokens)) :
    leadingQualifiers tokens = [] := by
  unfold leadingQualifiers
  split
  · exact absurd .paren ((flawless_cons.mp h).1 _)
  · rfl

/-- Between a token and the next asterisk there are no qualifiers but those directly to its right,
if nothing is wrong with the parentheses. -/
theorem mem_takeWhile_iff (hchain : ∀ t ∈ chain, t.isPointerPart) (h : Flawless PointerFlaw chain)
    {word : Qualifier} :
    .qualifier word ∈ chain.takeWhile (· ≠ .punctuation .asterisk) ↔
      word ∈ leadingQualifiers chain := by
  induction chain with
  | nil => simp [leadingQualifiers]
  | cons token chain ih =>
    obtain ⟨htoken, hlater⟩ := List.forall_mem_cons.mp hchain
    have ih := ih hlater (flawless_cons.mp h).2
    cases token with
    | qualifier other =>
      rw [leadingQualifiers, List.mem_cons, ← ih]
      simp
    | punctuation mark =>
      cases mark with
      | asterisk => simp [leadingQualifiers]
      | leftParen =>
        rw [leadingQualifiers_eq_nil_of_flawless h] at ih
        simpa [leadingQualifiers] using ih
      | _ => simp [Token.isPointerPart] at htoken
    | _ => simp [Token.isPointerPart] at htoken

/-- Tokens with which nothing is wrong are taken for what they are: pointers, parentheses, and the
qualifiers that are left for what stands in front of them. -/
theorem unwindPointers_flawless (hchain : ∀ t ∈ chain, t.isPointerPart)
    (h : Flawless PointerFlaw chain) (more : List Token) :
    unwindPointers right left .empty (chain.reverse ++ more) =
      let behind := unwindPointers right (left + chain.count (.punctuation .leftParen))
        (.ofList (leadingQualifiers chain)) more
      (pointersOf chain ++ behind.1, behind.2) := by
  -- The tokens are taken off from the right, so the first of `chain` is the last that is reached.
  induction chain generalizing more with
  | nil => rfl
  | cons token chain ih =>
    obtain ⟨htoken, hlater⟩ := List.forall_mem_cons.mp hchain
    obtain ⟨hfirst, hflawless⟩ := flawless_cons.mp h
    rw [List.reverse_cons, List.append_assoc, List.singleton_append, ih hlater hflawless]
    cases token with
    | qualifier word =>
      have hnew : word ∉ leadingQualifiers chain := fun hmem =>
        hfirst _ (.duplicate ((mem_takeWhile_iff hlater hflawless).mpr hmem))
      have hinsert : (Qualifiers.ofList (leadingQualifiers chain)).insert? word =
          some (.ofList (word :: leadingQualifiers chain)) :=
        Qualifiers.insert?_ofList_eq_some_iff.mpr ⟨hnew, rfl⟩
      simp [unwindPointers, hinsert, leadingQualifiers, pointersOf]
    | punctuation mark =>
      cases mark with
      | asterisk => simp [unwindPointers, leadingQualifiers, pointersOf]
      | leftParen =>
        have hnone := leadingQualifiers_eq_nil_of_flawless h
        have hempty : Qualifiers.empty.isEmpty = true := rfl
        simp [unwindPointers, hnone, hempty, leadingQualifiers, pointersOf, Nat.add_assoc]
      | _ => simp [Token.isPointerPart] at htoken
    | _ => simp [Token.isPointerPart] at htoken

/-- The rightmost token with which something is wrong ends the reading. -/
theorem unwindPointers_rightmostFlaw {later : List Token}
    (hchain : ∀ t ∈ chain, t.isPointerPart) (h : RightmostFlaw PointerFlaw chain later e)
    (more : List Token) :
    unwindPointers right left .empty (chain.reverse ++ more) = (pointersOf later, .error e) := by
  obtain ⟨⟨token, ⟨before, rfl⟩, hflaw⟩, hflawless⟩ := h
  have hlater : ∀ t ∈ later, t.isPointerPart := fun t ht =>
    hchain t (List.mem_append_right before (List.mem_cons_of_mem token ht))
  rw [List.reverse_append, List.reverse_cons, List.append_assoc, List.append_assoc,
    List.singleton_append, unwindPointers_flawless hlater hflawless]
  cases hflaw with
  | @duplicate word _ hmem =>
    have hfound := (mem_takeWhile_iff hlater hflawless).mp hmem
    have hinsert : (Qualifiers.ofList (leadingQualifiers later)).insert? word = none := by
      rw [Qualifiers.insert?, Qualifiers.contains_ofList, decide_eq_true hfound, if_pos rfl]
    simp [unwindPointers, hinsert]
  | @paren word right =>
    have hsome : (Qualifiers.ofList (word :: leadingQualifiers right)).isEmpty = false := by
      rw [Bool.eq_false_iff, ne_eq, Qualifiers.isEmpty_ofList]
      exact List.cons_ne_nil _ _
    simp [unwindPointers, leadingQualifiers, hsome]

/-- The first token from the right that is no part of the pointers. -/
theorem unwindPointers_stop {stop : Token} (hstop : ¬ stop.isPointerPart)
    (words : List Qualifier) (more : List Token) :
    unwindPointers right left (.ofList words) (stop :: more) =
      ([], if words ≠ [] ∧ ¬ (stop.isType ∨ stop.isSign) then
          .error (.unexpectedToken stop .pointers)
        else if left ≠ right then .error (.unbalancedParens left right)
        else .ok (.ofList words, stop :: more)) := by
  have hempty : (Qualifiers.ofList words).isEmpty = decide (words = []) :=
    Bool.eq_iff_iff.mpr (Qualifiers.isEmpty_ofList.trans decide_eq_true_iff.symm)
  have hpending : (!(Qualifiers.ofList words).isEmpty && !(stop.isType || stop.isSign)) = true ↔
      words ≠ [] ∧ ¬ (stop.isType ∨ stop.isSign) := by
    rw [hempty]
    simp
  have hqualifier : ∀ word, stop = .qualifier word → False := by
    rintro word rfl
    exact hstop rfl
  have hparen : stop = .punctuation .leftParen → False := by
    rintro rfl
    exact hstop rfl
  have hasterisk : stop = .punctuation .asterisk → False := by
    rintro rfl
    exact hstop rfl
  rw [unwindPointers.eq_5 _ _ _ _ _ hqualifier hparen hasterisk]
  simp only [hpending]
  split_ifs <;> rfl

end Chain

/-- The tokens of the type: all in front of a name up to the last that is no part of the
pointers. -/
def typeTokens (front : List Token) : List Token := front.rdropWhile Token.isPointerPart

/-- The tokens of the pointers, which stand between those of the type and the name. -/
def pointerTokens (front : List Token) : List Token := front.rtakeWhile Token.isPointerPart

section Front

variable {front : List Token} {closing : Nat} {e : SyntaxError}

theorem typeTokens_append_pointerTokens (front : List Token) :
    typeTokens front ++ pointerTokens front = front :=
  List.rdropWhile_append_rtakeWhile

theorem reverse_eq_pointerTokens_append (front : List Token) :
    front.reverse = (pointerTokens front).reverse ++ (typeTokens front).reverse := by
  rw [← List.reverse_append, typeTokens_append_pointerTokens]

theorem isPointerPart_of_mem (front : List Token) :
    ∀ t ∈ pointerTokens front, t.isPointerPart := fun _ => List.mem_rtakeWhile_imp

theorem not_isPointerPart_of_getLast? {stop : Token}
    (h : (typeTokens front).getLast? = some stop) : ¬ stop.isPointerPart := by
  obtain ⟨hne, rfl⟩ := List.mem_getLast?_eq_getLast h
  exact List.rdropWhile_last_not _ front hne

theorem unwindPointers_of_rightmostFlaw {later : List Token}
    (h : RightmostFlaw PointerFlaw (pointerTokens front) later e) :
    unwindPointers closing 0 .empty front.reverse = (pointersOf later, .error e) := by
  rw [reverse_eq_pointerTokens_append]
  exact unwindPointers_rightmostFlaw (isPointerPart_of_mem front) h _

/-- Pointers with which nothing is wrong still need a type in front of them, and as many opening
parentheses among them as closing ones behind the name. -/
def pointersFault? (front : List Token) (closing : Nat) : Option SyntaxError :=
  let opening := (pointerTokens front).count (.punctuation .leftParen)
  match (typeTokens front).getLast? with
  | none => some .outOfTokens
  | some stop =>
    if leadingQualifiers (pointerTokens front) ≠ [] ∧ ¬ (stop.isType ∨ stop.isSign) then
      some (.unexpectedToken stop .pointers)
    else if opening ≠ closing then some (.unbalancedParens opening closing)
    else none

theorem unwindPointers_of_flawless (closing : Nat)
    (h : Flawless PointerFlaw (pointerTokens front)) :
    unwindPointers closing 0 .empty front.reverse =
      (pointersOf (pointerTokens front),
        match pointersFault? front closing with
        | some e => .error e
        | none => .ok (.ofList (leadingQualifiers (pointerTokens front)),
            (typeTokens front).reverse)) := by
  rw [reverse_eq_pointerTokens_append, unwindPointers_flawless (isPointerPart_of_mem front) h,
    Nat.zero_add]
  cases hlast : (typeTokens front).getLast? with
  | none =>
    rw [List.getLast?_eq_none_iff.mp hlast]
    simp [unwindPointers, pointersFault?, hlast]
  | some stop =>
    have hstop := not_isPointerPart_of_getLast? hlast
    obtain ⟨more, hmore⟩ := List.getLast?_eq_some_iff.mp hlast
    rw [hmore, List.reverse_append, List.reverse_singleton, List.singleton_append,
      unwindPointers_stop hstop]
    simp only [pointersFault?, hlast]
    split_ifs <;> simp

/-- Where the pointers are all right, the rest of the tokens is taken from the last of the type
on. -/
theorem eq_of_unwindPointers_ok {stack : List Token} {pointers : List Qualifiers}
    {found : Qualifiers}
    (h : unwindPointers closing 0 .empty front.reverse = (pointers, .ok (found, stack))) :
    pointers = pointersOf (pointerTokens front) ∧
      found = .ofList (leadingQualifiers (pointerTokens front)) ∧
      stack = (typeTokens front).reverse := by
  rcases flawless_or_exists_rightmostFlaw PointerFlaw (pointerTokens front) with
    hflawless | ⟨later, e, hflaw⟩
  · rw [unwindPointers_of_flawless _ hflawless] at h
    cases hfault : pointersFault? front closing with
    | some e =>
      rw [hfault] at h
      cases h
    | none =>
      rw [hfault] at h
      cases h
      exact ⟨rfl, rfl, rfl⟩
  · rw [unwindPointers_of_rightmostFlaw hflaw] at h
    cases h

end Front

theorem unwind_of_pointers_error {name : String} {closing : Nat} {tokens : List Token}
    {pointers : List Qualifiers} {e : SyntaxError}
    (h : unwindPointers closing 0 .empty tokens = (pointers, .error e)) :
    unwind name closing tokens = (pointers.map .pointer, .error e) := by
  rw [unwind, h]

theorem unwind_of_pointers_ok (name : String) {closing : Nat} {tokens stack : List Token}
    {pointers : List Qualifiers} {found : Qualifiers}
    (h : unwindPointers closing 0 .empty tokens = (pointers, .ok (found, stack))) :
    unwind name closing tokens =
      (pointers.map .pointer ++ (unwindBase name found stack).1,
        (unwindBase name found stack).2.map (⟨name, pointers, ·⟩)) := by
  rw [unwind, h]

/-- Behind pointers that are all right it is the type that fails. -/
theorem unwind_eq_error_iff {name : String} {closing : Nat} {tokens stack : List Token}
    {pointers : List Qualifiers} {found : Qualifiers} {e : SyntaxError}
    (h : unwindPointers closing 0 .empty tokens = (pointers, .ok (found, stack))) :
    (unwind name closing tokens).2 = .error e ↔ (unwindBase name found stack).2 = .error e := by
  rw [unwind_of_pointers_ok name h]
  cases (unwindBase name found stack).2 <;> simp [Except.map]

end CDeclarations
