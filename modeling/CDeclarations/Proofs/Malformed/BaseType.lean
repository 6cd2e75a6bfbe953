import CDeclarations.Proofs.Grammar.Specifiers
import CDeclarations.Proofs.Malformed.Pointers

namespace CDeclarations

/-- What can be wrong with a token of the type, if `found` are the qualifiers to the right of all of
them. -/
inductive BaseFlaw (name : String) (found : Qualifiers) : FlawRule
  | duplicateQualifier {word : Qualifier} {right : List Token} :
      found.contains word ∨ .qualifier word ∈ right →
      BaseFlaw name found (.qualifier word) right (.duplicateQualifier word .type)
  | duplicateSign {word : Sign} {right : List Token} :
      .sign word ∈ right → BaseFlaw name found (.sign word) right (.duplicateSign word)
  | conflictingSigns {word other : Sign} {right : List Token} :
      .sign other ∈ right → other ≠ word →
      BaseFlaw name found (.sign word) right .conflictingSigns
  | conflictingTypes {specifier other : TypeSpecifier} {right : List Token} :
      .type other ∈ right →
      BaseFlaw name found (.type specifier) right (.conflictingTypes specifier other name)
  | unexpected {token : Token} {right : List Token} :
      ¬ (token.isQualifier ∨ token.isSign ∨ token.isType) →
      BaseFlaw name found token right (.unexpectedToken token .baseType)

/-- What is known of a type is what its tokens say, and the qualifiers found before. -/
structure Specifiers.KnownFrom (known : Specifiers) (found : Qualifiers) (tokens : List Token) :
    Prop where
  qualifiers : ∀ word,
    known.qualifiers.contains word ↔ found.contains word ∨ .qualifier word ∈ tokens
  sign : ∀ word, known.sign = some word ↔ .sign word ∈ tokens
  type : ∀ specifier, known.type = some specifier ↔ .type specifier ∈ tokens

namespace Specifiers

variable {name : String} {found : Qualifiers} {known next : Specifiers} {token : Token}
  {tokens right : List Token} {e : SyntaxError}

theorem knownFrom_nil (found : Qualifiers) : KnownFrom ⟨found, none, none⟩ found [] :=
  ⟨by simp, by simp, by simp⟩

/-- A token is refused for what is wrong with it. -/
theorem KnownFrom.add_eq_error_iff (h : known.KnownFrom found right) :
    known.add name token = .error e ↔ BaseFlaw name found token right e := by
  cases token with
  | qualifier word =>
    by_cases hmem : known.qualifiers.contains word
    · have hadd : known.add name (.qualifier word) = .error (.duplicateQualifier word .type) := by
        rw [Specifiers.add, Qualifiers.insert?, if_pos hmem]
      rw [hadd]
      constructor
      · rintro ⟨⟩
        exact .duplicateQualifier ((h.qualifiers word).mp hmem)
      · rintro (_ | _ | _ | _ | hnot)
        · rfl
        · exact absurd (.inl rfl) hnot
    · have hadd : known.add name (.qualifier word) =
          .ok { known with qualifiers := known.qualifiers.insert word } := by
        rw [Specifiers.add, Qualifiers.insert?, if_neg hmem]
      rw [hadd]
      constructor
      · intro hok
        cases hok
      · rintro (hdup | _ | _ | _ | hnot)
        · exact absurd ((h.qualifiers word).mpr hdup) hmem
        · exact absurd (.inl rfl) hnot
  | sign word =>
    cases hsign : known.sign with
    | none =>
      have hnone : ∀ other, Token.sign other ∉ right := fun other hmem => by
        rw [← h.sign, hsign] at hmem
        cases hmem
      simp only [Specifiers.add, hsign, reduceCtorEq, false_iff]
      rintro (_ | hmem | hmem | _ | hnot)
      · exact hnone _ hmem
      · exact hnone _ hmem
      · exact absurd (.inr (.inl rfl)) hnot
    | some other =>
      have hother : Token.sign other ∈ right := (h.sign other).mp hsign
      have honly : ∀ {another}, Token.sign another ∈ right → other = another := fun hmem => by
        rw [← h.sign, hsign] at hmem
        exact Option.some.inj hmem
      simp only [Specifiers.add, hsign, Except.error.injEq]
      constructor
      · rintro rfl
        split_ifs with hsame
        · exact .duplicateSign (hsame ▸ hother)
        · exact .conflictingSigns hother hsame
      · rintro (_ | hmem | ⟨hmem, hne⟩ | _ | hnot)
        · exact if_pos (honly hmem)
        · exact if_neg (honly hmem ▸ hne)
        · exact absurd (.inr (.inl rfl)) hnot
  | type specifier =>
    cases htype : known.type with
    | none =>
      simp only [Specifiers.add, htype, reduceCtorEq, false_iff]
      rintro (_ | _ | _ | hmem | hnot)
      · rw [← h.type, htype] at hmem
        cases hmem
      · exact absurd (.inr (.inr rfl)) hnot
    | some other =>
      simp only [Specifiers.add, htype, Except.error.injEq]
      constructor
      · rintro rfl
        exact .conflictingTypes ((h.type other).mp htype)
      · rintro (_ | _ | _ | hmem | hnot)
        · rw [← h.type, htype] at hmem
          rw [Option.some.inj hmem]
        · exact absurd (.inr (.inr rfl)) hnot
  | _ =>
    simp only [Specifiers.add, Except.error.injEq]
    constructor
    · rintro rfl
      exact .unexpected (by simp [Token.isQualifier, Token.isSign, Token.isType])
    · rintro ⟨⟩
      rfl

theorem KnownFrom.add (h : known.KnownFrom found right) (hadd : known.add name token = .ok next) :
    next.KnownFrom found (token :: right) := by
  have hperm := tokens_add hadd
  refine ⟨fun word => ?_, fun word => ?_, fun specifier => ?_⟩
  · rw [← mem_tokens_qualifier, hperm.mem_iff, List.mem_cons, mem_tokens_qualifier, h.qualifiers,
      List.mem_cons, or_left_comm]
  · rw [← mem_tokens_sign, hperm.mem_iff, List.mem_cons, mem_tokens_sign, h.sign, List.mem_cons]
  · rw [← mem_tokens_type, hperm.mem_iff, List.mem_cons, mem_tokens_type, h.type, List.mem_cons]

/-- Tokens with which nothing is wrong are all taken. -/
theorem exists_knownFrom (h : Flawless (BaseFlaw name found) tokens) :
    ∃ known, tokens.reverse.foldlM (Specifiers.add name) ⟨found, none, none⟩ = .ok known ∧
      known.KnownFrom found tokens := by
  induction tokens with
  | nil => exact ⟨_, rfl, knownFrom_nil found⟩
  | cons token tokens ih =>
    obtain ⟨htoken, htokens⟩ := flawless_cons.mp h
    obtain ⟨known, hfold, hknown⟩ := ih htokens
    rw [List.reverse_cons, List.foldlM_append, hfold]
    cases hadd : known.add name token with
    | error e => exact absurd (hknown.add_eq_error_iff.mp hadd) (htoken e)
    | ok next =>
      refine ⟨next, ?_, hknown.add hadd⟩
      show (known.add name token >>= fun known => .ok known) = .ok next
      rw [hadd]
      rfl

theorem foldlM_rightmostFlaw (h : RightmostFlaw (BaseFlaw name found) tokens right e) :
    tokens.reverse.foldlM (Specifiers.add name) ⟨found, none, none⟩ = .error e := by
  obtain ⟨⟨token, ⟨before, rfl⟩, hflaw⟩, hflawless⟩ := h
  obtain ⟨known, hfold, hknown⟩ := exists_knownFrom hflawless
  have hadd : known.add name token = .error e := hknown.add_eq_error_iff.mpr hflaw
  rw [List.reverse_append, List.reverse_cons, List.append_assoc, List.foldlM_append, hfold]
  show (known.add name token >>= fun known =>
    before.reverse.foldlM (Specifiers.add name) known) = .error e
  rw [hadd]
  rfl

variable {specifier : TypeSpecifier}

end Specifiers

section Unwind

variable {name : String} {found : Qualifiers} {tokens right : List Token} {e : SyntaxError}

theorem unwindBase_of_rightmostFlaw (h : RightmostFlaw (BaseFlaw name found) tokens right e) :
    unwindBase name found tokens.reverse = ([], .error e) := by
  rw [unwindBase, Specifiers.foldlM_rightmostFlaw h]

theorem exists_unwindBase_of_flawless (h : Flawless (BaseFlaw name found) tokens) :
    ∃ known : Specifiers, known.KnownFrom found tokens ∧
      unwindBase name found tokens.reverse = known.conclude name := by
  obtain ⟨known, hfold, hknown⟩ := Specifiers.exists_knownFrom h
  exact ⟨known, hknown, by rw [unwindBase, hfold]⟩

end Unwind

end CDeclarations
