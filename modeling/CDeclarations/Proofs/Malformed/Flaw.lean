import CDeclarations.Declaration.SyntaxError

namespace CDeclarations

/-- What can be wrong with a token that has the given ones to its right. -/
abbrev FlawRule := Token → List Token → SyntaxError → Prop

/-- Nothing is wrong with any of the tokens. -/
def Flawless (rule : FlawRule) (tokens : List Token) : Prop :=
  ∀ token right e, token :: right <:+ tokens → ¬ rule token right e

/-- Something is wrong with a token, and with nothing to its right. -/
structure RightmostFlaw (rule : FlawRule) (tokens right : List Token) (e : SyntaxError) : Prop where
  exists_token : ∃ token, token :: right <:+ tokens ∧ rule token right e
  flawless : Flawless rule right

section

variable {rule : FlawRule} {token : Token} {tokens right : List Token} {e : SyntaxError}

@[simp] theorem flawless_nil : Flawless rule [] := by
  intro token right e hsuffix
  cases List.suffix_nil.mp hsuffix

theorem flawless_cons :
    Flawless rule (token :: tokens) ↔ (∀ e, ¬ rule token tokens e) ∧ Flawless rule tokens := by
  constructor
  · intro h
    refine ⟨fun e => h token tokens e List.suffix_rfl, fun other right e hsuffix => ?_⟩
    exact h other right e (hsuffix.trans (List.suffix_cons token tokens))
  · intro h other right e hsuffix
    obtain ⟨htoken, htokens⟩ := h
    rcases List.suffix_cons_iff.mp hsuffix with hwhole | hlater
    · obtain ⟨rfl, rfl⟩ := List.cons.inj hwhole
      exact htoken e
    · exact htokens other right e hlater

theorem Flawless.of_suffix (h : Flawless rule tokens) (hright : right <:+ tokens) :
    Flawless rule right :=
  fun token later e hsuffix => h token later e (hsuffix.trans hright)

/-- Tokens that are not all right have a rightmost one that is not. -/
theorem flawless_or_exists_rightmostFlaw (rule : FlawRule) (tokens : List Token) :
    Flawless rule tokens ∨ ∃ right e, RightmostFlaw rule tokens right e := by
  induction tokens with
  | nil => exact .inl flawless_nil
  | cons token tokens ih =>
    rcases ih with hflawless | ⟨right, e, ⟨other, hsuffix, hother⟩, hright⟩
    · by_cases htoken : ∃ e, rule token tokens e
      · obtain ⟨e, he⟩ := htoken
        exact .inr ⟨tokens, e, ⟨token, List.suffix_rfl, he⟩, hflawless⟩
      · exact .inl (flawless_cons.mpr ⟨not_exists.mp htoken, hflawless⟩)
    · have hlonger := hsuffix.trans (List.suffix_cons token tokens)
      exact .inr ⟨right, e, ⟨other, hlonger, hother⟩, hright⟩

end

end CDeclarations
