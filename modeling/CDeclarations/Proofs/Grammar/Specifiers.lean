import CDeclarations.Proofs.Grammar.Declarator
import Mathlib.Data.List.Perm.Basic

namespace CDeclarations

/-- The qualifiers of a set, `const` first. -/
def Qualifiers.tokens (s : Qualifiers) : List Token :=
  (if s.const then [.qualifier .const] else []) ++
    (if s.volatile then [.qualifier .volatile] else [])

namespace Qualifiers

theorem mem_tokens_iff {s : Qualifiers} {word : Qualifier} :
    Token.qualifier word ∈ s.tokens ↔ s.contains word := by
  obtain ⟨c, v⟩ := s
  cases word <;> cases c <;> cases v <;> simp [tokens, contains]

theorem tokens_insert {s : Qualifiers} {word : Qualifier} (h : s.contains word = false) :
    (s.insert word).tokens.Perm (.qualifier word :: s.tokens) := by
  obtain ⟨c, v⟩ := s
  cases word with
  | const =>
    obtain rfl : c = false := h
    exact .refl _
  | volatile =>
    obtain rfl : v = false := h
    cases c with
    | false => exact .refl _
    | true => exact .swap _ _ _

theorem tokens_ofList {words : List Qualifier} (h : words.Nodup) :
    (ofList words).tokens.Perm (words.map .qualifier) := by
  induction words with
  | nil => exact .refl _
  | cons word words ih =>
    obtain ⟨hword, hwords⟩ := List.nodup_cons.mp h
    have hcontains : (ofList words).contains word = false := by
      rw [contains_ofList, decide_eq_false hword]
    rw [ofList_cons]
    exact (tokens_insert hcontains).trans ((ih hwords).cons _)

end Qualifiers

/-- The words of what is known of a type, each once. -/
def Specifiers.tokens (known : Specifiers) : List Token :=
  known.qualifiers.tokens ++ (known.sign.map .sign).toList ++ (known.type.map .type).toList

/-- The words of a type, in one of their orders. -/
def BaseType.tokens (base : BaseType) : List Token :=
  base.qualifiers.tokens ++ (base.sign.map .sign).toList ++ [.type base.specifier]

/-- All that there is to know of a type. -/
def Specifiers.ofBase (base : BaseType) : Specifiers :=
  ⟨base.qualifiers, base.sign, some base.specifier⟩

theorem Specifiers.tokens_ofBase (base : BaseType) : (ofBase base).tokens = base.tokens := rfl

/-- Only some types can be signed or unsigned. -/
def BaseType.Valid (base : BaseType) : Prop := base.sign.isSome → base.specifier.isIntegral

namespace Specifiers

variable {name : String} {known next : Specifiers} {token : Token}

theorem nodup_tokens (known : Specifiers) : known.tokens.Nodup := by
  obtain ⟨⟨c, v⟩, s, t⟩ := known
  cases c <;> cases v <;> cases s <;> cases t <;> simp [tokens, Qualifiers.tokens]

theorem mem_tokens_qualifier {word : Qualifier} :
    Token.qualifier word ∈ known.tokens ↔ known.qualifiers.contains word := by
  rw [← Qualifiers.mem_tokens_iff]
  simp [tokens]

theorem mem_tokens_sign {word : Sign} : Token.sign word ∈ known.tokens ↔ known.sign = some word := by
  obtain ⟨⟨c, v⟩, s, t⟩ := known
  cases c <;> cases v <;> simp [tokens, Qualifiers.tokens]

theorem mem_tokens_type {specifier : TypeSpecifier} :
    Token.type specifier ∈ known.tokens ↔ known.type = some specifier := by
  obtain ⟨⟨c, v⟩, s, t⟩ := known
  cases c <;> cases v <;> simp [tokens, Qualifiers.tokens]

theorem isSpecifier_of_mem_tokens (h : token ∈ known.tokens) :
    token.isQualifier ∨ token.isSign ∨ token.isType := by
  obtain ⟨⟨c, v⟩, s, t⟩ := known
  cases token with
  | punctuation mark => cases c <;> cases v <;> simp [tokens, Qualifiers.tokens] at h
  | number literal => cases c <;> cases v <;> simp [tokens, Qualifiers.tokens] at h
  | identifier word => cases c <;> cases v <;> simp [tokens, Qualifiers.tokens] at h
  | qualifier word => exact .inl rfl
  | sign word => exact .inr (.inl rfl)
  | type specifier => exact .inr (.inr rfl)

theorem eq_of_perm (h : known.tokens.Perm next.tokens) : known = next := by
  have hcontains : ∀ word, known.qualifiers.contains word = next.qualifiers.contains word :=
    fun word => Bool.eq_iff_iff.mpr <|
      mem_tokens_qualifier.symm.trans (h.mem_iff.trans mem_tokens_qualifier)
  have hsign : known.sign = next.sign := Option.ext fun word =>
    mem_tokens_sign.symm.trans (h.mem_iff.trans mem_tokens_sign)
  have htype : known.type = next.type := Option.ext fun specifier =>
    mem_tokens_type.symm.trans (h.mem_iff.trans mem_tokens_type)
  have hconst : known.qualifiers.const = next.qualifiers.const := hcontains .const
  have hvolatile : known.qualifiers.volatile = next.qualifiers.volatile := hcontains .volatile
  obtain ⟨⟨c, v⟩, s, t⟩ := known
  obtain ⟨⟨c', v'⟩, s', t'⟩ := next
  simp only at hsign htype hconst hvolatile
  rw [hsign, htype, hconst, hvolatile]

theorem tokens_add (h : known.add name token = .ok next) :
    next.tokens.Perm (token :: known.tokens) := by
  obtain ⟨set, s, t⟩ := known
  cases token with
  | qualifier word =>
    simp only [add, Qualifiers.insert?] at h
    cases hcontains : set.contains word with
    | true => simp [hcontains] at h
    | false =>
      simp only [hcontains, Bool.false_eq_true, if_false, Except.ok.injEq] at h
      rw [← h]
      exact ((Qualifiers.tokens_insert hcontains).append_right _).append_right _
  | sign word =>
    cases s with
    | some other => simp [add] at h
    | none =>
      simp only [add, Except.ok.injEq] at h
      rw [← h]
      simp [tokens]
  | type specifier =>
    cases t with
    | some other => simp [add] at h
    | none =>
      simp only [add, Except.ok.injEq] at h
      rw [← h, tokens, tokens, Option.map_none, Option.toList_none, List.append_nil]
      exact List.perm_append_singleton _ _
  | _ => simp [add] at h

/-- A word that is not known yet is taken if it is one of a type's together with those that are
known. -/
theorem exists_add (name : String) (htoken : token ∈ next.tokens) (hnew : token ∉ known.tokens)
    (hknown : ∀ t ∈ known.tokens, t ∈ next.tokens) :
    ∃ more, known.add name token = .ok more := by
  cases token with
  | qualifier word =>
    rw [mem_tokens_qualifier, Bool.not_eq_true] at hnew
    exact ⟨{ known with qualifiers := known.qualifiers.insert word },
      by simp [add, Qualifiers.insert?, hnew]⟩
  | sign word =>
    cases hsign : known.sign with
    | none => exact ⟨{ known with sign := some word }, by simp [add, hsign]⟩
    | some other =>
      have hother : next.sign = some other :=
        mem_tokens_sign.mp (hknown _ (mem_tokens_sign.mpr hsign))
      obtain rfl : other = word := by
        rw [mem_tokens_sign, hother] at htoken
        exact Option.some.inj htoken
      exact absurd (mem_tokens_sign.mpr hsign) hnew
  | type specifier =>
    cases htype : known.type with
    | none => exact ⟨{ known with type := some specifier }, by simp [add, htype]⟩
    | some other =>
      have hother : next.type = some other :=
        mem_tokens_type.mp (hknown _ (mem_tokens_type.mpr htype))
      obtain rfl : other = specifier := by
        rw [mem_tokens_type, hother] at htoken
        exact Option.some.inj htoken
      exact absurd (mem_tokens_type.mpr htype) hnew
  | _ => simpa [Token.isQualifier, Token.isSign, Token.isType] using
      isSpecifier_of_mem_tokens htoken

/-- The words of a type can be taken in any order, each once, and nothing else can. -/
theorem foldlM_add_eq_ok_iff {tokens : List Token} :
    tokens.foldlM (add name) known = .ok next ↔ next.tokens.Perm (tokens ++ known.tokens) := by
  induction tokens generalizing known with
  | nil =>
    rw [List.nil_append]
    constructor
    · intro h
      cases h
      exact .refl _
    · intro h
      rw [eq_of_perm h]
      rfl
  | cons token tokens ih =>
    have hmiddle : (tokens ++ token :: known.tokens).Perm (token :: tokens ++ known.tokens) :=
      List.perm_middle
    rw [List.foldlM_cons]
    constructor
    · intro h
      cases hadd : known.add name token with
      | error e =>
        rw [hadd] at h
        cases h
      | ok more =>
        rw [hadd] at h
        exact (ih.mp h).trans (((tokens_add hadd).append_left tokens).trans hmiddle)
    · intro h
      have hnodup := h.nodup_iff.mp next.nodup_tokens
      have hmem : ∀ t ∈ token :: known.tokens, t ∈ next.tokens := fun t ht =>
        (h.trans hmiddle.symm).mem_iff.mpr (List.mem_append_right tokens ht)
      have hnew : token ∉ known.tokens := fun hmem =>
        (List.nodup_cons.mp hnodup).1 (List.mem_append_right tokens hmem)
      obtain ⟨more, hadd⟩ := exists_add name (hmem token List.mem_cons_self) hnew
        fun t ht => hmem t (List.mem_cons_of_mem token ht)
      rw [hadd]
      exact ih.mpr (h.trans (hmiddle.symm.trans ((tokens_add hadd).symm.append_left tokens)))

/-- What is known makes sense when it is all there is to know of a type that can be had. -/
theorem conclude_eq_ok_iff {phrases : List Phrase} {base : BaseType} :
    known.conclude name = (phrases, .ok base) ↔
      known = ofBase base ∧ base.Valid ∧ phrases = base.phrases := by
  obtain ⟨set, s, t⟩ := known
  constructor
  · intro h
    cases t with
    | none => cases h
    | some specifier =>
      cases s with
      | none =>
        cases h
        exact ⟨rfl, fun hsome => absurd hsome (by simp), rfl⟩
      | some word =>
        by_cases hintegral : specifier.isIntegral
        · rw [conclude_of_isIntegral hintegral] at h
          cases h
          exact ⟨rfl, fun _ => hintegral, rfl⟩
        · rw [conclude_of_not_isIntegral hintegral] at h
          cases h
  · intro h
    obtain ⟨hknown, hvalid, rfl⟩ := h
    obtain ⟨set', s', specifier⟩ := base
    cases hknown
    cases s' with
    | none => rfl
    | some word => exact conclude_of_isIntegral (hvalid rfl)

end Specifiers

theorem BaseType.nodup_tokens (base : BaseType) : base.tokens.Nodup :=
  (Specifiers.ofBase base).nodup_tokens

theorem BaseType.isSpecifier_of_mem_tokens {base : BaseType} {token : Token}
    (h : token ∈ base.tokens) : token.isQualifier ∨ token.isSign ∨ token.isType :=
  Specifiers.isSpecifier_of_mem_tokens (Specifiers.tokens_ofBase base ▸ h)

/-- A base type is read off its words, in whatever order they stand. -/
theorem unwindBase_eq_ok_iff {name : String} {found : Qualifiers} {tokens : List Token}
    {phrases : List Phrase} {base : BaseType} :
    unwindBase name found tokens = (phrases, .ok base) ↔
      base.tokens.Perm (tokens ++ found.tokens) ∧ base.Valid ∧ phrases = base.phrases := by
  have hfold (known : Specifiers) : tokens.foldlM (Specifiers.add name) ⟨found, none, none⟩ =
      .ok known ↔ known.tokens.Perm (tokens ++ found.tokens) := by
    rw [Specifiers.foldlM_add_eq_ok_iff]
    simp [Specifiers.tokens]
  unfold unwindBase
  constructor
  · intro h
    cases hknown : tokens.foldlM (Specifiers.add name) ⟨found, none, none⟩ with
    | error e => simp [hknown] at h
    | ok known =>
      rw [hknown] at h
      obtain ⟨rfl, hvalid, rfl⟩ := Specifiers.conclude_eq_ok_iff.mp h
      exact ⟨(hfold _).mp hknown, hvalid, rfl⟩
  · intro h
    obtain ⟨hperm, hvalid, rfl⟩ := h
    rw [(hfold (.ofBase base)).mpr hperm]
    exact Specifiers.conclude_eq_ok_iff.mpr ⟨rfl, hvalid, rfl⟩

end CDeclarations
