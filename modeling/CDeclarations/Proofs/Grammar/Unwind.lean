import CDeclarations.Proofs.Grammar.Specifiers

namespace CDeclarations

/-- A declaration of the grammar: the words of a type in the order in which they stand, and a
declarator. -/
structure Derivation where
  specifiers : List Token
  declarator : Declarator
  base : BaseType
  order : specifiers.Perm base.tokens
  valid : base.Valid

namespace Derivation

/-- All its tokens, the semicolon at the end among them. -/
def tokens (d : Derivation) : List Token :=
  d.specifiers ++ d.declarator.tokens ++ [.punctuation .semicolon]

/-- The tokens in front of the name. -/
def front (d : Derivation) : List Token := d.specifiers ++ d.declarator.front

def declaration (d : Derivation) : Declaration :=
  ⟨d.declarator.word, d.declarator.pointers, d.base⟩

theorem tokens_eq (d : Derivation) :
    d.tokens = (d.front ++ [.identifier d.declarator.word]) ++
      (List.replicate d.declarator.depth (.punctuation .rightParen) ++
        [.punctuation .semicolon]) := by
  simp [tokens, front, d.declarator.tokens_eq]

theorem identifier_notMem_front (d : Derivation) (name : String) :
    Token.identifier name ∉ d.front := by
  intro h
  rcases List.mem_append.mp h with hspecifier | hfront
  · have hmem : Token.identifier name ∈ d.base.tokens := d.order.mem_iff.mp hspecifier
    rcases BaseType.isSpecifier_of_mem_tokens hmem with h | h | h <;> cases h
  · exact d.declarator.identifier_notMem_front name hfront

end Derivation

/-- The declaration in English: the name, then its pointers outwards, then the type. -/
def Declaration.sentence (d : Declaration) : String :=
  d.name ++ ":" ++ String.join (d.pointers.map fun set => set.text ++ " pointer to") ++
    d.base.qualifiers.text ++ (d.base.sign.elim "" fun word => " " ++ word.spelling) ++ " " ++
    d.base.specifier.spelling ++ "\n"

theorem bytes_pointers (sets : List Qualifiers) :
    Phrase.bytes (sets.map .pointer) =
      Text.utf8 (String.join (sets.map fun set => set.text ++ " pointer to")) := by
  induction sets with
  | nil => rfl
  | cons set sets ih =>
    rw [List.map_cons, Phrase.bytes_cons, ih, List.map_cons, String.join_cons, Text.utf8_append]
    rfl

theorem Declaration.bytes_phrases (d : Declaration) :
    Phrase.bytes d.phrases = Text.utf8 d.sentence := by
  obtain ⟨name, pointers, set, sign, specifier⟩ := d
  cases sign <;>
    simp [Declaration.phrases, Declaration.sentence, BaseType.phrases, bytes_pointers, Phrase.text]

/-- In front of all else that names a type there may be qualifiers of the pointer phase. -/
theorem exists_qualifiers_append {tokens : List Token} (hnodup : tokens.Nodup)
    (hkind : ∀ t ∈ tokens, t.isQualifier ∨ t.isSign ∨ t.isType) (htype : ∃ t ∈ tokens, t.isType) :
    ∃ (words : List Qualifier) (token : Token) (rest : List Token), words.Nodup ∧
      (token.isType ∨ token.isSign) ∧ tokens = words.map .qualifier ++ token :: rest := by
  induction tokens with
  | nil =>
    obtain ⟨t, ht, -⟩ := htype
    cases ht
  | cons token tokens ih =>
    rcases hkind token List.mem_cons_self with hqualifier | hsign | hspecifier
    · obtain ⟨t, ht, hisType⟩ := htype
      have hlater : t ∈ tokens := by
        rcases List.mem_cons.mp ht with rfl | ht
        · cases t <;> simp [Token.isQualifier, Token.isType] at hqualifier hisType
        · exact ht
      obtain ⟨htoken, htokens⟩ := List.nodup_cons.mp hnodup
      obtain ⟨words, token', rest, hwords, htoken', rfl⟩ :=
        ih htokens (fun t ht => hkind t (List.mem_cons_of_mem token ht)) ⟨t, hlater, hisType⟩
      cases token with
      | qualifier word =>
        refine ⟨word :: words, token', rest, List.nodup_cons.mpr ⟨fun hmem => htoken ?_, hwords⟩,
          htoken', rfl⟩
        exact List.mem_append_left _ (List.mem_map_of_mem hmem)
      | _ => simp [Token.isQualifier] at hqualifier
    · exact ⟨[], token, tokens, List.nodup_nil, .inr hsign, rfl⟩
    · exact ⟨[], token, tokens, List.nodup_nil, .inl hspecifier, rfl⟩

theorem exists_of_unwind {name : String} {right : Nat} {tokens : List Token}
    {phrases : List Phrase} {declaration : Declaration}
    (h : unwind name right tokens.reverse = (phrases, .ok declaration)) :
    ∃ d : Derivation, tokens = d.front ∧ d.declarator.word = name ∧ d.declarator.depth = right ∧
      declaration = d.declaration ∧ .name name :: phrases = d.declaration.phrases := by
  unfold unwind at h
  split at h
  · cases h
  · rename_i pointers found rest hpointers
    cases hbase : unwindBase name found rest with
    | mk said base =>
      rw [hbase] at h
      cases base with
      | error e => cases h
      | ok base =>
        obtain ⟨hperm, hvalid, rfl⟩ := unwindBase_eq_ok_iff.mp hbase
        obtain ⟨declarator, words, hright, hword, hps, hnodup, hset, htokens⟩ :=
          declarator_of_unwindPointers hpointers (.name name) rfl [] List.nodup_nil rfl
        obtain rfl : declarator.word = name := hword
        obtain rfl : declarator.pointers = pointers := hps
        simp only [Prod.mk.injEq, Except.map, Except.ok.injEq] at h
        obtain ⟨rfl, rfl⟩ := h
        -- Qualifiers met in front of the last pointer are words of the type.
        have horder : (rest.reverse ++ words.map Token.qualifier).Perm base.tokens := by
          rw [← hset] at hperm
          have hwords := (Qualifiers.tokens_ofList hnodup).symm
          exact ((List.reverse_perm rest).append hwords).trans hperm.symm
        refine ⟨⟨rest.reverse ++ words.map .qualifier, declarator, base, horder, hvalid⟩, ?_, rfl,
          hright, rfl, rfl⟩
        simpa [Derivation.front, Declarator.front] using htokens

theorem unwind_front (d : Derivation) :
    unwind d.declarator.word d.declarator.depth d.front.reverse =
      (d.declarator.pointers.map .pointer ++ d.base.phrases, .ok d.declaration) := by
  obtain ⟨specifiers, declarator, base, order, valid⟩ := d
  have hperm : specifiers.reverse.Perm base.tokens := (List.reverse_perm specifiers).trans order
  have hkind : ∀ t ∈ specifiers.reverse, t.isQualifier ∨ t.isSign ∨ t.isType := fun t ht =>
    BaseType.isSpecifier_of_mem_tokens (hperm.mem_iff.mp ht)
  have htype : Token.type base.specifier ∈ specifiers.reverse :=
    hperm.mem_iff.mpr (List.mem_append_right _ List.mem_cons_self)
  obtain ⟨words, token, rest, hwords, htoken, heq⟩ :=
    exists_qualifiers_append (hperm.nodup_iff.mpr base.nodup_tokens) hkind ⟨_, htype, rfl⟩
  have hpointers : unwindPointers declarator.depth 0 .empty
      (specifiers ++ declarator.front).reverse =
        (declarator.pointers, .ok (.ofList words, token :: rest)) := by
    rw [List.reverse_append, unwindPointers_front, heq, unwindPointers_base _ _ hwords htoken]
    simp
  have hbase : unwindBase declarator.word (.ofList words) (token :: rest) =
      (base.phrases, .ok base) := by
    refine unwindBase_eq_ok_iff.mpr ⟨?_, valid, rfl⟩
    have hset := (Qualifiers.tokens_ofList hwords).symm.append_right (token :: rest)
    rw [heq] at hperm
    exact hperm.symm.trans (hset.trans List.perm_append_comm)
  unfold unwind Derivation.front
  rw [hpointers]
  dsimp only
  rw [hbase]
  rfl

/-- The tokens in front of a name give a declaration when they are those of a derivation of it. -/
theorem unwind_eq_ok_iff {name : String} {right : Nat} {tokens : List Token}
    {phrases : List Phrase} {declaration : Declaration} :
    unwind name right tokens.reverse = (phrases, .ok declaration) ↔
      ∃ d : Derivation, tokens = d.front ∧ d.declarator.word = name ∧
        d.declarator.depth = right ∧ declaration = d.declaration ∧
        .name name :: phrases = d.declaration.phrases := by
  constructor
  · exact exists_of_unwind
  · intro h
    obtain ⟨d, rfl, rfl, rfl, rfl, hphrases⟩ := h
    rw [unwind_front, (List.cons.inj hphrases).2]
    rfl

end CDeclarations
