import CDeclarations.Proofs.Grammar.Acceptance
import CDeclarations.Proofs.Reading.Readable

namespace CDeclarations

/-- A text whose one newline is its end. -/
def IsLine (text : List UInt8) : Prop :=
  ∃ words : String, '\n' ∉ words.toList ∧ text = Text.utf8 (words ++ "\n")

theorem IsLine.ne_nil {text : List UInt8} (h : IsLine text) : text ≠ [] := by
  obtain ⟨words, -, rfl⟩ := h
  rw [Text.utf8_append]
  exact List.append_ne_nil_of_right_ne_nil _ (by decide)

/-- The names in a token are words. -/
def Token.IsWorded : Token → Prop
  | .identifier name => IsWord name
  | .type (.tagged _ name) => IsWord name
  | _ => True

theorem Token.IsReadable.isWorded {t : Token} (h : t.IsReadable) : t.IsWorded := by
  cases t with
  | identifier name => exact h.1.isWord
  | type specifier =>
    cases specifier with
    | basic word => trivial
    | tagged kind name => exact IsName.isWord h
  | _ => trivial

theorem ReadsOff.isReadable {s rest : ByteStream} {tokens : List Token}
    (h : ReadsOff s tokens rest) : ∀ t ∈ tokens, t.IsReadable := by
  induction tokens generalizing s with
  | nil => simp
  | cons token tokens ih =>
    obtain ⟨next, hnext, hmore⟩ := readsOff_cons.mp h
    intro t ht
    rcases List.mem_cons.mp ht with rfl | hlater
    · exact isReadable_of_nextToken hnext
    · exact ih hmore t hlater

section Newline

theorem Qualifiers.newline_notMem_text (s : Qualifiers) : '\n' ∉ s.text.toList := by
  obtain ⟨_ | _, _ | _⟩ := s <;> decide

theorem TypeSpecifier.newline_notMem_spelling {specifier : TypeSpecifier}
    (h : (Token.type specifier).IsWorded) : '\n' ∉ specifier.spelling.toList := by
  cases specifier with
  | basic word => cases word <;> decide
  | tagged kind name =>
    have hname : '\n' ∉ name.toList := IsWord.newline_notMem h
    cases kind <;> simp [spelling, TagKind.spelling, hname]

theorem Declaration.isLine_sentence {d : Declaration} (hname : IsWord d.name)
    (htype : (Token.type d.base.specifier).IsWorded) : IsLine (Text.utf8 d.sentence) := by
  have hsign : '\n' ∉ (d.base.sign.elim "" fun word => " " ++ word.spelling).toList := by
    rcases d.base.sign with _ | _ | _ <;> decide
  refine ⟨_, ?_, rfl⟩
  simp [hname.newline_notMem, Qualifiers.newline_notMem_text, hsign,
    TypeSpecifier.newline_notMem_spelling htype]

end Newline

theorem Derivation.mem_tokens_word (d : Derivation) :
    Token.identifier d.declarator.word ∈ d.tokens := by
  rw [d.tokens_eq]
  simp

theorem Derivation.mem_tokens_specifier (d : Derivation) :
    Token.type d.base.specifier ∈ d.tokens := by
  have htype : Token.type d.base.specifier ∈ d.specifiers :=
    d.order.mem_iff.mpr (List.mem_append_right _ List.mem_cons_self)
  exact List.mem_append_left _ (List.mem_append_left _ htype)

/-- The declaration that a reading has found is said in one line. -/
theorem ReadsOff.isLine_sentence {s rest : ByteStream} {d : Derivation}
    (h : ReadsOff s d.tokens rest) : IsLine (Text.utf8 d.declaration.sentence) := by
  have hname := (h.isReadable _ d.mem_tokens_word).isWorded
  have htype := (h.isReadable _ d.mem_tokens_specifier).isWorded
  exact Declaration.isLine_sentence hname htype

end CDeclarations
