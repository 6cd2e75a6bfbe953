import CDeclarations.Declaration.Report
import CDeclarations.Proofs.Reading.Readable
import Mathlib.Data.Nat.Digits.Defs

namespace CDeclarations

theorem Text.utf8ByteSize_toString_le {n k : Nat} (hk : 0 < k) (h : n < 10 ^ k) :
    (toString n).utf8ByteSize ≤ k := by
  have hdigits : ∀ c ∈ Nat.toDigits 10 n, c.utf8Size = 1 := fun c hc =>
    utf8Size_of_isWordChar
      (isWordChar_of_isDigit (Nat.isDigit_of_mem_toDigits (by decide) (by decide) hc))
  show (String.ofList (Nat.toDigits 10 n)).utf8ByteSize ≤ k
  rw [utf8ByteSize_ofList, width_of_forall hdigits]
  exact Nat.toDigits_length 10 n k hk h

/-- Nothing is longer than `struct` with the longest of names. -/
theorem Token.utf8ByteSize_spelling_le {t : Token} (h : t.IsReadable) :
    t.spelling.utf8ByteSize ≤ 7 + maxTokenLength := by
  cases t with
  | punctuation mark => cases mark <;> decide
  | qualifier word => cases word <;> decide
  | sign word => cases word <;> decide
  | type specifier =>
    cases specifier with
    | basic word => cases word <;> decide
    | tagged kind name =>
      have hname : name.utf8ByteSize ≤ maxTokenLength := h.1
      have hkind : (kind.spelling ++ " ").utf8ByteSize ≤ 7 := by cases kind <;> decide
      have hspelling : (Token.type (.tagged kind name)).spelling =
          kind.spelling ++ " " ++ name := rfl
      rw [hspelling, String.utf8ByteSize_append]
      omega
  | number literal => exact h.1.trans (Nat.le_add_left _ _)
  | identifier name => exact h.1.1.trans (Nat.le_add_left _ _)

theorem BasicType.utf8ByteSize_spelling_le (word : BasicType) :
    word.spelling.utf8ByteSize ≤ 6 := by
  cases word <;> decide

theorem Token.isPrintable_spelling {t : Token} (h : t.IsReadable) :
    Text.IsPrintable t.spelling := by
  cases t with
  | punctuation mark => cases mark <;> decide
  | qualifier word => exact (Keyword.isWord_spelling (.qualifier word)).isPrintable
  | sign word => exact (Keyword.isWord_spelling (.sign word)).isPrintable
  | type specifier =>
    cases specifier with
    | basic word => exact (Keyword.isWord_spelling (.basic word)).isPrintable
    | tagged kind name =>
      have hkind : Text.IsPrintable kind.spelling :=
        (Keyword.isWord_spelling (.tagged kind)).isPrintable
      exact (hkind.append (by decide)).append (IsName.isWord h).isPrintable
  | number literal => exact (IsLiteral.isWord h).isPrintable
  | identifier name => exact h.1.isWord.isPrintable

namespace SyntaxError

theorem duplicateQualifier_fits (word : Qualifier) (target : QualifierTarget) :
    (duplicateQualifier word target).message.utf8ByteSize ≤ maxErrorTextLength := by
  cases word <;> cases target <;> decide

theorem unexpectedToken_fits {token : Token} (h : token.IsReadable) (part : DeclarationPart) :
    (unexpectedToken token part).message.utf8ByteSize ≤ maxErrorTextLength := by
  have hspelling := Token.utf8ByteSize_spelling_le h
  have hmessage : (unexpectedToken token part).message =
      "unexpected token `" ++ token.spelling ++ "` when parsing " ++ part.name := rfl
  have hfront : "unexpected token `".utf8ByteSize = 18 := rfl
  have hbehind : "` when parsing ".utf8ByteSize = 15 := rfl
  have hpart : part.name.utf8ByteSize ≤ 15 := by cases part <;> decide
  rw [hmessage, String.utf8ByteSize_append, String.utf8ByteSize_append,
    String.utf8ByteSize_append, hfront, hbehind, maxErrorTextLength]
  rw [maxTokenLength] at hspelling
  omega

/-- Counts that fit into a machine word have at most twenty digits. -/
theorem unbalancedParens_fits {left right : Nat} (hleft : left < 2 ^ 64) (hright : right < 2 ^ 64) :
    (unbalancedParens left right).message.utf8ByteSize ≤ maxErrorTextLength := by
  have hword : 2 ^ 64 < 10 ^ 20 := by decide
  have hleft := Text.utf8ByteSize_toString_le (by decide) (hleft.trans hword)
  have hright := Text.utf8ByteSize_toString_le (by decide) (hright.trans hword)
  have hmessage : (unbalancedParens left right).message =
      "unbalanced parentheses when parsing pointers: " ++ toString left ++ " '(' but "
        ++ toString right ++ " ')'" := rfl
  have hfront : "unbalanced parentheses when parsing pointers: ".utf8ByteSize = 46 := rfl
  have hbetween : " '(' but ".utf8ByteSize = 9 := rfl
  have hbehind : " ')'".utf8ByteSize = 4 := rfl
  simp only [hmessage, String.utf8ByteSize_append, hfront, hbetween, hbehind, maxErrorTextLength]
  omega

theorem duplicateSign_fits (word : Sign) :
    (duplicateSign word).message.utf8ByteSize ≤ maxErrorTextLength := by
  cases word <;> decide

theorem invalidSign_fits (word : Sign) {specifier : TypeSpecifier}
    (h : (Token.type specifier).IsReadable) :
    (invalidSign word specifier).message.utf8ByteSize ≤ maxErrorTextLength := by
  have hspelling : specifier.spelling.utf8ByteSize ≤ 7 + maxTokenLength :=
    Token.utf8ByteSize_spelling_le h
  have hmessage : (invalidSign word specifier).message =
      word.spelling ++ " qualifier not valid for type `" ++ specifier.spelling ++ "`" := rfl
  have hword : word.spelling.utf8ByteSize ≤ 8 := by cases word <;> decide
  have hbetween : " qualifier not valid for type `".utf8ByteSize = 31 := rfl
  have hbehind : "`".utf8ByteSize = 1 := rfl
  rw [maxTokenLength] at hspelling
  simp only [hmessage, String.utf8ByteSize_append, hbetween, hbehind, maxErrorTextLength]
  omega

theorem missingType_fits {name : String} (h : IsName name) :
    (missingType name).message.utf8ByteSize ≤ maxErrorTextLength := by
  have hname := h.1
  have hmessage : (missingType name).message =
      "identifier `" ++ name ++ "` missing required type" := rfl
  have hfront : "identifier `".utf8ByteSize = 12 := rfl
  have hbehind : "` missing required type".utf8ByteSize = 23 := rfl
  rw [maxTokenLength] at hname
  simp only [hmessage, String.utf8ByteSize_append, hfront, hbehind, maxErrorTextLength]
  omega

theorem message_conflictingTypes (left right : TypeSpecifier) (name : String) :
    (conflictingTypes left right name).message =
      "conflicting types `" ++ left.spelling ++ "` and `" ++ right.spelling
        ++ "` for identifier `" ++ name ++ "`" := rfl

theorem utf8ByteSize_conflictingTypes (left right : TypeSpecifier) (name : String) :
    (conflictingTypes left right name).message.utf8ByteSize =
      45 + left.spelling.utf8ByteSize + right.spelling.utf8ByteSize + name.utf8ByteSize := by
  have hfront : "conflicting types `".utf8ByteSize = 19 := rfl
  have hbetween : "` and `".utf8ByteSize = 7 := rfl
  have hname : "` for identifier `".utf8ByteSize = 18 := rfl
  have hbehind : "`".utf8ByteSize = 1 := rfl
  simp only [message_conflictingTypes, String.utf8ByteSize_append, hfront, hbetween, hname, hbehind]
  omega

/-- Only with two tags can the text about two types be too long. -/
theorem exists_tagged_of_conflictingTypes {left right : TypeSpecifier} {name : String}
    (hleft : (Token.type left).IsReadable) (hright : (Token.type right).IsReadable)
    (hname : IsName name)
    (h : maxErrorTextLength < (conflictingTypes left right name).message.utf8ByteSize) :
    ∃ kind tag other otherTag, left = .tagged kind tag ∧ right = .tagged other otherTag := by
  have hleftSize : left.spelling.utf8ByteSize ≤ 7 + maxTokenLength :=
    Token.utf8ByteSize_spelling_le hleft
  have hrightSize : right.spelling.utf8ByteSize ≤ 7 + maxTokenLength :=
    Token.utf8ByteSize_spelling_le hright
  have hnameSize := hname.1
  rw [utf8ByteSize_conflictingTypes, maxErrorTextLength] at h
  rw [maxTokenLength] at hleftSize hrightSize hnameSize
  cases left with
  | basic word =>
    have hshort : (TypeSpecifier.basic word).spelling.utf8ByteSize ≤ 6 :=
      word.utf8ByteSize_spelling_le
    omega
  | tagged kind tag =>
    cases right with
    | basic word =>
      have hshort : (TypeSpecifier.basic word).spelling.utf8ByteSize ≤ 6 :=
        word.utf8ByteSize_spelling_le
      omega
    | tagged other otherTag => exact ⟨kind, tag, other, otherTag, rfl, rfl⟩

end SyntaxError

end CDeclarations
