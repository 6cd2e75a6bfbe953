import CDeclarations.Declaration.Basic
import CDeclarations.Declaration.SyntaxError

namespace CDeclarations

/-- Reads the pointers off the tokens in front of a name, the nearest token first. `left` counts
the opening parentheses met so far, `right` those that close behind the name, and `found` holds
the qualifiers met since the last pointer. Gives the pointers that were understood and, if nothing
was wrong with them, the qualifiers and the tokens of the type. -/
def unwindPointers (right : Nat) : Nat → Qualifiers → List Token →
    List Qualifiers × Except SyntaxError (Qualifiers × List Token)
  | _, _, [] => ([], .error .outOfTokens)
  | left, found, .qualifier word :: tokens =>
    match found.insert? word with
    | none => ([], .error (.duplicateQualifier word .pointer))
    | some found => unwindPointers right left found tokens
  | left, found, .punctuation .leftParen :: tokens =>
    if found.isEmpty then unwindPointers right (left + 1) found tokens
    else ([], .error (.unexpectedToken (.punctuation .leftParen) .pointers))
  | left, found, .punctuation .asterisk :: tokens =>
    let (pointers, result) := unwindPointers right left .empty tokens
    (found :: pointers, result)
  | left, found, token :: tokens =>
    if !found.isEmpty && !(token.isType || token.isSign) then
      ([], .error (.unexpectedToken token .pointers))
    else if left ≠ right then ([], .error (.unbalancedParens left right))
    else ([], .ok (found, token :: tokens))

/-- What is known of a base type while its tokens are read. -/
structure Specifiers where
  qualifiers : Qualifiers
  sign : Option Sign
  type : Option TypeSpecifier
  deriving DecidableEq

namespace Specifiers

/-- Takes one more token, which stands to the left of those known. -/
def add (name : String) (known : Specifiers) : Token → Except SyntaxError Specifiers
  | .qualifier word =>
    match known.qualifiers.insert? word with
    | none => .error (.duplicateQualifier word .type)
    | some qualifiers => .ok { known with qualifiers }
  | .sign word =>
    match known.sign with
    | none => .ok { known with sign := some word }
    | some other => .error (if other = word then .duplicateSign word else .conflictingSigns)
  | .type specifier =>
    match known.type with
    | none => .ok { known with type := some specifier }
    | some other => .error (.conflictingTypes specifier other name)
  | token => .error (.unexpectedToken token .baseType)

/-- Says the type that is known, as far as it makes sense. -/
def conclude (name : String) (known : Specifiers) : List Phrase × Except SyntaxError BaseType :=
  match known.type, known.sign with
  | none, _ => ([], .error (.missingType name))
  | some specifier, none =>
    let base := ⟨known.qualifiers, none, specifier⟩
    (base.phrases, .ok base)
  | some specifier, some word =>
    let base := ⟨known.qualifiers, some word, specifier⟩
    if specifier.isIntegral then (base.phrases, .ok base)
    else ([.qualifiers known.qualifiers], .error (.invalidSign word specifier))

section Sign

variable {name : String} {qualifiers : Qualifiers} {word : Sign} {specifier : TypeSpecifier}

theorem conclude_of_isIntegral (h : specifier.isIntegral) :
    conclude name ⟨qualifiers, some word, some specifier⟩ =
      (BaseType.phrases ⟨qualifiers, some word, specifier⟩,
        .ok ⟨qualifiers, some word, specifier⟩) :=
  if_pos h

theorem conclude_of_not_isIntegral (h : ¬ specifier.isIntegral) :
    conclude name ⟨qualifiers, some word, some specifier⟩ =
      ([.qualifiers qualifiers], .error (.invalidSign word specifier)) :=
  if_neg h

end Sign

end Specifiers

/-- Reads the base type off the tokens in front of the pointers, the nearest token first. -/
def unwindBase (name : String) (found : Qualifiers) (tokens : List Token) :
    List Phrase × Except SyntaxError BaseType :=
  match tokens.foldlM (Specifiers.add name) ⟨found, none, none⟩ with
  | .error e => ([], .error e)
  | .ok known => known.conclude name

/-- Reads a declaration from its name outwards, and says what it reads until something is
wrong. -/
def unwind (name : String) (right : Nat) (tokens : List Token) :
    List Phrase × Except SyntaxError Declaration :=
  match unwindPointers right 0 .empty tokens with
  | (pointers, .error e) => (pointers.map .pointer, .error e)
  | (pointers, .ok (found, tokens)) =>
    let (phrases, base) := unwindBase name found tokens
    (pointers.map .pointer ++ phrases, base.map (⟨name, pointers, ·⟩))

end CDeclarations
