import CDeclarations.Token.Basic

namespace CDeclarations

/-- What a qualifier qualifies. -/
inductive QualifierTarget
  | pointer
  | type
  deriving DecidableEq

def QualifierTarget.name : QualifierTarget → String
  | .pointer => "pointer"
  | .type => "type"

/-- The parts in front of a name, from the name outwards. -/
inductive DeclarationPart
  | pointers
  | baseType
  deriving DecidableEq

def DeclarationPart.name : DeclarationPart → String
  | .pointers => "pointers"
  | .baseType => "identifier type"

/-- Why tokens make no declaration. -/
inductive SyntaxError
  | incomplete (name : String)
  | duplicateQualifier (word : Qualifier) (target : QualifierTarget)
  | unexpectedToken (token : Token) (part : DeclarationPart)
  | unbalancedParens (left right : Nat)
  | outOfTokens
  /-- Two types, the one further to the left first. -/
  | conflictingTypes (left right : TypeSpecifier) (name : String)
  | conflictingSigns
  | duplicateSign (word : Sign)
  | invalidSign (word : Sign) (specifier : TypeSpecifier)
  | missingType (name : String)
  deriving DecidableEq

def SyntaxError.message : SyntaxError → String
  | .incomplete name => "incomplete declaration for identifier `" ++ name ++ "`"
  | .duplicateQualifier word target =>
    "duplicate " ++ word.spelling ++ " qualifier for " ++ target.name
  | .unexpectedToken token part =>
    "unexpected token `" ++ token.spelling ++ "` when parsing " ++ part.name
  | .unbalancedParens left right =>
    "unbalanced parentheses when parsing pointers: " ++ toString left ++ " '(' but "
      ++ toString right ++ " ')'"
  | .outOfTokens => "unexpectedly ran out of tokens when parsing pointers, missing type"
  | .conflictingTypes left right name =>
    "conflicting types `" ++ left.spelling ++ "` and `" ++ right.spelling
      ++ "` for identifier `" ++ name ++ "`"
  | .conflictingSigns => "conflicting signed and unsigned qualifiers"
  | .duplicateSign word => "duplicate " ++ word.spelling ++ " qualifier"
  | .invalidSign word specifier =>
    word.spelling ++ " qualifier not valid for type `" ++ specifier.spelling ++ "`"
  | .missingType name => "identifier `" ++ name ++ "` missing required type"

end CDeclarations
