namespace CDeclarations

inductive Punctuation
  | leftParen
  | rightParen
  | leftBracket
  | rightBracket
  | comma
  | slash
  | asterisk
  | semicolon
  deriving DecidableEq

inductive Qualifier
  | const
  | volatile
  deriving DecidableEq

inductive Sign
  | signed
  | unsigned
  deriving DecidableEq

/-- The types that a single word names. -/
inductive BasicType
  | void
  | char
  | int
  | long
  | float
  | double
  deriving DecidableEq

/-- The words that make a type out of the name behind them. -/
inductive TagKind
  | struct
  | enum
  deriving DecidableEq

inductive TypeSpecifier
  | basic (word : BasicType)
  | tagged (kind : TagKind) (name : String)
  deriving DecidableEq

inductive Token
  | punctuation (mark : Punctuation)
  | qualifier (word : Qualifier)
  | sign (word : Sign)
  | type (specifier : TypeSpecifier)
  | number (literal : String)
  | identifier (name : String)
  deriving DecidableEq

/-- A token less the text that it carries. -/
inductive TokenKind
  | punctuation (mark : Punctuation)
  | qualifier (word : Qualifier)
  | sign (word : Sign)
  | basic (word : BasicType)
  | tagged (kind : TagKind)
  | number
  | identifier
  deriving DecidableEq

def Punctuation.symbol : Punctuation → Char
  | .leftParen => '('
  | .rightParen => ')'
  | .leftBracket => '['
  | .rightBracket => ']'
  | .comma => ','
  | .slash => '/'
  | .asterisk => '*'
  | .semicolon => ';'

def Punctuation.name : Punctuation → String
  | .leftParen => "lparen"
  | .rightParen => "rparen"
  | .leftBracket => "lbracket"
  | .rightBracket => "rbracket"
  | .comma => "comma"
  | .slash => "slash"
  | .asterisk => "star"
  | .semicolon => "semicolon"

def Qualifier.spelling : Qualifier → String
  | .const => "const"
  | .volatile => "volatile"

def Sign.spelling : Sign → String
  | .signed => "signed"
  | .unsigned => "unsigned"

def BasicType.spelling : BasicType → String
  | .void => "void"
  | .char => "char"
  | .int => "int"
  | .long => "long"
  | .float => "float"
  | .double => "double"

def TagKind.spelling : TagKind → String
  | .struct => "struct"
  | .enum => "enum"

def TypeSpecifier.spelling : TypeSpecifier → String
  | .basic word => word.spelling
  | .tagged kind name => kind.spelling ++ " " ++ name

/-- The types that `signed` and `unsigned` can qualify. -/
def TypeSpecifier.isIntegral : TypeSpecifier → Bool
  | .basic .char | .basic .int | .basic .long => true
  | _ => false

namespace Token

/-- How the token is written in C. -/
def spelling : Token → String
  | .punctuation mark => mark.symbol.toString
  | .qualifier word => word.spelling
  | .sign word => word.spelling
  | .type specifier => specifier.spelling
  | .number literal => literal
  | .identifier name => name

def kind : Token → TokenKind
  | .punctuation mark => .punctuation mark
  | .qualifier word => .qualifier word
  | .sign word => .sign word
  | .type (.basic word) => .basic word
  | .type (.tagged kind _) => .tagged kind
  | .number _ => .number
  | .identifier _ => .identifier

/-- What a token says beyond its kind. -/
def text : Token → String
  | .type (.tagged _ name) => name
  | .number literal => literal
  | .identifier name => name
  | _ => ""

def isQualifier : Token → Bool
  | .qualifier _ => true
  | _ => false

def isSign : Token → Bool
  | .sign _ => true
  | _ => false

def isType : Token → Bool
  | .type _ => true
  | _ => false

def isIntegral : Token → Bool
  | .type specifier => specifier.isIntegral
  | _ => false

end Token

/-- The name of a kind in listings of tokens. -/
def TokenKind.name : TokenKind → String
  | .punctuation mark => mark.name
  | .qualifier word => word.spelling
  | .sign word => word.spelling
  | .basic word => word.spelling
  | .tagged kind => kind.spelling
  | .number => "number"
  | .identifier => "identifier"

/-- Kind and text are all there is to a token. -/
theorem Token.eq_of_kind_eq_of_text_eq {a b : Token} (hkind : a.kind = b.kind)
    (htext : a.text = b.text) : a = b := by
  cases a with
  | type s =>
    cases s <;> cases b with
    | type t => cases t <;> simp_all [Token.kind, Token.text]
    | _ => simp [Token.kind] at hkind
  | _ =>
    cases b with
    | type t => cases t <;> simp [Token.kind] at hkind
    | _ => simp_all [Token.kind, Token.text]

end CDeclarations
