import CDeclarations.Declaration.Qualifiers
import CDeclarations.Text.Bytes

namespace CDeclarations

/-- The type that a declarator is built on. -/
structure BaseType where
  qualifiers : Qualifiers
  sign : Option Sign
  specifier : TypeSpecifier
  deriving DecidableEq

/-- What a declaration says: the name, the pointers from the one nearest to the name outwards,
each with its own qualifiers, and the type at their end. -/
structure Declaration where
  name : String
  pointers : List Qualifiers
  base : BaseType
  deriving DecidableEq

/-- A piece of a declaration in English. -/
inductive Phrase
  | name (word : String)
  | pointer (set : Qualifiers)
  | qualifiers (set : Qualifiers)
  | sign (word : Sign)
  | type (specifier : TypeSpecifier)
  deriving DecidableEq

namespace Phrase

def text : Phrase → String
  | .name word => word ++ ":"
  | .pointer set => set.text ++ " pointer to"
  | .qualifiers set => set.text
  | .sign word => " " ++ word.spelling
  | .type specifier => " " ++ specifier.spelling ++ "\n"

/-- The bytes of phrases said one after another. -/
def bytes (phrases : List Phrase) : List UInt8 := phrases.flatMap fun p => Text.utf8 p.text

@[simp] theorem bytes_nil : bytes [] = [] := rfl

@[simp] theorem bytes_cons (p : Phrase) (phrases : List Phrase) :
    bytes (p :: phrases) = Text.utf8 p.text ++ bytes phrases := rfl

@[simp] theorem bytes_append (a b : List Phrase) : bytes (a ++ b) = bytes a ++ bytes b :=
  List.flatMap_append

end Phrase

def BaseType.phrases (base : BaseType) : List Phrase :=
  .qualifiers base.qualifiers :: (base.sign.map .sign).toList ++ [.type base.specifier]

/-- The declaration in English, in the order in which C is read: the name, then outwards. -/
def Declaration.phrases (d : Declaration) : List Phrase :=
  .name d.name :: d.pointers.map .pointer ++ d.base.phrases

end CDeclarations
