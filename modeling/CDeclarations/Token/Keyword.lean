import CDeclarations.Token.Basic

namespace CDeclarations

/-- The words that are not free to be names. -/
inductive Keyword
  | qualifier (word : Qualifier)
  | sign (word : Sign)
  | basic (word : BasicType)
  | tagged (kind : TagKind)
  deriving DecidableEq

namespace Keyword

def spelling : Keyword → String
  | .qualifier word => word.spelling
  | .sign word => word.spelling
  | .basic word => word.spelling
  | .tagged kind => kind.spelling

def all : List Keyword :=
  [.qualifier .const, .qualifier .volatile, .sign .signed, .sign .unsigned,
    .basic .void, .basic .char, .basic .int, .basic .long, .basic .float, .basic .double,
    .tagged .struct, .tagged .enum]

def ofSpelling? (word : String) : Option Keyword := all.find? (·.spelling = word)

theorem mem_all (k : Keyword) : k ∈ all := by
  rcases k with (q | s | t | k)
  · cases q <;> decide
  · cases s <;> decide
  · cases t <;> decide
  · cases k <;> decide

@[simp] theorem ofSpelling?_spelling (k : Keyword) : ofSpelling? k.spelling = some k := by
  rcases k with (q | s | t | k)
  · cases q <;> rfl
  · cases s <;> rfl
  · cases t <;> rfl
  · cases k <;> rfl

theorem ofSpelling?_eq_some_iff {word : String} {k : Keyword} :
    ofSpelling? word = some k ↔ k.spelling = word := by
  constructor
  · intro h
    simpa using List.find?_some h
  · rintro rfl
    exact ofSpelling?_spelling k

/-- A word is free to be a name if no keyword is spelled so. -/
theorem ofSpelling?_eq_none_iff {word : String} :
    ofSpelling? word = none ↔ ∀ k : Keyword, k.spelling ≠ word := by
  simp [ofSpelling?, mem_all]

end Keyword

end CDeclarations
