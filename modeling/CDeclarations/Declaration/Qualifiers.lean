import CDeclarations.Token.Basic

namespace CDeclarations

/-- A set of qualifiers. -/
structure Qualifiers where
  const : Bool
  volatile : Bool
  deriving DecidableEq

namespace Qualifiers

def empty : Qualifiers := ⟨false, false⟩

def isEmpty (s : Qualifiers) : Bool := !s.const && !s.volatile

def contains (s : Qualifiers) : Qualifier → Bool
  | .const => s.const
  | .volatile => s.volatile

def insert (s : Qualifiers) : Qualifier → Qualifiers
  | .const => { s with const := true }
  | .volatile => { s with volatile := true }

/-- Fails on a qualifier that is in the set already. -/
def insert? (s : Qualifiers) (word : Qualifier) : Option Qualifiers :=
  if s.contains word then none else some (s.insert word)

/-- The qualifiers in English, `const` first and a blank before each. -/
def text (s : Qualifiers) : String :=
  (if s.const then " const" else "") ++ (if s.volatile then " volatile" else "")

@[simp] theorem contains_empty (word : Qualifier) : empty.contains word = false := by
  cases word <;> rfl

theorem contains_insert (s : Qualifiers) (a b : Qualifier) :
    (s.insert a).contains b = (decide (a = b) || s.contains b) := by
  cases a <;> cases b <;> simp [insert, contains]

theorem isEmpty_iff (s : Qualifiers) : s.isEmpty ↔ s = empty := by
  obtain ⟨c, v⟩ := s
  simp [isEmpty, empty]

/-- The words tell the set. -/
theorem text_injective {s t : Qualifiers} (h : s.text = t.text) : s = t := by
  obtain ⟨_ | _, _ | _⟩ := s <;> obtain ⟨_ | _, _ | _⟩ := t <;> revert h <;> decide

end Qualifiers

end CDeclarations
