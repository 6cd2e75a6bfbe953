import CDeclarations.Diagnostic.Style

namespace CDeclarations

def blanks (n : Nat) : String := .ofList (List.replicate n ' ')

/-- The number of a line in front of it, flush right in six columns if it fits. -/
def gutter (number : Nat) : String :=
  blanks (6 - (toString number).length) ++ toString number ++ " | "

/-- A line behind its number, and under it, in the same column, what there is to add. -/
def excerpt (colors : Bool) (number : Nat) (line : String) (extra : Option String) : String :=
  Style.faint.paint colors (gutter number) ++ line ++
    match extra with
    | none => ""
    | some extra => "\n" ++ blanks (gutter number).length ++ extra

end CDeclarations
