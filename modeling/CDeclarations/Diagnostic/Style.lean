namespace CDeclarations

/-- The ways in which parts of a diagnostic stand out on a terminal with colors. -/
inductive Style
  | alarm
  | pointer
  | faint
  deriving DecidableEq

/-- Bold red, blue and dimmed. -/
def Style.code : Style → String
  | .alarm => "1;31"
  | .pointer => "34"
  | .faint => "2"

/-- A text in a style, which is a plain text where there are no colors. -/
def Style.paint (colors : Bool) (style : Style) (text : String) : String :=
  if colors then "\x1b[" ++ style.code ++ "m" ++ text ++ "\x1b[0m" else text

@[simp] theorem Style.paint_false (style : Style) (text : String) :
    style.paint false text = text := rfl

end CDeclarations
