import CDeclarations.Diagnostic.Excerpt

namespace CDeclarations

/-- What is wrong with a line of the input. -/
structure Finding where
  headline : String
  number : Nat
  line : String
  note : Option String
  deriving DecidableEq

/-- A message for the user, as far as its parts are known. -/
structure Diagnostic where
  headline : String
  file : Option String
  /-- The line that the message is about, behind its number. -/
  context : Option (Nat × String)
  note : Option String
  deriving DecidableEq

namespace Diagnostic

def blank : Diagnostic := ⟨"", none, none, none⟩

def ofHeadline (headline : String) : Diagnostic := { blank with headline }

def ofFile (file : Option String) : Diagnostic := { blank with file }

/-- A note stands under the line if there is one. -/
def render (colors : Bool) (d : Diagnostic) : String :=
  Style.alarm.paint colors "error:" ++ " " ++ d.headline ++
    match d.context with
    | some (number, line) =>
      "\n " ++ Style.pointer.paint colors "-->" ++ " " ++ d.file.getD "<stdin>" ++ ":"
        ++ toString number ++ "\n" ++ excerpt colors number line (d.note.map ("= " ++ ·))
    | none =>
      match d.note with
      | some note => "\n  = " ++ note
      | none => ""

/-- The message about a finding, with the file and, if the finding has no note, the note of the
message that it is made from. -/
def about (d : Diagnostic) (finding : Finding) : Diagnostic :=
  { d with
    headline := finding.headline
    context := some (finding.number, finding.line)
    note := finding.note <|> d.note }

end Diagnostic

end CDeclarations
