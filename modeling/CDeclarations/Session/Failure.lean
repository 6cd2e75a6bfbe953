import CDeclarations.Declaration.Report

namespace CDeclarations

/-- Why a line is not accepted. -/
inductive Failure
  | token (cause : TokenError)
  | declaration (report : Report)
  /-- A token behind a complete declaration. -/
  | trailing (found : Token)
  deriving DecidableEq

namespace Failure

def headline : Failure → String
  | .token _ => "invalid token"
  | .declaration report =>
    match report.status with
    | .tokenError => "invalid token"
    | .malformed | .errorTextTooLong | .noErrorText => "invalid declaration"
    | status => status.message
  | .trailing _ => "unexpected input after declaration"

/-- The details, which may be empty. -/
def details : Failure → String
  | .token cause => cause.message
  | .declaration report =>
    if report.status = .tokenError then
      if report.tokenText = "" then report.tokenStatus.message else report.tokenText
    else report.text
  | .trailing found => "found `" ++ found.spelling ++ "`"

/-- No details, no note. -/
def note (f : Failure) : Option String := if f.details = "" then none else some f.details

end Failure

end CDeclarations
