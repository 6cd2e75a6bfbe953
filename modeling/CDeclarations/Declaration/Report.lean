import CDeclarations.Declaration.Basic
import CDeclarations.Declaration.SyntaxError
import CDeclarations.Text.Capped
import CDeclarations.Token.Run

namespace CDeclarations

/-- How the reading of a declaration came out. -/
inductive DeclarationStatus
  | ok
  | endOfInput
  | tokenError
  | tooManyTokens
  | outputFailed
  | malformed
  | noErrorText
  | errorTextTooLong
  deriving DecidableEq

def DeclarationStatus.name : DeclarationStatus → String
  | .ok => "ok"
  | .endOfInput => "eof"
  | .tokenError => "lexer_error"
  | .tooManyTokens => "token_overflow"
  | .outputFailed => "output_error"
  | .malformed => "parse_error"
  | .noErrorText => "null_error_text"
  | .errorTextTooLong => "error_text_too_long"

def DeclarationStatus.message : DeclarationStatus → String
  | .ok => "success"
  | .endOfInput => "parser read end of input before finishing declaration"
  | .tokenError => "lexer error, check error info lexer text"
  | .tooManyTokens => "too many tokens to fit on token stack"
  | .outputFailed => "error writing parser output to stream"
  | .malformed => "parser error, check error info parser text"
  | .noErrorText => "parser error recorded without error text"
  | .errorTextTooLong => "parser error text too long, truncated"

/-- Why no declaration was read. -/
inductive DeclarationError
  | endOfInput
  | token (cause : TokenError)
  | tooManyTokens
  | outputFailed
  | malformed (cause : SyntaxError)
  deriving DecidableEq

/-- The end of the input is an error of its own, also where a token is only begun. -/
def DeclarationError.ofTokenError : TokenError → DeclarationError
  | .endOfInput => .endOfInput
  | error => .token error

/-- The text about a malformed declaration in a report has at most this many bytes. -/
def maxErrorTextLength : Nat := 255

/-- What is kept of the last reading, for tokens and for the declaration as a whole. -/
structure Report where
  tokenStatus : TokenStatus
  tokenText : String
  status : DeclarationStatus
  text : String
  deriving DecidableEq

namespace Report

/-- The report of a success. -/
def clear : Report := ⟨.ok, "", .ok, ""⟩

def isOk (r : Report) : Bool := r.status = .ok

/-- Puts a new outcome in the place of the old one. A text is kept only where the status calls
for one. That about a bad token is cut to the length of a token, and a malformed declaration
without a text, or with one that is too long, has a status of its own. -/
def record (r : Report) (tokenStatus : TokenStatus) (tokenText : String)
    (status : DeclarationStatus) (text : Option String) : Report :=
  let kept := if tokenStatus = .badToken then Text.capped maxTokenLength tokenText else ""
  let r := { r with tokenStatus, tokenText := kept }
  match status, text with
  | .malformed, none => { r with status := .noErrorText, text := "" }
  | .malformed, some text =>
    if text.utf8ByteSize ≤ maxErrorTextLength then { r with status := .malformed, text }
    else { r with status := .errorTextTooLong, text := Text.capped maxErrorTextLength text }
  | status, _ => { r with status, text := "" }

/-- Records how a reading came out. -/
def recordResult (r : Report) : Except DeclarationError Declaration → Report
  | .ok _ => r.record .ok "" .ok none
  | .error .endOfInput => r.record .endOfInput "" .endOfInput none
  | .error (.token cause) => r.record cause.status cause.text .tokenError none
  | .error .tooManyTokens => r.record .ok "" .tooManyTokens none
  | .error .outputFailed => r.record .ok "" .outputFailed none
  | .error (.malformed cause) => r.record .ok "" .malformed (some cause.message)

end Report

end CDeclarations
