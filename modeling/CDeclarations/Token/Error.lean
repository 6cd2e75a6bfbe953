import CDeclarations.Input.Stream
import CDeclarations.Text.Ascii

namespace CDeclarations

/-- How the reading of a token came out. -/
inductive TokenStatus
  | ok
  | putBackFailed
  | endOfInput
  | notNumber
  | notIdentifier
  | badToken
  | readFailed
  deriving DecidableEq

def TokenStatus.name : TokenStatus → String
  | .ok => "ok"
  | .putBackFailed => "unread_failed"
  | .endOfInput => "eof"
  | .notNumber => "not_number"
  | .notIdentifier => "not_identifier"
  | .badToken => "bad_token"
  | .readFailed => "read_failed"

def TokenStatus.message : TokenStatus → String
  | .ok => "success"
  | .putBackFailed => "failed to put last read char back to stream"
  | .endOfInput => "read end of input from stream"
  | .notNumber => "next token to read is not a number"
  | .notIdentifier => "next token to read is not an identifier"
  | .badToken => "unable to retrieve valid token, see token text for details"
  | .readFailed => "failed to read from input stream"

/-- Why no token was read. -/
inductive TokenError
  | endOfInput
  | putBackFailed
  | notNumber
  | notIdentifier
  /-- The bytes form no token, the text says why. -/
  | badToken (text : String)
  | readFailed (cause : ReadFault)
  deriving DecidableEq

namespace TokenError

def tooLongText : String := "token too large: ..."

def unterminatedCommentText : String := "unterminated comment"

def tooLong : TokenError := .badToken tooLongText

def unterminatedComment : TokenError := .badToken unterminatedCommentText

/-- The byte is shown as the character of the same value. -/
def unknownCharacter (c : Char) : TokenError :=
  .badToken ("unknown character token '" ++ Text.escaped c ++ "'")

def status : TokenError → TokenStatus
  | .endOfInput => .endOfInput
  | .putBackFailed => .putBackFailed
  | .notNumber => .notNumber
  | .notIdentifier => .notIdentifier
  | .badToken _ => .badToken
  | .readFailed _ => .readFailed

/-- The text of a bad token. Other errors carry none. -/
def text : TokenError → String
  | .badToken text => text
  | _ => ""

def message : TokenError → String
  | .badToken text => text
  | .readFailed cause => "failed to read input: " ++ cause.message
  | error => error.status.message

theorem status_ne_ok (e : TokenError) : e.status ≠ .ok := by
  cases e <;> simp [status]

end TokenError

end CDeclarations
