import CDeclarations.Declaration.Read
import CDeclarations.Diagnostic.Basic
import CDeclarations.Session.Failure
import CDeclarations.Text.Lines
import CDeclarations.Token.Sequence

namespace CDeclarations

/-- How a session treats its lines. -/
structure Settings where
  /-- List the tokens of a line instead of describing it. -/
  listTokens : Bool
  /-- Go on behind a line that fails. -/
  keepGoing : Bool
  /-- How many tokens there may be in front of a name. -/
  capacity : Nat
  deriving DecidableEq

def lineStream (line : String) : ByteStream := .ofBytes (Text.utf8 line)

/-- A line on which the input ends before a token has been read. -/
def isBlank (line : String) : Bool :=
  match nextToken (lineStream line) with
  | (.error .endOfInput, _) => true
  | _ => false

/-- Describes the one declaration on a line. Nothing is said of a line that fails. -/
def describeLine (capacity : Nat) (line : String) : List UInt8 × Option Failure :=
  let reading := readDeclaration capacity (lineStream line) .unbounded
  let report := Report.clear.recordResult reading.result
  if !report.isOk then ([], some (.declaration report))
  else
    match nextToken reading.rest with
    | (.error .endOfInput, _) => (reading.said, none)
    | (.error cause, _) => ([], some (.token cause))
    | (.ok token, _) => ([], some (.trailing token))

/-- A token in a listing: its kind, and its text if it has one. -/
def listingRow (token : Token) : String :=
  if token.text = "" then token.kind.name ++ "\n"
  else token.kind.name ++ " " ++ token.text ++ "\n"

/-- The rows of the tokens in front of the first error. -/
def listing : List (Except TokenError Token) → List UInt8 × Option Failure
  | [] => ([], none)
  | .error cause :: _ => ([], some (.token cause))
  | .ok token :: outcomes =>
    let (rows, failure) := listing outcomes
    (Text.utf8 (listingRow token) ++ rows, failure)

def listLine (line : String) : List UInt8 × Option Failure :=
  listing (readTokens (lineStream line)).1

/-- What a session has to say about a line. -/
structure Entry where
  number : Nat
  line : String
  text : List UInt8
  failure : Option Failure
  deriving DecidableEq

def Entry.ofLine (settings : Settings) (number : Nat) (line : String) : Entry :=
  let (text, failure) :=
    if settings.listTokens then listLine line else describeLine settings.capacity line
  ⟨number, line, text, failure⟩

def Entry.finding? (e : Entry) : Option Finding :=
  e.failure.map fun f => ⟨f.headline, e.number, e.line, f.note⟩

/-- The entries of lines numbered from `number` on. Blank lines count but have none. -/
def entriesFrom (settings : Settings) : Nat → List String → List Entry
  | _, [] => []
  | number, line :: lines =>
    if isBlank line then entriesFrom settings (number + 1) lines
    else Entry.ofLine settings number line :: entriesFrom settings (number + 1) lines

def entries (settings : Settings) (source : String) : List Entry :=
  entriesFrom settings 1 (Text.lines source)

/-- The entries up to the first failure. -/
def throughFailure : List Entry → List Entry
  | [] => []
  | e :: entries => e :: if e.failure.isSome then [] else throughFailure entries

end CDeclarations
