import CDeclarations.CommandLine.Folder
import CDeclarations.CommandLine.Options
import CDeclarations.Session.Run

namespace CDeclarations.CommandLine

/-- What the program leaves behind: its exit code, and what it wrote to the two outputs. -/
structure Response where
  exitCode : Nat
  out : List UInt8
  err : String

def versionText : String := "cdecl 0.1.0\n"

def helpText : String :=
  String.join <| List.map (· ++ "\n") [
    "Describe C variable declarations in plain English",
    "",
    "Usage: cdecl [OPTIONS] [FILE]",
    "",
    "Arguments:",
    "  [FILE]  File with one declaration per line, stdin if absent or `-`",
    "",
    "Options:",
    "      --tokens                   Print the tokens of each line instead of describing it",
    "      --stack-size <STACK_SIZE>  Maximum number of tokens before the declared identifier "
      ++ "[default: 20]",
    "      --keep-going               Continue with the next line after a line fails",
    "  -h, --help                     Print help",
    "  -V, --version                  Print version"]

def UsageError.message : UsageError → String
  | .unknownArgument => "unexpected argument"
  | .missingValue => "a value is required"
  | .repeatedArgument => "an argument cannot be used multiple times"
  | .badValue => "invalid value"
  | .unwantedValue => "unexpected value"

def Refusal.response : Refusal → Response
  | .help => ⟨0, Text.utf8 helpText, ""⟩
  | .version => ⟨0, Text.utf8 versionText, ""⟩
  | .usage mistake =>
    ⟨2, [], "error: " ++ mistake.message ++ "\n\nUsage: cdecl [OPTIONS] [FILE]\n"⟩

/-- The file to read. A single dash means the standard input, as does no file at all. -/
def Options.path? (options : Options) : Option String := options.file.filter (· ≠ "-")

def Options.settings (options : Options) : Settings where
  listTokens := options.tokens
  keepGoing := options.keepGoing
  capacity := options.stackSize

/-- A failure that ends the program. -/
def fatal (colors : Bool) (message : String) : Response :=
  ⟨1, [], (Diagnostic.ofHeadline message).render colors ++ "\n"⟩

/-- Runs a session on the source, if it could be read. -/
def respondTo (colors : Bool) (options : Options) (source : Except FileFault String) : Response :=
  match source, options.path? with
  | .error fault, none => fatal colors fault.message
  | .error fault, some path =>
    fatal colors ("unable to read file `" ++ path ++ "`: " ++ fault.message)
  | .ok source, path =>
    let transcript := runSession options.settings source .unbounded
    let findings := renderFindings colors (.ofFile path) transcript.findings
    match transcript.outcome with
    | .ok accepted => ⟨if accepted then 0 else 1, transcript.said, findings⟩
    | .error fault =>
      let last := fatal colors fault.message
      ⟨last.exitCode, transcript.said, findings ++ last.err⟩

/-- The text of bytes from the standard input. -/
def decodeInput (bytes : List UInt8) : Except FileFault String :=
  match Text.decode? bytes with
  | some text => .ok text
  | none => .error .notText

/-- Runs the program on arguments, in a folder. -/
def respond (colors : Bool) (arguments : List String) (input : List UInt8) (folder : Folder) :
    Response :=
  match Options.parse arguments with
  | .error refusal => refusal.response
  | .ok options =>
    respondTo colors options <|
      match options.path? with
      | none => decodeInput input
      | some path => folder.read path

end CDeclarations.CommandLine
