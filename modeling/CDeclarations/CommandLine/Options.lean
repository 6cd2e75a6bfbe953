import CDeclarations.Declaration.TokenStack

namespace CDeclarations.CommandLine

/-- What the user asks for. -/
structure Options where
  file : Option String
  tokens : Bool
  stackSize : Nat
  keepGoing : Bool
  deriving DecidableEq

inductive UsageError
  | unknownArgument
  | missingValue
  | repeatedArgument
  | badValue
  | unwantedValue
  deriving DecidableEq

/-- Why there are no options: a mistake, or a question that is answered instead. -/
inductive Refusal
  | usage (mistake : UsageError)
  | help
  | version
  deriving DecidableEq

/-- An argument whose value is read but not checked. It is checked when the next argument has
been recognised, so a mistake in recognising that one is found first. -/
inductive Pending
  | stackSize (value : Option String)
  | file (path : String)
  deriving DecidableEq

/-- The arguments read so far. -/
structure Progress where
  file : Option String
  tokens : Bool
  stackSize : Option Nat
  keepGoing : Bool
  pending : Option Pending
  /-- All further arguments are files, whatever they look like. -/
  filesOnly : Bool
  deriving DecidableEq

def Progress.start : Progress := ⟨none, false, none, false, none, false⟩

def Progress.options (p : Progress) : Options :=
  ⟨p.file, p.tokens, p.stackSize.getD TokenStack.defaultCapacity, p.keepGoing⟩

/-- The largest count that fits in 64 bits. -/
def maxCount : Nat := UInt64.size - 1

/-- The value of decimal digits, which may stand behind one plus sign. -/
def readCount? (text : String) : Option Nat :=
  let digits :=
    match text.toList with
    | '+' :: digits => digits
    | digits => digits
  if digits.isEmpty || !digits.all Char.isDigit then none
  else
    let value := digits.foldl (fun n c => 10 * n + (c.toNat - '0'.toNat)) 0
    if value ≤ maxCount then some value else none

/-- Checks the argument that waits to be checked. -/
def Progress.settle (p : Progress) : Except Refusal Progress :=
  match p.pending with
  | none => .ok p
  | some (.stackSize none) => .error (.usage .missingValue)
  | some (.stackSize (some value)) =>
    if p.stackSize.isSome then .error (.usage .repeatedArgument)
    else
      match readCount? value with
      | none => .error (.usage .badValue)
      | some size => .ok { p with stackSize := some size, pending := none }
  | some (.file path) =>
    if path = "" then .error (.usage .missingValue)
    else .ok { p with file := some path, pending := none }

/-- There is one file at most. -/
def Progress.hasFile (p : Progress) : Bool :=
  match p.pending with
  | some (.file _) => true
  | _ => p.file.isSome

def Progress.addFile (p : Progress) (path : String) : Except Refusal Progress :=
  if p.hasFile then .error (.usage .unknownArgument)
  else do
    let p ← p.settle
    return { p with pending := some (.file path) }

/-- The name of a long option, and the value behind its first equals sign. -/
def splitOption (option : List Char) : String × Option String :=
  match option.dropWhile (· ≠ '=') with
  | [] => (.ofList option, none)
  | _ :: value => (.ofList (option.takeWhile (· ≠ '=')), some (.ofList value))

/-- Reads an option that two dashes announce. -/
def Progress.addLong (p : Progress) (option : List Char) : Except Refusal Progress :=
  match splitOption option with
  | ("stack-size", none) => do
    let p ← p.settle
    return { p with pending := some (.stackSize none) }
  | ("stack-size", some value) => do
    let p ← p.settle
    { p with pending := some (.stackSize (some value)) }.settle
  | ("tokens", none) => do
    let p ← p.settle
    if p.tokens then throw (.usage .repeatedArgument)
    return { p with tokens := true }
  | ("keep-going", none) => do
    let p ← p.settle
    if p.keepGoing then throw (.usage .repeatedArgument)
    return { p with keepGoing := true }
  | ("help", none) => do
    let _ ← p.settle
    throw .help
  | ("version", none) => do
    let _ ← p.settle
    throw .version
  | ("tokens", some _) | ("keep-going", some _) | ("help", some _) | ("version", some _) =>
    throw (.usage .unwantedValue)
  | _ => throw (.usage .unknownArgument)

/-- Reads letters behind a single dash. The first one decides, since each letter that is known
ends the reading. -/
def Progress.addShort (p : Progress) (letter : Char) : Except Refusal Progress := do
  if letter = 'h' then
    let _ ← p.settle
    throw .help
  else if letter = 'V' then
    let _ ← p.settle
    throw .version
  else throw (.usage .unknownArgument)

/-- Reads one more argument. A single dash is a file, or a value if one is due. -/
def Progress.add (p : Progress) (argument : String) : Except Refusal Progress :=
  if p.filesOnly then p.addFile argument
  else
    match argument.toList with
    | ['-', '-'] => .ok { p with filesOnly := true }
    | '-' :: '-' :: option => p.addLong option
    | '-' :: letter :: _ => p.addShort letter
    | _ =>
      if p.pending = some (.stackSize none) then
        .ok { p with pending := some (.stackSize (some argument)) }
      else p.addFile argument

/-- The options that arguments stand for. -/
def Options.parse (arguments : List String) : Except Refusal Options := do
  let p ← arguments.foldlM Progress.add .start
  let p ← p.settle
  return p.options

end CDeclarations.CommandLine
