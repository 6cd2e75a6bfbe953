import CDeclarations.CommandLine.Respond

namespace CDeclarations.CommandLine

/-- The text of a file of the system, or the reason that the system gives. -/
def readSource (path : String) : IO (Except FileFault String) := do
  try
    let content ← IO.FS.readBinFile path
    return decodeInput content.toList
  catch fault =>
    match fault with
    | .noFileOrDirectory .. => return .error .missing
    | .inappropriateType _ 21 _ => return .error .isDirectory
    | .inappropriateType .. => return .error .notDirectory
    | .invalidArgument .. => return .error .nameTooLong
    | .permissionDenied .. => return .error .denied
    | fault => throw fault

/-- Reads the source that the arguments name. Colors are for terminals. -/
def runProgram (arguments : List String) : IO Response := do
  let colors ← (← IO.getStderr).isTty
  match Options.parse arguments with
  | .error refusal => return refusal.response
  | .ok options =>
    match options.path? with
    | some path => return respondTo colors options (← readSource path)
    | none =>
      let input ← (← IO.getStdin).readBinToEnd
      return respondTo colors options (decodeInput input.toList)

end CDeclarations.CommandLine

def main (arguments : List String) : IO UInt32 := do
  let response ← CDeclarations.CommandLine.runProgram arguments
  let out ← IO.getStdout
  out.write ⟨response.out.toArray⟩
  out.flush
  (← IO.getStderr).putStr response.err
  return response.exitCode.toUInt32
