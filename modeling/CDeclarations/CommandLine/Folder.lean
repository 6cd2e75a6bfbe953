import CDeclarations.Text.Bytes

namespace CDeclarations.CommandLine

/-- Why a file cannot be read as text. -/
inductive FileFault
  | missing
  | notDirectory
  | isDirectory
  | nameTooLong
  | denied
  | notText
  deriving DecidableEq

def FileFault.message : FileFault → String
  | .missing => "No such file or directory (os error 2)"
  | .notDirectory => "Not a directory (os error 20)"
  | .isDirectory => "Is a directory (os error 21)"
  | .nameTooLong => "File name too long (os error 36)"
  | .denied => "Permission denied (os error 13)"
  | .notText => "stream did not contain valid UTF-8"

/-- A name in a directory has at most this many bytes. -/
def maxNameLength : Nat := 255

/-- A path has at most this many bytes. -/
def maxPathLength : Nat := 4095

/-- Files under a folder, each by the names on the way to it. -/
structure Folder where
  files : List (List String × List UInt8)

/-- A place that a path leads to: a file, a directory by the names on the way to it, the last
first, or a directory outside of the folder, of which nothing is known. -/
inductive Place
  | file (content : List UInt8)
  | directory (way : List String)
  | outside

namespace Folder

def child (folder : Folder) (way : List String) : Except FileFault Place :=
  match folder.files.lookup way.reverse with
  | some content => .ok (.file content)
  | none =>
    if folder.files.any fun file => way.reverse.isPrefixOf file.1 then .ok (.directory way)
    else .error .missing

/-- The names that every directory has for itself. The empty one stands between two slashes, or
behind the last. -/
def isSelf (name : String) : Bool := name = "" || name = "."

/-- Follows one name of a path, which must lead on from a directory. The length of a name matters
only there: what is no directory, or is missing, is found first. -/
def follow (folder : Folder) (place : Place) (name : String) : Except FileFault Place :=
  match place with
  | .file _ => .error .notDirectory
  | .outside =>
    if isSelf name || name = ".." then .ok .outside
    else if name.utf8ByteSize > maxNameLength then .error .nameTooLong
    else .error .missing
  | .directory way =>
    if isSelf name then .ok (.directory way)
    else if name = ".." then
      match way with
      | [] => .ok .outside
      | _ :: way => .ok (.directory way)
    else if name.utf8ByteSize > maxNameLength then .error .nameTooLong
    else folder.child (name :: way)

/-- The text of the file that a path leads to. A path that is too long is not followed at all. -/
def read (folder : Folder) (path : String) : Except FileFault String := do
  if path.utf8ByteSize > maxPathLength then throw .nameTooLong
  let names := path.splitOn "/"
  let start := if path.startsWith "/" then .outside else .directory []
  match ← names.foldlM folder.follow start with
  | .file content =>
    match Text.decode? content with
    | some text => return text
    | none => throw .notText
  | _ => throw .isDirectory

end Folder

end CDeclarations.CommandLine
