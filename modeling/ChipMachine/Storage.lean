import ChipMachine.ByteSource

namespace ChipMachine

inductive StorageError where
  | missing
  | isFolder
  | nameTooLong
  /-- A name that holds the character which ends names. -/
  | nameEndsEarly
  deriving DecidableEq

namespace StorageError

def message : StorageError → String
  | missing => "No such file or directory (os error 2)"
  | isFolder => "Is a directory (os error 21)"
  | nameTooLong => "File name too long (os error 36)"
  | nameEndsEarly => "file name contained an unexpected NUL byte"

end StorageError

/-- Files by path, and no other folder inside. -/
structure Folder where
  files : List (String × List UInt8)

namespace Folder

/-- Bytes that a name between slashes can have. -/
def nameLimit : Nat := 255

/-- Bytes that a path can have, its end mark counted. -/
def pathLimit : Nat := 4096

/-- Whether a part of a path stays among folders: nothing, this folder, or the one around it. -/
def isStep (part : String) : Bool := part == "" || part == "." || part == ".."

/-- What is wrong with a path that names no file here. -/
def refusal (path : String) : StorageError :=
  if path.utf8ByteSize ≥ pathLimit then .nameTooLong
  else
    match (path.splitOn "/").find? (! isStep ·) with
    | some name => if name.utf8ByteSize > nameLimit then .nameTooLong else .missing
    | none => if path = "" then .missing else .isFolder

/-- Opens a file. A folder can be opened as well, but not read. -/
def openFile (folder : Folder) (path : String) : Except StorageError ByteSource :=
  if path.toList.contains '\x00' then .error .nameEndsEarly
  else
    match folder.files.lookup path with
    | some bytes => .ok (.ofList bytes)
    | none =>
      match refusal path with
      | .isFolder => .ok (.failed StorageError.isFolder.message)
      | e => .error e

end Folder
end ChipMachine
