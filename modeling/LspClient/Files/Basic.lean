import LspClient.Files.Path

/-!
# Files

What a program can know of the files around it: which paths hold a text and
which are directories. Two spellings of a path that differ in repeated slashes
and `.` components lead to the same file. The root is always a directory, and
so is the place where relative paths start.
-/

namespace LspClient

/-- Why a file cannot be read. -/
inductive FileError where
  | missing
  | isDirectory
  | notDirectory
  deriving DecidableEq, Repr

namespace FileError

/-- The system's words and number for an error. -/
def message : FileError → String
  | .missing => "No such file or directory (os error 2)"
  | .isDirectory => "Is a directory (os error 21)"
  | .notDirectory => "Not a directory (os error 20)"

end FileError

/-- Files with their texts, and directories. -/
structure Files where
  texts : List (String × String) := []
  directories : List String := []

namespace Files

/-- Whether two paths lead to the same place. -/
def samePlace (a b : String) : Bool :=
  FilePath.isAbsolute a == FilePath.isAbsolute b && FilePath.steps a == FilePath.steps b

/-- Whether a path goes on behind a file as if it were a directory. -/
def isBehind (path file : String) : Bool :=
  FilePath.isAbsolute path == FilePath.isAbsolute file &&
    (FilePath.steps file).isPrefixOf (FilePath.steps path)

/-- Whether a path may only lead to a directory. -/
def endsAsDirectory (path : String) : Bool :=
  path.endsWith "/" || path.endsWith "/."

/-- The text at a path. -/
def read (files : Files) (path : String) : Except FileError String :=
  if path = "" then .error .missing
  else if FilePath.isRoot path || files.directories.any (samePlace path) then .error .isDirectory
  else
    match files.texts.find? fun file => samePlace path file.1 with
    | some (_, text) => if endsAsDirectory path then .error .notDirectory else .ok text
    | none =>
      if files.texts.any fun file => isBehind path file.1 then .error .notDirectory
      else .error .missing

/-- What every system has: a file of nothing, and the directories around it. -/
def standard : Files where
  texts := [("/dev/null", "")]
  directories := ["/bin", "/dev", "/etc", "/home", "/lib", "/opt", "/proc", "/root", "/sbin",
    "/sys", "/tmp", "/usr", "/usr/bin", "/usr/lib", "/usr/local", "/usr/sbin", "/var", "/var/tmp"]

end Files

end LspClient
