/-!
# Paths and their URIs

A path is announced to servers as a `file` URI of its absolute form, and which form that is
does not depend on the path alone. A path that leads to something is replaced by its
canonical form, and only the file system knows that. A relative path that leads to nothing
starts in the current directory. `Places` is what has to be known for this, as it is at one
moment, and everything here holds in any places.

The form of a path that leads to nothing is lexical: `.` components and repeated slashes go,
`..` stays because what it means depends on links, a trailing slash stays, and two leading
slashes, no more and no fewer, stay two. Characters are not escaped. Paths are those of
systems with slashes and no drive letters, and they are texts.
-/

namespace LspClient.FilePath

/-- A part of a path. -/
inductive Component where
  /-- the slash that an absolute path starts with -/
  | root
  /-- a relative path's leading `.` -/
  | here
  /-- `..` -/
  | parent
  | name (text : String)
  deriving DecidableEq, Repr

/-- Whether a path is absolute. -/
def isAbsolute (path : String) : Bool :=
  path.toList.head? == some '/'

/-- The parts between slashes that mean something. -/
def steps (path : String) : List Component :=
  ((path.toList.splitOn '/').filter fun part => part ≠ [] && part ≠ ['.']).map
    fun part => if part = ['.', '.'] then .parent else .name (String.ofList part)

/-- Whether a relative path starts with a `.` of its own. -/
def startsHere (path : String) : Bool :=
  (path.toList.splitOn '/').head? == some ['.']

/-- The components of a path. -/
def components (path : String) : List Component :=
  (if isAbsolute path then [.root] else if startsHere path then [.here] else []) ++ steps path

/-- The last component, if it is a name. -/
def fileName? (path : String) : Option String :=
  match (components path).getLast? with
  | some (.name text) => some text
  | _ => none

/-- Whether a path leads to the root by slashes, `.` and `..` alone. -/
def isRoot (path : String) : Bool :=
  (steps path).all (· == .parent)

/-- A component as text. -/
def Component.text : Component → String
  | .root => ""
  | .here => "."
  | .parent => ".."
  | .name text => text

/-- Whether a path starts with exactly two slashes. -/
def startsWithTwo (path : String) : Bool :=
  match path.toList with
  | '/' :: '/' :: rest => rest.head? != some '/'
  | _ => false

/-- What surrounds paths at one moment. -/
structure Places where
  /-- the canonical form of a path that leads to something -/
  canonical? : String → Option String
  /-- the directory that relative paths start in, unless it is gone -/
  current? : Option String

/-- Places of which no more is known than that there is a root, and that it is the current
directory. -/
def Places.bare : Places where
  canonical? := fun path => if path ≠ "" ∧ isRoot path then some "/" else none
  current? := some "/"

/-- A path with one component more, or with a slash behind it for an empty one. -/
def push (path component : String) : String :=
  if path = "" || path.toList.getLast? == some '/' then path ++ component
  else path ++ "/" ++ component

/-- Where a path starts. -/
def start? (path : String) (places : Places) : Option String :=
  if isAbsolute path then some (if startsWithTwo path then "//" else "/") else places.current?

/-- The lexically absolute form. The empty path has none, and neither has a relative one that
starts nowhere. -/
def lexical? (path : String) (places : Places) : Option String :=
  if path = "" then none
  else
    (start? path places).map fun start =>
      let body := (steps path).foldl (fun body step => push body step.text) start
      if path.toList.getLast? == some '/' then push body "" else body

/-- The form that is announced, which is the path itself if it has no other. -/
def absolute (path : String) (places : Places) : String :=
  ((places.canonical? path).or (lexical? path places)).getD path

/-- The URI of a path. -/
def uri (path : String) (places : Places := .bare) : String :=
  "file://" ++ absolute path places

end LspClient.FilePath
