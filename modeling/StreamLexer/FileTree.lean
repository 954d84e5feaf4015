import StreamLexer.Source

/-! A tree of files below a working directory, and what opening a path in it gives. A path is followed name by
name: nothing lies below a file, a name must not be too long, and what is not listed does not exist. A
directory can be opened, but reading it fails. Outside the working directory there are only directories. -/
namespace StreamLexer

/-- The files with their contents and the directories, each by the names on the way to it. Of two files in one
place the first one counts. The directories on the way to a listed one need not be listed. -/
structure FileTree where
  files : List (List String × List UInt8)
  directories : List (List String)

namespace FileTree

def names (path : String) : List String := path.splitOn "/"

/-- Whether a name leads to where it stands. -/
def isStill (name : String) : Bool := name == "" || name == "."

/-- Where a name leads from a directory, whatever is listed, unless it leads out of the working directory. -/
def follow (place : List String) (name : String) : Option (List String) :=
  if isStill name then some place
  else if name = ".." then (if place.isEmpty then none else some place.dropLast)
  else some (place ++ [name])

/-- Where a relative path leads, and the directories on the way. -/
def way (path : String) : Option (List String × List (List String)) :=
  (names path).foldlM (fun (place, passed) name => (follow place name).map (·, place :: passed)) ([], [])

/-- The tree in which some relative paths are made one after the other, each with the directories on the way to
it. A path that leads out of the working directory makes nothing, and a file takes the place of an earlier one. -/
def ofPaths (files : List (String × List UInt8)) (directories : List String) : FileTree :=
  let filesMade := files.filterMap fun (path, contents) => (way path).map (·, contents)
  let directoriesMade := directories.filterMap way
  { files := (filesMade.map fun ((place, _), contents) => (place, contents)).reverse
    directories := filesMade.flatMap (·.1.2) ++ directoriesMade.flatMap fun (place, passed) => place :: passed }

/-- Where the names of a path have led so far. -/
inductive Place where
  | directory (path : List String)
  | file (contents : List UInt8)
  | outside
  deriving DecidableEq, Repr

/-- Whether a listed file or directory lies at or below some names. -/
def isDirectory (t : FileTree) (path : List String) : Bool :=
  path.isEmpty || t.directories.any path.isPrefixOf || t.files.any fun (file, _) => path.isPrefixOf file

def lookup (t : FileTree) (path : List String) : Except OsError Place :=
  match t.files.find? (·.1 == path) with
  | some (_, contents) => .ok (.file contents)
  | none => if t.isDirectory path then .ok (.directory path) else .error .noEntry

/-- The most bytes that a name may have. -/
def nameLimit : Nat := 255

/-- The most bytes that a path may have. -/
def pathLimit : Nat := 4095

/-- Follows one name. The empty name and the point stay where they are, two points go up. -/
def step (t : FileTree) (place : Place) (name : String) : Except OsError Place :=
  match place with
  | .file _ => .error .notDirectory
  | .outside =>
    if isStill name || name = ".." then .ok .outside
    else if name.utf8ByteSize > nameLimit then .error .nameTooLong
    else .error .noEntry
  | .directory path =>
    if isStill name then .ok place
    else if name = ".." then .ok (if path.isEmpty then .outside else .directory path.dropLast)
    else if name.utf8ByteSize > nameLimit then .error .nameTooLong
    else t.lookup (path ++ [name])

/-- Follows a path. One that begins with a slash begins outside the working directory. -/
def resolve (t : FileTree) (path : String) : Except OsError Place :=
  if path = "" then .error .noEntry
  else if path.utf8ByteSize > pathLimit then .error .nameTooLong
  else (names path).foldlM t.step (if path.toList.head? = some '/' then .outside else .directory [])

/-- A source of which no byte can be read. -/
def unreadable : Source := [.fail (.os .isDirectory)]

/-- What is read where a path leads. -/
def Place.source : Place → Source
  | .file contents => .ofBytes contents
  | .directory _ => unreadable
  | .outside => unreadable

/-- Opens a path for reading. -/
def openPath (t : FileTree) (path : String) : Except IoError Source :=
  match t.resolve path with
  | .ok place => .ok place.source
  | .error e => .error (.os e)

variable {t : FileTree} {path : String}

theorem exists_of_openPath_eq_ok {source : Source} (h : t.openPath path = .ok source) :
    ∃ place : Place, source = place.source := by
  unfold openPath at h
  split at h
  · cases h
    exact ⟨_, rfl⟩
  · cases h

theorem exists_of_openPath_eq_error {e : IoError} (h : t.openPath path = .error e) :
    ∃ cause : OsError, e = .os cause := by
  unfold openPath at h
  split at h
  · cases h
  · cases h
    exact ⟨_, rfl⟩

end FileTree

end StreamLexer
