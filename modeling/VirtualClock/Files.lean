/-!
A tree of files, and the paths that lead into it: from its root, or from the directory in which the
program runs.
-/

namespace VirtualClock

/-- A tree of files. A place in it is the list of the names on the way there from the root. -/
structure FileTree where
  /-- The directory in which the program runs. -/
  base : List String := []
  /-- The files by their places, with their text if they hold text. -/
  files : List (List String × Option String) := []
  /-- Directories by their places. The places on the way to a file, a directory or the base are
  directories too. -/
  directories : List (List String) := []
deriving Inhabited

namespace FileTree

/-- The names on a path. -/
def names (path : String) : List String := path.splitOn "/"

/-- Whether `place` is a directory. -/
def isDirectory (t : FileTree) (place : List String) : Bool :=
  place.isPrefixOf t.base || t.directories.any place.isPrefixOf ||
    t.files.any fun (file, _) => place.isPrefixOf file && file != place

/-- What is kept in the file `place`: its text, if it holds text. -/
def content? (t : FileTree) (place : List String) : Option (Option String) :=
  (t.files.find? (·.1 == place)).map (·.2)

/-- Whether there is a file or a directory `place`. -/
def contains (t : FileTree) (place : List String) : Bool :=
  t.isDirectory place || (t.content? place).isSome

/-- Where the names of a path start: at the root if it begins with a slash, else at the base. -/
def start (t : FileTree) (path : String) : List String := if path.startsWith "/" then [] else t.base

/-- Goes from the place `place` to a name in it. A dot stays, and two dots go back, unless at the
root. -/
def step (place : List String) (name : String) : List String :=
  if name == "" || name == "." then place
  else if name == ".." then place.dropLast
  else place ++ [name]

/-- Follows the names of a path from the place `place`, as long as they lead through directories. -/
def walk? (t : FileTree) (place : List String) : List String → Option (List String)
  | [] => if t.contains place then some place else none
  | name :: rest => if t.isDirectory place then walk? t (step place name) rest else none

/-- Where a path leads, if anything is there. -/
def locate? (t : FileTree) (path : String) : Option (List String) :=
  if path == "" then none else t.walk? (t.start path) (names path)

/-- Whether a path leads anywhere. -/
def exists? (t : FileTree) (path : String) : Bool := (t.locate? path).isSome

/-- What is kept in the file that a path leads to. -/
def read? (t : FileTree) (path : String) : Option (Option String) :=
  (t.locate? path).bind t.content?

/-- The place that a path names, whatever is there. -/
def place (t : FileTree) (path : String) : List String := (names path).foldl step (t.start path)

/-- The tree with a file, which is new. -/
def addFile (t : FileTree) (path : String) (text : Option String) : FileTree :=
  { t with files := (t.place path, text) :: t.files }

/-- The tree with a directory. -/
def addDirectory (t : FileTree) (path : String) : FileTree :=
  { t with directories := t.place path :: t.directories }

end FileTree

end VirtualClock
