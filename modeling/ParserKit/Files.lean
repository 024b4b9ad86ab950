import ParserKit.Repl.Stream

/-! The files that a program finds around it. A path is followed name by name, from the working directory or,
    if it starts with a slash, from the root. What lies between the two is known to be made of directories,
    and nothing else is known of it. -/

namespace ParserKit
open Text (Symbol)

/-- Files and directories below one directory, each under the names that lead to it. -/
structure FileTree where
  files : List (List String × List Symbol)
  directories : List (List String)

namespace FileTree

def empty : FileTree := ⟨[], []⟩

/-- There is a directory under some names if it is the top, is listed, or holds something that is listed. -/
def hasDirectory (t : FileTree) (names : List String) : Bool :=
  names.isEmpty || (t.directories ++ t.files.map (·.1)).any names.isPrefixOf

def file? (t : FileTree) (names : List String) : Option (List Symbol) :=
  (t.files.find? fun entry => entry.1 == names).map (·.2)

end FileTree

/-- The directories from which others are reached. -/
inductive Base where
  | working
  /-- Some directory above the working directory. -/
  | between
  | root
deriving DecidableEq

/-- The directory above a base. The root is above itself. -/
def Base.parent : Base → Base
  | working | between => between
  | root => root

inductive Place where
  | file (content : List Symbol)
  | directory (base : Base) (names : List String)

structure Files where
  /-- Below the working directory. -/
  working : FileTree
  /-- Below the root, as far as it is known. -/
  root : FileTree

namespace Files

def below (f : Files) : Base → FileTree
  | .working => f.working
  | .between => .empty
  | .root => f.root

def longestName : Nat := 255

def longestPath : Nat := 4095

def child (f : Files) (base : Base) (names : List String) (name : String) : Except StreamError Place :=
  let names := names ++ [name]
  if longestName < name.utf8ByteSize then .error .nameTooLong
  else
    match (f.below base).file? names with
    | some content => .ok (.file content)
    | none => if (f.below base).hasDirectory names then .ok (.directory base names) else .error .notFound

/-- Follows one name. The empty name and the dot stay where they are, and two dots go up; all three need a
    directory to do so. -/
def follow (f : Files) (place : Place) (name : String) : Except StreamError Place :=
  match place with
  | .file _ => .error .notDirectory
  | .directory base names =>
    if name == "" || name == "." then .ok place
    else if name == ".." then .ok (.directory (if names.isEmpty then base.parent else base) names.dropLast)
    else f.child base names name

def resolve (f : Files) (path : String) : Except StreamError Place :=
  if path == "" then .error .notFound
  else if longestPath < path.utf8ByteSize then .error .nameTooLong
  else (path.splitOn "/").foldlM f.follow (.directory (if path.startsWith "/" then .root else .working) [])

def read (f : Files) (path : String) : Except StreamError (List Symbol) := do
  match ← f.resolve path with
  | .file content => .ok content
  | .directory .. => .error .isDirectory

end Files
end ParserKit
