import KnowledgeTree.Files.Path
import KnowledgeTree.Store.Basic

/-!
Files as a command finds and leaves them.
-/

namespace KnowledgeTree

inductive Content
  | text (s : String)
  | database (tables : Store) (logged : Bool)
  | other
deriving DecidableEq, Repr

inductive Place
  /-- There is no directory that could hold a file here. -/
  | unreachable
  /-- In place of that directory there is a file. -/
  | belowFile
  | tooLong
  | vacant
  | directory
  | file (content : Content)
deriving DecidableEq, Repr

namespace Place

def isTaken : Place → Bool
  | directory | file _ => true
  | unreachable | belowFile | tooLong | vacant => false

def readText : Place → Except String String
  | file (.text s) => .ok s
  | file _ => .error "stream did not contain valid UTF-8"
  | directory => .error "Is a directory (os error 21)"
  | belowFile => .error "Not a directory (os error 20)"
  | tooLong => .error "File name too long (os error 36)"
  | vacant | unreachable => .error "No such file or directory (os error 2)"

end Place

/-- What a command finds, and the changes it makes to simplified paths, the last first. -/
structure Files where
  found : String → Place
  changes : List (String × Place) := []

namespace Files

def look (files : Files) (path : String) : Place :=
  ((files.changes.find? (·.1 == path)).map (·.2)).getD (files.found path)

def put (files : Files) (path : String) (place : Place) : Files :=
  if files.look path = place then files
  else { files with changes := (path, place) :: files.changes }

def remove (files : Files) (path : String) : Except Error Files :=
  match files.found path with
  | .directory => .error (.config s!"Cannot remove '{path}': Is a directory (os error 21)")
  | .file _ => .ok (files.put (Path.simplify path) .vacant)
  | _ => .ok files

def removeAll (files : Files) : List String → Except Error Unit × Files
  | [] => (.ok (), files)
  | path :: rest =>
    match files.remove path with
    | .error e => (.error e, files)
    | .ok files => files.removeAll rest

end Files

end KnowledgeTree
