import KnowledgeTree.Files.Basic
import KnowledgeTree.Text.Utf8

/-!
A directory of files, and where paths lead from it. It holds no directories, and of those around it
no more is known than that they are there.
-/

namespace KnowledgeTree

structure Folder where
  files : List (String × Content)

namespace Folder

inductive Spot
  | here
  | outside
  | at (place : Place)

def find? (d : Folder) (name : String) : Option Content := (d.files.find? (·.1 == name)).map (·.2)

def maxName : Nat := 255

def maxPath : Nat := 4095

def enter (d : Folder) (name : String) : Place :=
  if maxName < name.utf8ByteSize then .tooLong
  else match d.find? name with
    | some content => .file content
    | none => .vacant

def step (d : Folder) (spot : Spot) (part : String) : Spot :=
  match spot with
  | .here =>
    if part.isEmpty || part == "." then .here
    else if part == ".." then .outside
    else .at (d.enter part)
  | .outside => if ["", ".", ".."].contains part then .outside else .at .unreachable
  | .at (.file _) => .at .belowFile
  | .at .vacant => .at .unreachable
  | spot => spot

def look (d : Folder) (path : String) : Place :=
  let start := if path.toList.head? = some '/' then .outside else .here
  if maxPath < path.utf8ByteSize then .tooLong
  else match (path.splitOn "/").foldl d.step start with
    | .here | .outside => .directory
    | .at place => place

def put (d : Folder) (path : String) : Place → Folder
  | .file content => ⟨(path, content) :: d.files.filter (·.1 != path)⟩
  | .vacant => ⟨d.files.filter (·.1 != path)⟩
  | _ => d

def after (d : Folder) (files : Files) : Folder :=
  files.changes.foldr (fun (path, place) d => d.put path place) d

end Folder

end KnowledgeTree
