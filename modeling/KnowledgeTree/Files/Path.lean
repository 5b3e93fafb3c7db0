/-!
Paths: parts with slashes between them.
-/

namespace KnowledgeTree.Path

/-- The parts of a path, last first, after one more. A part of two dots takes the one before it
away, and none leads above the root, which is a part without a name. -/
def extend (parts : List String) (part : String) : List String :=
  if part.isEmpty || part == "." then parts
  else if part != ".." then part :: parts
  else match parts with
    | [] | ".." :: _ => part :: parts
    | [""] => parts
    | _ :: rest => rest

def render : List String → String
  | [] => "."
  | [""] => "/"
  | parts => "/".intercalate parts.reverse

def start (path : String) : List String := if path.toList.head? = some '/' then [""] else []

def simplify (path : String) : String := render ((path.splitOn "/").foldl extend (start path))

def trail (parts : List String) : List String → List String
  | [] => []
  | part :: rest => render (extend parts part) :: trail (extend parts part) rest

def waypoints (path : String) : List String := trail (start path) (path.splitOn "/")

end KnowledgeTree.Path
