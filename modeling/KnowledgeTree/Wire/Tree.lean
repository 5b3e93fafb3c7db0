import KnowledgeTree.Forest
import KnowledgeTree.Wire.Entity

/-!
The JSON form of trees: the fields of a node's item, and its children.
-/

namespace KnowledgeTree.TreeNode

open Json (Fault)

mutual

def toJson : TreeNode → Json
  | node item children => .record (item.jsonFields ++ [("children", .list (toJsons children))])

def toJsons : List TreeNode → List Json
  | [] => []
  | t :: ts => t.toJson :: toJsons ts

end

structure Parts where
  item : ListItem.Parts := {}
  children : Option (List TreeNode) := none

def Parts.finish (p : Parts) : Except Fault TreeNode := do
  return .node (← p.item.finish) (← Json.need p.children)

/-- The type of a node may also be an object that holds an empty one. -/
def typeOf : Json → Json
  | .obj [(some key, .obj [] true)] true => .obj [(some key, .null)] true
  | j => j

def stepItem (p : ListItem.Parts) (key : String) (j : Json) : Except Fault ListItem.Parts :=
  p.step key (if key = "entity_type" then typeOf j else j)

mutual

/-- A tree from an object; unlike other records it has no array form. -/
def ofJson : Json → Except Fault TreeNode
  | .obj fields closed => do
    let parts ← addFields {} fields
    if closed then parts.finish else throw .torn
  | j => .error j.fault

def addFields : Parts → List (Option String × Json) → Except Fault Parts
  | p, [] => .ok p
  | p, (some "children", .arr items closed) :: fields => do
    if p.children.isSome then throw .shape
    let children ← ofJsons items
    if closed then addFields { p with children := some children } fields else throw .torn
  | _, (some "children", j) :: _ => .error j.fault
  | p, (some key, j) :: fields => do addFields { p with item := ← stepItem p.item key j } fields
  | _, (none, _) :: _ => .error .torn

def ofJsons : List Json → Except Fault (List TreeNode)
  | [] => .ok []
  | j :: items => return (← ofJson j) :: (← ofJsons items)

end

def maxNesting : Nat := 127

/-- Reads the text of a tree. All of it counts, also fields that are not part of a node. -/
def ofDocument (d : Json.Document) : Except Fault TreeNode :=
  if d.readable && d.root.isWithin maxNesting then d.decode ofJson else .error .torn

end KnowledgeTree.TreeNode
