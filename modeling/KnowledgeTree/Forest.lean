import KnowledgeTree.Entity

/-!
Forests assembled from a flat list of items. An item hangs below its parent if the list has that
parent; otherwise it is a root, so that a trimmed list gives a forest of its own. What no root
reaches lies on or below a cycle of parents, and each such part is entered at its smallest id.
-/

namespace KnowledgeTree

inductive TreeNode
  | node (item : ListItem) (children : List TreeNode)
deriving Repr, Inhabited

namespace TreeNode

def item : TreeNode → ListItem
  | node item _ => item

def children : TreeNode → List TreeNode
  | node _ children => children

mutual

def ids : TreeNode → List EntityId
  | node item children => item.id :: idsAll children

def idsAll : List TreeNode → List EntityId
  | [] => []
  | t :: ts => t.ids ++ idsAll ts

end

mutual

def size : TreeNode → Nat
  | node _ children => sizeAll children + 1

def sizeAll : List TreeNode → Nat
  | [] => 0
  | t :: ts => t.size + sizeAll ts

end

end TreeNode

namespace Forest

def firsts : List ListItem → List ListItem
  | [] => []
  | a :: items => a :: (firsts items).filter (·.id != a.id)

def hangs (items : List ListItem) (a : ListItem) : Bool :=
  a.parent.any fun p => p != a.id && items.any (·.id == p)

/-- The tree below an item, with at most `bound` levels under it, its nodes taken from `pool`. -/
def grow (pool : List ListItem) : (bound : Nat) → ListItem → TreeNode
  | 0, a => .node a []
  | bound + 1, a => .node a ((pool.filter (·.parent == some a.id)).map (grow pool bound))

def smaller (a b : ListItem) : ListItem := if b.id ≤ a.id then b else a

/-- Enters what is left at its smallest id until nothing is left. -/
def enter : (bound : Nat) → List ListItem → List TreeNode
  | 0, _ => []
  | _ + 1, [] => []
  | bound + 1, a :: rest =>
    let entry := rest.foldl smaller a
    let tree := grow ((a :: rest).filter (·.id != entry.id)) (rest.length + 1) entry
    let reached := tree.ids
    tree :: enter bound ((a :: rest).filter fun b => !reached.contains b.id)

end Forest

def buildForest (items : List ListItem) : List TreeNode :=
  let items := (Forest.firsts items).mergeSort ListItem.le
  let hanging := items.filter (Forest.hangs items)
  let roots := items.filter fun a => !Forest.hangs items a
  let trees := roots.map (Forest.grow hanging items.length)
  let reached := TreeNode.idsAll trees
  trees ++ Forest.enter items.length (hanging.filter fun a => !reached.contains a.id)

end KnowledgeTree
