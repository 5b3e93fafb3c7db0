import KnowledgeTree.Store.Basic

/-!
Walks along parent links, layer by layer: the first layer holds the visible seeds, and each further
layer the visible entities one hop on. An entity counts with the first layer that holds it. The
bound on the number of layers also ends a walk around a cycle.
-/

namespace KnowledgeTree.Store

def start (s : Store) (viewer : Option UserId) (seeds : List EntityId) : List Entity :=
  s.entities.filter fun e => seeds.contains e.id && e.isVisibleTo viewer

def below (s : Store) (viewer : Option UserId) (layer : List Entity) : List Entity :=
  s.entities.filter fun e => e.isVisibleTo viewer && layer.any fun p => e.parent == some p.id

def above (s : Store) (viewer : Option UserId) (layer : List Entity) : List Entity :=
  s.entities.filter fun e => e.isVisibleTo viewer && layer.any fun c => c.parent == some e.id

def layers (step : List Entity → List Entity) : (bound : Nat) → List Entity → List (List Entity)
  | 0, _ => []
  | _ + 1, [] => []
  | bound + 1, layer => layer :: layers step bound (step layer)

def depth? (layers : List (List Entity)) (id : EntityId) : Option Nat :=
  (layers.findIdx? fun layer => layer.any (·.id == id)).map (· + 1)

def walk (s : Store) (seeds : List EntityId) (bound : Nat) (viewer : Option UserId)
    (direction : Direction) : List HierarchyItem :=
  let first := s.start viewer seeds
  let down := if direction.walksDown then layers (s.below viewer) bound first else []
  let up := if direction.walksUp then layers (s.above viewer) bound first else []
  let items := s.entities.filterMap fun e =>
    (Option.merge min (depth? down e.id) (depth? up e.id)).map (HierarchyItem.mk e.listItem)
  items.mergeSort HierarchyItem.le

def getHierarchy (s : Store) (ctx : Context) (seeds : List EntityId) (bound : Nat)
    (viewer : Option UserId) (direction : Direction) : Except Error (List HierarchyItem) := do
  ctx.check
  return s.walk seeds bound viewer direction

end KnowledgeTree.Store
