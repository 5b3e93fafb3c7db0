import KnowledgeTree.Time
import KnowledgeTree.Uuid

/-!
What the tree is made of: departments and articles, their publication state, and the shapes in
which they are shown.
-/

namespace KnowledgeTree

structure EntityId where
  uuid : Uuid
deriving DecidableEq, Repr, Inhabited

structure UserId where
  uuid : Uuid
deriving DecidableEq, Repr, Inhabited

namespace EntityId

instance : LE EntityId := ⟨fun a b => a.uuid ≤ b.uuid⟩

instance (a b : EntityId) : Decidable (a ≤ b) := inferInstanceAs (Decidable (a.uuid ≤ b.uuid))

def isNil (id : EntityId) : Bool := id.uuid == Uuid.nil

def text (id : EntityId) : String := id.uuid.text

def ofText? (s : String) : Option EntityId := (Uuid.ofText? (Text.trim s)).map .mk

end EntityId

namespace UserId

def isNil (id : UserId) : Bool := id.uuid == Uuid.nil

def text (id : UserId) : String := id.uuid.text

def ofText? (s : String) : Option UserId := (Uuid.ofText? (Text.trim s)).map .mk

end UserId

inductive EntityType
  | department
  | article
deriving DecidableEq, Repr, Inhabited

namespace EntityType

def text : EntityType → String
  | department => "department"
  | article => "article"

def ofText? : String → Option EntityType
  | "department" => some department
  | "article" => some article
  | _ => none

def requiresParent : EntityType → Bool
  | department => false
  | article => true

def acceptsChildren : EntityType → Bool
  | department => true
  | article => false

end EntityType

structure VersionNumber where
  value : Nat
  pos : 1 ≤ value
  lt : value < 4294967296
deriving DecidableEq, Repr

namespace VersionNumber

def first : VersionNumber := ⟨1, by decide, by decide⟩

instance : Inhabited VersionNumber := ⟨first⟩

def ofNat? (n : Nat) : Option VersionNumber :=
  if h : 1 ≤ n ∧ n < 4294967296 then some ⟨n, h.1, h.2⟩ else none

def ofInt? (n : Int) : Option VersionNumber := if 0 ≤ n then ofNat? n.toNat else none

def text (v : VersionNumber) : String := s!"v{v.value}"

end VersionNumber

inductive Publication
  | draft
  | published (version : VersionNumber)
deriving DecidableEq, Repr, Inhabited

namespace Publication

def isDraft : Publication → Bool
  | draft => true
  | published _ => false

def version? : Publication → Option VersionNumber
  | draft => none
  | published v => some v

end Publication

structure Entity where
  id : EntityId
  entityType : EntityType
  name : String
  content : String
  parent : Option EntityId
  createdBy : UserId
  updatedBy : UserId
  publication : Publication
  createdAt : Time
  updatedAt : Time
  deletedAt : Option Time
deriving DecidableEq, Repr

structure ListItem where
  id : EntityId
  entityType : EntityType
  name : String
  parent : Option EntityId
deriving DecidableEq, Repr, Inhabited

namespace ListItem

/-- The order of siblings: by name, and by id among equal names. Names compare by code points,
which is also the order of their UTF-8 bytes. -/
def le (a b : ListItem) : Bool := if a.name = b.name then a.id ≤ b.id else a.name < b.name

end ListItem

def Entity.listItem (e : Entity) : ListItem := ⟨e.id, e.entityType, e.name, e.parent⟩

inductive Capability
  | read
  | write
deriving DecidableEq, Repr, Inhabited

namespace Capability

def text : Capability → String
  | read => "read"
  | write => "write"

def ofText? : String → Option Capability
  | "read" => some read
  | "write" => some write
  | _ => none

end Capability

/-- Which way a walk through the tree goes. With `childrenAndParents` it is two walks, one wholly
down and one wholly up. -/
inductive Direction
  | childrenOnly
  | parentsOnly
  | childrenAndParents
deriving DecidableEq, Repr, Inhabited

namespace Direction

def text : Direction → String
  | childrenOnly => "children_only"
  | parentsOnly => "parents_only"
  | childrenAndParents => "children_and_parents"

def ofText? : String → Option Direction
  | "children_only" => some childrenOnly
  | "parents_only" => some parentsOnly
  | "children_and_parents" => some childrenAndParents
  | _ => none

def walksDown : Direction → Bool
  | parentsOnly => false
  | _ => true

def walksUp : Direction → Bool
  | childrenOnly => false
  | _ => true

end Direction

/-- Reading reaches up from a grant to show where things lie; writing reaches down only. -/
def Capability.scope : Capability → Direction
  | .read => .childrenAndParents
  | .write => .childrenOnly

structure HierarchyItem where
  item : ListItem
  depth : Nat
deriving DecidableEq, Repr, Inhabited

namespace HierarchyItem

def le (a b : HierarchyItem) : Bool := if a.depth = b.depth then a.item.le b.item else a.depth < b.depth

end HierarchyItem

structure NewEntity where
  entityType : EntityType
  name : String
  content : String
  parent : Option EntityId
  user : UserId
deriving DecidableEq, Repr

/-- What an edit writes. The parent stays as it is unless `parent` says otherwise; `some none` makes
the entity a root. -/
structure EntityChanges where
  id : EntityId
  name : String
  content : String
  parent : Option (Option EntityId)
  user : UserId
deriving DecidableEq, Repr

end KnowledgeTree
