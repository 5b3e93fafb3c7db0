import KnowledgeTree.Entity

/-!
Why an operation is refused: causes, the words for them, and two classes of them.
-/

namespace KnowledgeTree

inductive Rule
  | required
  | tooLong (max : Nat)
  | unknownValue (value : String)
  | nilIdentifier
  | invalidVersion (value : Int)
deriving DecidableEq, Repr

inductive Error
  | validationFailed (field : String) (rule : Rule)
  | entityNotFound (id : EntityId)
  | parentNotFound (id : EntityId)
  | parentRequired (entityType : EntityType)
  | incompatibleParentType (parentType childType : EntityType)
  | parentCycle (entity parent : EntityId)
  | maxHierarchyDepthExceeded (maxDepth : Nat)
  | cannotDraftEntityWithChildren (id : EntityId)
  | forbidden (capability : Capability) (entity : EntityId)
  | adminRequired (capability : Capability)
  | unauthorized
  | cancelled
  | store (operation message : String)
  | idGeneration (message : String)
  | config (message : String)
deriving DecidableEq, Repr

namespace Rule

def name : Rule → String
  | required => "Required"
  | tooLong _ => "TooLong"
  | unknownValue _ => "UnknownValue"
  | nilIdentifier => "NilIdentifier"
  | invalidVersion _ => "InvalidVersion"

def message : Rule → String
  | required => "is required"
  | tooLong max => s!"exceeds {max} characters"
  | unknownValue value => s!"has unknown value '{value}'"
  | nilIdentifier => "must not be the nil identifier"
  | invalidVersion value => s!"version {value} is not >= 1"

end Rule

namespace Error

def name : Error → String
  | validationFailed .. => "ValidationFailed"
  | entityNotFound _ => "EntityNotFound"
  | parentNotFound _ => "ParentNotFound"
  | parentRequired _ => "ParentRequired"
  | incompatibleParentType .. => "IncompatibleParentType"
  | parentCycle .. => "ParentCycle"
  | maxHierarchyDepthExceeded _ => "MaxHierarchyDepthExceeded"
  | cannotDraftEntityWithChildren _ => "CannotDraftEntityWithChildren"
  | forbidden .. => "Forbidden"
  | adminRequired _ => "AdminRequired"
  | unauthorized => "Unauthorized"
  | cancelled => "Cancelled"
  | store .. => "Store"
  | idGeneration _ => "IdGeneration"
  | config _ => "Config"

def kind : Error → String
  | validationFailed .. => "validation_failed"
  | entityNotFound _ => "entity_not_found"
  | parentNotFound _ => "parent_not_found"
  | parentRequired _ => "parent_required"
  | incompatibleParentType .. => "incompatible_parent_type"
  | parentCycle .. => "parent_cycle"
  | maxHierarchyDepthExceeded _ => "max_hierarchy_depth_exceeded"
  | cannotDraftEntityWithChildren _ => "cannot_draft_entity_with_children"
  | forbidden .. => "forbidden"
  | adminRequired _ => "admin_required"
  | unauthorized => "unauthorized"
  | cancelled => "cancelled"
  | store .. => "store"
  | idGeneration _ => "id_generation"
  | config _ => "config"

def message : Error → String
  | validationFailed field rule => "Validation failed: `" ++ field ++ "` " ++ rule.message
  | entityNotFound id => s!"Entity not found: {id.text}"
  | parentNotFound id => s!"Parent not found: {id.text}"
  | parentRequired t => s!"An entity of type {t.text} requires a parent"
  | incompatibleParentType parent child => s!"A {parent.text} cannot contain a {child.text}"
  | parentCycle entity parent => s!"Moving {entity.text} under {parent.text} would create a cycle"
  | maxHierarchyDepthExceeded maxDepth => s!"Maximum hierarchy depth of {maxDepth} exceeded"
  | cannotDraftEntityWithChildren id => s!"Entity {id.text} has children and cannot become a draft"
  | forbidden capability entity => s!"Forbidden: no {capability.text} permission on {entity.text}"
  | adminRequired capability =>
    s!"Forbidden: {capability.text} at the top level requires an administrator"
  | unauthorized => "Unauthorized: unknown caller"
  | cancelled => "Operation cancelled"
  | store operation message => s!"Store error in {operation}: {message}"
  | idGeneration message => s!"Identifier generation failed: {message}"
  | config message => s!"Configuration error: {message}"

/-- The shape of the tree, and not the single entity, stands in the way. -/
def isStructural : Error → Bool
  | parentNotFound _ | parentRequired _ | incompatibleParentType .. | parentCycle ..
  | maxHierarchyDepthExceeded _ | cannotDraftEntityWithChildren _ => true
  | _ => false

def isRetryable : Error → Bool
  | store .. | cancelled => true
  | _ => false

end Error

end KnowledgeTree
