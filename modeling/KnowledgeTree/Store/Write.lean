import KnowledgeTree.Store.Basic

/-!
The primitive changes of the entity tables. Each either makes its whole change or reports an error.
They keep ids unique and parents existing as rows; the shape of the tree is not their concern.
-/

namespace KnowledgeTree

namespace Entity

def make (new : NewEntity) (id : EntityId) (publication : Publication) (now : Time) : Entity where
  id := id
  entityType := new.entityType
  name := new.name
  content := new.content
  parent := new.parent
  createdBy := new.user
  updatedBy := new.user
  publication := publication
  createdAt := now
  updatedAt := now
  deletedAt := none

def edit (changes : EntityChanges) (publication : Publication) (now : Time) (e : Entity) : Entity :=
  { e with
    name := changes.name
    content := changes.content
    parent := changes.parent.getD e.parent
    updatedBy := changes.user
    publication := publication
    updatedAt := now }

end Entity

namespace Store

def uniqueFailed (operation : String) : Error :=
  .store operation "UNIQUE constraint failed: entities.id"

def foreignKeyFailed (operation : String) : Error := .store operation "FOREIGN KEY constraint failed"

/-- Adds a row. Its parent must be a row, deleted or not, or the new row itself. -/
def insert (s : Store) (operation : String) (e : Entity) : Except Error Store :=
  if h : e.id ∈ s.ids then .error (uniqueFailed operation)
  else if e.parent.all fun p => p == e.id || s.ids.contains p then
    .ok { s with
      entities := s.entities ++ [e]
      nodup := by
        rw [List.map_append, List.nodup_append]
        exact ⟨s.nodup, by simp, by simpa [ids] using fun a ha hid => h (List.mem_map.2 ⟨a, ha, hid⟩)⟩ }
  else .error (foreignKeyFailed operation)

def record (s : Store) (v : Version) : Store := { s with versions := s.versions ++ [v] }

def adjusted (p : Entity → Bool) (f : Entity → Entity) (e : Entity) : Entity :=
  if e.isLive && p e then { f e with id := e.id } else e

theorem id_adjusted (p : Entity → Bool) (f : Entity → Entity) (e : Entity) :
    (adjusted p f e).id = e.id := by
  unfold adjusted; split <;> rfl

def adjust (s : Store) (p : Entity → Bool) (f : Entity → Entity) : Store :=
  { s with
    entities := s.entities.map (adjusted p f)
    nodup := by simpa [Function.comp_def, id_adjusted] using s.nodup }

def create (s : Store) (ctx : Context) (new : NewEntity) (id : EntityId) (now : Time) :
    Except Error Store := do
  ctx.check
  let e := Entity.make new id (.published .first) now
  return (← s.insert "create" e).record (e.record .first)

def createDraft (s : Store) (ctx : Context) (new : NewEntity) (id : EntityId) (now : Time) :
    Except Error Store := do
  ctx.check
  s.insert "create_draft" (Entity.make new id .draft now)

def hasNewParent (s : Store) (changes : EntityChanges) : Bool :=
  match changes.parent with
  | some (some p) => s.ids.contains p
  | _ => true

def edit (s : Store) (operation : String) (changes : EntityChanges) (publication : Publication)
    (now : Time) : Except Error (Store × Entity) :=
  match s.live? changes.id with
  | none => .error (.entityNotFound changes.id)
  | some e =>
    if s.hasNewParent changes then
      .ok (s.adjust (·.id == changes.id) (Entity.edit changes publication now),
        e.edit changes publication now)
    else .error (foreignKeyFailed operation)

def lastVersion (s : Store) (id : EntityId) : Nat :=
  (s.history id).foldl (fun n v => max n v.number.value) 0

def nextVersion (s : Store) (id : EntityId) : Except Error VersionNumber :=
  let next := s.lastVersion id + 1
  match VersionNumber.ofNat? next with
  | some v => .ok v
  | none => .error (.store "update" s!"Integer {next} out of range at index 0")

def update (s : Store) (ctx : Context) (changes : EntityChanges) (now : Time) :
    Except Error (VersionNumber × Store) := do
  ctx.check
  let next ← s.nextVersion changes.id
  let (s, e) ← s.edit "update" changes (.published next) now
  return (next, s.record (e.record next))

def updateDraft (s : Store) (ctx : Context) (changes : EntityChanges) (now : Time) :
    Except Error Store := do
  ctx.check
  return (← s.edit "update_draft" changes .draft now).1

def delete (s : Store) (ctx : Context) (targets : List EntityId) (now : Time) : Except Error Store :=
  match targets with
  | [] => .error (.validationFailed "ids" .required)
  | first :: _ => do
    ctx.check
    if s.live.any fun e => targets.contains e.id then
      return s.adjust (fun e => targets.contains e.id) fun e => { e with deletedAt := some now }
    else throw (.entityNotFound first)

end Store

end KnowledgeTree
