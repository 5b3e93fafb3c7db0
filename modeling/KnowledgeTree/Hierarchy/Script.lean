import KnowledgeTree.Store.Grant
import KnowledgeTree.Store.Read
import KnowledgeTree.Store.Walk
import KnowledgeTree.Store.Write
import KnowledgeTree.Supply

/-!
Mutations as scripts. A script is a sequence of requests, each answered in one atomic step, so that
other clients may act between any two of them. `Script.run` answers all requests of one script in
a row.
-/

namespace KnowledgeTree

structure System where
  store : Store := {}
  clock : Clock := {}
  ids : IdSource := {}
deriving DecidableEq, Repr, Inhabited

inductive Request : Type → Type
  | walk (seeds : List EntityId) (bound : Nat) (direction : Direction) : Request (List HierarchyItem)
  | listItem (id : EntityId) : Request ListItem
  | newId : Request EntityId
  | now : Request Time
  | create (new : NewEntity) (id : EntityId) (now : Time) : Request Unit
  | createDraft (new : NewEntity) (id : EntityId) (now : Time) : Request Unit
  | update (changes : EntityChanges) (now : Time) : Request VersionNumber
  | updateDraft (changes : EntityChanges) (now : Time) : Request Unit
  | delete (targets : List EntityId) (now : Time) : Request Unit

namespace System

def commit {α : Type} (sys : System) : Except Error (α × Store) → Except Error α × System
  | .ok (a, store) => (.ok a, { sys with store })
  | .error e => (.error e, sys)

def commitUnit (sys : System) (result : Except Error Store) : Except Error Unit × System :=
  sys.commit (result.map ((), ·))

def answer {α : Type} (sys : System) (ctx : Context) : Request α → Except Error α × System
  | .walk seeds bound direction => (sys.store.getHierarchy ctx seeds bound none direction, sys)
  | .listItem id => (sys.store.getListItem ctx id, sys)
  | .newId => (sys.ids.take.1, { sys with ids := sys.ids.take.2 })
  | .now => (.ok sys.clock.read.1, { sys with clock := sys.clock.read.2 })
  | .create new id now => sys.commitUnit (sys.store.create ctx new id now)
  | .createDraft new id now => sys.commitUnit (sys.store.createDraft ctx new id now)
  | .update changes now => sys.commit (sys.store.update ctx changes now)
  | .updateDraft changes now => sys.commitUnit (sys.store.updateDraft ctx changes now)
  | .delete targets now => sys.commitUnit (sys.store.delete ctx targets now)

end System

/-- A sequence of requests that ends with a result. A request that fails ends its script. -/
inductive Script (α : Type) : Type 1
  | done (result : Except Error α)
  | ask {β : Type} (request : Request β) (next : β → Script α)

namespace Script

variable {α β : Type}

def bind : Script α → (α → Script β) → Script β
  | done (.ok a), f => f a
  | done (.error e), _ => done (.error e)
  | ask request next, f => ask request fun b => (next b).bind f

instance : Monad Script where
  pure a := done (.ok a)
  bind := bind

def fail (e : Error) : Script α := done (.error e)

def check (result : Except Error α) : Script α := done result

def request (r : Request α) : Script α := ask r fun a => done (.ok a)

def run (ctx : Context) : Script α → System → Except Error α × System
  | done result, sys => (result, sys)
  | ask r next, sys =>
    match sys.answer ctx r with
    | (.ok b, sys) => (next b).run ctx sys
    | (.error e, sys) => (.error e, sys)

end Script

end KnowledgeTree
