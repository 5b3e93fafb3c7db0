import KnowledgeTree.Proofs.Grants
import KnowledgeTree.Proofs.Mutation
import Mathlib

/-!
The tables that runs of mutations and of role administration lead to, and the shape of the tree that
all of them have.
-/

namespace KnowledgeTree

variable {limits : Limits} {ctx : Context} {sys sys' : System} {s s' : Store}

inductive CoreCall
  | create (r : CreateRequest)
  | update (r : UpdateRequest)
  | delete (id : EntityId)
  | upsertRole (name : String) (isAdmin : Bool)
  | grant (role : String) (entity : EntityId) (capability : Capability)
  | revoke (role : String) (entity : EntityId) (capability : Capability)
deriving DecidableEq, Repr

namespace CoreCall

def run (limits : Limits) (ctx : Context) (sys : System) : CoreCall → System
  | create r => (Hierarchy.create limits ctx r sys).2
  | update r => (Hierarchy.update limits ctx r sys).2
  | delete id => (Hierarchy.delete limits ctx id sys).2
  | upsertRole name isAdmin => (sys.commitUnit (sys.store.upsertRole ctx name isAdmin)).2
  | grant role entity capability => (sys.commitUnit (sys.store.grant ctx role entity capability)).2
  | revoke role entity capability => (sys.commit (sys.store.revoke ctx role entity capability)).2

def runAll (limits : Limits) (ctx : Context) (calls : List CoreCall) (sys : System) : System :=
  calls.foldl (run limits ctx) sys

end CoreCall

/-- The tables that runs of calls under one set of limits lead to. The clock and the supply of ids
may stand anywhere before each call. -/
inductive CoreReachable (limits : Limits) : Store → Prop
  | empty (h : limits.validate = .ok ()) : CoreReachable limits .empty
  | call {sys : System} (h : CoreReachable limits sys.store) (ctx : Context) (c : CoreCall) :
      CoreReachable limits (c.run limits ctx sys).store

inductive CoreChange (limits : Limits) : Store → Store → Prop
  | create {ctx : Context} {r : CreateRequest} {id : EntityId} {sys sys' : System}
      (h : Hierarchy.create limits ctx r sys = (.ok id, sys')) : CoreChange limits sys.store sys'.store
  | update {ctx : Context} {r : UpdateRequest} {publication : Publication} {sys sys' : System}
      (h : Hierarchy.update limits ctx r sys = (.ok publication, sys')) :
      CoreChange limits sys.store sys'.store
  | delete {ctx : Context} {id : EntityId} {ids : List EntityId} {sys sys' : System}
      (h : Hierarchy.delete limits ctx id sys = (.ok ids, sys')) :
      CoreChange limits sys.store sys'.store
  | upsertRole {ctx : Context} {name : String} {isAdmin : Bool} {s s' : Store}
      (h : s.upsertRole ctx name isAdmin = .ok s') : CoreChange limits s s'
  | grant {ctx : Context} {role : String} {entity : EntityId} {capability : Capability}
      {s s' : Store} (h : s.grant ctx role entity capability = .ok s') : CoreChange limits s s'
  | revoke {ctx : Context} {role : String} {entity : EntityId} {capability : Capability}
      {found : Bool} {s s' : Store} (h : s.revoke ctx role entity capability = .ok (found, s')) :
      CoreChange limits s s'

theorem CoreCall.run_cases (c : CoreCall) : (c.run limits ctx sys).store = sys.store ∨
    CoreChange limits sys.store (c.run limits ctx sys).store := by
  cases c with
  | create r =>
    rcases hr : Hierarchy.create limits ctx r sys with ⟨result, sys'⟩
    rw [run, hr]
    cases result with
    | ok id => exact .inr (.create hr)
    | error e => exact .inl ((Hierarchy.atomic_create r).eq hr)
  | update r =>
    rcases hr : Hierarchy.update limits ctx r sys with ⟨result, sys'⟩
    rw [run, hr]
    cases result with
    | ok publication => exact .inr (.update hr)
    | error e => exact .inl ((Hierarchy.atomic_update r).eq hr)
  | delete id =>
    rcases hr : Hierarchy.delete limits ctx id sys with ⟨result, sys'⟩
    rw [run, hr]
    cases result with
    | ok ids => exact .inr (.delete hr)
    | error e => exact .inl ((Hierarchy.atomic_delete id).eq hr)
  | upsertRole name isAdmin =>
    cases hr : sys.store.upsertRole ctx name isAdmin with
    | ok s' => rw [run, hr]; exact .inr (.upsertRole hr)
    | error e => rw [run, hr]; exact .inl rfl
  | grant role entity capability =>
    cases hr : sys.store.grant ctx role entity capability with
    | ok s' => rw [run, hr]; exact .inr (.grant hr)
    | error e => rw [run, hr]; exact .inl rfl
  | revoke role entity capability =>
    cases hr : sys.store.revoke ctx role entity capability with
    | ok r => rw [run, hr]; exact .inr (.revoke hr)
    | error e => rw [run, hr]; exact .inl rfl

namespace CoreReachable

theorem runAll (h : CoreReachable limits sys.store) (ctx : Context) (calls : List CoreCall) :
    CoreReachable limits (CoreCall.runAll limits ctx calls sys).store := by
  induction calls generalizing sys with
  | nil => exact h
  | cons c calls ih => exact ih (h.call ctx c)

theorem invariant {P : Store → Prop} (hempty : P .empty)
    (hchange : ∀ s s', P s → CoreChange limits s s' → P s') (h : CoreReachable limits s) : P s := by
  induction h with
  | empty _ => exact hempty
  | @call sys _ ctx c ih =>
    have hc : (c.run limits ctx sys).store = sys.store ∨
        CoreChange limits sys.store (c.run limits ctx sys).store := c.run_cases
    rcases hc with heq | hc
    · rw [heq]; exact ih
    · exact hchange _ _ ih hc

end CoreReachable

theorem CoreReachable.isForest (h : CoreReachable limits s) : s.IsForest limits.maxDepth := by
  refine h.invariant (P := fun s => s.IsForest limits.maxDepth) Store.isForest_empty
    fun s s' hs hc => ?_
  cases hc with
  | create hr => exact Hierarchy.isForest_create hs hr
  | update hr => exact Hierarchy.isForest_update hs hr
  | delete hr => exact Hierarchy.isForest_delete hs hr
  | upsertRole hr =>
    obtain ⟨-, -, rfl⟩ := Store.upsertRole_eq_ok.mp hr
    exact hs.congr rfl
  | grant hr =>
    obtain ⟨-, -, -, rfl⟩ := Store.grant_eq_ok.mp hr
    exact hs.congr (by split <;> rfl)
  | revoke hr =>
    obtain ⟨-, -, rfl⟩ := Store.revoke_eq_ok.mp hr
    exact hs.congr rfl

namespace Sample

def author : UserId := ⟨Uuid.ofNat 9⟩

def library : Entity := Entity.make ⟨.department, "Library", "", none, author⟩ ⟨Uuid.ofNat 1⟩
  (.published .first) ⟨0, 0⟩

def shelf : Entity := Entity.make ⟨.department, "Shelf", "", some ⟨Uuid.ofNat 1⟩, author⟩
  ⟨Uuid.ofNat 2⟩ (.published .first) ⟨0, 0⟩

def notes : Entity := Entity.make ⟨.article, "Notes", "", some ⟨Uuid.ofNat 2⟩, author⟩
  ⟨Uuid.ofNat 3⟩ .draft ⟨0, 0⟩

def furniture : Store where
  entities := [library, shelf]
  versions := [library.record .first, shelf.record .first]
  nodup := by decide

def stock : Store := { furniture with entities := [library, shelf, notes], nodup := by decide }

def tables : Store :=
  { stock with roles := [⟨"editor", false⟩], grants := [⟨"editor", shelf.id, .write⟩] }

theorem reachable_furniture : CoreReachable {} furniture := by
  have h : (CoreCall.runAll {} .background
      [.create { entityType := .department, name := "Library", user := author },
       .create { entityType := .department, name := " Shelf ", parent := some library.id,
                 user := author }] { store := .empty }).store = furniture := by cbv
  rw [← h]
  exact CoreReachable.runAll (.empty rfl) _ _

theorem reachable_stock : CoreReachable {} stock := by
  have h : (CoreCall.run {} .background { store := furniture, ids := ⟨2, 0⟩ }
      (.create { entityType := .article, name := "Notes", parent := some shelf.id, isDraft := true,
                 user := author })).store = stock := by cbv
  have hs : CoreReachable {} (⟨furniture, {}, ⟨2, 0⟩⟩ : System).store := reachable_furniture
  rw [← h]
  exact hs.call _ _

theorem reachable_tables : CoreReachable {} tables := by
  have h : (CoreCall.runAll {} .background
      [.upsertRole "editor" false, .grant "editor" shelf.id .write]
      { store := stock }).store = tables := by decide +kernel
  rw [← h]
  exact CoreReachable.runAll reachable_stock _ _

end Sample

namespace Store

/-- In all reachable tables the parent of a live entity is a live department, articles have a
parent, and parent links lead to a root within the limit; there is no cycle and no longer chain. -/
theorem forest_invariant (h : CoreReachable limits s) {e : Entity} (he : e ∈ s.entities)
    (hl : e.isLive = true) :
    (∀ p, e.parent = some p →
      ∃ q ∈ s.entities, q.id = p ∧ q.isLive = true ∧ q.entityType = .department) ∧
    (e.entityType = .article → e.parent ≠ none) ∧
    (∃ n ≤ limits.maxDepth, s.Rooted n e.id) ∧
    (∀ k, ¬s.Path none (k + 1) e.id e.id) ∧
    ∀ k a, s.Path none k a e.id → k ≤ limits.maxDepth := by
  have hf := h.isForest
  have hlive : s.live? e.id = some e := live?_eq_some.mpr ⟨he, rfl, hl⟩
  obtain ⟨n, hn, hr⟩ := hf.rooted hlive
  refine ⟨fun p hp => ?_, hf.article_has_parent hlive, ⟨n, hn, hr⟩, fun k => hr.not_cycle,
    fun k a hk => hf.length_le hk⟩
  obtain ⟨q, hq, hd⟩ := hf.parent_department hlive hp
  obtain ⟨hm, hid, hql⟩ := live?_eq_some.mp hq
  exact ⟨q, hm, hid, hql, hd⟩

theorem forest_invariant_notes : CoreReachable {} Sample.tables ∧
    Sample.notes ∈ Sample.tables.entities ∧ Sample.notes.isLive = true ∧
    (∃ q ∈ Sample.tables.entities, q.id = Sample.shelf.id ∧ q.isLive = true ∧
      q.entityType = .department) ∧ ∃ n ≤ 10, Sample.tables.Rooted n Sample.notes.id :=
  have hm : Sample.notes ∈ Sample.tables.entities := by decide
  have h := forest_invariant Sample.reachable_tables hm rfl
  ⟨Sample.reachable_tables, hm, rfl, h.1 _ rfl, h.2.2.1⟩

end Store

end KnowledgeTree
