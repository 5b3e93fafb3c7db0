import KnowledgeTree.Proofs.Mutation

/-!
Walks up and walks down. Both follow the same links, so that one entity is met on the way up from
another just where the other is met on the way down from it, whatever the links are. A move therefore
needs to be tested for a cycle from one end only.
-/

namespace KnowledgeTree

variable {s : Store} {ctx : Context} {limits : Limits} {sys sys' : System} {viewer : Option UserId}
  {bound depth k : Nat} {a b : EntityId} {current : ListItem} {parent : EntityId}

namespace Store

def Returned (s : Store) (ctx : Context) (seed : EntityId) (bound : Nat) (viewer : Option UserId)
    (direction : Direction) (id : EntityId) (depth : Nat) : Prop :=
  ∃ items, s.getHierarchy ctx [seed] bound viewer direction = .ok items ∧
    ∃ h ∈ items, h.item.id = id ∧ h.depth = depth

theorem returned_iff {direction : Direction} :
    s.Returned ctx a bound viewer direction b depth ↔ ctx.isDone = false ∧
      ∃ k, depth = k + 1 ∧ First bound (fun j => s.Met viewer [a] direction j b) k := by
  simp only [Returned, getHierarchy, Except.bind_eq_ok, Context.check_eq_ok, exists_const, pure,
    Except.pure, Except.ok.injEq]
  constructor
  · rintro ⟨_, ⟨hc, rfl⟩, h, hm, rfl, rfl⟩
    obtain ⟨e, k, -, rfl, hk⟩ := mem_walk.mp hm
    exact ⟨hc, k, rfl, hk⟩
  · rintro ⟨hc, k, rfl, hk⟩
    obtain ⟨e, he⟩ := hk.2.1.visible
    obtain ⟨-, rfl, -⟩ := seen_eq_some.mp he
    exact ⟨_, ⟨hc, rfl⟩, _, mem_walk.mpr ⟨e, k, he, rfl, hk⟩, rfl, rfl⟩

theorem met_swap : s.Met viewer [a] .parentsOnly k b ↔ s.Met viewer [b] .childrenOnly k a := by
  rw [met_parents, met_children]

theorem returned_swap : s.Returned ctx a bound viewer .parentsOnly b depth ↔
    s.Returned ctx b bound viewer .childrenOnly a depth := by
  simp only [returned_iff, met_swap]

theorem mem_walk_swap : b ∈ (s.walk [a] bound viewer .parentsOnly).map (·.item.id) ↔
    a ∈ (s.walk [b] bound viewer .childrenOnly).map (·.item.id) := by
  simp only [mem_walk_ids, met_swap]

end Store

namespace Hierarchy

open Script

theorem checkNotWithin_congr {entity wanted other : EntityId} {items items' : List HierarchyItem}
    (h : wanted ∈ items.map (·.item.id) ↔ other ∈ items'.map (·.item.id)) :
    checkNotWithin entity parent items wanted = checkNotWithin entity parent items' other := by
  have hany : items.any (·.item.id == wanted) = items'.any (·.item.id == other) := by
    rw [Bool.eq_iff_iff]
    simpa using h
  rw [checkNotWithin, checkNotWithin, hany]

theorem same_verdict : checkNotWithin a b (s.walk [b] bound viewer .parentsOnly) a =
    checkNotWithin a b (s.walk [a] bound viewer .childrenOnly) b :=
  checkNotWithin_congr Store.mem_walk_swap

def checkMoveOnce (limits : Limits) (current : ListItem) (parent : EntityId) : Script Unit := do
  let chain ← parentChain limits parent
  check (checkNotWithin current.id parent chain current.id)
  check (checkParentType chain parent current.entityType)
  let subtree ← subtree limits current.id
  check (checkHeight limits chain subtree)

theorem checkMove_once :
    (checkMove limits current parent).run ctx sys =
      (checkMoveOnce limits current parent).run ctx sys := by
  refine run_bind_congr fun chain mid hchain => ?_
  obtain ⟨rfl, -, rfl, -⟩ := parentChain_eq_ok.mp hchain
  refine run_bind_congr fun _ mid hup => run_bind_congr fun _ mid' htype =>
    run_bind_congr fun below mid'' hbelow => ?_
  obtain ⟨hup, rfl⟩ := run_check_eq_ok.mp hup
  obtain ⟨-, rfl⟩ := run_check_eq_ok.mp htype
  rw [subtree, run_request] at hbelow
  obtain ⟨rfl, -, rfl⟩ := System.answer_walk_eq_ok.mp hbelow
  -- the first test has passed, so the second does
  rw [same_verdict] at hup
  exact run_bind_of_ok (run_check_eq_ok.mpr ⟨hup, rfl⟩) _

end Hierarchy

/-- In tables of any shape, one entity is met on the way up from another at the depth at which that
is met on the way down from the first. So both tests of a move for a cycle give the same verdict, and
the move is judged as it would be without the second. -/
theorem Store.walks_dual (sys : System) :
    (∀ ctx bound viewer a b depth,
      sys.store.Returned ctx a bound viewer .parentsOnly b depth ↔
        sys.store.Returned ctx b bound viewer .childrenOnly a depth) ∧
    (∀ (limits : Limits) (current : ListItem) parent,
      Hierarchy.checkNotWithin current.id parent
          (sys.store.walk [parent] limits.probeDepth none .parentsOnly) current.id =
        Hierarchy.checkNotWithin current.id parent
          (sys.store.walk [current.id] limits.probeDepth none .childrenOnly) parent) ∧
    ∀ limits ctx current parent,
      (Hierarchy.checkMove limits current parent).run ctx sys =
        (Hierarchy.checkMoveOnce limits current parent).run ctx sys :=
  ⟨fun _ _ _ _ _ _ => returned_swap, fun _ _ _ => Hierarchy.same_verdict,
    fun _ _ _ _ => Hierarchy.checkMove_once⟩

end KnowledgeTree
