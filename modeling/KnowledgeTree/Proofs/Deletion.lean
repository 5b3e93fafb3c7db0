import KnowledgeTree.Proofs.Agreement
import KnowledgeTree.Proofs.Order

/-!
What a deletion takes: the entity and all that lives below it, drafts of any user included, and
nothing else. In reachable tables neither the bound of the walk nor the check of its depth comes
into play.
-/

namespace KnowledgeTree

variable {limits : Limits} {ctx : Context} {sys sys' : System} {s s' : Store} {id a : EntityId}
  {ids : List EntityId} {now : Time} {bound : Nat} {e f : Entity}

theorem ListItem.mergeSort_filter {items : List ListItem} (h : (items.map ListItem.id).Nodup)
    (p : ListItem → Bool) :
    (items.filter p).mergeSort ListItem.le = (items.mergeSort ListItem.le).filter p := by
  have hfilter := (List.mergeSort_perm items ListItem.le).filter p
  have hn : (((items.mergeSort ListItem.le).filter p).map ListItem.id).Nodup :=
    (hfilter.map ListItem.id).nodup_iff.mpr ((List.filter_sublist.map _).nodup h)
  exact eq_of_sorted hn ((List.mergeSort_perm _ _).trans hfilter.symm) (sorted_mergeSort _)
    ((sorted_mergeSort items).filter p)

namespace Store

structure Marked (s : Store) (ids : List EntityId) (now : Time) (s' : Store) : Prop where
  found : ∀ a ∈ ids, ∃ e, s.live? a = some e
  entities : s'.entities = s.entities.map fun e =>
    if e.id ∈ ids then { e with deletedAt := some now } else e
  versions : s'.versions = s.versions
  roles : s'.roles = s.roles
  grants : s'.grants = s.grants

theorem marked_of_delete (hl : ∀ a ∈ ids, ∃ e, s.live? a = some e)
    (h : s.delete ctx ids now = .ok s') : s.Marked ids now s' := by
  obtain ⟨-, -, rfl⟩ := delete_eq_ok.mp h
  refine ⟨hl, List.map_congr_left fun e he => ?_, rfl, rfl, rfl⟩
  split
  · next ht =>
    obtain ⟨f, hf⟩ := hl e.id ht
    obtain ⟨hm, hid, hlive⟩ := live?_eq_some.mp hf
    obtain rfl : f = e := eq_of_id_eq hm he hid
    rw [adjusted_of_pos hlive (by simpa using ht)]
  · next ht => rw [adjusted_of_neg (by simpa using ht)]

theorem Marked.live (h : s.Marked ids now s') : s'.live = s.live.filter fun e => e.id ∉ ids := by
  rw [Store.live, Store.live, h.entities]
  generalize s.entities = rows
  induction rows with
  | nil => rfl
  | cons e rows ih =>
    by_cases ht : e.id ∈ ids
    · cases e.isLive <;> simp [ht, ih, Entity.isLive]
    · cases hl : e.isLive <;> simp [ht, hl, ih]

theorem nodup_live : ((s.live.map Entity.listItem).map ListItem.id).Nodup := by
  rw [List.map_map]
  exact (List.filter_sublist.map _).nodup s.nodup

theorem Marked.getAll (h : s.Marked ids now s') (hc : ctx.isDone = false) :
    ∃ items, s.getAll ctx = .ok items ∧
      s'.getAll ctx = .ok (items.filter fun i => i.id ∉ ids) := by
  refine ⟨_, getAll_eq_ok.mpr ⟨hc, rfl⟩, getAll_eq_ok.mpr ⟨hc, ?_⟩⟩
  rw [← ListItem.mergeSort_filter nodup_live, h.live, List.filter_map]
  rfl

theorem head?_walk_children (hb : 0 < bound) (he : s.live? id = some e) :
    ((s.walk [id] bound none .childrenOnly).map (·.item.id)).head? = some id := by
  have hself : s.Path none 0 id id := .here (seen_none.trans he)
  obtain ⟨-, rfl, -⟩ := live?_eq_some.mp he
  have hfirst : (⟨e.listItem, 1⟩ : HierarchyItem) ∈ s.walk [e.id] bound none .childrenOnly :=
    mem_walk.mpr ⟨e, 0, seen_none.trans he, rfl, hb, met_children.mpr hself,
      fun j hj => absurd hj (Nat.not_lt_zero j)⟩
  have hsorted : (s.walk [e.id] bound none .childrenOnly).Pairwise fun i j => i.le j = true :=
    walk_sorted
  cases hw : s.walk [e.id] bound none .childrenOnly with
  | nil =>
    rw [hw] at hfirst
    cases hfirst
  | cons i rest =>
    have hi : i ∈ s.walk [e.id] bound none .childrenOnly := hw ▸ List.mem_cons_self
    obtain ⟨f, k, -, rfl, -, hmet, -⟩ := mem_walk.mp hi
    -- nothing else lies on the first level
    rw [hw, List.pairwise_cons] at hsorted
    rw [hw, List.mem_cons] at hfirst
    have hk : k = 0 := by
      rcases hfirst with heq | hrest
      · exact Nat.succ.inj (congrArg HierarchyItem.depth heq).symm
      · have hle := HierarchyItem.le_iff.mp (hsorted.1 _ hrest)
        simp only at hle
        omega
    subst hk
    exact congrArg some (met_children.mp hmet).eq_of_zero.symm

theorem IsForest.live_parent {d : Nat} (h : s.IsForest d) (he : e ∈ s.entities)
    (hl : e.isLive = true) (hf : f ∈ s.entities) (hp : e.parent = some f.id) :
    f.isLive = true := by
  obtain ⟨q, hq, -⟩ := h.parent_department (live?_eq_some.mpr ⟨he, rfl, hl⟩) hp
  obtain ⟨hm, hid, hql⟩ := live?_eq_some.mp hq
  rwa [eq_of_id_eq hm hf hid] at hql

end Store

namespace Hierarchy

open Script

theorem delete_missing (hc : ctx.isDone = false) (hid : id.isNil = false)
    (hx : sys.store.live? id = none) :
    delete limits ctx id sys = (.error (.entityNotFound id), sys) := by
  have hwalk : sys.store.walk [id] limits.probeDepth none .childrenOnly = [] := by
    rw [List.eq_nil_iff_forall_not_mem]
    intro i hi
    obtain ⟨e, k, -, -, -, hmet, -⟩ := Store.mem_walk.mp hi
    obtain ⟨f, hf⟩ := (Store.met_children.mp hmet).top
    rw [Store.seen_none, hx] at hf
    cases hf
  have hcheck : (check (id.require "id")).run ctx sys = (.ok (), sys) :=
    run_check_eq_ok.mpr ⟨require_eq_ok.mpr hid, rfl⟩
  have hread : (subtree limits id).run ctx sys = (.ok [], sys) := by
    rw [subtree, run_request]
    exact System.answer_walk_eq_ok.mpr ⟨rfl, hc, hwalk.symm⟩
  rw [delete, deleteScript, run_bind_of_ok hcheck, run_bind_of_ok hread]
  exact run_bind_of_error rfl _

theorem mem_deleted (h : sys.store.IsForest limits.maxDepth)
    (hd : delete limits ctx id sys = (.ok ids, sys')) :
    a ∈ ids ↔ ∃ k, sys.store.Path none k id a := by
  obtain ⟨-, hids, -, -⟩ := delete_cases hd
  rw [hids]
  exact h.mem_subtree (limits.lt_probeDepth (Nat.le_refl _))

/-- In reachable tables a deletion succeeds just if the entity is live, however its subtree looks.
It answers the entity first and then each of its live descendants once, marks these rows as deleted
and changes nothing else; what stays listed keeps its order, and no live row hangs below a deleted
one. -/
theorem delete_takes_subtree (h : CoreReachable limits sys.store) (hc : ctx.isDone = false)
    (hid : id.isNil = false) :
    ((∃ ids sys', delete limits ctx id sys = (.ok ids, sys')) ↔
      ∃ e, sys.store.live? id = some e) ∧
    (sys.store.live? id = none →
      delete limits ctx id sys = (.error (.entityNotFound id), sys)) ∧
    ∀ ids sys', delete limits ctx id sys = (.ok ids, sys') →
      ids.Nodup ∧ ids.head? = some id ∧
      (∀ a, a ∈ ids ↔ ∃ k, sys.store.Path none k id a) ∧
      sys.store.Marked ids sys.clock.now sys'.store ∧
      (∃ items, sys.store.getAll ctx = .ok items ∧
        sys'.store.getAll ctx = .ok (items.filter fun i => i.id ∉ ids)) ∧
      ∀ e ∈ sys'.store.entities, e.isLive = true → ∀ p ∈ sys'.store.entities,
        e.parent = some p.id → p.isLive = true := by
  have hforest := h.isForest
  have hiff := exists_delete hforest hc hid
  refine ⟨?_, delete_missing hc hid, fun ids sys' hd => ?_⟩
  · rw [← hiff]
    constructor
    · rintro ⟨ids, sys', hd⟩
      exact ⟨ids, congrArg Prod.fst hd⟩
    · rintro ⟨ids, hd⟩
      exact ⟨ids, _, Prod.ext hd rfl⟩
  · obtain ⟨e, he⟩ := hiff.mp ⟨ids, congrArg Prod.fst hd⟩
    have hafter := isForest_delete hforest hd
    obtain ⟨-, hids, -, hwrite⟩ := delete_cases hd
    have hmem (a : EntityId) : a ∈ ids ↔ ∃ k, sys.store.Path none k id a :=
      mem_deleted hforest hd
    have hmarked : sys.store.Marked ids sys.clock.now sys'.store := by
      refine Store.marked_of_delete (fun a ha => ?_) hwrite
      obtain ⟨k, hk⟩ := (hmem a).mp ha
      obtain ⟨f, hf⟩ := hk.bottom
      exact ⟨f, Store.seen_none.symm.trans hf⟩
    refine ⟨?_, ?_, hmem, hmarked, hmarked.getAll hc, fun e he hl p hp hpar => ?_⟩
    · rw [hids]
      exact Store.nodup_walk
    · rw [hids]
      exact Store.head?_walk_children limits.probeDepth_pos he
    · exact hafter.live_parent he hl hp hpar

theorem delete_takes_subtree_shelf : CoreReachable {} Sample.tables ∧
    Context.background.isDone = false ∧ Sample.shelf.id.isNil = false ∧ ∃ ids sys',
      delete {} .background Sample.shelf.id { store := Sample.tables } = (.ok ids, sys') ∧
      Sample.notes.id ∈ ids ∧ Sample.library.id ∉ ids := by
  have hlive : Context.background.isDone = false := rfl
  have hid : Sample.shelf.id.isNil = false := by decide
  have hreach : CoreReachable {} ({ store := Sample.tables } : System).store :=
    Sample.reachable_tables
  obtain ⟨hiff, -, hall⟩ := delete_takes_subtree hreach hlive hid
  obtain ⟨ids, sys', hd⟩ := hiff.mpr ⟨Sample.shelf, by decide +kernel⟩
  obtain ⟨-, -, hmem, -⟩ := hall ids sys' hd
  have hlibrary : Sample.tables.seen none Sample.library.id = some Sample.library := by
    decide +kernel
  have hshelf : Sample.tables.seen none Sample.shelf.id = some Sample.shelf := by decide +kernel
  have hnotes : Sample.tables.seen none Sample.notes.id = some Sample.notes := by decide +kernel
  have hbelow : Sample.tables.Path none 1 Sample.shelf.id Sample.notes.id :=
    .child (.here hshelf) hnotes rfl
  refine ⟨Sample.reachable_tables, hlive, hid, ids, sys', hd, (hmem _).mpr ⟨1, hbelow⟩, fun hin => ?_⟩
  obtain ⟨k, hk⟩ := (hmem _).mp hin
  generalize hl : Sample.library.id = top at hk
  cases hk with
  | here _ => exact absurd hl (by decide)
  | child _ hb hp =>
    rw [← hl, hlibrary] at hb
    cases hb
    cases hp

end Hierarchy

end KnowledgeTree
