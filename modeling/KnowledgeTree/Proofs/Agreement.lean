import KnowledgeTree.Http.Action
import KnowledgeTree.Proofs.Confinement
import KnowledgeTree.Proofs.Forest

/-!
Three views of what a caller may reach: the list of permitted ids, the operations on single
entities, and the tree. In all reachable tables they agree.
-/

namespace KnowledgeTree

variable {limits : Limits} {ctx : Context} {sys : System} {s : Store} {caller : Caller}
  {capability : Capability} {perms : EffectivePermissions} {id : EntityId} {e : Entity} {u : Unit}

namespace Hierarchy

theorem get_eq_ok : get ctx id s = .ok e ↔
    id.isNil = false ∧ ctx.isDone = false ∧ s.live? id = some e := by
  simp only [get, Store.get, Except.bind_eq_ok, require_eq_ok, Context.check_eq_ok, Store.find_eq_ok,
    exists_const]

open Script

theorem checkSubtree_of_live (h : sys.store.IsForest limits.maxDepth)
    (he : sys.store.live? id = some e) :
    checkSubtree limits id (sys.store.walk [id] limits.probeDepth none .childrenOnly) = .ok () := by
  have hb : limits.maxDepth < limits.probeDepth := limits.lt_probeDepth (Nat.le_refl _)
  have hself : id ∈ (sys.store.walk [id] limits.probeDepth none .childrenOnly).map (·.item.id) :=
    (h.mem_subtree hb).mpr ⟨0, .here (Store.seen_none.trans he)⟩
  have hfits : ∀ i ∈ sys.store.walk [id] limits.probeDepth none .childrenOnly,
      i.depth ≤ limits.levels := by
    intro i hi
    obtain ⟨f, k, -, rfl, -, hmet, -⟩ := Store.mem_walk.mp hi
    exact Nat.succ_le_succ (h.length_le (Store.met_children.mp hmet))
  generalize sys.store.walk [id] limits.probeDepth none .childrenOnly = subtree at hself hfits
  have hne : subtree.isEmpty = false := by
    cases subtree with
    | nil => cases hself
    | cons _ _ => rfl
  have hany : subtree.any (limits.levels < ·.depth) = false := by
    rw [List.any_eq_false]
    intro i hi
    simpa using hfits i hi
  rw [checkSubtree, hne, hany]
  rfl

theorem exists_delete (h : sys.store.IsForest limits.maxDepth) (hc : ctx.isDone = false)
    (hid : id.isNil = false) :
    (∃ ids, (delete limits ctx id sys).1 = .ok ids) ↔ ∃ e, sys.store.live? id = some e := by
  have hb : limits.maxDepth < limits.probeDepth := limits.lt_probeDepth (Nat.le_refl _)
  constructor
  · rintro ⟨ids, hd⟩
    obtain ⟨-, rfl, -, hw⟩ := delete_cases (Prod.ext hd rfl)
    obtain ⟨-, ⟨f, -, hf⟩, -⟩ := Store.delete_eq_ok.mp hw
    obtain ⟨k, hk⟩ := (h.mem_subtree hb).mp hf
    obtain ⟨e, he⟩ := hk.top
    exact ⟨e, Store.seen_none.symm.trans he⟩
  · rintro ⟨e, he⟩
    have hcheck := checkSubtree_of_live h he
    have hself := (h.mem_subtree hb).mpr ⟨0, .here (Store.seen_none.trans he)⟩
    generalize hw : sys.store.walk [id] limits.probeDepth none .childrenOnly = subtree
      at hcheck hself
    -- the entity heads its own subtree, so there is a live row to delete
    have hlive : ∃ f ∈ sys.store.live, f.id ∈ subtree.map (·.item.id) := by
      obtain ⟨-, rfl, -⟩ := Store.live?_eq_some.mp he
      exact ⟨e, Store.mem_live.mpr he, hself⟩
    obtain ⟨after, hdelete⟩ : ∃ after,
        sys.store.delete ctx (subtree.map (·.item.id)) sys.clock.now = .ok after :=
      ⟨_, Store.delete_eq_ok.mpr ⟨hc, hlive, rfl⟩⟩
    have hrun : ∃ sys', delete limits ctx id sys = (.ok (subtree.map (·.item.id)), sys') := by
      simp only [delete, deleteScript, Hierarchy.subtree, run_bind_eq_ok, run_check_eq_ok,
        require_eq_ok, run_request, System.answer_walk_eq_ok, System.answer_now_eq_ok,
        run_pure_eq_ok]
      exact ⟨_, (), _, ⟨hid, rfl⟩, subtree, _, ⟨rfl, hc, hw.symm⟩, (), _, ⟨hcheck, rfl⟩, _, _,
        ⟨rfl, rfl⟩, (), _, System.commitUnit_eq_ok.mpr ⟨after, hdelete, rfl⟩, rfl, rfl⟩
    obtain ⟨sys', hrun⟩ := hrun
    exact ⟨_, congrArg Prod.fst hrun⟩

end Hierarchy

theorem Store.getAll_eq_ok {items : List ListItem} : s.getAll ctx = .ok items ↔
    ctx.isDone = false ∧ items = (s.live.map Entity.listItem).mergeSort ListItem.le := by
  simp only [getAll, Except.bind_eq_ok, Context.check_eq_ok, exists_const, pure, Except.pure,
    Except.ok.injEq, eq_comm (a := items)]

def Store.reach (s : Store) : EffectivePermissions → List EntityId
  | .admin => ((s.live.map Entity.listItem).mergeSort ListItem.le).map ListItem.id
  | .only ids => ids

def Store.shown (s : Store) (limits : Limits) (caller : Caller) : EffectivePermissions → List ListItem
  | .admin => (s.live.map Entity.listItem).mergeSort ListItem.le
  | .only _ => (s.walk (s.seeds (Text.trim caller.role) .read) limits.levels caller.user
      Capability.read.scope).map HierarchyItem.item

namespace Service

theorem getPermittedIds_eq_ok {ids : List EntityId} :
    getPermittedIds limits ctx caller capability s = .ok ids ↔ ∃ perms,
      Access.effectivePermissions limits ctx caller capability s = .ok perms ∧
        ids = s.reach perms := by
  rw [getPermittedIds, Except.bind_eq_ok]
  refine exists_congr fun perms => and_congr_right fun hp => ?_
  obtain ⟨-, -, hc, -⟩ := Access.effectivePermissions_eq_ok.mp hp
  cases perms with
  | admin =>
    simp only [Hierarchy.getAll, Except.bind_eq_ok, Store.getAll_eq_ok, hc, true_and, exists_eq_left,
      pure, Except.pure, Except.ok.injEq, Store.reach, eq_comm (a := ids)]
  | only l => simp only [pure, Except.pure, Except.ok.injEq, Store.reach, eq_comm (a := ids)]

theorem ensureVisible_eq_ok :
    ensureVisible perms caller e = .ok u ↔ isVisibleTo perms caller e = true := by
  unfold ensureVisible
  split <;> simp_all

theorem visible_of_shown (h : e.ShownTo caller.user) : isVisibleTo perms caller e = true := by
  rcases h with h | h
  · cases hp : e.publication with
    | draft => exact absurd hp h
    | published v => simp [isVisibleTo, hp, Publication.isDraft]
  · simp [isVisibleTo, h]

theorem authorize_eq_ok : authorize limits ctx caller id capability s = .ok perms ↔
    Access.effectivePermissions limits ctx caller capability s = .ok perms ∧
      perms.allows id = true := by
  constructor
  · exact allows_of_authorize
  · rintro ⟨hp, ha⟩
    exact Except.bind_eq_ok.mpr ⟨perms, hp, if_pos ha⟩

section Permitted

variable (hp : Access.effectivePermissions limits ctx caller capability s = .ok perms)

include hp

theorem seen_of_allows (hn : perms ≠ .admin) (ha : perms.allows id = true) :
    ∃ e, s.seen (some caller.user) id = some e := by
  obtain ⟨-, -, -, r, -, rfl⟩ := Access.effectivePermissions_eq_ok.mp hp
  split at hn
  · exact absurd rfl hn
  · next hr =>
    rw [if_neg hr, EffectivePermissions.allows, List.contains_iff_mem, Store.scope,
      List.mem_mergeSort, Store.mem_walk_ids] at ha
    obtain ⟨k, -, hm⟩ := ha
    exact hm.visible

theorem visible_of_allows (ha : perms.allows id = true) (he : s.live? id = some e) :
    isVisibleTo perms caller e = true := by
  by_cases hn : perms = .admin
  · subst hn
    simp [isVisibleTo, EffectivePermissions.isAdmin]
  · obtain ⟨f, hf⟩ := seen_of_allows hp hn ha
    have hlive := Store.live?_of_seen hf
    rw [he] at hlive
    cases hlive
    exact visible_of_shown (Store.row?_of_seen hf).2

theorem mem_reach : id ∈ s.reach perms ↔ perms.allows id = true ∧ ∃ e, s.live? id = some e := by
  cases hperms : perms with
  | admin =>
    simp only [Store.reach, EffectivePermissions.allows, List.mem_map, List.mem_mergeSort, true_and]
    constructor
    · rintro ⟨_, ⟨e, he, rfl⟩, rfl⟩
      exact ⟨e, Store.mem_live.mp he⟩
    · rintro ⟨e, he⟩
      obtain ⟨-, rfl, -⟩ := Store.live?_eq_some.mp he
      exact ⟨_, ⟨e, Store.mem_live.mpr he, rfl⟩, rfl⟩
  | only ids =>
    subst hperms
    simp only [Store.reach, EffectivePermissions.allows, List.contains_iff_mem]
    constructor
    · intro hm
      obtain ⟨e, he⟩ := seen_of_allows hp (by simp) (List.contains_iff_mem.mpr hm)
      exact ⟨hm, e, Store.live?_of_seen he⟩
    · exact And.left

theorem nodup_reach : (s.reach perms).Nodup := by
  obtain ⟨-, -, -, r, -, rfl⟩ := Access.effectivePermissions_eq_ok.mp hp
  split
  · have hlive : (s.live.map Entity.id).Nodup := (List.filter_sublist.map _).nodup s.nodup
    rw [Store.reach, ((List.mergeSort_perm _ _).map _).nodup_iff, List.map_map]
    exact hlive
  · exact Store.nodup_scope

end Permitted

theorem get_eq_ok : get limits ctx caller id s = .ok e ↔ ∃ perms,
    Access.effectivePermissions limits ctx caller .read s = .ok perms ∧ perms.allows id = true ∧
      id.isNil = false ∧ s.live? id = some e := by
  simp only [get, Except.bind_eq_ok, authorize_eq_ok, Hierarchy.get_eq_ok, ensureVisible_eq_ok,
    pure, Except.pure, Except.ok.injEq, exists_const]
  constructor
  · rintro ⟨perms, ⟨hp, ha⟩, f, ⟨hid, -, hf⟩, -, rfl⟩
    exact ⟨perms, hp, ha, hid, hf⟩
  · rintro ⟨perms, hp, ha, hid, he⟩
    obtain ⟨-, -, hc, -⟩ := Access.effectivePermissions_eq_ok.mp hp
    exact ⟨perms, ⟨hp, ha⟩, e, ⟨hid, hc, he⟩, visible_of_allows hp ha he, rfl⟩

theorem exists_get (hp : Access.effectivePermissions limits ctx caller .read s = .ok perms)
    (hid : id.isNil = false) :
    (∃ e, get limits ctx caller id s = .ok e) ↔ id ∈ s.reach perms := by
  rw [mem_reach hp]
  constructor
  · rintro ⟨e, he⟩
    obtain ⟨perms', hp', ha, -, hlive⟩ := get_eq_ok.mp he
    cases hp.symm.trans hp'
    exact ⟨ha, e, hlive⟩
  · rintro ⟨ha, e, he⟩
    exact ⟨e, get_eq_ok.mpr ⟨perms, hp, ha, hid, he⟩⟩

theorem exists_getListItem : (∃ item, getListItem limits ctx caller id s = .ok item) ↔
    ∃ e, get limits ctx caller id s = .ok e := by
  unfold getListItem
  cases get limits ctx caller id s <;> simp [Except.map]

theorem exists_getVersionsList : (∃ versions, getVersionsList limits ctx caller id s = .ok versions) ↔
    ∃ e, get limits ctx caller id s = .ok e := by
  simp only [getVersionsList, Except.bind_eq_ok]
  constructor
  · rintro ⟨_, e, he, -⟩
    exact ⟨e, he⟩
  · rintro ⟨e, he⟩
    obtain ⟨perms, hp, -, hid, hlive⟩ := get_eq_ok.mp he
    obtain ⟨-, -, hc, -⟩ := Access.effectivePermissions_eq_ok.mp hp
    obtain ⟨versions, hv⟩ : ∃ versions, Hierarchy.getVersionsList ctx id s = .ok versions := by
      rw [Hierarchy.getVersionsList, (Hierarchy.require_eq_ok (u := ())).mpr hid]
      change ∃ versions, s.getVersionsList ctx id = _
      rw [Store.getVersionsList, Context.check_live hc, Store.find_eq_ok.mpr hlive]
      exact ⟨_, rfl⟩
    exact ⟨versions, e, he, hv⟩

theorem exists_delete (h : sys.store.IsForest limits.maxDepth)
    (hp : Access.effectivePermissions limits ctx caller .write sys.store = .ok perms)
    (hid : id.isNil = false) :
    (∃ ids, (delete limits ctx caller id sys).1 = .ok ids) ↔ id ∈ sys.store.reach perms := by
  obtain ⟨-, -, hc, -⟩ := Access.effectivePermissions_eq_ok.mp hp
  have hpermit : permitDelete limits ctx caller id sys.store = .ok () ↔ perms.allows id = true := by
    simp only [permitDelete, Except.bind_eq_ok, authorize_eq_ok, hp, Except.ok.injEq, pure,
      Except.pure, and_true, exists_eq_left']
  rw [mem_reach hp, ← Hierarchy.exists_delete h hc hid]
  constructor
  · rintro ⟨ids, hd⟩
    obtain ⟨ha, hd⟩ := guarded_eq_ok.mp (Prod.ext hd rfl)
    exact ⟨hpermit.mp ha, ids, congrArg Prod.fst hd⟩
  · rintro ⟨ha, ids, hd⟩
    have hall := guarded_eq_ok.mpr ⟨hpermit.mpr ha, Prod.ext hd rfl⟩
    exact ⟨ids, congrArg Prod.fst hall⟩

theorem getTree_eq : getTree limits ctx caller s =
    (Access.effectivePermissions limits ctx caller .read s).map fun perms =>
      buildForest (s.shown limits caller perms) := by
  rw [getTree]
  cases hd : Access.directPermissions ctx caller .read s with
  | error e =>
    rw [Access.effectivePermissions, Except.bind_of_error hd]
    rfl
  | ok direct =>
    have hdirect := hd
    rw [Access.directPermissions] at hdirect
    split at hdirect
    · cases hdirect
    · next hn =>
      rw [Bool.or_eq_true, not_or, Bool.not_eq_true, Bool.not_eq_true] at hn
      obtain ⟨hc, r, hr, rfl⟩ := Store.directPermissions_eq_ok.mp hdirect
      rw [Access.effectivePermissions_eq_ok.mpr ⟨hn.1, hn.2, hc, r, hr, rfl⟩]
      change Hierarchy.getTree limits ctx (s.seeds (Text.trim caller.role) .read) r.isAdmin
        caller.user s = .ok (buildForest (s.shown limits caller _))
      rw [Hierarchy.getTree]
      cases ha : r.isAdmin with
      | true =>
        rw [if_pos rfl, Store.getAll_eq_ok.mpr ⟨hc, rfl⟩]
        rfl
      | false =>
        rw [if_neg Bool.false_ne_true, if_neg Bool.false_ne_true, Store.shown]
        -- no walk is made from no seeds, which would find nothing
        split
        · next hs =>
          rw [List.isEmpty_iff.mp hs, Store.walk_nil, List.map_nil, buildForest_nil]
          rfl
        · rw [Store.getHierarchy, Context.check_live hc]
          rfl

theorem shown_perm (hp : Access.effectivePermissions limits ctx caller .read s = .ok perms) :
    ((s.shown limits caller perms).map ListItem.id).Perm (s.reach perms) := by
  obtain ⟨-, -, -, r, -, rfl⟩ := Access.effectivePermissions_eq_ok.mp hp
  split
  · exact .refl _
  · rw [Store.shown, List.map_map]
    exact (List.mergeSort_perm _ _).symm

theorem perm_getTree (hp : Access.effectivePermissions limits ctx caller .read s = .ok perms) :
    ∃ roots, getTree limits ctx caller s = .ok roots ∧
      (TreeNode.idsAll roots).Perm (s.reach perms) := by
  have hperm := shown_perm hp
  refine ⟨buildForest (s.shown limits caller perms), by rw [getTree_eq, hp]; rfl, ?_⟩
  have hforest := perm_buildForest (s.shown limits caller perms)
  rw [Forest.firsts_of_nodup (hperm.nodup_iff.mpr (nodup_reach hp))] at hforest
  exact hforest.trans hperm

end Service

/-- In all reachable tables, for a caller with a role, the tree holds each id that the caller may
read once and no other, operations that read one entity succeed on just these, and deleting succeeds
on just those that the caller may write. -/
theorem Service.views_agree (h : CoreReachable limits sys.store) (hc : ctx.isDone = false)
    (hu : caller.user.isNil = false) {r : Role}
    (hr : sys.store.role? (Text.trim caller.role) = some r) :
    ∃ readable writable roots,
      getPermittedIds limits ctx caller .read sys.store = .ok readable ∧
      getPermittedIds limits ctx caller .write sys.store = .ok writable ∧
      getTree limits ctx caller sys.store = .ok roots ∧
      (TreeNode.idsAll roots).Nodup ∧ (∀ id, id ∈ TreeNode.idsAll roots ↔ id ∈ readable) ∧
      (Http.Action.tree caller).perform limits ctx sys =
        (.json 200 (.record [
          ("total", .int readable.length),
          ("roots", .list (TreeNode.toJsons roots))]), sys) ∧
      ∀ id, id.isNil = false →
        ((∃ e, get limits ctx caller id sys.store = .ok e) ↔ id ∈ readable) ∧
        ((∃ item, getListItem limits ctx caller id sys.store = .ok item) ↔ id ∈ readable) ∧
        ((∃ versions, getVersionsList limits ctx caller id sys.store = .ok versions) ↔
          id ∈ readable) ∧
        ((∃ ids, (delete limits ctx caller id sys).1 = .ok ids) ↔ id ∈ writable) := by
  have hn : (Text.trim caller.role).isEmpty = false := by
    obtain ⟨hm, hname⟩ := Store.role?_name hr
    rw [← hname]
    exact h.role_named r hm
  have hok : ∀ capability, ∃ perms,
      Access.effectivePermissions limits ctx caller capability sys.store = .ok perms :=
    fun _ => ⟨_, Access.effectivePermissions_eq_ok.mpr ⟨hu, hn, hc, r, hr, rfl⟩⟩
  obtain ⟨reading, hread⟩ := hok .read
  obtain ⟨writing, hwrite⟩ := hok .write
  obtain ⟨roots, htree, hids⟩ := perm_getTree hread
  refine ⟨_, _, roots, getPermittedIds_eq_ok.mpr ⟨_, hread, rfl⟩,
    getPermittedIds_eq_ok.mpr ⟨_, hwrite, rfl⟩, htree, hids.nodup_iff.mpr (nodup_reach hread),
    fun id => hids.mem_iff, ?_, fun id hid => ?_⟩
  · have hsize : TreeNode.sizeAll roots = (sys.store.reach reading).length :=
      (TreeNode.sizeAll_eq roots).trans hids.length_eq
    simp only [Http.Action.perform, htree, Http.respond, Http.treeForm, hsize]
  · have hget := exists_get hread hid
    exact ⟨hget, exists_getListItem.trans hget, exists_getVersionsList.trans hget,
      exists_delete h.isForest hwrite hid⟩

theorem Service.views_agree_editor : CoreReachable {} Sample.tables ∧
    Context.background.isDone = false ∧ Sample.editor.user.isNil = false ∧
    Sample.tables.role? (Text.trim Sample.editor.role) = some ⟨"editor", false⟩ ∧
    ∃ roots, getTree {} .background Sample.editor Sample.tables = .ok roots ∧
      Sample.shelf.id ∈ TreeNode.idsAll roots ∧
      (∃ e, get {} .background Sample.editor Sample.shelf.id Sample.tables = .ok e) ∧
      ∃ ids, (delete {} .background Sample.editor Sample.shelf.id ⟨Sample.tables, {}, {}⟩).1 =
        .ok ids := by
  have hs : CoreReachable {} (⟨Sample.tables, {}, {}⟩ : System).store := Sample.reachable_tables
  have hu : Sample.editor.user.isNil = false := by decide +kernel
  have hr : Sample.tables.role? (Text.trim Sample.editor.role) = some ⟨"editor", false⟩ := by
    rw [Sample.editor, Sample.trim_editor, Sample.editors]
  have hpermitted : ∀ capability ids,
      getPermittedIds {} .background Sample.editor capability Sample.tables = .ok ids →
      Sample.shelf.id ∈ ids := by
    intro capability ids h
    obtain ⟨perms, hp, rfl⟩ := getPermittedIds_eq_ok.mp h
    have heff := Sample.effectivePermissions_editors hu capability
    cases hp.symm.trans heff
    exact Sample.shelf_in_scope _ _
  obtain ⟨readable, writable, roots, hread, hwrite, htree, -, hmem, -, hone⟩ :=
    views_agree hs (rfl : Context.background.isDone = false) hu hr
  obtain ⟨hget, -, -, hdelete⟩ := hone Sample.shelf.id (by decide +kernel)
  have hshelf := hpermitted _ _ hread
  exact ⟨Sample.reachable_tables, rfl, hu, hr, roots, htree, (hmem _).mpr hshelf, hget.mpr hshelf,
    hdelete.mpr (hpermitted _ _ hwrite)⟩

end KnowledgeTree
