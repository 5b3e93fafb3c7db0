import KnowledgeTree.Proofs.Ancestry

/-!
What a mutation that succeeds has checked and written. The checks of a place accept exactly the
places that have room, which in a tree of the right shape are those where an entity, or a moved
subtree, may hang.
-/

namespace KnowledgeTree

variable {limits : Limits} {ctx : Context} {sys sys' : System} {t : EntityType} {u : Unit}

namespace Limits

theorem probeDepth_pos (limits : Limits) : 0 < limits.probeDepth := Nat.succ_pos _

theorem lt_probeDepth (limits : Limits) {n : Nat} (h : n ≤ limits.maxDepth) :
    n < limits.probeDepth := by
  unfold probeDepth levels
  omega

end Limits

namespace System

theorem answer_walk_eq_ok {seeds : List EntityId} {bound : Nat} {direction : Direction}
    {items : List HierarchyItem} :
    sys.answer ctx (.walk seeds bound direction) = (.ok items, sys') ↔
      sys' = sys ∧ ctx.isDone = false ∧ items = sys.store.walk seeds bound none direction := by
  simp only [answer, Prod.mk.injEq, Store.getHierarchy, Except.bind_eq_ok, Context.check_eq_ok,
    exists_const, pure, Except.pure, Except.ok.injEq, eq_comm (a := sys), eq_comm (a := items)]
  rw [and_comm]

theorem answer_listItem_eq_ok {id : EntityId} {item : ListItem} :
    sys.answer ctx (.listItem id) = (.ok item, sys') ↔ sys' = sys ∧ ctx.isDone = false ∧
      ∃ e, sys.store.live? id = some e ∧ item = e.listItem := by
  simp only [answer, Prod.mk.injEq, Store.getListItem, Except.bind_eq_ok, Context.check_eq_ok,
    exists_const, Store.find_eq_ok, pure, Except.pure, Except.ok.injEq, eq_comm (a := sys),
    eq_comm (a := item)]
  rw [and_comm]

theorem answer_now_eq_ok {now : Time} : sys.answer ctx .now = (.ok now, sys') ↔
    now = sys.clock.now ∧ sys' = { sys with clock := sys.clock.read.2 } := by
  simp only [answer, Clock.read, Prod.mk.injEq, Except.ok.injEq, eq_comm (b := now),
    eq_comm (b := sys')]

theorem answer_newId_eq_ok {id : EntityId} : sys.answer ctx .newId = (.ok id, sys') ↔
    sys.ids.take.1 = .ok id ∧ sys' = { sys with ids := sys.ids.take.2 } := by
  simp only [answer, Prod.mk.injEq, eq_comm (b := sys')]

end System

namespace Hierarchy

open Script

theorem requiresParent_eq_false : t.requiresParent = false ↔ t = .department := by
  cases t <;> simp [EntityType.requiresParent]

theorem checkRoot_eq_ok : checkRoot t = .ok u ↔ t = .department := by
  rw [← requiresParent_eq_false]
  unfold checkRoot
  split <;> simp_all

theorem require_eq_ok {field : String} {id : EntityId} :
    id.require field = .ok u ↔ id.isNil = false := by
  unfold EntityId.require
  split <;> simp_all

theorem requireUser_eq_ok {user : UserId} : user.require = .ok u ↔ user.isNil = false := by
  unfold UserId.require
  split <;> simp_all

theorem checkRoom_eq_ok {chain : List HierarchyItem} :
    checkRoom limits chain = .ok u ↔ chain.length ≤ limits.maxDepth := by
  unfold checkRoom
  split
  · next h => simp; omega
  · next h => simp; omega

theorem checkHeight_eq_ok {chain subtree : List HierarchyItem} :
    checkHeight limits chain subtree = .ok u ↔
      chain.length + height subtree ≤ limits.maxDepth + 1 := by
  unfold checkHeight Limits.levels
  split
  · next h => simp; omega
  · next h => simp; omega

theorem checkNotWithin_eq_ok {entity parent wanted : EntityId} {items : List HierarchyItem} :
    checkNotWithin entity parent items wanted = .ok u ↔ wanted ∉ items.map (·.item.id) := by
  unfold checkNotWithin
  split <;> simp_all

theorem checkChain_eq_ok {parent : EntityId} {chain : List HierarchyItem} :
    checkChain parent chain = .ok u ↔ chain ≠ [] := by
  unfold checkChain
  cases chain <;> simp

theorem parentChain_eq_ok {parent : EntityId} {chain : List HierarchyItem} :
    (parentChain limits parent).run ctx sys = (.ok chain, sys') ↔
      sys' = sys ∧ ctx.isDone = false ∧
        chain = sys.store.walk [parent] limits.probeDepth none .parentsOnly ∧ chain ≠ [] := by
  simp only [parentChain, run_bind_eq_ok, run_request, System.answer_walk_eq_ok, run_check_eq_ok,
    checkChain_eq_ok, run_pure_eq_ok]
  constructor
  · rintro ⟨_, _, ⟨rfl, hd, rfl⟩, _, _, ⟨hne, rfl⟩, rfl, rfl⟩
    exact ⟨rfl, hd, rfl, hne⟩
  · rintro ⟨rfl, hd, rfl, hne⟩
    exact ⟨_, _, ⟨rfl, hd, rfl⟩, (), _, ⟨hne, rfl⟩, rfl, rfl⟩

theorem walk_ne_nil {parent : EntityId} :
    sys.store.walk [parent] limits.probeDepth none .parentsOnly ≠ [] ↔
      ∃ q, sys.store.live? parent = some q := by
  rw [← Store.mem_chain_self limits.probeDepth_pos]
  constructor
  · intro hne
    obtain ⟨i, hi⟩ := List.exists_mem_of_ne_nil _ hne
    obtain ⟨k, -, hk⟩ := Store.mem_walk_ids.mp (List.mem_map_of_mem hi)
    obtain ⟨q, hq⟩ := (Store.met_parents.mp hk).bottom
    exact (Store.mem_chain_self limits.probeDepth_pos).mpr ⟨q, Store.seen_none.symm.trans hq⟩
  · intro hself hnil
    rw [hnil] at hself
    cases hself

theorem walk_parent {parent : EntityId} (h : sys.store.IsForest limits.maxDepth) :
    sys.store.walk [parent] limits.probeDepth none .parentsOnly ≠ [] ↔
      ∃ q n, sys.store.live? parent = some q ∧ sys.store.Rooted n parent ∧ n ≤ limits.maxDepth := by
  rw [walk_ne_nil]
  constructor
  · rintro ⟨q, hq⟩
    obtain ⟨n, hn, hr⟩ := h.rooted hq
    exact ⟨q, n, hq, hr, hn⟩
  · rintro ⟨q, n, hq, -, -⟩
    exact ⟨q, hq⟩

theorem checkPlace_takes {parent : Option EntityId} :
    (checkPlace limits t parent).run ctx sys = (.ok u, sys') ↔ sys' = sys ∧
      (∀ p, parent = some p → p.isNil = false ∧ ctx.isDone = false) ∧
        sys.store.Takes limits.maxDepth t parent := by
  cases parent with
  | none =>
    simp only [checkPlace, run_check_eq_ok, checkRoot_eq_ok, Store.Takes]
    constructor
    · rintro ⟨ht, rfl⟩; exact ⟨rfl, by simp, ht⟩
    · rintro ⟨rfl, -, ht⟩; exact ⟨ht, rfl⟩
  | some p =>
    have hb : 0 < limits.probeDepth := limits.probeDepth_pos
    have hd : limits.maxDepth < limits.probeDepth := limits.lt_probeDepth (Nat.le_refl _)
    simp only [checkPlace, run_bind_eq_ok, run_check_eq_ok, require_eq_ok, parentChain_eq_ok,
      checkRoom_eq_ok, Store.Takes, Option.some.injEq, forall_eq']
    constructor
    · rintro ⟨_, _, ⟨hnil, rfl⟩, chain, _, ⟨rfl, hc, rfl, -⟩, _, _, ⟨hroom, rfl⟩, htype, rfl⟩
      obtain ⟨q, hq, hdep⟩ := (Store.checkParentType_eq_ok hb).mp htype
      exact ⟨rfl, ⟨hnil, hc⟩, ⟨q, hq, hdep⟩, (Store.length_chain_le hq hd).mp hroom⟩
    · rintro ⟨rfl, ⟨hnil, hc⟩, ⟨q, hq, hdep⟩, hdeep⟩
      exact ⟨(), _, ⟨hnil, rfl⟩, _, _, ⟨rfl, hc, rfl, walk_ne_nil.mpr ⟨q, hq⟩⟩, (), _,
        ⟨(Store.length_chain_le hq hd).mpr hdeep, rfl⟩,
        (Store.checkParentType_eq_ok hb).mpr ⟨q, hq, hdep⟩, rfl⟩

theorem checkMove_takes {e : Entity} {parent : EntityId} (he : sys.store.live? e.id = some e) :
    (checkMove limits e.listItem parent).run ctx sys = (.ok u, sys') ↔ sys' = sys ∧
      ctx.isDone = false ∧
        sys.store.TakesTree limits.maxDepth e.id e.entityType (some parent) := by
  have hb : 0 < limits.probeDepth := limits.probeDepth_pos
  have hd : limits.maxDepth < limits.probeDepth := limits.lt_probeDepth (Nat.le_refl _)
  have hnext : limits.maxDepth + 1 < limits.probeDepth := Nat.lt_succ_self _
  have hid : e.listItem.id = e.id := rfl
  simp only [checkMove, run_bind_eq_ok, run_check_eq_ok, parentChain_eq_ok, checkNotWithin_eq_ok,
    subtree, run_request, System.answer_walk_eq_ok, checkHeight_eq_ok, Store.TakesTree, hid]
  constructor
  · rintro ⟨_, _, ⟨rfl, hc, rfl, -⟩, _, _, ⟨hcycle, rfl⟩, _, _, ⟨htype, rfl⟩, _, _,
      ⟨rfl, -, rfl⟩, _, _, ⟨-, rfl⟩, hheight, rfl⟩
    obtain ⟨q, hq, hdep⟩ := (Store.checkParentType_eq_ok hb).mp htype
    have hroom := (Store.room_iff hq he hnext).mp hheight
    refine ⟨rfl, hc, ⟨q, hq, hdep⟩, fun hover => hcycle ?_, hroom⟩
    exact Store.mem_chain_of_over hq hd (hroom.not_deep he) hover
  · rintro ⟨rfl, hc, ⟨q, hq, hdep⟩, hover, hroom⟩
    refine ⟨_, _, ⟨rfl, hc, rfl, walk_ne_nil.mpr ⟨q, hq⟩⟩, (), _,
      ⟨fun hm => hover (Store.over_of_mem_chain hm), rfl⟩, (), _,
      ⟨(Store.checkParentType_eq_ok hb).mpr ⟨q, hq, hdep⟩, rfl⟩, _, _, ⟨rfl, hc, rfl⟩, (), _,
      ⟨fun hm => hover ?_, rfl⟩, (Store.room_iff hq he hnext).mpr hroom, rfl⟩
    -- the second test for a cycle looks down from the entity for what the first looks up for
    obtain ⟨k, -, hk⟩ := Store.mem_walk_ids.mp hm
    exact ⟨k, Store.met_children.mp hk⟩

theorem newParent_takes {r : UpdateRequest} {e : Entity} {parent : Option (Option EntityId)}
    (he : sys.store.live? e.id = some e) :
    (newParent limits r e.listItem).run ctx sys = (.ok parent, sys') ↔ sys' = sys ∧
      parent = (if r.parentChanged then some r.parent else none) ∧
        (r.parentChanged = true →
          (∀ p, r.parent = some p → p.isNil = false ∧ ctx.isDone = false) ∧
            sys.store.TakesTree limits.maxDepth e.id e.entityType r.parent) := by
  unfold newParent
  cases r.parentChanged with
  | false =>
    simp only [Bool.false_eq_true, if_false, run_pure_eq_ok, false_imp_iff, and_true]
    rw [and_comm]
  | true =>
    have htype : e.listItem.entityType = e.entityType := rfl
    cases hp : r.parent with
    | none =>
      simp only [if_true, run_bind_eq_ok, run_check_eq_ok, checkRoot_eq_ok, htype, run_pure_eq_ok,
        Store.TakesTree]
      constructor
      · rintro ⟨_, _, ⟨ht, rfl⟩, rfl, rfl⟩; exact ⟨rfl, rfl, fun _ => ⟨by simp, ht⟩⟩
      · rintro ⟨rfl, rfl, hall⟩; exact ⟨(), _, ⟨(hall trivial).2, rfl⟩, rfl, rfl⟩
    | some p =>
      simp only [if_true, run_bind_eq_ok, run_check_eq_ok, require_eq_ok, run_pure_eq_ok,
        Option.some.injEq, forall_eq']
      constructor
      · rintro ⟨_, _, ⟨hnil, rfl⟩, _, _, hmove, rfl, rfl⟩
        obtain ⟨rfl, hctx, ho⟩ := (checkMove_takes he).mp hmove
        exact ⟨rfl, rfl, fun _ => ⟨⟨hnil, hctx⟩, ho⟩⟩
      · rintro ⟨rfl, rfl, hall⟩
        obtain ⟨⟨hnil, hctx⟩, ho⟩ := hall trivial
        exact ⟨(), _, ⟨hnil, rfl⟩, (), _, (checkMove_takes he).mpr ⟨rfl, hctx, ho⟩, rfl, rfl⟩

section Place

variable (h : sys.store.IsForest limits.maxDepth)

include h

theorem checkPlace_eq_ok {parent : Option EntityId} :
    (checkPlace limits t parent).run ctx sys = (.ok u, sys') ↔ sys' = sys ∧
      (∀ p, parent = some p → p.isNil = false ∧ ctx.isDone = false) ∧
        sys.store.Open limits.maxDepth t parent := by
  rw [checkPlace_takes, h.takes_iff]

theorem newParent_eq_ok {r : UpdateRequest} {e : Entity} {parent : Option (Option EntityId)}
    (he : sys.store.live? e.id = some e) :
    (newParent limits r e.listItem).run ctx sys = (.ok parent, sys') ↔ sys' = sys ∧
      parent = (if r.parentChanged then some r.parent else none) ∧
        (r.parentChanged = true →
          (∀ p, r.parent = some p → p.isNil = false ∧ ctx.isDone = false) ∧
            sys.store.OpenTo limits.maxDepth e.id e.entityType r.parent) := by
  rw [newParent_takes he, h.takesTree_iff]

end Place

theorem silent_parentChain (parent : EntityId) : Silent (parentChain limits parent) :=
  (silent_walk _ _ _).bind fun _ => (silent_check _).bind fun _ => silent_pure _

theorem silent_checkPlace (parent : Option EntityId) : Silent (checkPlace limits t parent) := by
  cases parent with
  | none => exact silent_check _
  | some p =>
    exact (silent_check _).bind fun _ => (silent_parentChain p).bind fun _ =>
      (silent_check _).bind fun _ => silent_check _

theorem silent_checkMove (current : ListItem) (parent : EntityId) :
    Silent (checkMove limits current parent) :=
  (silent_parentChain parent).bind fun _ => (silent_check _).bind fun _ =>
    (silent_check _).bind fun _ => (silent_walk _ _ _).bind fun _ =>
      (silent_check _).bind fun _ => silent_check _

theorem silent_newParent (r : UpdateRequest) (current : ListItem) :
    Silent (newParent limits r current) := by
  unfold newParent
  split
  · cases r.parent with
    | none => exact (silent_check _).bind fun _ => silent_pure _
    | some p =>
      exact (silent_check _).bind fun _ => (silent_checkMove current p).bind fun _ => silent_pure _
  · exact silent_pure _

/-! Mutations that succeed -/

def newEntity (r : CreateRequest) (name : String) : NewEntity :=
  ⟨r.entityType, name, r.content, r.parent, r.user⟩

theorem create_eq_ok {r : CreateRequest} {id : EntityId} :
    create limits ctx r sys = (.ok id, sys') ↔
      ∃ name s', limits.nameRule.clean r.name = .ok name ∧ r.user.isNil = false ∧
        (checkPlace limits r.entityType r.parent).run ctx sys = (.ok (), sys) ∧
        sys.ids.take.1 = .ok id ∧ sys' = ⟨s', sys.clock.read.2, sys.ids.take.2⟩ ∧
        if r.isDraft then
          sys.store.createDraft ctx (newEntity r name) id sys.clock.now = .ok s'
        else sys.store.create ctx (newEntity r name) id sys.clock.now = .ok s' := by
  simp only [create, createScript, run_bind_eq_ok, run_check_eq_ok, requireUser_eq_ok, run_request,
    System.answer_newId_eq_ok, System.answer_now_eq_ok, run_pure_eq_ok]
  constructor
  · rintro ⟨_, _, ⟨huser, rfl⟩, name, _, ⟨hname, rfl⟩, _, mid, hplace, _, _, ⟨hid, rfl⟩, _, _,
      ⟨rfl, rfl⟩, _, _, hwrite, rfl, rfl⟩
    obtain rfl := (silent_checkPlace _).eq hplace
    split at hwrite
    · next hd =>
      obtain ⟨s, hs, rfl⟩ := System.commitUnit_eq_ok.mp hwrite
      refine ⟨name, s, hname, huser, hplace, hid, rfl, ?_⟩
      rwa [if_pos hd]
    · next hd =>
      obtain ⟨s, hs, rfl⟩ := System.commitUnit_eq_ok.mp hwrite
      refine ⟨name, s, hname, huser, hplace, hid, rfl, ?_⟩
      rwa [if_neg hd]
  · rintro ⟨name, s', hname, huser, hplace, hid, rfl, hwrite⟩
    refine ⟨(), sys, ⟨huser, rfl⟩, name, sys, ⟨hname, rfl⟩, (), sys, hplace, id, _, ⟨hid, rfl⟩, _,
      _, ⟨rfl, rfl⟩, (), _, ?_, rfl, rfl⟩
    split at hwrite
    · next hd =>
      rw [if_pos hd]
      exact System.commitUnit_eq_ok.mpr ⟨s', hwrite, rfl⟩
    · next hd =>
      rw [if_neg hd]
      exact System.commitUnit_eq_ok.mpr ⟨s', hwrite, rfl⟩

theorem create_cases {r : CreateRequest} {id : EntityId}
    (hc : create limits ctx r sys = (.ok id, sys')) :
    ∃ name, limits.nameRule.clean r.name = .ok name ∧ r.user.isNil = false ∧
      (checkPlace limits r.entityType r.parent).run ctx sys = (.ok (), sys) ∧
      sys.ids.take.1 = .ok id ∧
      if r.isDraft then
        sys.store.createDraft ctx (newEntity r name) id sys.clock.now = .ok sys'.store
      else sys.store.create ctx (newEntity r name) id sys.clock.now = .ok sys'.store := by
  obtain ⟨name, s', hname, huser, hplace, hid, rfl, hwrite⟩ := create_eq_ok.mp hc
  exact ⟨name, hname, huser, hplace, hid, hwrite⟩

def changes (r : UpdateRequest) (name : String) : EntityChanges :=
  ⟨r.id, name, r.content, if r.parentChanged then some r.parent else none, r.user⟩

theorem parent_of_newParent {r : UpdateRequest} {current : ListItem}
    {parent : Option (Option EntityId)}
    (h : (newParent limits r current).run ctx sys = (.ok parent, sys')) :
    parent = if r.parentChanged then some r.parent else none := by
  unfold newParent at h
  split
  · next hc =>
    rw [if_pos hc] at h
    cases hp : r.parent with
    | none =>
      rw [hp] at h
      obtain ⟨_, _, -, h⟩ := run_bind_eq_ok.mp h
      exact (run_pure_eq_ok.mp h).1
    | some p =>
      rw [hp] at h
      obtain ⟨_, _, -, h⟩ := run_bind_eq_ok.mp h
      obtain ⟨_, _, -, h⟩ := run_bind_eq_ok.mp h
      exact (run_pure_eq_ok.mp h).1
  · next hc =>
    rw [if_neg hc] at h
    exact (run_pure_eq_ok.mp h).1

theorem update_eq_ok {r : UpdateRequest} {publication : Publication} :
    update limits ctx r sys = (.ok publication, sys') ↔
      r.id.isNil = false ∧ r.user.isNil = false ∧ ctx.isDone = false ∧
      checkNotSelf r = .ok () ∧ ∃ name e s', limits.nameRule.clean r.name = .ok name ∧
        sys.store.live? r.id = some e ∧
        (newParent limits r e.listItem).run ctx sys = (.ok (changes r name).parent, sys) ∧
        sys' = ⟨s', sys.clock.read.2, sys.ids⟩ ∧
        if r.isDraft then
          checkChildless r.id (sys.store.walk [r.id] 2 none .childrenOnly) = .ok () ∧
            publication = .draft ∧
            sys.store.updateDraft ctx (changes r name) sys.clock.now = .ok s'
        else ∃ v, publication = .published v ∧
          sys.store.update ctx (changes r name) sys.clock.now = .ok (v, s') := by
  simp only [update, updateScript, run_bind_eq_ok, run_check_eq_ok, require_eq_ok,
    requireUser_eq_ok, run_request, System.answer_listItem_eq_ok]
  constructor
  · rintro ⟨_, _, ⟨hid, rfl⟩, _, _, ⟨huser, rfl⟩, name, _, ⟨hname, rfl⟩, _, _, ⟨hself, rfl⟩, _, _,
      ⟨rfl, hctx, e, he, rfl⟩, parent, mid, hparent, hwrite⟩
    obtain rfl := (silent_newParent _ _).eq hparent
    obtain rfl : (changes r name).parent = parent := (parent_of_newParent hparent).symm
    refine ⟨hid, huser, hctx, hself, name, e, sys'.store, hname, he, hparent, ?_⟩
    split
    · next hd =>
      simp only [if_pos hd, run_bind_eq_ok, run_request, System.answer_walk_eq_ok, run_check_eq_ok,
        System.answer_now_eq_ok, run_pure_eq_ok] at hwrite
      obtain ⟨_, _, ⟨rfl, -, rfl⟩, _, _, ⟨hleaf, rfl⟩, _, _, ⟨rfl, rfl⟩, _, _, hw, rfl, rfl⟩ := hwrite
      obtain ⟨s, hs, rfl⟩ := System.commitUnit_eq_ok.mp hw
      exact ⟨rfl, hleaf, rfl, hs⟩
    · next hd =>
      simp only [if_neg hd, run_bind_eq_ok, run_request, System.answer_now_eq_ok,
        run_pure_eq_ok] at hwrite
      obtain ⟨_, _, ⟨rfl, rfl⟩, v, _, hw, rfl, rfl⟩ := hwrite
      obtain ⟨s, hs, rfl⟩ := System.commit_eq_ok.mp hw
      exact ⟨rfl, v, rfl, hs⟩
  · rintro ⟨hid, huser, hctx, hself, name, e, s', hname, he, hparent, rfl, hwrite⟩
    refine ⟨(), sys, ⟨hid, rfl⟩, (), sys, ⟨huser, rfl⟩, name, sys, ⟨hname, rfl⟩, (), sys,
      ⟨hself, rfl⟩, _, sys, ⟨rfl, hctx, e, he, rfl⟩, _, sys, hparent, ?_⟩
    split at hwrite
    · next hd =>
      obtain ⟨hleaf, rfl, hs⟩ := hwrite
      simp only [if_pos hd, run_bind_eq_ok, run_request, System.answer_walk_eq_ok, run_check_eq_ok,
        System.answer_now_eq_ok, run_pure_eq_ok]
      exact ⟨_, sys, ⟨rfl, hctx, rfl⟩, (), sys, ⟨hleaf, rfl⟩, _, _, ⟨rfl, rfl⟩, (), _,
        System.commitUnit_eq_ok.mpr ⟨s', hs, rfl⟩, trivial, rfl⟩
    · next hd =>
      obtain ⟨v, rfl, hs⟩ := hwrite
      simp only [if_neg hd, run_bind_eq_ok, run_request, System.answer_now_eq_ok, run_pure_eq_ok]
      exact ⟨_, _, ⟨rfl, rfl⟩, v, _, System.commit_eq_ok.mpr ⟨s', hs, rfl⟩, rfl, rfl⟩

theorem update_cases {r : UpdateRequest} {publication : Publication}
    (hu : update limits ctx r sys = (.ok publication, sys')) :
    ∃ name e, limits.nameRule.clean r.name = .ok name ∧ r.id.isNil = false ∧
      r.user.isNil = false ∧ checkNotSelf r = .ok () ∧ sys.store.live? r.id = some e ∧
      (newParent limits r e.listItem).run ctx sys = (.ok (changes r name).parent, sys) ∧
      if r.isDraft then
        checkChildless r.id (sys.store.walk [r.id] 2 none .childrenOnly) = .ok () ∧
          publication = .draft ∧
          sys.store.updateDraft ctx (changes r name) sys.clock.now = .ok sys'.store
      else ∃ v, publication = .published v ∧
        sys.store.update ctx (changes r name) sys.clock.now = .ok (v, sys'.store) := by
  obtain ⟨hid, huser, -, hself, name, e, s', hname, he, hparent, rfl, hwrite⟩ := update_eq_ok.mp hu
  exact ⟨name, e, hname, hid, huser, hself, he, hparent, hwrite⟩

theorem delete_cases {id : EntityId} {ids : List EntityId}
    (hd : delete limits ctx id sys = (.ok ids, sys')) :
    id.isNil = false ∧
      ids = (sys.store.walk [id] limits.probeDepth none .childrenOnly).map (·.item.id) ∧
      checkSubtree limits id (sys.store.walk [id] limits.probeDepth none .childrenOnly) = .ok () ∧
      sys.store.delete ctx ids sys.clock.now = .ok sys'.store := by
  simp only [delete, deleteScript, subtree, run_bind_eq_ok, run_check_eq_ok, require_eq_ok,
    run_request, System.answer_walk_eq_ok, System.answer_now_eq_ok, run_pure_eq_ok] at hd
  obtain ⟨_, _, ⟨hid, rfl⟩, _, _, ⟨rfl, -, rfl⟩, _, _, ⟨hsub, rfl⟩, _, _, ⟨rfl, rfl⟩, _, _, hw, rfl,
    rfl⟩ := hd
  obtain ⟨s, hs, rfl⟩ := System.commitUnit_eq_ok.mp hw
  exact ⟨hid, rfl, hsub, hs⟩

theorem added_of_create {r : CreateRequest} {id : EntityId}
    (hc : create limits ctx r sys = (.ok id, sys')) : ∃ name publication,
      Store.Added sys.store sys'.store
        (Entity.make (newEntity r name) id publication sys.clock.now) ∧
      publication.isDraft = r.isDraft := by
  obtain ⟨name, -, -, -, -, hwrite⟩ := create_cases hc
  split at hwrite
  · next hd => exact ⟨name, .draft, Store.added_of_createDraft hwrite, hd.symm⟩
  · next hd =>
    exact ⟨name, .published .first, Store.added_of_create hwrite, (Bool.eq_false_iff.mpr hd).symm⟩

theorem edited_of_update {r : UpdateRequest} {publication : Publication}
    (hu : update limits ctx r sys = (.ok publication, sys')) : ∃ name e,
      e.id = r.id ∧
      Store.Edited sys.store sys'.store e (e.edit (changes r name) publication sys.clock.now) ∧
      publication.isDraft = r.isDraft := by
  obtain ⟨name, e, -, -, -, -, he, -, hwrite⟩ := update_cases hu
  have hid := (Store.live?_eq_some.mp he).2.1
  split at hwrite
  · next hd =>
    obtain ⟨-, rfl, hw⟩ := hwrite
    exact ⟨name, e, hid, Store.edited_of_updateDraft hw he, hd.symm⟩
  · next hd =>
    obtain ⟨v, rfl, hw⟩ := hwrite
    exact ⟨name, e, hid, Store.edited_of_update hw he, (Bool.eq_false_iff.mpr hd).symm⟩

/-! Mutations keep the shape of the tree -/

theorem isForest_create {r : CreateRequest} {id : EntityId}
    (h : sys.store.IsForest limits.maxDepth) (hc : create limits ctx r sys = (.ok id, sys')) :
    sys'.store.IsForest limits.maxDepth := by
  obtain ⟨-, -, -, hplace, -, -⟩ := create_cases hc
  obtain ⟨-, -, hopen⟩ := (checkPlace_eq_ok h).mp hplace
  obtain ⟨name, publication, hadd, -⟩ := added_of_create hc
  have hl (b : EntityId) : sys'.store.live? b =
      if b = id then some (Entity.make (newEntity r name) id publication sys.clock.now)
      else sys.store.live? b := by
    rw [← Store.seen_none, ← Store.seen_none, Store.seen_append hadd.entities hadd.fresh]
    rfl
  exact h.insert hadd.fresh hl hopen

theorem isForest_update {r : UpdateRequest} {publication : Publication}
    (h : sys.store.IsForest limits.maxDepth)
    (hu : update limits ctx r sys = (.ok publication, sys')) :
    sys'.store.IsForest limits.maxDepth := by
  obtain ⟨_, e, -, -, -, -, he, hparent, -⟩ := update_cases hu
  obtain ⟨name, e', hid, hedit, -⟩ := edited_of_update hu
  have hlive := hedit.live
  rw [hid, he] at hlive
  cases hlive
  rw [← hid] at he
  obtain ⟨-, -, hopen⟩ := (newParent_eq_ok h he).mp hparent
  have hl (b : EntityId) : sys'.store.live? b =
      if b = e.id then some (e.edit (changes r name) publication sys.clock.now)
      else sys.store.live? b := by
    have hvis : (e.edit (changes r name) publication sys.clock.now).isVisibleTo none = true := by
      simp only [Entity.isVisibleTo, Bool.and_true]
      exact (Store.live?_eq_some.mp he).2.2
    rw [← Store.seen_none, hedit.seen, if_pos hvis, Store.seen_none]
  cases hc : r.parentChanged with
  | false =>
    refine h.edit_same he hl rfl ?_
    simp [Entity.edit, changes, hc]
  | true =>
    refine h.move he hl rfl ?_
    have hp : (e.edit (changes r name) publication sys.clock.now).parent = r.parent := by
      simp [Entity.edit, changes, hc]
    rw [hp]
    exact (hopen hc).2

theorem isForest_delete {id : EntityId} {ids : List EntityId}
    (h : sys.store.IsForest limits.maxDepth) (hd : delete limits ctx id sys = (.ok ids, sys')) :
    sys'.store.IsForest limits.maxDepth := by
  obtain ⟨-, rfl, -, hwrite⟩ := delete_cases hd
  obtain ⟨-, -, hstore⟩ := Store.delete_eq_ok.mp hwrite
  have hb : limits.maxDepth < limits.probeDepth := limits.lt_probeDepth (Nat.le_refl _)
  refine h.delete (x := id) (fun a => h.mem_subtree hb) (fun b => ?_)
  rw [← Store.seen_none, ← Store.seen_none, hstore, Store.seen_delete]

/-! Mutations that fail -/

theorem atomic_create (r : CreateRequest) : Atomic (createScript limits r) :=
  (silent_check _).quiet.bind_atomic fun _ => (silent_check _).quiet.bind_atomic fun _ =>
    (silent_checkPlace _).quiet.bind_atomic fun _ => quiet_newId.bind_atomic fun _ =>
      quiet_now.bind_atomic fun _ => (atomic_request _).bind_pure _

theorem atomic_update (r : UpdateRequest) : Atomic (updateScript limits r) := by
  refine (silent_check _).quiet.bind_atomic fun _ => (silent_check _).quiet.bind_atomic fun _ =>
    (silent_check _).quiet.bind_atomic fun _ => (silent_check _).quiet.bind_atomic fun _ =>
      (silent_listItem _).quiet.bind_atomic fun current =>
        (silent_newParent r current).quiet.bind_atomic fun _ => ?_
  split
  · exact (silent_walk _ _ _).quiet.bind_atomic fun _ => (silent_check _).quiet.bind_atomic fun _ =>
      quiet_now.bind_atomic fun _ => (atomic_request _).bind_pure _
  · exact quiet_now.bind_atomic fun _ => (atomic_request _).bind_pure _

theorem atomic_delete (id : EntityId) : Atomic (deleteScript limits id) :=
  (silent_check _).quiet.bind_atomic fun _ => (silent_walk _ _ _).quiet.bind_atomic fun _ =>
    (silent_check _).quiet.bind_atomic fun _ => quiet_now.bind_atomic fun _ =>
      (atomic_request _).bind_pure _

end Hierarchy

end KnowledgeTree
