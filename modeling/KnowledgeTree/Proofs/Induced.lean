import KnowledgeTree.Proofs.Acyclic
import KnowledgeTree.Proofs.Drafts

/-!
Forests of a part of a list. Where the parent links run in no cycle, the forest of a part is what
the forest of the whole list induces on it. So the tree that a caller is shown is the sub-forest of
the tree of all live entities that lies on what the caller may read.
-/

namespace KnowledgeTree

open TreeNode

namespace TreeNode

def IsRoot (ts : List TreeNode) (x : EntityId) : Prop := x ∈ ts.map fun t => t.item.id

def IsChild (ts : List TreeNode) (x y : EntityId) : Prop :=
  ∃ t ∈ nodesAll ts, t.item.id = x ∧ y ∈ t.children.map fun c => c.item.id

/-- A forest on some nodes of another one: each of them has those of its children that are kept, in
the same order, and is a root if it is one there or if its parent is not kept. -/
structure Induced (part full : List TreeNode) : Prop where
  isChild_iff : ∀ x ∈ idsAll part, ∀ y ∈ idsAll part, IsChild part x y ↔ IsChild full x y
  isRoot_iff : ∀ x ∈ idsAll part, IsRoot part x ↔
    IsRoot full x ∨ ∃ p, IsChild full p x ∧ p ∉ idsAll part
  siblings : ∀ t ∈ nodesAll part, ∃ f ∈ nodesAll full, f.item = t.item ∧
    t.children.map item = (f.children.map item).filter fun i => i.id ∈ idsAll part
  roots : (part.map item).Pairwise Forest.Before ∧ (full.map item).Pairwise Forest.Before

end TreeNode

namespace Forest

variable {items all : List ListItem} {a i j : ListItem} {t : TreeNode} {x y : EntityId}

theorem mem_idsAll (hn : (items.map ListItem.id).Nodup) :
    x ∈ idsAll (buildForest items) ↔ x ∈ items.map ListItem.id := by
  rw [(perm_buildForest items).mem_iff, firsts_of_nodup hn]

theorem nodup_children (ht : t ∈ nodesAll (buildForest items)) :
    ((t.children.map TreeNode.item).map ListItem.id).Nodup :=
  ((children_sublist ht).map ListItem.id).nodup (ListItem.nodup_mergeSort (nodup_firsts items))

theorem sorted_children (ht : t ∈ nodesAll (buildForest items)) :
    (t.children.map TreeNode.item).Pairwise fun a b => a.le b = true :=
  (ListItem.sorted_mergeSort _).sublist (children_sublist ht)

section Links

variable (hn : (items.map ListItem.id).Nodup) (hc : Acyclic items) (hi : i ∈ items)

include hn hc hi

theorem Acyclic.isRoot_iff : IsRoot (buildForest items) i.id ↔ Topmost items i := by
  constructor
  · intro h
    obtain ⟨t, ht, hid⟩ := List.mem_map.mp h
    obtain ⟨hm, htop⟩ := (hc.mem_roots hn).mp (List.mem_map_of_mem ht)
    rwa [← List.inj_on_of_nodup_map hn hm hi hid]
  · intro htop
    obtain ⟨t, ht, rfl⟩ := List.mem_map.mp ((hc.mem_roots hn).mpr ⟨hi, htop⟩)
    exact List.mem_map_of_mem ht

theorem Acyclic.isChild_iff :
    IsChild (buildForest items) x i.id ↔ i ∈ hanging items ∧ i.parent = some x := by
  constructor
  · rintro ⟨t, ht, rfl, hm⟩
    obtain ⟨c, hm, hid⟩ := List.mem_map.mp hm
    obtain ⟨hh, hp⟩ := (hc.mem_children hn ht).mp (List.mem_map_of_mem hm)
    rw [← List.inj_on_of_nodup_map hn (mem_hanging.mp hh).1 hi hid]
    exact ⟨hh, hp⟩
  · rintro ⟨hh, hp⟩
    obtain ⟨q, hq, -, j, hj, rfl⟩ := hangs_iff.mp (mem_hanging.mp hh).2
    obtain rfl : j.id = x := Option.some.inj (hq.symm.trans hp)
    obtain ⟨t, ht, rfl⟩ := exists_node hn hj
    obtain ⟨c, hm, rfl⟩ := List.mem_map.mp ((hc.mem_children hn ht).mpr ⟨hh, hp⟩)
    exact ⟨t, ht, rfl, List.mem_map_of_mem hm⟩

end Links

section Part

variable (hs : ∀ i ∈ items, i ∈ all)

include hs

theorem mem_hanging_part (hp : i.parent = some x) (hx : x ∈ items.map ListItem.id) :
    i ∈ hanging items ↔ i ∈ hanging all ∧ i ∈ items := by
  obtain ⟨j, hj, rfl⟩ := List.mem_map.mp hx
  -- as its parent is kept, whether the item hangs does not depend on what else is
  have hangs_iff_ne (l : List ListItem) (hl : j ∈ l) : hangs l i = true ↔ j.id ≠ i.id := by
    rw [hangs_iff]
    constructor
    · rintro ⟨q, hq, hne, -⟩
      rwa [Option.some.inj (hp.symm.trans hq)]
    · exact fun hne => ⟨j.id, hp, hne, j, hl, rfl⟩
  rw [mem_hanging, mem_hanging, hangs_iff_ne items hj, hangs_iff_ne all (hs j hj)]
  constructor
  · rintro ⟨hi, hne⟩
    exact ⟨⟨hs i hi, hne⟩, hi⟩
  · rintro ⟨⟨-, hne⟩, hi⟩
    exact ⟨hi, hne⟩

theorem topmost_part (hi : i ∈ items) : Topmost items i ↔
    Topmost all i ∨ ∃ p, (i ∈ hanging all ∧ i.parent = some p) ∧ p ∉ items.map ListItem.id := by
  constructor
  · intro ht
    rw [or_iff_not_imp_left]
    intro hnot
    have hh : hangs all i = true := by
      rwa [topmost_iff, Bool.not_eq_false] at hnot
    obtain ⟨p, hp, hne, -⟩ := hangs_iff.mp hh
    refine ⟨p, ⟨mem_hanging.mpr ⟨hs i hi, hh⟩, hp⟩, fun hin => ?_⟩
    obtain ⟨j, hj, hid⟩ := List.mem_map.mp hin
    exact (ht p hp).elim hne fun hout => hout j hj hid
  · rintro (ht | ⟨p, ⟨-, hp⟩, hout⟩) q hq
    · exact (ht q hq).imp_right fun hall j hj => hall j (hs j hj)
    · obtain rfl : p = q := Option.some.inj (hp.symm.trans hq)
      exact .inr fun j hj heq => hout (heq ▸ List.mem_map_of_mem hj)

variable (hn : (all.map ListItem.id).Nodup) (hc : Acyclic all)
  (hn' : (items.map ListItem.id).Nodup)

include hn hc hn'

theorem siblings_part (ht : t ∈ nodesAll (buildForest items)) :
    ∃ f ∈ nodesAll (buildForest all), f.item = t.item ∧ t.children.map TreeNode.item =
      (f.children.map TreeNode.item).filter fun i => i.id ∈ idsAll (buildForest items) := by
  have hitem := item_mem_firsts ht
  rw [firsts_of_nodup hn'] at hitem
  obtain ⟨f, hf, hfitem⟩ := exists_node hn (hs _ hitem)
  refine ⟨f, hf, hfitem, ?_⟩
  have hfilter : (((f.children.map TreeNode.item).filter fun i =>
      i.id ∈ idsAll (buildForest items)).map ListItem.id).Nodup := nodup_filter (nodup_children hf)
  refine ListItem.eq_of_sorted hfilter ?_ (sorted_children ht) ((sorted_children hf).filter _)
  refine (List.perm_ext_iff_of_nodup (nodup_children ht).of_map hfilter.of_map).mpr fun i => ?_
  rw [(hc.of_subset hs).mem_children hn' ht, List.mem_filter, hc.mem_children hn hf, hfitem,
    decide_eq_true_iff, mem_idsAll hn', and_right_comm]
  refine and_congr_left fun hp => ?_
  rw [mem_hanging_part hs hp (List.mem_map_of_mem hitem)]
  refine and_congr_right fun hh => ?_
  constructor
  · exact List.mem_map_of_mem
  · intro hid
    obtain ⟨j, hj, heq⟩ := List.mem_map.mp hid
    rwa [← List.inj_on_of_nodup_map hn (hs j hj) (mem_hanging.mp hh).1 heq]

theorem induced_part : Induced (buildForest items) (buildForest all) := by
  have hc' := hc.of_subset hs
  refine ⟨fun x hx y hy => ?_, fun x hx => ?_, fun t => siblings_part hs hn hc hn',
    hc'.sorted_roots hn', hc.sorted_roots hn⟩
  · rw [mem_idsAll hn'] at hx hy
    obtain ⟨i, hi, rfl⟩ := List.mem_map.mp hy
    rw [hc'.isChild_iff hn' hi, hc.isChild_iff hn (hs i hi)]
    refine and_congr_left fun hp => ?_
    rw [mem_hanging_part hs hp hx, and_iff_left hi]
  · rw [mem_idsAll hn'] at hx
    obtain ⟨i, hi, rfl⟩ := List.mem_map.mp hx
    simp only [hc'.isRoot_iff hn' hi, hc.isRoot_iff hn (hs i hi), hc.isChild_iff hn (hs i hi),
      mem_idsAll hn', topmost_part hs hi]

end Part

end Forest

/-! Trees of callers -/

variable {limits : Limits} {ctx : Context} {s : Store} {admin caller : Caller} {role : String}
  {user : UserId} {d n : Nat} {x y p : EntityId} {e : Entity} {perms : EffectivePermissions}

namespace Store

open Forest

theorem seen_of_mem_live {i : ListItem} (h : i ∈ s.live.map Entity.listItem) :
    ∃ e, s.seen none i.id = some e ∧ e.parent = i.parent := by
  obtain ⟨e, he, rfl⟩ := List.mem_map.mp h
  exact ⟨e, seen_none.trans (mem_live.mp he), rfl⟩

theorem path_of_below (h : Below (hanging (s.live.map Entity.listItem)) n x y)
    (hx : s.seen none x = some e) : s.Path none n x y := by
  induction h with
  | here => exact .here hx
  | hop _ hi hp ih =>
    obtain ⟨f, hf, hfp⟩ := seen_of_mem_live (mem_hanging.mp hi).1
    exact .child (ih hx) hf (hfp.trans hp)

theorem IsForest.acyclic (h : s.IsForest d) : Acyclic (s.live.map Entity.listItem) := by
  rintro x ⟨k, hk⟩
  obtain ⟨i, hi, rfl⟩ := List.mem_map.mp hk.mem
  obtain ⟨e, he, -⟩ := seen_of_mem_live (mem_hanging.mp hi).1
  obtain ⟨n, -, hr⟩ := h.rooted (seen_none.symm.trans he)
  exact hr.not_cycle (path_of_below hk he)

theorem mem_live_of_shown {i : ListItem} (h : i ∈ s.shown limits caller perms) :
    i ∈ s.live.map Entity.listItem := by
  cases perms with
  | admin => exact List.mem_mergeSort.mp h
  | only ids =>
    obtain ⟨j, hj, rfl⟩ := List.mem_map.mp h
    obtain ⟨e, k, he, rfl, -⟩ := mem_walk.mp hj
    exact List.mem_map_of_mem (mem_live.mpr (live?_of_seen he))

theorem InScope.parent_of_shown (h : s.InScope role user .read x) (hf : s.IsForest d)
    (hx : s.live? x = some e) (hp : e.parent = some p)
    (hshown : ∀ g, s.Granted role .read g → ∀ k a f, s.Path none (k + 1) a g →
      s.live? a = some f → f.ShownTo user) : s.InScope role user .read p := by
  obtain ⟨q, hq, -⟩ := hf.parent_department hx hp
  have habove {g : EntityId} {k : Nat} {f : Entity} (hg : s.Granted role .read g)
      (hpath : s.Path (some user) k x g) (hf : s.seen (some user) x = some f) :
      s.InScope role user .read p := by
    have hlive := live?_of_seen hf
    rw [hx] at hlive
    cases hlive
    have hup : s.Path none (k + 1) p g :=
      hpath.live.prepend (seen_none.trans hq) (seen_none.trans hx) hp
    exact h.parent hf hp (seen_of_live hq (hshown g hg k p q hup hq))
  rcases h with ⟨g, k, hg, hpath⟩ | ⟨-, g, k, hg, hpath⟩
  · cases hpath with
    | here hseen => exact habove hg (.here hseen) hseen
    | @child k _ r _ f hpath hseen hr =>
      have hlive := live?_of_seen hseen
      rw [hx] at hlive
      cases hlive
      obtain rfl : r = p := Option.some.inj (hr.symm.trans hp)
      exact .inl ⟨g, k, hg, hpath⟩
  · obtain ⟨f, hseen⟩ := hpath.top
    exact habove hg hpath hseen

end Store

namespace Service

open Forest

theorem nodup_shown (hp : Access.effectivePermissions limits ctx caller .read s = .ok perms) :
    ((s.shown limits caller perms).map ListItem.id).Nodup :=
  (shown_perm hp).nodup_iff.mpr (nodup_reach hp)

theorem root_parentless {t : TreeNode} {ids : List EntityId} (h : s.IsForest limits.maxDepth)
    (hp : Access.effectivePermissions limits ctx caller .read s = .ok (.only ids))
    (hshown : ∀ g, s.Granted (Text.trim caller.role) .read g → ∀ k a f, s.Path none (k + 1) a g →
      s.live? a = some f → f.ShownTo caller.user)
    (ht : t ∈ buildForest (s.shown limits caller (.only ids))) : t.item.parent = none := by
  have hmem (x : EntityId) : x ∈ (s.shown limits caller (.only ids)).map ListItem.id ↔
      s.InScope (Text.trim caller.role) caller.user .read x := by
    rw [(shown_perm hp).mem_iff, Store.reach, Access.eq_scope hp]
    exact h.mem_scope
  have hacyclic : Acyclic (s.shown limits caller (.only ids)) :=
    h.acyclic.of_subset fun i => Store.mem_live_of_shown
  obtain ⟨hi, htop⟩ := (hacyclic.mem_roots (nodup_shown hp)).mp (List.mem_map_of_mem ht)
  rw [Option.eq_none_iff_forall_ne_some]
  intro p hparent
  obtain ⟨e, he, hep⟩ := Store.seen_of_mem_live (Store.mem_live_of_shown hi)
  have hlive := Store.seen_none.symm.trans he
  have hin := (hmem t.item.id).mp (List.mem_map_of_mem hi)
  have hup := hin.parent_of_shown h hlive (hep.trans hparent) hshown
  obtain ⟨j, hj, hid⟩ := List.mem_map.mp ((hmem p).mpr hup)
  rcases htop p hparent with hself | hout
  · subst hself
    obtain ⟨n, -, hr⟩ := h.rooted hlive
    exact hr.not_cycle (.child (.here he) he (hep.trans hparent))
  · exact hout j hj hid

/-- In all reachable tables the tree of a caller who is not an administrator is the part of an
administrator's tree that the caller may read: among the nodes shown, children are children there
and siblings keep their order, and a node is a root if it is one there or if its parent is not
shown. If nothing above the entities granted to the role is a draft of another user, the roots have
no parent at all. -/
theorem scoped_tree (h : CoreReachable limits s) (hc : ctx.isDone = false) {q r : Role}
    (hadmin : admin.user.isNil = false) (hq : s.role? (Text.trim admin.role) = some q)
    (hqa : q.isAdmin = true) (hu : caller.user.isNil = false)
    (hr : s.role? (Text.trim caller.role) = some r) (hra : r.isAdmin = false) :
    ∃ full part, getTree limits ctx admin s = .ok full ∧
      getTree limits ctx caller s = .ok part ∧ Induced part full ∧
      ((∀ g, (∃ c, ⟨r.name, g, c⟩ ∈ s.grants) → ∀ k a f, s.Path none (k + 1) a g →
        s.live? a = some f → f.ShownTo caller.user) → ∀ t ∈ part, t.item.parent = none) := by
  have hf := h.isForest
  have hall : Access.effectivePermissions limits ctx admin .read s = .ok _ :=
    h.effectivePermissions_eq hc hadmin hq
  have hpart : Access.effectivePermissions limits ctx caller .read s = .ok _ :=
    h.effectivePermissions_eq hc hu hr
  rw [hqa, if_pos rfl] at hall
  rw [hra, if_neg Bool.false_ne_true] at hpart
  have hacyclic : Acyclic (s.shown limits admin .admin) :=
    hf.acyclic.of_subset fun i => Store.mem_live_of_shown
  have hsub : ∀ i ∈ s.shown limits caller
      (.only (s.scope limits (Text.trim caller.role) caller.user .read)),
      i ∈ s.shown limits admin .admin :=
    fun i hi => List.mem_mergeSort.mpr (Store.mem_live_of_shown hi)
  refine ⟨_, _, by rw [getTree_eq, hall]; rfl, by rw [getTree_eq, hpart]; rfl,
    induced_part hsub (nodup_shown hall) hacyclic (nodup_shown hpart), fun hshown t ht => ?_⟩
  refine root_parentless hf hpart (fun g hg => hshown g ?_) ht
  rw [(Store.role?_name hr).2]
  exact Store.granted_read.mp hg

end Service

namespace Sample

def staffed : Store := { tables with roles := [⟨"editor", false⟩, ⟨"admin", true⟩] }

theorem reachable_staffed : CoreReachable {} staffed := by
  have h : (CoreCall.run {} .background { store := tables } (.upsertRole "admin" true)).store =
      staffed := by decide +kernel
  have hs : CoreReachable {} ({ store := tables } : System).store := reachable_tables
  rw [← h]
  exact hs.call _ _

def librarian : Caller := ⟨author, "admin"⟩

theorem above_shelf {k : Nat} {a : EntityId} (h : staffed.Path none (k + 1) a shelf.id) :
    a = library.id := by
  have hshelf : staffed.seen none shelf.id = some shelf := rfl
  have hlibrary : staffed.seen none library.id = some library := rfl
  cases h with
  | child h hb hp =>
    cases hshelf.symm.trans hb
    obtain rfl := Option.some.inj hp
    cases h with
    | here _ => rfl
    | child _ hb hp =>
      cases hlibrary.symm.trans hb
      cases hp

end Sample

namespace Service

open Sample

theorem scoped_tree_colleague : CoreReachable {} staffed ∧ Context.background.isDone = false ∧
    librarian.user.isNil = false ∧
    staffed.role? (Text.trim librarian.role) = some ⟨"admin", true⟩ ∧
    colleague.user.isNil = false ∧ staffed.role? (Text.trim colleague.role) = some ⟨"editor", false⟩ ∧
    ∃ full part, getTree {} .background librarian staffed = .ok full ∧
      getTree {} .background colleague staffed = .ok part ∧ Induced part full ∧
      ∀ t ∈ part, t.item.parent = none := by
  have hadmin : librarian.user.isNil = false := by decide +kernel
  have hq : staffed.role? (Text.trim librarian.role) = some ⟨"admin", true⟩ := by decide +kernel
  have hu : colleague.user.isNil = false := by decide +kernel
  have hr : staffed.role? (Text.trim colleague.role) = some ⟨"editor", false⟩ := by decide +kernel
  obtain ⟨full, part, hfull, hpart, hinduced, hroots⟩ := scoped_tree reachable_staffed
    (rfl : Context.background.isDone = false) hadmin hq rfl hu hr rfl
  refine ⟨reachable_staffed, rfl, hadmin, hq, hu, hr, full, part, hfull, hpart, hinduced,
    hroots fun g hg k a f hpath hf => ?_⟩
  -- the shelf alone is granted, and the library above it is published
  obtain ⟨c, hg⟩ := hg
  have hmem : (⟨"editor", g, c⟩ : Grant) ∈ [⟨"editor", shelf.id, .write⟩] := hg
  cases List.mem_singleton.mp hmem
  obtain rfl := above_shelf hpath
  have hlibrary : staffed.live? library.id = some library := rfl
  cases hlibrary.symm.trans hf
  exact .inl (by decide)

end Service

end KnowledgeTree
