import KnowledgeTree.Proofs.Cycles

/-!
Forests of lists whose parent links run in no cycle. There the links alone decide what hangs where:
nothing is entered, the children of a node are the items that name it as their parent, and the order
of the list is of no account.
-/

namespace KnowledgeTree

open TreeNode

namespace Forest

variable {items all : List ListItem} {a i : ListItem} {t : TreeNode} {x : EntityId}

theorem buildForest_of_perm (hn : (items.map ListItem.id).Nodup) (h : items.Perm all) :
    buildForest all = buildForest items := by
  have hn' : (all.map ListItem.id).Nodup := (h.map ListItem.id).nodup_iff.mp hn
  rw [buildForest, buildForest, firsts_of_nodup hn, firsts_of_nodup hn',
    ListItem.mergeSort_of_perm hn h]

/-- No item lies on a cycle of parents; an item that is its own parent is on none. -/
def Acyclic (items : List ListItem) : Prop := ∀ x, ¬Circles items x

namespace Acyclic

theorem of_subset (h : Acyclic all) (hs : ∀ i ∈ items, i ∈ all) : Acyclic items := by
  rintro x ⟨k, hk⟩
  refine h x ⟨k, hk.mono fun i hi => ?_⟩
  obtain ⟨hm, hh⟩ := mem_hanging.mp hi
  obtain ⟨p, hp, hne, j, hj, hid⟩ := hangs_iff.mp hh
  exact mem_hanging.mpr ⟨hs i hm, hangs_iff.mpr ⟨p, hp, hne, j, hs j hj, hid⟩⟩

theorem not_endless (h : Acyclic items) : ¬Endless items x := by
  rintro ⟨c, -, hc, -⟩
  exact h c hc

theorem of_rank (rank : EntityId → Nat)
    (h : ∀ i ∈ hanging items, ∀ p, i.parent = some p → rank p < rank i.id) : Acyclic items := by
  have hgrows {n : Nat} {x y : EntityId} (hb : Below (hanging items) n x y) :
      rank x + n ≤ rank y := by
    induction hb with
    | here => exact Nat.le_refl _
    | hop _ hi hp ih =>
      have hlt := h _ hi _ hp
      omega
  rintro x ⟨k, hk⟩
  have hle := hgrows hk
  omega

section Nodup

variable (hn : (items.map ListItem.id).Nodup) (hc : Acyclic items)

include hn hc

theorem buildForest_eq : buildForest items =
    let all := items.mergeSort ListItem.le
    (all.filter fun a => !hangs all a).map (grow (hanging all) all.length) := by
  have hsorted : Acyclic (items.mergeSort ListItem.le) := hc.of_subset fun i => List.mem_mergeSort.mp
  have hnone : ((hanging (items.mergeSort ListItem.le)).filter fun a =>
      !(reached (items.mergeSort ListItem.le)).contains a.id) = [] := by
    rw [List.eq_nil_iff_forall_not_mem]
    intro a ha
    exact hsorted.not_endless ((mem_unreached (ListItem.nodup_mergeSort hn)).mp ha).2
  have henter (bound : Nat) : enter bound [] = [] := by
    cases bound <;> rfl
  rw [Forest.buildForest_eq hn]
  simp only [hnone, henter, List.append_nil]

theorem mem_roots : a ∈ (buildForest items).map TreeNode.item ↔ a ∈ items ∧ Topmost items a := by
  rw [Forest.mem_roots hn]
  refine and_congr_right fun _ => or_iff_left ?_
  rintro ⟨he, -⟩
  exact hc.not_endless he

theorem sorted_roots : ((buildForest items).map TreeNode.item).Pairwise Before := by
  have hsorted := sorted_firsts items
  rw [firsts_of_nodup hn] at hsorted
  rw [hc.buildForest_eq hn, items_grow]
  exact hsorted.sublist List.filter_sublist

theorem grown_hanging (ht : t ∈ nodesAll (buildForest items)) : ∃ b a,
    t = grow (hanging (items.mergeSort ListItem.le)) b a := by
  rw [hc.buildForest_eq hn] at ht
  refine nodesAll_induction
    (P := fun t => ∃ b a, t = grow (hanging (items.mergeSort ListItem.le)) b a)
    (fun t hg c hm => ?_) _ (fun r hr => ?_) t ht
  · obtain ⟨b, a, rfl⟩ := hg
    obtain ⟨b', i, -, -, -, rfl⟩ := children_grow hm
    exact ⟨b', i, rfl⟩
  · obtain ⟨a, -, rfl⟩ := List.mem_map.mp hr
    exact ⟨_, a, rfl⟩

theorem mem_children (ht : t ∈ nodesAll (buildForest items)) :
    i ∈ t.children.map TreeNode.item ↔ i ∈ hanging items ∧ i.parent = some t.item.id := by
  have hmem (j : ListItem) : j ∈ items.mergeSort ListItem.le ↔ j ∈ items := List.mem_mergeSort
  constructor
  · intro hi
    obtain ⟨c, hm, rfl⟩ := List.mem_map.mp hi
    have hp := parent_of_child ht hm
    obtain ⟨b, a, rfl⟩ := hc.grown_hanging hn ht
    obtain ⟨b', j, -, hj, -, rfl⟩ := children_grow hm
    rw [item_grow] at hp ⊢
    rw [mem_hanging, hmem, hangs_congr hmem, ← mem_hanging] at hj
    exact ⟨hj, hp⟩
  · rintro ⟨hi, hp⟩
    obtain ⟨hm, hh⟩ := mem_hanging.mp hi
    -- what hangs is no root, so it is a child somewhere, and its parent has one node only
    have hroot : i ∉ (buildForest items).map TreeNode.item := by
      rw [hc.mem_roots hn, topmost_iff, hh]
      simp
    obtain ⟨u, hu, hq, hchild⟩ := child_of_not_root hn hm hroot
    have hid : t.item.id = u.item.id := Option.some.inj (hp.symm.trans hq)
    rwa [node_unique ((perm_buildForest items).nodup_iff.mpr (nodup_firsts items)) ht hu hid]

end Nodup

end Acyclic

/-- The forest of a list of distinct ids without cycles of parents is determined by the parent
links: the roots are the items whose parent is absent, the item itself or not in the list, and every
other item is a child of its parent's node. The roots increase strictly by name and id, and any
order of the list gives the same forest. -/
theorem links_determine (hn : (items.map ListItem.id).Nodup) (hc : Acyclic items) :
    (∀ a, a ∈ (buildForest items).map TreeNode.item ↔ a ∈ items ∧ Topmost items a) ∧
    (∀ a ∈ items, ¬Topmost items a → ∃ t ∈ nodesAll (buildForest items),
      a.parent = some t.item.id ∧ a ∈ t.children.map TreeNode.item) ∧
    ((buildForest items).map TreeNode.item).Pairwise Before ∧
    ∀ all, items.Perm all → buildForest all = buildForest items := by
  refine ⟨fun a => hc.mem_roots hn, fun a ha ht => ?_, hc.sorted_roots hn,
    fun all => buildForest_of_perm hn⟩
  refine child_of_not_root hn ha fun hroot => ?_
  exact ht ((hc.mem_roots hn).mp hroot).2

end Forest

namespace Sample

def trunk : ListItem := ⟨⟨Uuid.ofNat 1⟩, .department, "Trunk", none⟩

def bough : ListItem := ⟨⟨Uuid.ofNat 3⟩, .department, "Bough", some trunk.id⟩

def leaf : ListItem := ⟨⟨Uuid.ofNat 4⟩, .article, "Leaf", some bough.id⟩

def cutting : ListItem := ⟨⟨Uuid.ofNat 2⟩, .article, "Cutting", some ⟨Uuid.ofNat 9⟩⟩

def sapling : List ListItem := [bough, trunk, cutting, leaf]

theorem acyclic_sapling : Forest.Acyclic sapling := by
  refine Forest.Acyclic.of_rank (fun x => x.uuid.toNat) fun i hi p hp => ?_
  have hm : i = bough ∨ i = trunk ∨ i = cutting ∨ i = leaf := by
    simpa [sapling] using (Forest.mem_hanging.mp hi).1
  rcases hm with rfl | rfl | rfl | rfl
  · cases hp; decide
  · cases hp
  · exact absurd (Forest.mem_hanging.mp hi).2 (by decide)
  · cases hp; decide

end Sample

namespace Forest

open Sample

theorem links_determine_sapling : (sapling.map ListItem.id).Nodup ∧ Acyclic sapling ∧
    trunk ∈ (buildForest sapling).map TreeNode.item ∧
    cutting ∈ (buildForest sapling).map TreeNode.item ∧
    (∃ t ∈ nodesAll (buildForest sapling), t.item.id = bough.id ∧
      leaf ∈ t.children.map TreeNode.item) ∧
    buildForest sapling.reverse = buildForest sapling := by
  have hn : (sapling.map ListItem.id).Nodup := by decide
  obtain ⟨hroots, hchild, -, horder⟩ := links_determine hn acyclic_sapling
  have hleaf : ¬Topmost sapling leaf := by
    rw [topmost_iff]
    decide
  obtain ⟨t, ht, hp, hc⟩ := hchild leaf (by decide) hleaf
  refine ⟨hn, acyclic_sapling, (hroots trunk).mpr ⟨by decide, ?_⟩,
    (hroots cutting).mpr ⟨by decide, ?_⟩, ⟨t, ht, (Option.some.inj hp).symm, hc⟩,
    horder _ sapling.reverse_perm.symm⟩
  · rw [topmost_iff]
    decide
  · rw [topmost_iff]
    decide

end Forest

end KnowledgeTree
