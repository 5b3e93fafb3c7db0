import KnowledgeTree.Proofs.Forest
import KnowledgeTree.Proofs.Order
import KnowledgeTree.Proofs.Utf8

/-!
The nodes of an assembled forest, whatever the list: each id of the list has one node, which bears
the first item of that id, and children hang from the node their parent link names, in the order of
names and ids.
-/

namespace KnowledgeTree

namespace TreeNode

variable {t c : TreeNode} {ts : List TreeNode} {x : EntityId}

mutual

def nodes : TreeNode → List TreeNode
  | node item children => node item children :: nodesAll children

def nodesAll : List TreeNode → List TreeNode
  | [] => []
  | t :: ts => t.nodes ++ nodesAll ts

end

theorem nodes_eq (t : TreeNode) : t.nodes = t :: nodesAll t.children := by
  cases t; rfl

theorem self_mem_nodes (t : TreeNode) : t ∈ t.nodes := by
  rw [nodes_eq]; exact List.mem_cons_self

theorem mem_nodesAll : t ∈ nodesAll ts ↔ ∃ r ∈ ts, t ∈ r.nodes := by
  induction ts with
  | nil => simp [nodesAll]
  | cons r ts ih => simp [nodesAll, ih]

theorem mem_nodesAll_of_mem (h : t ∈ ts) : t ∈ nodesAll ts :=
  mem_nodesAll.mpr ⟨t, h, t.self_mem_nodes⟩

mutual

theorem ids_eq_map : ∀ t : TreeNode, t.ids = t.nodes.map (·.item.id)
  | node item children => by
    have h := idsAll_eq_map children
    simp only [ids, nodes, List.map_cons, h]
    rfl

theorem idsAll_eq_map : ∀ ts : List TreeNode, idsAll ts = (nodesAll ts).map (·.item.id)
  | [] => rfl
  | t :: ts => by
    have ht := ids_eq_map t
    have hts := idsAll_eq_map ts
    simp only [idsAll, nodesAll, List.map_append, ht, hts]

end

section Induction

variable {P : TreeNode → Prop}

mutual

theorem nodes_induction (hchild : ∀ t, P t → ∀ c ∈ t.children, P c) :
    ∀ r : TreeNode, P r → ∀ t ∈ r.nodes, P t
  | node item children, hr, t, ht => by
    rw [nodes, List.mem_cons] at ht
    rcases ht with rfl | ht
    · exact hr
    · exact nodesAll_induction hchild children (hchild _ hr) t ht

theorem nodesAll_induction (hchild : ∀ t, P t → ∀ c ∈ t.children, P c) :
    ∀ ts : List TreeNode, (∀ r ∈ ts, P r) → ∀ t ∈ nodesAll ts, P t
  | [], _, t, ht => by cases ht
  | r :: ts, hts, t, ht => by
    rw [nodesAll, List.mem_append] at ht
    rcases ht with ht | ht
    · exact nodes_induction hchild r (hts r List.mem_cons_self) t ht
    · exact nodesAll_induction hchild ts (fun r hr => hts r (List.mem_cons_of_mem _ hr)) t ht

end

end Induction

theorem mem_nodesAll_of_child (h : t ∈ nodesAll ts) (hc : c ∈ t.children) : c ∈ nodesAll ts := by
  have hall : ∀ u ∈ t.nodes, u ∈ nodesAll ts := by
    refine nodesAll_induction (P := fun t => ∀ u ∈ t.nodes, u ∈ nodesAll ts) ?_ ts ?_ t h
    · intro t ht c hc u hu
      apply ht
      rw [nodes_eq]
      exact List.mem_cons_of_mem t (mem_nodesAll.mpr ⟨c, hc, hu⟩)
    · intro r hr u hu
      exact mem_nodesAll.mpr ⟨r, hr, hu⟩
  apply hall
  rw [nodes_eq]
  exact List.mem_cons_of_mem t (mem_nodesAll_of_mem hc)

theorem mem_nodesAll_cases (h : t ∈ nodesAll ts) :
    t ∈ ts ∨ ∃ p ∈ nodesAll ts, t ∈ p.children := by
  have hboth : t ∈ nodesAll ts ∧ (t ∈ ts ∨ ∃ p ∈ nodesAll ts, t ∈ p.children) := by
    refine nodesAll_induction
      (P := fun t => t ∈ nodesAll ts ∧ (t ∈ ts ∨ ∃ p ∈ nodesAll ts, t ∈ p.children)) ?_ ts ?_ t h
    · intro t ht c hc
      exact ⟨mem_nodesAll_of_child ht.1 hc, .inr ⟨t, ht.1, hc⟩⟩
    · intro r hr
      exact ⟨mem_nodesAll_of_mem hr, .inl hr⟩
  exact hboth.2

theorem node_unique {u : TreeNode} (hn : (idsAll ts).Nodup) (ht : t ∈ nodesAll ts)
    (hu : u ∈ nodesAll ts) (h : t.item.id = u.item.id) : t = u := by
  rw [idsAll_eq_map] at hn
  exact List.inj_on_of_nodup_map hn ht hu h

end TreeNode

open TreeNode

namespace Forest

variable {pool left items all : List ListItem} {a i : ListItem} {t : TreeNode} {b bound : Nat}

theorem item_grow (pool : List ListItem) (b : Nat) (a : ListItem) : (grow pool b a).item = a := by
  cases b <;> rfl

theorem items_grow (pool : List ListItem) (b : Nat) (l : List ListItem) :
    (l.map (grow pool b)).map TreeNode.item = l := by
  rw [List.map_map]
  exact (List.map_congr_left fun i _ => item_grow pool b i).trans (List.map_id' l)

theorem children_grow (ht : t ∈ (grow pool b a).children) :
    ∃ b' i, b = b' + 1 ∧ i ∈ pool ∧ i.parent = some a.id ∧ t = grow pool b' i := by
  cases b with
  | zero => cases ht
  | succ b =>
    obtain ⟨i, hi, rfl⟩ := List.mem_map.mp ht
    obtain ⟨hm, hp⟩ := mem_children.mp hi
    exact ⟨b, i, rfl, hm, hp, rfl⟩

theorem children_grow_sublist (pool : List ListItem) (b : Nat) (a : ListItem) :
    ((grow pool b a).children.map TreeNode.item).Sublist pool := by
  cases b with
  | zero => exact List.nil_sublist pool
  | succ b =>
    have hmap : (grow pool (b + 1) a).children.map TreeNode.item =
        pool.filter (·.parent == some a.id) := items_grow pool b _
    rw [hmap]
    exact List.filter_sublist

/-- The tree is grown from an item of the list, its other nodes taken from it in its order. -/
def Grown (all : List ListItem) (t : TreeNode) : Prop :=
  ∃ pool b a, pool.Sublist all ∧ a ∈ all ∧ t = grow pool b a

theorem Grown.mono (h : Grown left t) (hs : left.Sublist all) : Grown all t := by
  obtain ⟨pool, b, a, hp, ha, rfl⟩ := h
  exact ⟨pool, b, a, hp.trans hs, hs.subset ha, rfl⟩

theorem Grown.child (h : Grown all t) {c : TreeNode} (hc : c ∈ t.children) : Grown all c := by
  obtain ⟨pool, b, a, hp, -, rfl⟩ := h
  obtain ⟨b', i, -, hi, -, rfl⟩ := children_grow hc
  exact ⟨pool, b', i, hp, hp.subset hi, rfl⟩

theorem grown_enter (ht : t ∈ enter bound left) : Grown left t := by
  induction bound generalizing left with
  | zero => cases ht
  | succ bound ih =>
    cases left with
    | nil => cases ht
    | cons a rest =>
      rcases List.mem_cons.mp ht with rfl | ht
      · exact ⟨_, _, _, List.filter_sublist, entry_mem a rest, rfl⟩
      · exact (ih ht).mono List.filter_sublist

theorem grown_buildForest (ht : t ∈ nodesAll (buildForest items)) :
    Grown ((firsts items).mergeSort ListItem.le) t := by
  refine nodesAll_induction (fun t hg c hc => hg.child hc) _ (fun r hr => ?_) t ht
  rcases List.mem_append.mp hr with hr | hr
  · obtain ⟨a, ha, rfl⟩ := List.mem_map.mp hr
    exact ⟨_, _, a, List.filter_sublist, List.mem_of_mem_filter ha, rfl⟩
  · exact (grown_enter hr).mono (List.filter_sublist.trans List.filter_sublist)

theorem parent_of_child (ht : t ∈ nodesAll (buildForest items)) {c : TreeNode}
    (hc : c ∈ t.children) : c.item.parent = some t.item.id := by
  obtain ⟨pool, b, a, -, -, rfl⟩ := grown_buildForest ht
  obtain ⟨b', i, -, -, hp, rfl⟩ := children_grow hc
  rw [item_grow, item_grow]
  exact hp

theorem item_mem_firsts (ht : t ∈ nodesAll (buildForest items)) : t.item ∈ firsts items := by
  obtain ⟨pool, b, a, -, ha, rfl⟩ := grown_buildForest ht
  rw [item_grow]
  exact List.mem_mergeSort.mp ha

/-! The list -/

theorem find?_of_mem_firsts (h : a ∈ firsts items) :
    items.find? (·.id == a.id) = some a := by
  induction items with
  | nil => cases h
  | cons i items ih =>
    rcases List.mem_cons.mp h with rfl | h
    · exact List.find?_cons_of_pos (by simp)
    · obtain ⟨hm, hne⟩ := List.mem_filter.mp h
      have hne : i.id ≠ a.id := fun heq => by simp [heq] at hne
      rw [List.find?_cons_of_neg (by simpa using hne)]
      exact ih hm

theorem mem_ids_firsts {x : EntityId} : x ∈ (firsts items).map ListItem.id ↔
    x ∈ items.map ListItem.id := by
  induction items with
  | nil => rfl
  | cons i items ih =>
    rw [firsts, List.map_cons, List.map_cons, List.mem_cons, List.mem_cons, ← ih]
    refine or_congr_right' fun hx => ?_
    simp only [List.mem_map, List.mem_filter, bne_iff_ne]
    refine exists_congr fun c => ?_
    constructor
    · rintro ⟨⟨hc, -⟩, heq⟩
      exact ⟨hc, heq⟩
    · rintro ⟨hc, rfl⟩
      exact ⟨⟨hc, hx⟩, rfl⟩

def Before (a b : ListItem) : Prop :=
  Text.utf8 a.name < Text.utf8 b.name ∨
    a.name = b.name ∧ a.id.uuid.toNat < b.id.uuid.toNat

theorem before_of_le {c : ListItem} (h : a.le c = true) (hne : a.id ≠ c.id) : Before a c := by
  rw [Before, Text.utf8_lt_iff]
  refine (ListItem.le_iff.mp h).imp_right fun ⟨hname, hid⟩ => ⟨hname, ?_⟩
  refine Nat.lt_of_le_of_ne hid fun heq => hne ?_
  exact EntityId.le_antisymm hid (Nat.le_of_eq heq.symm)

theorem sorted_firsts (items : List ListItem) :
    ((firsts items).mergeSort ListItem.le).Pairwise Before := by
  have hne : ((firsts items).mergeSort ListItem.le).Pairwise fun a c => a.id ≠ c.id := by
    have hperm := (List.mergeSort_perm (firsts items) ListItem.le).map ListItem.id
    exact List.pairwise_map.mp (hperm.nodup_iff.mpr (nodup_firsts items))
  exact (ListItem.sorted_mergeSort _).imp₂ (fun _ _ hle hne => before_of_le hle hne) hne

theorem children_sublist (ht : t ∈ nodesAll (buildForest items)) :
    (t.children.map TreeNode.item).Sublist ((firsts items).mergeSort ListItem.le) := by
  obtain ⟨pool, b, a, hpool, -, rfl⟩ := grown_buildForest ht
  exact (children_grow_sublist pool b a).trans hpool

/-- The forest of any list has one node for each id of the list, which bears the first item of that
id. A child's parent link names the node that contains it, and siblings increase strictly by name
and id. -/
theorem buildForest_keeps (items : List ListItem) :
    (idsAll (buildForest items)).Nodup ∧
    (∀ x, x ∈ idsAll (buildForest items) ↔ ∃ i ∈ items, i.id = x) ∧
    ∀ t ∈ nodesAll (buildForest items),
      items.find? (·.id == t.item.id) = some t.item ∧
      (∀ c ∈ t.children, c.item.parent = some t.item.id) ∧
      t.children.Pairwise fun c d => Before c.item d.item := by
  have hperm := perm_buildForest items
  refine ⟨hperm.nodup_iff.mpr (nodup_firsts items), fun x => ?_, fun t ht => ?_⟩
  · rw [hperm.mem_iff, mem_ids_firsts, List.mem_map]
  · refine ⟨find?_of_mem_firsts (item_mem_firsts ht), fun c => parent_of_child ht, ?_⟩
    rw [← List.pairwise_map (f := TreeNode.item)]
    exact (sorted_firsts items).sublist (children_sublist ht)

end Forest

end KnowledgeTree
