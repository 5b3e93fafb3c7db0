import KnowledgeTree.Forest
import Mathlib.Data.List.Nodup
import Mathlib.Data.List.Perm.Basic

/-!
Which ids a forest holds: those of the list it is made from, each once, whatever the parents in the
list say.
-/

namespace KnowledgeTree

namespace TreeNode

theorem idsAll_eq (ts : List TreeNode) : idsAll ts = ts.flatMap ids := by
  induction ts with
  | nil => rfl
  | cons t ts ih => rw [idsAll, ih, List.flatMap_cons]

mutual

theorem size_eq : ∀ t : TreeNode, t.size = t.ids.length
  | node item children => by
    have h := sizeAll_eq children
    simp only [size, ids, List.length_cons, h]

theorem sizeAll_eq : ∀ ts : List TreeNode, sizeAll ts = (idsAll ts).length
  | [] => rfl
  | t :: ts => by
    have ht := size_eq t
    have hts := sizeAll_eq ts
    simp only [sizeAll, idsAll, List.length_append, ht, hts]

end

end TreeNode

namespace Forest

variable {pool tops left items : List ListItem} {a c i : ListItem} {x y p : EntityId}
  {b k m n bound : Nat}

inductive Below (pool : List ListItem) : Nat → EntityId → EntityId → Prop
  | here {x : EntityId} : Below pool 0 x x
  | hop {n : Nat} {x p : EntityId} {i : ListItem} (h : Below pool n x p) (hi : i ∈ pool)
      (hp : i.parent = some p) : Below pool (n + 1) x i.id

namespace Below

theorem mem (h : Below pool (n + 1) x y) : y ∈ pool.map ListItem.id := by
  cases h with
  | hop _ hi _ => exact List.mem_map_of_mem hi

theorem eq_of_zero (h : Below pool 0 x y) : x = y := by
  cases h; rfl

theorem prepend (hi : i ∈ pool) (hp : i.parent = some x) (h : Below pool n i.id y) :
    Below pool (n + 1) x y := by
  generalize hz : i.id = z at h
  induction h with
  | here => subst hz; exact .hop .here hi hp
  | hop _ hj hq ih => exact .hop (ih hz) hj hq

theorem parent (hn : (pool.map ListItem.id).Nodup) (hi : i ∈ pool) (hp : i.parent = some p)
    (h : Below pool (n + 1) x i.id) : Below pool n x p := by
  generalize hz : i.id = z at h
  cases h with
  | @hop _ _ q j h hj hq =>
    have hij : i = j := List.inj_on_of_nodup_map hn hi hj hz
    subst hij
    rw [hp] at hq
    cases hq
    exact h

theorem between (hn : (pool.map ListItem.id).Nodup) (hx : Below pool m x p)
    (hy : Below pool (m + k) y p) : Below pool k y x := by
  induction hx with
  | here => rwa [Nat.zero_add] at hy
  | @hop m x q i _ hi hq ih =>
    have he : m + 1 + k = m + k + 1 := by omega
    rw [he] at hy
    exact ih (hy.parent hn hi hq)

end Below

/-! Growing -/

theorem ids_grow_succ : (grow pool (b + 1) a).ids =
    a.id :: TreeNode.idsAll ((pool.filter (·.parent == some a.id)).map (grow pool b)) := rfl

theorem mem_children : c ∈ pool.filter (·.parent == some a.id) ↔
    c ∈ pool ∧ c.parent = some a.id := by
  simp

theorem mem_idsAll_grow : x ∈ TreeNode.idsAll (tops.map (grow pool b)) ↔
    ∃ a ∈ tops, x ∈ (grow pool b a).ids := by
  simp [TreeNode.idsAll_eq]

theorem below_of_mem_grow (h : x ∈ (grow pool b a).ids) : ∃ k, Below pool k a.id x := by
  induction b generalizing a with
  | zero =>
    have hx : x = a.id := by simpa [grow, TreeNode.ids, TreeNode.idsAll] using h
    subst hx
    exact ⟨0, .here⟩
  | succ b ih =>
    rw [ids_grow_succ, List.mem_cons, mem_idsAll_grow] at h
    rcases h with rfl | ⟨c, hc, hx⟩
    · exact ⟨0, .here⟩
    · obtain ⟨hi, hp⟩ := mem_children.mp hc
      obtain ⟨k, hk⟩ := ih hx
      exact ⟨k + 1, hk.prepend hi hp⟩

theorem mem_of_mem_grow (hp : ∀ i ∈ pool, i ∈ items) (ha : a ∈ items)
    (h : x ∈ (grow pool b a).ids) : x ∈ items.map ListItem.id := by
  obtain ⟨k, hk⟩ := below_of_mem_grow h
  cases k with
  | zero => rw [← hk.eq_of_zero]; exact List.mem_map_of_mem ha
  | succ k =>
    obtain ⟨i, hi, rfl⟩ := List.mem_map.mp hk.mem
    exact List.mem_map_of_mem (hp i hi)

theorem self_mem_grow (a : ListItem) : a.id ∈ (grow pool b a).ids := by
  cases b <;> simp [grow, TreeNode.ids]

section Nodup

variable (hn : (pool.map ListItem.id).Nodup)

include hn

theorem not_below_both (hne : x ≠ y) (hyx : ∀ k, ¬Below pool (k + 1) y x) (hle : m ≤ n)
    (hx : Below pool m x p) (hy : Below pool n y p) : False := by
  obtain ⟨k, rfl⟩ := Nat.exists_eq_add_of_le hle
  have hk := hx.between hn hy
  cases k with
  | zero => exact hne hk.eq_of_zero.symm
  | succ k => exact hyx k hk

theorem disjoint_grow (hne : a.id ≠ c.id) (hac : ∀ k, ¬Below pool (k + 1) a.id c.id)
    (hca : ∀ k, ¬Below pool (k + 1) c.id a.id) :
    (grow pool b a).ids.Disjoint (grow pool b c).ids := by
  intro x ha hc
  obtain ⟨m, hm⟩ := below_of_mem_grow ha
  obtain ⟨n, hx⟩ := below_of_mem_grow hc
  rcases Nat.le_total m n with hle | hle
  · exact not_below_both hn hne hca hle hm hx
  · exact not_below_both hn hne.symm hac hle hx hm

theorem nodup_trees (ht : (tops.map ListItem.id).Nodup)
    (hs : ∀ a ∈ tops, ∀ c ∈ tops, ∀ k, ¬Below pool (k + 1) a.id c.id)
    (hd : ∀ a ∈ tops, (grow pool b a).ids.Nodup) :
    (TreeNode.idsAll (tops.map (grow pool b))).Nodup := by
  rw [TreeNode.idsAll_eq, List.flatMap_map, List.nodup_flatMap]
  have hne : tops.Pairwise fun a c => a.id ≠ c.id := List.pairwise_map.mp ht
  refine ⟨hd, hne.imp_of_mem fun ha hc hne => ?_⟩
  exact disjoint_grow hn hne (hs _ ha _ hc) (hs _ hc _ ha)

theorem nodup_grow (hc : ∀ k, ¬Below pool (k + 1) a.id a.id) : (grow pool b a).ids.Nodup := by
  induction b generalizing a with
  | zero => simp [grow, TreeNode.ids, TreeNode.idsAll]
  | succ b ih =>
    -- what lies below a child of a lies below a, so no child lies below a child
    have hup : ∀ c ∈ pool.filter (·.parent == some a.id), ∀ k x, Below pool k c.id x →
        Below pool (k + 1) a.id x := by
      intro c hc k x hk
      obtain ⟨hi, hp⟩ := mem_children.mp hc
      exact hk.prepend hi hp
    have hsep : ∀ c ∈ pool.filter (·.parent == some a.id),
        ∀ d ∈ pool.filter (·.parent == some a.id), ∀ k, ¬Below pool (k + 1) c.id d.id := by
      intro c hcm d hdm k hk
      obtain ⟨hi, hp⟩ := mem_children.mp hdm
      exact hc k (hup c hcm k _ (hk.parent hn hi hp))
    rw [ids_grow_succ, List.nodup_cons]
    refine ⟨fun hm => ?_, nodup_trees hn ?_ hsep fun c hcm => ih (hsep c hcm c hcm)⟩
    · obtain ⟨c, hcm, hx⟩ := mem_idsAll_grow.mp hm
      obtain ⟨k, hk⟩ := below_of_mem_grow hx
      exact hc k (hup c hcm k _ hk)
    · exact (List.filter_sublist.map _).nodup hn

end Nodup

/-! Entering cycles -/

theorem nodup_filter {q : ListItem → Bool} (h : (items.map ListItem.id).Nodup) :
    ((items.filter q).map ListItem.id).Nodup :=
  (List.filter_sublist.map _).nodup h

theorem entry_mem (a : ListItem) (rest : List ListItem) : rest.foldl smaller a ∈ a :: rest := by
  induction rest generalizing a with
  | nil => simp
  | cons c rest ih =>
    have hs : smaller a c = a ∨ smaller a c = c := by
      unfold smaller
      split
      · exact .inr rfl
      · exact .inl rfl
    rw [List.foldl_cons]
    rcases List.mem_cons.mp (ih (smaller a c)) with h | h
    · rw [h]
      rcases hs with hs | hs <;> simp [hs]
    · exact List.mem_cons_of_mem _ (List.mem_cons_of_mem _ h)

theorem perm_unreached {reached : List EntityId} (hr : reached.Nodup)
    (hn : (items.map ListItem.id).Nodup) (hs : ∀ x ∈ reached, x ∈ items.map ListItem.id) :
    (reached ++ (items.filter fun i => !reached.contains i.id).map ListItem.id).Perm
      (items.map ListItem.id) := by
  have hd : ((items.filter fun i => !reached.contains i.id).map ListItem.id).Nodup :=
    nodup_filter hn
  have hdis : reached.Disjoint
      ((items.filter fun i => !reached.contains i.id).map ListItem.id) := by
    intro x hx hy
    obtain ⟨i, hi, rfl⟩ := List.mem_map.mp hy
    simp [hx] at hi
  refine (List.perm_ext_iff_of_nodup (hr.append hd hdis) hn).mpr fun x => ?_
  rw [List.mem_append]
  constructor
  · rintro (hx | hx)
    · exact hs x hx
    · obtain ⟨i, hi, rfl⟩ := List.mem_map.mp hx
      exact List.mem_map_of_mem (List.mem_of_mem_filter hi)
  · intro hx
    by_cases hm : x ∈ reached
    · exact .inl hm
    · obtain ⟨i, hi, rfl⟩ := List.mem_map.mp hx
      exact .inr (List.mem_map_of_mem (by simp [hi, hm]))

theorem perm_enter (hn : (left.map ListItem.id).Nodup) (hb : left.length ≤ bound) :
    (TreeNode.idsAll (enter bound left)).Perm (left.map ListItem.id) := by
  induction bound generalizing left with
  | zero =>
    have hl : left = [] := List.length_eq_zero_iff.mp (by omega)
    subst hl
    exact .refl _
  | succ bound ih =>
    cases left with
    | nil => exact .refl _
    | cons a rest =>
      have hentry := entry_mem a rest
      have hcons : enter (bound + 1) (a :: rest) =
          let tree := grow ((a :: rest).filter (·.id != (rest.foldl smaller a).id))
            (rest.length + 1) (rest.foldl smaller a)
          tree :: enter bound ((a :: rest).filter fun b => !tree.ids.contains b.id) := rfl
      rw [hcons]
      generalize rest.foldl smaller a = entry at hentry
      generalize ht : grow ((a :: rest).filter (·.id != entry.id)) (rest.length + 1) entry = tree
      have hself : entry.id ∈ tree.ids := ht ▸ self_mem_grow entry
      have hsub : ∀ x ∈ tree.ids, x ∈ (a :: rest).map ListItem.id := by
        intro x hx
        rw [← ht] at hx
        exact mem_of_mem_grow (fun i hi => List.mem_of_mem_filter hi) hentry hx
      have hnodup : tree.ids.Nodup := by
        rw [← ht]
        refine nodup_grow (nodup_filter hn) fun k hk => ?_
        obtain ⟨i, hi, hid⟩ := List.mem_map.mp hk.mem
        simp [hid] at hi
      have hlen : ((a :: rest).filter fun b => !tree.ids.contains b.id).length ≤ bound := by
        have hlt : ((a :: rest).filter fun b => !tree.ids.contains b.id).length
            < (a :: rest).length :=
          List.length_filter_lt_length_iff_exists.mpr ⟨entry, hentry, by simp [hself]⟩
        omega
      have hrest := ih (nodup_filter (q := fun b => !tree.ids.contains b.id) hn) hlen
      exact (hrest.append_left tree.ids).trans (perm_unreached hnodup hn hsub)

/-! The whole forest -/

theorem root_not_below (hn : (items.map ListItem.id).Nodup)
    (ha : a ∈ items.filter fun a => !hangs items a) :
    ¬Below (items.filter (hangs items)) (k + 1) x a.id := by
  intro hk
  obtain ⟨i, hi, hid⟩ := List.mem_map.mp hk.mem
  rw [List.mem_filter] at ha hi
  rw [List.inj_on_of_nodup_map hn hi.1 ha.1 hid] at hi
  simp [hi.2] at ha

theorem nodup_firsts (items : List ListItem) : ((firsts items).map ListItem.id).Nodup := by
  induction items with
  | nil => simp [firsts]
  | cons a items ih =>
    rw [firsts, List.map_cons, List.nodup_cons]
    exact ⟨by simp, nodup_filter ih⟩

theorem firsts_of_nodup (h : (items.map ListItem.id).Nodup) : firsts items = items := by
  induction items with
  | nil => rfl
  | cons a items ih =>
    rw [List.map_cons, List.nodup_cons] at h
    rw [firsts, ih h.2, List.filter_eq_self.mpr]
    intro c hc
    have hne : c.id ≠ a.id := fun he => h.1 (he ▸ List.mem_map_of_mem hc)
    simpa using hne

end Forest

open Forest

theorem buildForest_nil : buildForest [] = [] := by
  simp [buildForest, firsts, enter]

/-- The forest holds each id of the list once, also where parents are missing or run in a cycle. -/
theorem perm_buildForest (items : List ListItem) :
    (TreeNode.idsAll (buildForest items)).Perm ((firsts items).map ListItem.id) := by
  have hsort := (List.mergeSort_perm (firsts items) ListItem.le).map ListItem.id
  have hn := hsort.nodup_iff.mpr (nodup_firsts items)
  refine List.Perm.trans ?_ hsort
  simp only [buildForest]
  generalize (firsts items).mergeSort ListItem.le = all at hn
  generalize hr : TreeNode.idsAll (((all.filter fun a => !hangs all a)).map
    (grow (all.filter (hangs all)) all.length)) = reached
  have hnodup : reached.Nodup := by
    rw [← hr]
    exact nodup_trees (nodup_filter hn) (nodup_filter hn)
      (fun a _ c hc k => root_not_below hn hc)
      fun a ha => nodup_grow (nodup_filter hn) fun k => root_not_below hn ha
  have hsub : ∀ x ∈ reached, x ∈ all.map ListItem.id := by
    intro x hx
    rw [← hr] at hx
    obtain ⟨a, ha, hx⟩ := mem_idsAll_grow.mp hx
    exact mem_of_mem_grow (fun i hi => List.mem_of_mem_filter hi) (List.mem_of_mem_filter ha) hx
  -- all roots are reached, so what is left is what hangs
  have hleft : ((all.filter (hangs all)).filter fun a => !reached.contains a.id) =
      all.filter fun a => !reached.contains a.id := by
    rw [List.filter_filter]
    refine List.filter_congr fun a ha => ?_
    cases hh : hangs all a with
    | true => simp
    | false =>
      have hm : a.id ∈ reached := by
        rw [← hr]
        exact mem_idsAll_grow.mpr ⟨a, by simp [ha, hh], self_mem_grow a⟩
      simp [hm]
  have hlen : (all.filter fun a => !reached.contains a.id).length ≤ all.length :=
    List.length_filter_le _ _
  rw [TreeNode.idsAll_eq, List.flatMap_append, ← TreeNode.idsAll_eq, ← TreeNode.idsAll_eq, hr, hleft]
  exact ((perm_enter (nodup_filter hn) hlen).append_left reached).trans
    (perm_unreached hnodup hn hsub)

end KnowledgeTree
