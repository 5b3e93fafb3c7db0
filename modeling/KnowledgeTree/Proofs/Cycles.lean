import KnowledgeTree.Proofs.Assembly

/-!
The roots of a forest whose parent links may run in cycles. An item without a parent in the list is
a root. What lies on a cycle or below one is entered from the smallest id on, so that not only the
smallest item of each cycle becomes a root: an item below a cycle does so too, if its id is smaller
than every id above it.
-/

namespace KnowledgeTree

open TreeNode

namespace Forest

variable {pool left items all : List ListItem} {a c i j : ListItem} {x y z : EntityId}
  {k m n b bound : Nat}

/-! What lies below -/

namespace Below

theorem trans (h : Below pool m x y) (h' : Below pool n y z) : Below pool (m + n) x z := by
  induction h' with
  | here => exact h
  | hop _ hi hp ih => exact .hop (ih h) hi hp

theorem mono (hs : ∀ i ∈ pool, i ∈ all) (h : Below pool n x y) : Below all n x y := by
  induction h with
  | here => exact .here
  | hop _ hi hp ih => exact .hop ih (hs _ hi) hp

theorem step_down (h : Below pool (n + 1) x y) :
    ∃ i ∈ pool, i.parent = some x ∧ Below pool n i.id y := by
  generalize hm : n + 1 = m at h
  induction h generalizing n with
  | here => cases hm
  | @hop m x p i h hi hp ih =>
    cases n with
    | zero =>
      obtain rfl : m = 0 := by omega
      obtain rfl := h.eq_of_zero
      exact ⟨i, hi, hp, .here⟩
    | succ n =>
      obtain ⟨j, hj, hq, hb⟩ := ih (n := n) (by omega)
      exact ⟨j, hj, hq, hb.hop hi hp⟩

theorem avoid (h : Below pool n x y) : ∃ k, Below (pool.filter (·.id != x)) k x y := by
  induction h with
  | here => exact ⟨0, .here⟩
  | @hop n x p i _ hi hp ih =>
    -- a visit to the start begins the way anew
    by_cases heq : i.id = x
    · exact ⟨0, heq ▸ .here⟩
    · obtain ⟨k, hk⟩ := ih
      exact ⟨k + 1, hk.hop (List.mem_filter.mpr ⟨hi, by simpa using heq⟩) hp⟩

theorem line (hn : (pool.map ListItem.id).Nodup) (hc : ∀ k, ¬Below pool (k + 1) x x)
    (h : Below pool n x y) : ∃ ids : List EntityId, ids.length = n ∧ ids.Nodup ∧
      ∀ z ∈ ids, z ∈ pool.map ListItem.id ∧ ∃ k ≤ n, Below pool k x z := by
  induction h with
  | here => exact ⟨[], rfl, List.nodup_nil, by simp⟩
  | @hop n x p i h hi hp ih =>
    obtain ⟨ids, hlen, hnodup, hmem⟩ := ih hc
    refine ⟨i.id :: ids, by rw [List.length_cons, hlen], List.nodup_cons.mpr ⟨?_, hnodup⟩, ?_⟩
    · intro hin
      -- what lies between two visits to an id leads back to the start
      obtain ⟨-, k, hk, hbelow⟩ := hmem _ hin
      have hlast : Below pool (k + (n - k + 1)) x i.id := by
        have he : k + (n - k + 1) = n + 1 := by omega
        rw [he]
        exact h.hop hi hp
      exact hc _ (hbelow.between hn hlast)
    · intro z hz
      rcases List.mem_cons.mp hz with rfl | hz
      · exact ⟨List.mem_map_of_mem hi, n + 1, Nat.le_refl _, h.hop hi hp⟩
      · obtain ⟨hpool, k, hk, hbelow⟩ := hmem z hz
        exact ⟨hpool, k, by omega, hbelow⟩

theorem length_le (hn : (pool.map ListItem.id).Nodup) (hc : ∀ k, ¬Below pool (k + 1) x x)
    (h : Below pool n x y) : n ≤ pool.length := by
  obtain ⟨ids, rfl, hnodup, hmem⟩ := h.line hn hc
  have hle := hnodup.length_le_of_subset fun z hz => (hmem z hz).1
  rwa [List.length_map] at hle

theorem outside {R : EntityId → Prop} (h : Below pool n x y)
    (hR : ∀ i ∈ pool, ∀ p, i.parent = some p → R p → R i.id)
    (hleft : ∀ i ∈ pool, ¬R i.id → i ∈ left) (hy : ¬R y) : ¬R x ∧ Below left n x y := by
  induction h with
  | here => exact ⟨hy, .here⟩
  | @hop n x p i _ hi hp ih =>
    obtain ⟨hx, hb⟩ := ih fun hr => hy (hR i hi p hp hr)
    exact ⟨hx, hb.hop (hleft i hi hy) hp⟩

theorem arbitrary (h : Below pool (k + 1) x x) (n : Nat) : ∃ m ≥ n, Below pool m x x := by
  induction n with
  | zero => exact ⟨0, Nat.le_refl _, .here⟩
  | succ n ih =>
    obtain ⟨m, hm, hb⟩ := ih
    exact ⟨m + (k + 1), by omega, hb.trans h⟩

end Below

theorem mem_grow_of_below (h : Below pool k a.id x) (hk : k ≤ b) : x ∈ (grow pool b a).ids := by
  induction k generalizing a b with
  | zero => exact h.eq_of_zero ▸ self_mem_grow a
  | succ k ih =>
    obtain ⟨b, rfl⟩ : ∃ c, b = c + 1 := ⟨b - 1, by omega⟩
    obtain ⟨i, hi, hp, hb⟩ := h.step_down
    rw [ids_grow_succ, List.mem_cons, mem_idsAll_grow]
    exact .inr ⟨i, mem_children.mpr ⟨hi, hp⟩, ih hb (by omega)⟩

theorem mem_grow (hn : (pool.map ListItem.id).Nodup) (hc : ∀ k, ¬Below pool (k + 1) a.id a.id)
    (hb : pool.length ≤ b) : x ∈ (grow pool b a).ids ↔ ∃ k, Below pool k a.id x := by
  constructor
  · exact below_of_mem_grow
  · rintro ⟨k, hk⟩
    exact mem_grow_of_below hk ((hk.length_le hn hc).trans hb)

/-! Entering -/

theorem entry_le (a : ListItem) (rest : List ListItem) (hi : i ∈ a :: rest) :
    (rest.foldl smaller a).id ≤ i.id := by
  have hsmaller (a c : ListItem) : (smaller a c).id ≤ a.id ∧ (smaller a c).id ≤ c.id := by
    unfold smaller
    split
    · next h => exact ⟨h, Nat.le_refl _⟩
    · next h => exact ⟨Nat.le_refl _, Nat.le_of_not_le h⟩
  induction rest generalizing a i with
  | nil =>
    rw [List.mem_singleton.mp hi]
    exact Nat.le_refl _
  | cons c rest ih =>
    have hfirst := ih (smaller a c) List.mem_cons_self
    rw [List.foldl_cons]
    rcases List.mem_cons.mp hi with rfl | hi
    · exact Nat.le_trans hfirst (hsmaller i c).1
    · rcases List.mem_cons.mp hi with rfl | hi
      · exact Nat.le_trans hfirst (hsmaller a i).2
      · exact ih (smaller a c) (List.mem_cons_of_mem _ hi)

def Closed (items : List ListItem) : Prop := ∀ i ∈ items, ∃ j ∈ items, i.parent = some j.id

/-- No id from which links lead down to the item is smaller than its own. -/
def Least (items : List ListItem) (a : ListItem) : Prop :=
  ∀ k x, Below items k x a.id → a.id ≤ x

theorem Closed.above (h : Closed left) (hb : Below left n x y) (hy : y ∈ left.map ListItem.id) :
    x ∈ left.map ListItem.id := by
  induction hb with
  | here => exact hy
  | hop _ hi hp ih =>
    obtain ⟨j, hj, hq⟩ := h _ hi
    rw [hp] at hq
    cases hq
    exact ih (List.mem_map_of_mem hj)

section Reached

variable {reached : List EntityId}
  (hR : ∀ i ∈ left, ∀ p, i.parent = some p → p ∈ reached → i.id ∈ reached)

include hR

theorem Closed.unreached (h : Closed left) :
    Closed (left.filter fun i => !reached.contains i.id) := by
  intro i hi
  obtain ⟨hm, hout⟩ : i ∈ left ∧ i.id ∉ reached := by simpa using hi
  obtain ⟨j, hj, hp⟩ := h i hm
  have hj' : j.id ∉ reached := fun hr => hout (hR i hm j.id hp hr)
  exact ⟨j, by simp [hj, hj'], hp⟩

theorem least_unreached (ha : a.id ∉ reached) :
    Least (left.filter fun i => !reached.contains i.id) a ↔ Least left a := by
  have hleft : ∀ i ∈ left, i.id ∉ reached → i ∈ left.filter fun i => !reached.contains i.id := by
    intro i hi hout
    simp [hi, hout]
  constructor
  · intro h k x hb
    exact h k x (hb.outside hR hleft ha).2
  · intro h k x hb
    exact h k x (hb.mono fun i hi => List.mem_of_mem_filter hi)

end Reached

theorem mem_entry_tree {entry : ListItem} (hn : (left.map ListItem.id).Nodup)
    (hb : left.length ≤ b) :
    x ∈ (grow (left.filter (·.id != entry.id)) b entry).ids ↔ ∃ k, Below left k entry.id x := by
  have hc (k : Nat) : ¬Below (left.filter (·.id != entry.id)) (k + 1) entry.id entry.id := by
    intro hk
    obtain ⟨i, hi, hid⟩ := List.mem_map.mp hk.mem
    simp [hid] at hi
  rw [mem_grow (nodup_filter hn) hc ((List.length_filter_le _ _).trans hb)]
  constructor
  · rintro ⟨k, hk⟩
    exact ⟨k, hk.mono fun i hi => List.mem_of_mem_filter hi⟩
  · rintro ⟨k, hk⟩
    exact hk.avoid

section Entry

variable {entry : ListItem} {reached : List EntityId}
  (hreached : ∀ x, x ∈ reached ↔ ∃ k, Below left k entry.id x)

include hreached

theorem reached_of_parent : ∀ i ∈ left, ∀ p, i.parent = some p → p ∈ reached → i.id ∈ reached := by
  intro i hi p hp hr
  obtain ⟨k, hk⟩ := (hreached p).mp hr
  exact (hreached i.id).mpr ⟨k + 1, hk.hop hi hp⟩

theorem length_unreached_lt (hentry : entry ∈ left) :
    (left.filter fun i => !reached.contains i.id).length < left.length := by
  have hself : entry.id ∈ reached := (hreached entry.id).mpr ⟨0, .here⟩
  exact List.length_filter_lt_length_iff_exists.mpr ⟨entry, hentry, by simp [hself]⟩

theorem least_cases (hn : (left.map ListItem.id).Nodup) (hc : Closed left) (hentry : entry ∈ left)
    (hle : ∀ i ∈ left, entry.id ≤ i.id) : a ∈ left ∧ Least left a ↔ a = entry ∨
      a ∈ left.filter (fun i => !reached.contains i.id) ∧
        Least (left.filter fun i => !reached.contains i.id) a := by
  have hR := reached_of_parent hreached
  constructor
  · rintro ⟨hm, hleast⟩
    by_cases hr : a.id ∈ reached
    · obtain ⟨k, hk⟩ := (hreached _).mp hr
      have heq := EntityId.le_antisymm (hleast k _ hk) (hle a hm)
      exact .inl (List.inj_on_of_nodup_map hn hm hentry heq)
    · exact .inr ⟨by simp [hm, hr], (least_unreached hR hr).mpr hleast⟩
  · rintro (rfl | ⟨ha, hleast⟩)
    · refine ⟨hentry, fun k x hk => ?_⟩
      obtain ⟨i, hi, rfl⟩ := List.mem_map.mp (hc.above hk (List.mem_map_of_mem hentry))
      exact hle i hi
    · obtain ⟨hm, hout⟩ : a ∈ left ∧ a.id ∉ reached := by simpa using ha
      exact ⟨hm, (least_unreached hR hout).mp hleast⟩

end Entry

theorem mem_enter (hn : (left.map ListItem.id).Nodup) (hc : Closed left)
    (hb : left.length ≤ bound) :
    a ∈ (enter bound left).map TreeNode.item ↔ a ∈ left ∧ Least left a := by
  induction bound generalizing left with
  | zero =>
    obtain rfl : left = [] := List.length_eq_zero_iff.mp (by omega)
    simp [enter]
  | succ bound ih =>
    cases left with
    | nil => simp [enter]
    | cons first rest =>
      have hentry := entry_mem first rest
      have hle := fun i hi => entry_le (i := i) first rest hi
      have hcons : enter (bound + 1) (first :: rest) =
          let tree := grow ((first :: rest).filter (·.id != (rest.foldl smaller first).id))
            (first :: rest).length (rest.foldl smaller first)
          tree :: enter bound ((first :: rest).filter fun b => !tree.ids.contains b.id) := rfl
      rw [hcons]
      generalize rest.foldl smaller first = entry at hentry hle
      generalize first :: rest = left at *
      have htree (x : EntityId) :
          x ∈ (grow (left.filter (·.id != entry.id)) left.length entry).ids ↔
            ∃ k, Below left k entry.id x := mem_entry_tree hn (Nat.le_refl _)
      have hitem := item_grow (left.filter (·.id != entry.id)) left.length entry
      generalize grow (left.filter (·.id != entry.id)) left.length entry = tree at htree hitem
      have hlt := length_unreached_lt htree hentry
      have hrest := ih (nodup_filter (q := fun i => !tree.ids.contains i.id) hn)
        (hc.unreached (reached_of_parent htree)) (by omega)
      rw [List.map_cons, List.mem_cons, hitem, hrest]
      exact (least_cases htree hn hc hentry hle).symm

/-! The whole forest -/

def Topmost (items : List ListItem) (a : ListItem) : Prop :=
  ∀ p, a.parent = some p → p = a.id ∨ ∀ i ∈ items, i.id ≠ p

def hanging (items : List ListItem) : List ListItem := items.filter (hangs items)

/-- The item lies on a cycle of parents, which has two items at least. -/
def Circles (items : List ListItem) (x : EntityId) : Prop :=
  ∃ k, Below (hanging items) (k + 1) x x

def Endless (items : List ListItem) (x : EntityId) : Prop :=
  ∃ c k, Circles items c ∧ Below (hanging items) k c x

theorem hangs_iff : hangs items a = true ↔
    ∃ p, a.parent = some p ∧ p ≠ a.id ∧ ∃ i ∈ items, i.id = p := by
  simp [hangs, Option.any_eq_true]

theorem topmost_iff : Topmost items a ↔ hangs items a = false := by
  rw [← Bool.not_eq_true, hangs_iff, Topmost, not_exists]
  refine forall_congr' fun p => ?_
  simp only [not_and, not_exists, or_iff_not_imp_left]

theorem hangs_congr (h : ∀ i, i ∈ items ↔ i ∈ all) : hangs items a = hangs all a := by
  rw [Bool.eq_iff_iff, hangs_iff, hangs_iff]
  simp only [h]

theorem mem_hanging : a ∈ hanging items ↔ a ∈ items ∧ hangs items a = true := List.mem_filter

theorem below_congr (h : ∀ i, i ∈ items ↔ i ∈ all) :
    Below (hanging items) k x y ↔ Below (hanging all) k x y := by
  have hmem (i : ListItem) : i ∈ hanging items ↔ i ∈ hanging all := by
    rw [mem_hanging, mem_hanging, h, hangs_congr h]
  exact ⟨fun hb => hb.mono fun i => (hmem i).mp, fun hb => hb.mono fun i => (hmem i).mpr⟩

def reached (items : List ListItem) : List EntityId :=
  idsAll ((items.filter fun a => !hangs items a).map (grow (hanging items) items.length))

section Nodup

variable (hn : (items.map ListItem.id).Nodup)

include hn

theorem nodup_hanging : ((hanging items).map ListItem.id).Nodup := nodup_filter hn

theorem mem_reached : x ∈ reached items ↔
    ∃ r ∈ items, hangs items r = false ∧ ∃ k, Below (hanging items) k r.id x := by
  have htop (r : ListItem) : r ∈ items.filter (fun a => !hangs items a) ↔
      r ∈ items ∧ hangs items r = false := by
    rw [List.mem_filter, Bool.not_eq_true']
  rw [reached, mem_idsAll_grow]
  refine exists_congr fun r => ?_
  rw [htop, and_assoc]
  refine and_congr_right fun hr => and_congr_right fun ht => ?_
  have hc (k : Nat) : ¬Below (hanging items) (k + 1) r.id r.id :=
    root_not_below hn ((htop r).mpr ⟨hr, ht⟩)
  exact mem_grow (nodup_hanging hn) hc (List.length_filter_le _ _)

theorem reached_down (hi : i ∈ hanging items) (hp : i.parent = some x) (hx : x ∈ reached items) :
    i.id ∈ reached items := by
  obtain ⟨r, hr, ht, k, hk⟩ := (mem_reached hn).mp hx
  exact (mem_reached hn).mpr ⟨r, hr, ht, k + 1, hk.hop hi hp⟩

theorem closed_unreached :
    Closed ((hanging items).filter fun i => !(reached items).contains i.id) := by
  intro i hi
  obtain ⟨hm, hout⟩ : i ∈ hanging items ∧ i.id ∉ reached items := by simpa using hi
  obtain ⟨p, hp, -, j, hj, rfl⟩ := hangs_iff.mp (mem_hanging.mp hm).2
  have hj' : j.id ∉ reached items := fun hr => hout (reached_down hn hm hp hr)
  refine ⟨j, ?_, hp⟩
  cases hh : hangs items j with
  | true => simp [mem_hanging, hj, hh, hj']
  | false => exact absurd ((mem_reached hn).mpr ⟨j, hj, hh, 0, .here⟩) hj'

end Nodup

theorem Closed.climb (h : Closed left) (ha : a ∈ left) (n : Nat) : ∃ x, Below left n x a.id := by
  induction n generalizing a with
  | zero => exact ⟨a.id, .here⟩
  | succ n ih =>
    obtain ⟨j, hj, hp⟩ := h a ha
    obtain ⟨x, hx⟩ := ih hj
    exact ⟨x, hx.hop ha hp⟩

theorem Closed.circles (h : Closed left) (hn : (left.map ListItem.id).Nodup) (ha : a ∈ left) :
    ∃ c k m, Below left (m + 1) c c ∧ Below left k c a.id := by
  obtain ⟨x, hx⟩ := h.climb ha (left.length + 1)
  by_cases hc : ∃ m, Below left (m + 1) x x
  · obtain ⟨m, hm⟩ := hc
    exact ⟨x, _, m, hm, hx⟩
  · have hle := hx.length_le hn (not_exists.mp hc)
    omega

theorem Endless.above (hn : (items.map ListItem.id).Nodup) (h : Endless items y)
    (hb : Below (hanging items) n x y) : ∃ k z, Below (hanging items) (k + 1) z x := by
  obtain ⟨c, k, ⟨j, hj⟩, hk⟩ := h
  -- enough rounds of the cycle make the way from it longer than any other to the same item
  obtain ⟨m, hm, hloop⟩ := hj.arbitrary (n + 1)
  have hlong : Below (hanging items) (n + (m - n - 1 + k + 1)) c y := by
    have he : n + (m - n - 1 + k + 1) = m + k := by omega
    rw [he]
    exact hloop.trans hk
  exact ⟨_, c, hb.between (nodup_hanging hn) hlong⟩

theorem mem_unreached (hn : (items.map ListItem.id).Nodup) :
    a ∈ (hanging items).filter (fun i => !(reached items).contains i.id) ↔
      a ∈ items ∧ Endless items a.id := by
  constructor
  · intro ha
    obtain ⟨hm, -⟩ := List.mem_filter.mp ha
    obtain ⟨c, k, m, hc, hk⟩ := (closed_unreached hn).circles (nodup_filter (nodup_hanging hn)) ha
    refine ⟨(mem_hanging.mp hm).1, c, k, ⟨m, hc.mono ?_⟩, hk.mono ?_⟩
    all_goals exact fun i hi => List.mem_of_mem_filter hi
  · rintro ⟨ha, he⟩
    have hout : a.id ∉ reached items := by
      intro hr
      obtain ⟨r, hr, ht, k, hk⟩ := (mem_reached hn).mp hr
      obtain ⟨j, z, hz⟩ := he.above hn hk
      exact root_not_below hn (by simp [hr, ht]) hz
    obtain ⟨j, z, hz⟩ := he.above hn .here
    obtain ⟨i, hi, hid⟩ := List.mem_map.mp hz.mem
    obtain rfl : i = a := List.inj_on_of_nodup_map hn (mem_hanging.mp hi).1 ha hid
    simp [hi, hout]

theorem mem_grown_or_entered (hn : (all.map ListItem.id).Nodup) :
    a ∈ ((all.filter fun a => !hangs all a).map (grow (hanging all) all.length) ++
        enter all.length ((hanging all).filter fun a => !(reached all).contains a.id)).map
          TreeNode.item ↔
      a ∈ all ∧ (Topmost all a ∨ Endless all a.id ∧ Least (hanging all) a) := by
  have hlen : ((hanging all).filter fun a => !(reached all).contains a.id).length ≤ all.length :=
    (List.length_filter_le _ _).trans (List.length_filter_le _ _)
  have hR : ∀ i ∈ hanging all, ∀ p, i.parent = some p → p ∈ reached all → i.id ∈ reached all :=
    fun i hi p hp => reached_down hn hi hp
  have hentered := mem_enter (a := a) (nodup_filter (nodup_hanging hn)) (closed_unreached hn) hlen
  rw [List.map_append, List.mem_append, items_grow, hentered, List.mem_filter, Bool.not_eq_true',
    topmost_iff, and_or_left]
  refine or_congr_right ?_
  rw [← and_assoc, ← mem_unreached hn]
  refine and_congr_right fun ha => least_unreached hR ?_
  simpa using (List.mem_filter.mp ha).2

theorem buildForest_eq (hn : (items.map ListItem.id).Nodup) : buildForest items =
    let all := items.mergeSort ListItem.le
    (all.filter fun a => !hangs all a).map (grow (hanging all) all.length) ++
      enter all.length ((hanging all).filter fun a => !(reached all).contains a.id) := by
  rw [buildForest, firsts_of_nodup hn]
  rfl

theorem mem_roots (hn : (items.map ListItem.id).Nodup) :
    a ∈ (buildForest items).map TreeNode.item ↔ a ∈ items ∧
      (Topmost items a ∨ Endless items a.id ∧ Least (hanging items) a) := by
  have hmem (i : ListItem) : i ∈ items.mergeSort ListItem.le ↔ i ∈ items := List.mem_mergeSort
  have htop : Topmost (items.mergeSort ListItem.le) a ↔ Topmost items a := by
    rw [topmost_iff, topmost_iff, hangs_congr hmem]
  have hendless : Endless (items.mergeSort ListItem.le) a.id ↔ Endless items a.id := by
    simp only [Endless, Circles, below_congr hmem]
  have hleast : Least (hanging (items.mergeSort ListItem.le)) a ↔ Least (hanging items) a := by
    simp only [Least, below_congr hmem]
  rw [← hmem, ← htop, ← hendless, ← hleast, buildForest_eq hn]
  exact mem_grown_or_entered (ListItem.nodup_mergeSort hn)

theorem Circles.least (hn : (items.map ListItem.id).Nodup) (h : Circles items a.id) :
    Least (hanging items) a ↔ ∀ x, (∃ k, Below (hanging items) k x a.id) →
      (∃ k, Below (hanging items) k a.id x) → a.id ≤ x := by
  obtain ⟨j, hj⟩ := h
  constructor
  · rintro hleast x ⟨k, hk⟩ -
    exact hleast k x hk
  · intro hcycle k x hk
    -- whatever leads to an item of a cycle is on the cycle itself
    obtain ⟨m, hm, hloop⟩ := hj.arbitrary k
    obtain ⟨d, rfl⟩ := Nat.exists_eq_add_of_le hm
    exact hcycle x ⟨k, hk⟩ ⟨d, hk.between (nodup_hanging hn) hloop⟩

theorem exists_node (hn : (items.map ListItem.id).Nodup) (ha : a ∈ items) :
    ∃ t ∈ nodesAll (buildForest items), t.item = a := by
  have hid : a.id ∈ idsAll (buildForest items) := by
    rw [(perm_buildForest items).mem_iff, firsts_of_nodup hn]
    exact List.mem_map_of_mem ha
  rw [idsAll_eq_map] at hid
  obtain ⟨t, ht, htid⟩ := List.mem_map.mp hid
  have hitem := item_mem_firsts ht
  rw [firsts_of_nodup hn] at hitem
  exact ⟨t, ht, List.inj_on_of_nodup_map hn hitem ha htid⟩

theorem child_of_not_root (hn : (items.map ListItem.id).Nodup) (ha : a ∈ items)
    (hr : a ∉ (buildForest items).map TreeNode.item) :
    ∃ t ∈ nodesAll (buildForest items), a.parent = some t.item.id ∧
      a ∈ t.children.map TreeNode.item := by
  obtain ⟨t, ht, rfl⟩ := exists_node hn ha
  rcases mem_nodesAll_cases ht with htop | ⟨p, hp, hc⟩
  · exact absurd (List.mem_map_of_mem htop) hr
  · exact ⟨p, hp, parent_of_child hp hc, List.mem_map_of_mem hc⟩

/-- The roots of a forest of distinct ids are the items whose parent is absent, the item itself or
not in the list, and those on or below a cycle of parents that have the smallest id of all that
lead to them; on a cycle this is the smallest id of the cycle. Every other item is a child of its
parent's node. -/
theorem roots_of_cycles (hn : (items.map ListItem.id).Nodup) :
    (∀ a, a ∈ (buildForest items).map TreeNode.item ↔ a ∈ items ∧
      (Topmost items a ∨ Endless items a.id ∧ Least (hanging items) a)) ∧
    (∀ a ∈ items, Circles items a.id → (a ∈ (buildForest items).map TreeNode.item ↔
      ∀ x, (∃ k, Below (hanging items) k x a.id) → (∃ k, Below (hanging items) k a.id x) →
        a.id ≤ x)) ∧
    ∀ a ∈ items, a ∉ (buildForest items).map TreeNode.item →
      ∃ t ∈ nodesAll (buildForest items), a.parent = some t.item.id ∧
        a ∈ t.children.map TreeNode.item := by
  refine ⟨fun a => mem_roots hn, fun a ha hc => ?_, fun a ha => child_of_not_root hn ha⟩
  have hendless : Endless items a.id := ⟨a.id, 0, hc, .here⟩
  have htop : ¬Topmost items a := by
    intro ht
    obtain ⟨j, z, hz⟩ := hendless.above hn .here
    exact root_not_below hn (by simp [ha, topmost_iff.mp ht]) hz
  rw [mem_roots hn, ← hc.least hn]
  simp [ha, htop, hendless]

end Forest

namespace Sample

def ring : ListItem := ⟨⟨Uuid.ofNat 2⟩, .department, "Ring", some ⟨Uuid.ofNat 3⟩⟩

def link : ListItem := ⟨⟨Uuid.ofNat 3⟩, .department, "Link", some ⟨Uuid.ofNat 2⟩⟩

def tail : ListItem := ⟨⟨Uuid.ofNat 1⟩, .department, "Tail", some ⟨Uuid.ofNat 2⟩⟩

def tailed : List ListItem := [tail, ring, link]

theorem above_tailed {k : Nat} {x y : EntityId}
    (h : Forest.Below (Forest.hanging tailed) (k + 1) x y) : x = ring.id ∨ x = link.id := by
  obtain ⟨i, hi, hp, -⟩ := h.step_down
  have hm : i = tail ∨ i = ring ∨ i = link := by
    simpa [tailed] using (Forest.mem_hanging.mp hi).1
  rcases hm with rfl | rfl | rfl
  · exact .inl (Option.some.inj hp).symm
  · exact .inr (Option.some.inj hp).symm
  · exact .inl (Option.some.inj hp).symm

theorem below_tailed {i : ListItem} {p : EntityId} (hi : i ∈ tailed) (hp : i.parent = some p) :
    Forest.Below (Forest.hanging tailed) 1 p i.id := by
  have hall : ∀ i ∈ tailed, i ∈ Forest.hanging tailed := by decide +kernel
  exact .hop .here (hall i hi) hp

theorem circles_ring : Forest.Circles tailed ring.id := by
  have hlink : Forest.Below (Forest.hanging tailed) 1 ring.id link.id :=
    below_tailed (by decide) rfl
  exact ⟨1, hlink.trans (below_tailed (by decide) rfl)⟩

theorem circles_link : Forest.Circles tailed link.id := by
  have hring : Forest.Below (Forest.hanging tailed) 1 link.id ring.id :=
    below_tailed (by decide) rfl
  exact ⟨1, hring.trans (below_tailed (by decide) rfl)⟩

theorem endless_tail : Forest.Endless tailed tail.id :=
  ⟨ring.id, 1, circles_ring, below_tailed (by decide) rfl⟩

theorem least_tailed {a : ListItem} (hr : a.id ≤ ring.id) (hl : a.id ≤ link.id) :
    Forest.Least (Forest.hanging tailed) a := by
  intro k x hk
  cases k with
  | zero => exact hk.eq_of_zero ▸ Nat.le_refl _
  | succ k =>
    rcases above_tailed hk with rfl | rfl
    · exact hr
    · exact hl

end Sample

namespace Forest

open Sample

theorem roots_of_cycles_tailed : (tailed.map ListItem.id).Nodup ∧
    ring ∈ (buildForest tailed).map TreeNode.item ∧
    tail ∈ (buildForest tailed).map TreeNode.item ∧
    ∃ t ∈ nodesAll (buildForest tailed), t.item.id = ring.id ∧
      link ∈ t.children.map TreeNode.item := by
  have hn : (tailed.map ListItem.id).Nodup := by decide
  obtain ⟨hroots, hcycle, hchild⟩ := roots_of_cycles hn
  have hlink : link ∉ (buildForest tailed).map TreeNode.item := by
    intro hl
    have hbelow : ∃ k, Below (hanging tailed) k link.id ring.id :=
      ⟨1, below_tailed (by decide) rfl⟩
    have habove : ∃ k, Below (hanging tailed) k ring.id link.id :=
      ⟨1, below_tailed (by decide) rfl⟩
    have hle := (hcycle link (by decide) circles_link).mp hl _ habove hbelow
    exact absurd hle (by decide)
  obtain ⟨t, ht, hp, hc⟩ := hchild link (by decide) hlink
  refine ⟨hn, (hroots ring).mpr ⟨by decide, .inr ⟨⟨ring.id, 0, circles_ring, .here⟩, ?_⟩⟩,
    (hroots tail).mpr ⟨by decide, .inr ⟨endless_tail, ?_⟩⟩,
    t, ht, (Option.some.inj hp).symm, hc⟩
  · exact least_tailed (by decide) (by decide)
  · exact least_tailed (by decide) (by decide)

/-- An item below a cycle and not on it becomes a root, although its parent is in the list. -/
theorem tail_enters : ¬∀ items : List ListItem, (items.map ListItem.id).Nodup → ∀ a,
    a ∈ (buildForest items).map TreeNode.item ↔ a ∈ items ∧ (Topmost items a ∨
      Circles items a.id ∧ ∀ x, (∃ k, Below (hanging items) k x a.id) →
        (∃ k, Below (hanging items) k a.id x) → a.id ≤ x) := by
  intro h
  have hroot : tail ∈ (buildForest tailed).map TreeNode.item := by
    rw [mem_roots (by decide)]
    exact ⟨by decide, .inr ⟨endless_tail, least_tailed (by decide) (by decide)⟩⟩
  obtain ⟨-, htop | ⟨⟨k, hk⟩, -⟩⟩ := (h tailed (by decide) tail).mp hroot
  · rcases htop _ rfl with hself | hout
    · exact absurd hself (by decide)
    · exact hout ring (by decide) rfl
  · rcases above_tailed hk with heq | heq
    · exact absurd heq (by decide)
    · exact absurd heq (by decide)

end Forest

end KnowledgeTree
