import KnowledgeTree.Proofs.Shape

/-!
The rows met on the way up from an entity, in tables whose rows may be linked in any way, cycles of
parents included. A bounded walk counts them, each once, as far as its bound reaches, and from the
count it can be told where an entity or a subtree has room.
-/

namespace KnowledgeTree.Store

variable {s : Store} {a b p x : EntityId} {e q : Entity} {bound d k m n : Nat} {t : EntityType}

/-- A row is met on the way up from an entity, which meets its own row first. -/
def Over (s : Store) (a p : EntityId) : Prop := ∃ k, s.Path none k a p

def Deep (s : Store) (d : Nat) (p : EntityId) : Prop :=
  ∃ ids : List EntityId, ids.Nodup ∧ d < ids.length ∧ ∀ a ∈ ids, s.Over a p

/-- The way up from an entity comes back to a row already met. -/
def Returns (s : Store) (p : EntityId) : Prop := ∃ a k, s.Over a p ∧ s.Path none (k + 1) a a

def Beneath (s : Store) (k : Nat) (x b : EntityId) : Prop :=
  s.Path none k x b ∧ ∀ j < k, ¬s.Path none j x b

/-- Below the rows met on the way up from `p` there is room for all levels of the subtree of `x`. -/
def Room (s : Store) (d : Nat) (p x : EntityId) : Prop :=
  ∀ k b, s.Beneath k x b → k ≤ d ∧ ¬s.Deep (d - k) p

def Takes (s : Store) (d : Nat) (t : EntityType) : Option EntityId → Prop
  | none => t = .department
  | some p => (∃ q, s.live? p = some q ∧ q.entityType = .department) ∧ ¬s.Deep d p

def TakesTree (s : Store) (d : Nat) (x : EntityId) (t : EntityType) : Option EntityId → Prop
  | none => t = .department
  | some p => (∃ q, s.live? p = some q ∧ q.entityType = .department) ∧ ¬s.Over x p ∧ s.Room d p x

theorem mem_ids_of_live (h : s.live? p = some q) : p ∈ s.ids := by
  obtain ⟨hm, rfl, -⟩ := live?_eq_some.mp h
  exact List.mem_map_of_mem hm

theorem beneath_self (hx : s.live? x = some e) : s.Beneath 0 x x :=
  ⟨.here (seen_none.trans hx), fun j hj => absurd hj (Nat.not_lt_zero j)⟩

theorem Beneath.cut (h : s.Beneath k x b) (hm : m ≤ k) : ∃ c, s.Beneath m x c := by
  obtain ⟨hp, hmin⟩ := h
  obtain ⟨i, rfl⟩ := Nat.exists_eq_add_of_le hm
  obtain ⟨c, hc, hb⟩ := hp.split
  refine ⟨c, hc, fun j hj hshort => ?_⟩
  apply hmin (j + i)
  · omega
  · exact hshort.trans hb

theorem Room.not_deep (h : s.Room d p x) (hx : s.live? x = some e) : ¬s.Deep d p :=
  (h 0 x (beneath_self hx)).2

theorem near_of_near (h : ∀ a, s.Path none (n + 1) a p → ∃ j ≤ n, s.Path none j a p)
    (hk : s.Path none k a p) : ∃ j ≤ n, s.Path none j a p := by
  induction k using Nat.strongRecOn generalizing a with
  | ind k ih =>
    by_cases hle : k ≤ n
    · exact ⟨k, hle, hk⟩
    · obtain ⟨i, rfl⟩ := Nat.exists_eq_add_of_le (Nat.not_le.mp hle)
      rw [Nat.add_comm] at hk
      obtain ⟨c, hac, hcp⟩ := hk.split
      -- the last hops up to `c` have a shorter way
      obtain ⟨j, hj, hshort⟩ := h c hcp
      apply ih (i + j)
      · omega
      · exact hac.trans hshort

theorem climb (hp : s.live? p = some q) (n : Nat) :
    (∃ ids : List EntityId, ids.Nodup ∧ ids.length = n + 1 ∧
      ∀ a ∈ ids, ∃ k ≤ n, s.Path none k a p) ∨
    ∀ a, s.Over a p → ∃ k ≤ n, s.Path none k a p := by
  induction n with
  | zero =>
    refine .inl ⟨[p], by simp, rfl, fun a ha => ?_⟩
    rw [List.mem_singleton.mp ha]
    exact ⟨0, Nat.le_refl 0, .here (seen_none.trans hp)⟩
  | succ n ih =>
    rcases ih with ⟨ids, hnodup, hlen, hids⟩ | hall
    · -- the next hop meets a new row, or none does from there on
      by_cases hnew : ∃ a, a ∉ ids ∧ s.Path none (n + 1) a p
      · obtain ⟨a, ha, hap⟩ := hnew
        refine .inl ⟨a :: ids, List.nodup_cons.mpr ⟨ha, hnodup⟩, by simp [hlen], fun c hc => ?_⟩
        rcases List.mem_cons.mp hc with rfl | hc
        · exact ⟨n + 1, Nat.le_refl _, hap⟩
        · obtain ⟨k, hk, hcp⟩ := hids c hc
          exact ⟨k, by omega, hcp⟩
      · have hback : ∀ a, s.Path none (n + 1) a p → ∃ j ≤ n, s.Path none j a p := by
          intro a hap
          by_cases ha : a ∈ ids
          · exact hids a ha
          · exact absurd ⟨a, ha, hap⟩ hnew
        refine .inr fun a ha => ?_
        obtain ⟨k, hk⟩ := ha
        obtain ⟨j, hj, hap⟩ := near_of_near hback hk
        exact ⟨j, by omega, hap⟩
    · refine .inr fun a ha => ?_
      obtain ⟨k, hk, hap⟩ := hall a ha
      exact ⟨k, by omega, hap⟩

theorem over_of_mem_chain
    (ha : a ∈ (s.walk [p] bound none .parentsOnly).map (·.item.id)) : s.Over a p := by
  obtain ⟨k, -, hk⟩ := mem_walk_ids.mp ha
  exact ⟨k, met_parents.mp hk⟩

theorem mem_chain_of_near (hd : d < bound) (ha : ∃ k ≤ d, s.Path none k a p) :
    a ∈ (s.walk [p] bound none .parentsOnly).map (·.item.id) := by
  obtain ⟨k, hk, hap⟩ := ha
  exact mem_walk_ids.mpr ⟨k, by omega, met_parents.mpr hap⟩

theorem lt_length_chain (hp : s.live? p = some q) (hd : d < bound) :
    d < (s.walk [p] bound none .parentsOnly).length ↔ s.Deep d p := by
  have hlen : (s.walk [p] bound none .parentsOnly).length =
      ((s.walk [p] bound none .parentsOnly).map (·.item.id)).length := List.length_map _ |>.symm
  rw [hlen]
  constructor
  · intro hlt
    exact ⟨_, nodup_walk, hlt, fun a ha => over_of_mem_chain ha⟩
  · rintro ⟨ids, hnodup, hlt, hids⟩
    rcases climb hp d with ⟨near, hnear, hcount, hmem⟩ | hall
    · have hle := hnear.length_le_of_subset fun a ha => mem_chain_of_near hd (hmem a ha)
      omega
    · have hle := hnodup.length_le_of_subset fun a ha => mem_chain_of_near hd (hall a (hids a ha))
      omega

theorem length_chain_le (hp : s.live? p = some q) (hd : d < bound) :
    (s.walk [p] bound none .parentsOnly).length ≤ d ↔ ¬s.Deep d p := by
  rw [← lt_length_chain hp hd, Nat.not_lt]

theorem mem_chain_of_over (hp : s.live? p = some q) (hd : d < bound) (hdeep : ¬s.Deep d p)
    (ha : s.Over a p) : a ∈ (s.walk [p] bound none .parentsOnly).map (·.item.id) := by
  rcases climb hp d with ⟨near, hnear, hcount, hmem⟩ | hall
  · refine absurd ⟨near, hnear, by omega, fun c hc => ?_⟩ hdeep
    obtain ⟨k, -, hk⟩ := hmem c hc
    exact ⟨k, hk⟩
  · exact mem_chain_of_near hd (hall a ha)

theorem deep_or_returns_path (h : s.Path none d a p) : s.Returns p ∨
    ∃ ids : List EntityId, ids.Nodup ∧ ids.length = d + 1 ∧
      ∀ c ∈ ids, s.Over c p ∧ s.Over a c := by
  induction d generalizing a with
  | zero =>
    obtain rfl := h.eq_of_zero
    refine .inr ⟨[a], by simp, rfl, fun c hc => ?_⟩
    obtain rfl := List.mem_singleton.mp hc
    exact ⟨⟨0, h⟩, 0, h⟩
  | succ d ih =>
    obtain ⟨f, hf⟩ := h.top
    obtain ⟨b, e, hb, hl, hbp⟩ := h.step_down
    rcases ih hbp with hreturns | ⟨ids, hnodup, hlen, hids⟩
    · exact .inl hreturns
    · have hover : ∀ c ∈ ids, ∃ j, s.Path none (j + 1) a c := by
        intro c hc
        obtain ⟨j, hj⟩ := (hids c hc).2
        exact ⟨j, hj.prepend hf hb hl⟩
      by_cases ha : a ∈ ids
      · obtain ⟨j, hj⟩ := hover a ha
        exact .inl ⟨a, j, ⟨d + 1, h⟩, hj⟩
      · refine .inr ⟨a :: ids, List.nodup_cons.mpr ⟨ha, hnodup⟩, by simp [hlen], fun c hc => ?_⟩
        rcases List.mem_cons.mp hc with rfl | hc
        · exact ⟨⟨d + 1, h⟩, 0, .here hf⟩
        · obtain ⟨j, hj⟩ := hover c hc
          exact ⟨(hids c hc).1, j + 1, hj⟩

theorem deep_or_returns (h : s.Path none d a p) : s.Deep d p ∨ s.Returns p := by
  rcases deep_or_returns_path h with hreturns | ⟨ids, hnodup, hlen, hids⟩
  · exact .inr hreturns
  · exact .inl ⟨ids, hnodup, by omega, fun c hc => (hids c hc).1⟩

theorem height_le (hx : s.live? x = some e) (hb : 0 < bound) :
    Hierarchy.height (s.walk [x] bound none .childrenOnly) ≤ m ↔
      ∀ k b, k < bound → s.Beneath k x b → k + 1 ≤ m := by
  rw [Hierarchy.height, le_foldl_max]
  constructor
  · rintro ⟨-, hall⟩ k b hk ⟨hp, hmin⟩
    obtain ⟨f, hf⟩ := hp.bottom
    obtain ⟨-, rfl, -⟩ := seen_eq_some.mp hf
    apply hall (k + 1)
    apply List.mem_map.mpr
    refine ⟨_, mem_walk.mpr ⟨f, k, hf, rfl, hk, met_children.mpr hp, fun j hj hm => ?_⟩, rfl⟩
    exact hmin j hj (met_children.mp hm)
  · intro hall
    refine ⟨hall 0 x hb (beneath_self hx), fun j hj => ?_⟩
    obtain ⟨i, hi, rfl⟩ := List.mem_map.mp hj
    obtain ⟨f, k, -, rfl, hk, hm, hmin⟩ := mem_walk.mp hi
    apply hall k f.id hk
    exact ⟨met_children.mp hm, fun i hi hp => hmin i hi (met_children.mpr hp)⟩

theorem room_iff (hp : s.live? p = some q) (hx : s.live? x = some e) (hb : d + 1 < bound) :
    (s.walk [p] bound none .parentsOnly).length +
      Hierarchy.height (s.walk [x] bound none .childrenOnly) ≤ d + 1 ↔ s.Room d p x := by
  have hpos : 0 < bound := by omega
  constructor
  · intro hle k b hu
    have hheight := (height_le hx hpos).mp (Nat.le_refl _)
    have hk : k ≤ d := by
      by_contra hlong
      -- the nearest entities that are too far down are within the probe
      obtain ⟨c, hc⟩ := hu.cut (Nat.not_le.mp hlong)
      have := hheight (d + 1) c hb hc
      omega
    have hfits := hheight k b (by omega) hu
    have hbound : d - k < bound := by omega
    exact ⟨hk, (length_chain_le hp hbound).mp (by omega)⟩
  · intro hroom
    have hfits : ∀ k b, s.Beneath k x b →
        (s.walk [p] bound none .parentsOnly).length + k ≤ d := by
      intro k b hu
      obtain ⟨hk, hdeep⟩ := hroom k b hu
      have hbound : d - k < bound := by omega
      have := (length_chain_le hp hbound).mpr hdeep
      omega
    have hself := hfits 0 x (beneath_self hx)
    have hheight := (height_le (m := d + 1 - (s.walk [p] bound none .parentsOnly).length) hx
      hpos).mpr fun k b _ hu => by
        have := hfits k b hu
        omega
    omega

/-! Forests -/

theorem Rooted.deep_iff (h : s.Rooted n p) : s.Deep d p ↔ d ≤ n := by
  obtain ⟨q, hq⟩ : ∃ q, s.live? p = some q := by
    cases h with
    | root h _ => exact ⟨_, h⟩
    | child h _ _ => exact ⟨_, h⟩
  have hd : d < n + d + 1 := by omega
  rw [← lt_length_chain hq hd, length_chain h (by omega)]
  omega

namespace IsForest

theorem beneath (h : s.IsForest d) (hp : s.Path none k x b) : s.Beneath k x b := by
  refine ⟨hp, fun j hj hshort => ?_⟩
  obtain ⟨e, he⟩ := hp.bottom
  obtain ⟨n, -, hr⟩ := h.rooted (seen_none.symm.trans he)
  obtain ⟨hk, hrk⟩ := hr.up hp
  obtain ⟨hj', hrj⟩ := hr.up hshort
  have := hrk.unique hrj
  omega

theorem height_le (h : s.IsForest d) (hb : d < bound) (hx : s.live? x = some e) :
    Hierarchy.height (s.walk [x] bound none .childrenOnly) ≤ m ↔
      ∀ k a, s.Path none k x a → k + 1 ≤ m := by
  rw [Store.height_le hx (Nat.zero_lt_of_lt hb)]
  constructor
  · intro hall k a hp
    have hle := h.length_le hp
    exact hall k a (by omega) (h.beneath hp)
  · intro hall k a _ hu
    exact hall k a hu.1

theorem room_iff (h : s.IsForest m) (hr : s.Rooted n p) :
    s.Room d p x ↔ ∀ k a, s.Path none k x a → n + 1 + k ≤ d := by
  constructor
  · intro hroom k a hk
    obtain ⟨hle, hdeep⟩ := hroom k a (h.beneath hk)
    rw [hr.deep_iff] at hdeep
    omega
  · intro hall k a hk
    have hle := hall k a hk.1
    refine ⟨by omega, ?_⟩
    rw [hr.deep_iff]
    omega

theorem takes_iff (h : s.IsForest m) {parent : Option EntityId} :
    s.Takes d t parent ↔ s.Open d t parent := by
  cases parent with
  | none => rfl
  | some p =>
    constructor
    · rintro ⟨⟨q, hq, hdep⟩, hdeep⟩
      obtain ⟨n, -, hr⟩ := h.rooted hq
      rw [hr.deep_iff, Nat.not_le] at hdeep
      exact ⟨q, n, hq, hdep, hr, hdeep⟩
    · rintro ⟨q, n, hq, hdep, hr, hn⟩
      refine ⟨⟨q, hq, hdep⟩, ?_⟩
      rwa [hr.deep_iff, Nat.not_le]

theorem takesTree_iff (h : s.IsForest m) {parent : Option EntityId} :
    s.TakesTree d x t parent ↔ s.OpenTo d x t parent := by
  cases parent with
  | none => rfl
  | some p =>
    constructor
    · rintro ⟨⟨q, hq, hdep⟩, hover, hroom⟩
      obtain ⟨n, -, hr⟩ := h.rooted hq
      exact ⟨q, n, hq, hdep, hr, not_exists.mp hover, (h.room_iff hr).mp hroom⟩
    · rintro ⟨q, n, hq, hdep, hr, hover, hall⟩
      exact ⟨⟨q, hq, hdep⟩, not_exists.mpr hover, (h.room_iff hr).mpr hall⟩

end IsForest

end KnowledgeTree.Store
