import KnowledgeTree.Proofs.Order
import KnowledgeTree.Proofs.Utf8

/-!
What a walk lists, in terms of the rows alone: each entity once, at its distance from the nearest
seed, ordered by distance, name and id. The rows may hold cycles of parents.
-/

namespace KnowledgeTree

namespace Store

variable {s : Store} {viewer : Option UserId} {seeds : List EntityId} {bound k : Nat}
  {direction : Direction} {a b id : EntityId} {e : Entity} {rows : List Entity} {ctx : Context}

/-- Rows that lead down from parent to child. Each is live, and if there is a viewer, published or
the viewer's own. -/
structure Trail (s : Store) (viewer : Option UserId) (rows : List Entity) : Prop where
  stored : ∀ e ∈ rows, e ∈ s.entities
  live : ∀ e ∈ rows, e.deletedAt = none
  shown : ∀ e ∈ rows, ∀ user, viewer = some user → e.publication ≠ .draft ∨ e.createdBy = user
  linked : rows.IsChain fun p c => c.parent = some p.id

def Leads (s : Store) (viewer : Option UserId) (k : Nat) (a b : EntityId) : Prop :=
  ∃ rows, s.Trail viewer rows ∧ rows.length = k + 1 ∧
    rows.head?.map Entity.id = some a ∧ rows.getLast?.map Entity.id = some b

def Joined (s : Store) (viewer : Option UserId) (seeds : List EntityId) (k : Nat) (id : EntityId) :
    Direction → Prop
  | .childrenOnly => ∃ a ∈ seeds, s.Leads viewer k a id
  | .parentsOnly => ∃ a ∈ seeds, s.Leads viewer k id a
  | .childrenAndParents => (∃ a ∈ seeds, s.Leads viewer k a id) ∨ ∃ a ∈ seeds, s.Leads viewer k id a

theorem isVisibleTo_iff : e.isVisibleTo viewer = true ↔ e.deletedAt = none ∧
    ∀ user, viewer = some user → e.publication ≠ .draft ∨ e.createdBy = user := by
  cases viewer with
  | none => simp [Entity.isVisibleTo, Entity.isLive]
  | some user => simp [Entity.isVisibleTo_iff, Entity.isLive, Entity.ShownTo]

theorem trail_iff : s.Trail viewer rows ↔
    (∀ e ∈ rows, s.seen viewer e.id = some e) ∧ rows.IsChain fun p c => c.parent = some p.id := by
  simp only [seen_eq_some, true_and, isVisibleTo_iff]
  constructor
  · intro h
    exact ⟨fun e he => ⟨h.stored e he, h.live e he, h.shown e he⟩, h.linked⟩
  · rintro ⟨hseen, hlinked⟩
    exact ⟨fun e he => (hseen e he).1, fun e he => (hseen e he).2.1, fun e he => (hseen e he).2.2,
      hlinked⟩

theorem leads_iff : s.Leads viewer k a b ↔ s.Path viewer k a b := by
  constructor
  · rintro ⟨rows, ht, hlen, hfirst, hlast⟩
    obtain ⟨hseen, hlinked⟩ := trail_iff.mp ht
    -- from the top down: what is left of the trail below its first row is a trail of its own
    induction rows generalizing k a with
    | nil => cases hfirst
    | cons p rows ih =>
      have hp := hseen p List.mem_cons_self
      obtain rfl : p.id = a := by simpa using hfirst
      cases rows with
      | nil =>
        obtain rfl : p.id = b := by simpa using hlast
        obtain rfl : k = 0 := by simpa using hlen.symm
        exact .here hp
      | cons c rows =>
        obtain ⟨hpc, hrest⟩ := List.isChain_cons_cons.mp hlinked
        have hbelow : ∀ e ∈ c :: rows, s.seen viewer e.id = some e := fun e he =>
          hseen e (List.mem_cons_of_mem p he)
        obtain ⟨k, rfl⟩ : ∃ j, k = j + 1 := ⟨rows.length, by simpa using hlen.symm⟩
        have hpath : s.Path viewer k c.id b := by
          apply ih (trail_iff.mpr ⟨hbelow, hrest⟩) _ rfl _ hbelow hrest
          · simpa using hlen
          · simpa using hlast
        exact hpath.prepend hp (hbelow c List.mem_cons_self) hpc
  · intro h
    induction h with
    | @here a e he =>
      obtain ⟨-, rfl, -⟩ := seen_eq_some.mp he
      refine ⟨[e], trail_iff.mpr ⟨?_, List.isChain_singleton e⟩, rfl, rfl, rfl⟩
      intro f hf
      rwa [List.mem_singleton.mp hf]
    | @child k a p b e _ hb hp ih =>
      obtain ⟨-, rfl, -⟩ := seen_eq_some.mp hb
      obtain ⟨rows, ht, hlen, hfirst, hlast⟩ := ih
      obtain ⟨hseen, hlinked⟩ := trail_iff.mp ht
      refine ⟨rows ++ [e], trail_iff.mpr ⟨?_, ?_⟩, by simp [hlen], ?_, by simp⟩
      · intro f hf
        rcases List.mem_append.mp hf with hf | hf
        · exact hseen f hf
        · rwa [List.mem_singleton.mp hf]
      · refine List.isChain_append.mpr ⟨hlinked, List.isChain_singleton e, ?_⟩
        intro x hx y hy
        obtain rfl : e = y := by simpa using hy
        have hx' : x.id = p := by simpa [Option.mem_def.mp hx] using hlast
        rw [hp, hx']
      · cases rows with
        | nil => cases hfirst
        | cons x rows => simpa using hfirst

theorem joined_iff : s.Joined viewer seeds k id direction ↔ s.Met viewer seeds direction k id := by
  cases direction <;> simp [Joined, Met, leads_iff, Direction.walksDown, Direction.walksUp]

/-- A live call lists each entity at most once, and at a depth k just if k is within the bound and
k - 1 hops are the fewest that join a seed to it. The list is ordered by depth, by the bytes of the
names and by id. -/
theorem hierarchy_distances (s : Store) (seeds : List EntityId) (bound : Nat)
    (viewer : Option UserId) (direction : Direction) (hc : ctx.isDone = false) :
    ∃ items, s.getHierarchy ctx seeds bound viewer direction = .ok items ∧
      (items.map (·.item.id)).Nodup ∧
      (∀ id k, (∃ i ∈ items, i.item.id = id ∧ i.depth = k) ↔ 1 ≤ k ∧ k ≤ bound ∧
        s.Joined viewer seeds (k - 1) id direction ∧
        ∀ j < k - 1, ¬s.Joined viewer seeds j id direction) ∧
      (∀ i ∈ items, ∃ e ∈ s.entities, i.item = ⟨e.id, e.entityType, e.name, e.parent⟩) ∧
      items.Pairwise fun i j => i.depth < j.depth ∨ i.depth = j.depth ∧
        (Text.utf8 i.item.name < Text.utf8 j.item.name ∨
          i.item.name = j.item.name ∧ i.item.id ≤ j.item.id) := by
  refine ⟨s.walk seeds bound viewer direction, ?_, nodup_walk, fun id k => ?_, fun i hi => ?_, ?_⟩
  · rw [getHierarchy, Context.check_live hc]
    rfl
  · simp only [joined_iff]
    constructor
    · rintro ⟨i, hi, rfl, rfl⟩
      obtain ⟨e, j, -, rfl, hj, hmet, hmin⟩ := mem_walk.mp hi
      exact ⟨Nat.le_add_left 1 j, hj, hmet, hmin⟩
    · rintro ⟨hk, hbound, hmet, hmin⟩
      obtain ⟨e, he⟩ := hmet.visible
      obtain ⟨-, rfl, -⟩ := seen_eq_some.mp he
      have hdepth : k - 1 + 1 = k := Nat.sub_add_cancel hk
      exact ⟨_, mem_walk.mpr ⟨e, k - 1, he, rfl, by omega, hmet, hmin⟩, rfl, hdepth⟩
  · obtain ⟨e, k, he, rfl, -⟩ := mem_walk.mp hi
    exact ⟨e, (seen_eq_some.mp he).1, rfl⟩
  · apply walk_sorted.imp
    intro i j hij
    rw [HierarchyItem.le_iff, ListItem.le_iff] at hij
    rw [Text.utf8_lt_iff]
    exact hij

end Store

namespace Sample

def first : Entity := Entity.make ⟨.department, "First", "", some ⟨Uuid.ofNat 2⟩, author⟩
  ⟨Uuid.ofNat 1⟩ (.published .first) ⟨0, 0⟩

def second : Entity := Entity.make ⟨.department, "Second", "", some ⟨Uuid.ofNat 1⟩, author⟩
  ⟨Uuid.ofNat 2⟩ (.published .first) ⟨0, 0⟩

def lone : Entity := Entity.make ⟨.department, "Lone", "", some ⟨Uuid.ofNat 3⟩, author⟩
  ⟨Uuid.ofNat 3⟩ .draft ⟨0, 0⟩

def rings : Store where
  entities := [first, second, lone]
  nodup := by decide

end Sample

namespace Store

theorem hierarchy_distances_rings : Context.background.isDone = false ∧
    ∃ items, Sample.rings.getHierarchy .background [Sample.first.id, Sample.first.id, Sample.lone.id]
        4 (some ⟨Uuid.ofNat 8⟩) .childrenAndParents = .ok items ∧
      (∃ i ∈ items, i.item.id = Sample.second.id ∧ i.depth = 2) ∧
      ∀ i ∈ items, i.item.id ≠ Sample.lone.id := by
  obtain ⟨items, hok, -, hdepth, -⟩ := hierarchy_distances Sample.rings
    [Sample.first.id, Sample.first.id, Sample.lone.id] 4 (some ⟨Uuid.ofNat 8⟩) .childrenAndParents
    (rfl : Context.background.isDone = false)
  have hfirst : Sample.rings.seen (some ⟨Uuid.ofNat 8⟩) Sample.first.id = some Sample.first := by
    decide +kernel
  have hsecond : Sample.rings.seen (some ⟨Uuid.ofNat 8⟩) Sample.second.id = some Sample.second := by
    decide +kernel
  have hlone : Sample.rings.seen (some ⟨Uuid.ofNat 8⟩) Sample.lone.id = none := by decide +kernel
  refine ⟨rfl, items, hok, (hdepth _ 2).mpr ⟨by decide, by decide, ?_, ?_⟩, fun i hi hid => ?_⟩
  · apply joined_iff.mpr
    exact .inl ⟨rfl, Sample.first.id, List.mem_cons_self, .child (.here hfirst) hsecond rfl⟩
  · intro j hj hjoined
    obtain rfl : j = 0 := by omega
    have hseed : Sample.second.id ∉
        [Sample.first.id, Sample.first.id, Sample.lone.id] := by decide +kernel
    rcases joined_iff.mp hjoined with ⟨-, a, ha, hp⟩ | ⟨-, a, ha, hp⟩
    · exact hseed (hp.eq_of_zero ▸ ha)
    · exact hseed (hp.eq_of_zero ▸ ha)
  · obtain ⟨-, -, hjoined, -⟩ := (hdepth _ _).mp ⟨i, hi, hid, rfl⟩
    obtain ⟨e, he⟩ := (joined_iff.mp hjoined).visible
    rw [hlone] at he
    cases he

end Store

end KnowledgeTree
