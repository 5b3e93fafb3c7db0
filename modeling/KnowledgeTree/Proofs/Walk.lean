import KnowledgeTree.Proofs.Path
import KnowledgeTree.Store.Walk
import Mathlib.Logic.Function.Iterate

/-!
A walk meets exactly the entities that paths of fewer hops than its bound join to a seed, each at
the level of its shortest such path.
-/

namespace KnowledgeTree.Store

variable {s : Store} {viewer : Option UserId} {seeds : List EntityId} {bound k : Nat}
  {direction : Direction} {id : EntityId} {e : Entity}

def First (bound : Nat) (P : Nat → Prop) (k : Nat) : Prop := k < bound ∧ P k ∧ ∀ j < k, ¬P j

theorem first_zero {P : Nat → Prop} : First (bound + 1) P 0 ↔ P 0 := by
  constructor
  · intro h; exact h.2.1
  · intro h; exact ⟨Nat.succ_pos _, h, fun j hj => absurd hj (Nat.not_lt_zero j)⟩

theorem first_succ {P : Nat → Prop} :
    First (bound + 1) P (k + 1) ↔ ¬P 0 ∧ First bound (fun j => P (j + 1)) k := by
  constructor
  · rintro ⟨hk, hP, hmin⟩
    exact ⟨hmin 0 (Nat.succ_pos k), by omega, hP, fun j hj => hmin (j + 1) (by omega)⟩
  · rintro ⟨h0, hk, hP, hmin⟩
    refine ⟨by omega, hP, fun j hj => ?_⟩
    cases j with
    | zero => exact h0
    | succ j => exact hmin j (by omega)

theorem First.unique {P : Nat → Prop} {l : Nat} (h : First bound P k) (h' : First bound P l) :
    k = l := by
  rcases Nat.lt_trichotomy k l with hlt | heq | hgt
  · exact absurd h.2.1 (h'.2.2 k hlt)
  · exact heq
  · exact absurd h'.2.1 (h.2.2 l hgt)

theorem exists_first {P : Nat → Prop} {j : Nat} (hj : j < bound) (hP : P j) :
    ∃ k ≤ j, First bound P k := by
  induction j using Nat.strongRecOn with
  | ind j ih =>
    by_cases h : ∃ i < j, P i
    · obtain ⟨i, hi, hPi⟩ := h
      obtain ⟨k, hk, hf⟩ := ih i hi (by omega) hPi
      exact ⟨k, by omega, hf⟩
    · exact ⟨j, Nat.le_refl j, hj, hP, fun i hi hPi => h ⟨i, hi, hPi⟩⟩

/-- A number, if any, that stands for the first one with a property, counted from 1. -/
def Marks (bound : Nat) (P : Nat → Prop) (x : Option Nat) : Prop :=
  ∀ d, x = some d ↔ ∃ k, d = k + 1 ∧ First bound P k

theorem Marks.not_of_none {P : Nat → Prop} (h : Marks bound P none) {j : Nat} (hj : j < bound) :
    ¬P j := by
  intro hP
  obtain ⟨k, -, hk⟩ := exists_first hj hP
  cases (h (k + 1)).mpr ⟨k, rfl, hk⟩

theorem Marks.of_some {P : Nat → Prop} {d : Nat} (h : First bound P d) :
    Marks bound P (some (d + 1)) := by
  intro d'
  constructor
  · intro hd; cases hd; exact ⟨d, rfl, h⟩
  · rintro ⟨k, rfl, hk⟩; rw [h.unique hk]

theorem Marks.of_none {P : Nat → Prop} (h : ∀ j < bound, ¬P j) : Marks bound P none := by
  intro d
  constructor
  · intro hd; cases hd
  · rintro ⟨k, -, hk⟩; exact absurd hk.2.1 (h k hk.1)

theorem Marks.merge {P Q : Nat → Prop} {x y : Option Nat} (hx : Marks bound P x)
    (hy : Marks bound Q y) : Marks bound (fun j => P j ∨ Q j) (Option.merge min x y) := by
  cases x with
  | none =>
    have hP : ∀ j < bound, ¬P j := fun j hj => hx.not_of_none hj
    cases y with
    | none => exact .of_none fun j hj h => h.elim (hP j hj) (hy.not_of_none hj)
    | some d =>
      obtain ⟨k, rfl, hk, hQ, hmin⟩ := (hy d).mp rfl
      exact .of_some ⟨hk, .inr hQ, fun j hj h => h.elim (hP j (by omega)) (hmin j hj)⟩
  | some c =>
    obtain ⟨i, rfl, hi, hPi, hmini⟩ := (hx c).mp rfl
    cases y with
    | none =>
      exact .of_some ⟨hi, .inl hPi, fun j hj h => h.elim (hmini j hj) (hy.not_of_none (by omega))⟩
    | some d =>
      obtain ⟨k, rfl, hk, hQ, hmink⟩ := (hy d).mp rfl
      have he : Option.merge min (some (i + 1)) (some (k + 1)) = some (min i k + 1) := by
        rw [Option.merge_some_some, Nat.add_min_add_right]
      rw [he]
      refine .of_some ⟨by omega, ?_, fun j hj h => ?_⟩
      · rcases Nat.le_total i k with hle | hle
        · rw [Nat.min_eq_left hle]; exact .inl hPi
        · rw [Nat.min_eq_right hle]; exact .inr hQ
      · exact h.elim (hmini j (by omega)) (hmink j (by omega))

theorem mem_start : e ∈ s.start viewer seeds ↔ s.seen viewer e.id = some e ∧ e.id ∈ seeds := by
  simp only [start, List.mem_filter, Bool.and_eq_true, List.contains_iff_mem]
  constructor
  · rintro ⟨hm, hs, hv⟩; exact ⟨seen_eq_some.mpr ⟨hm, rfl, hv⟩, hs⟩
  · rintro ⟨he, hs⟩
    obtain ⟨hm, -, hv⟩ := seen_eq_some.mp he
    exact ⟨hm, hs, hv⟩

theorem mem_iterate_below : e ∈ (s.below viewer)^[k] (s.start viewer seeds) ↔
    s.seen viewer e.id = some e ∧ ∃ a ∈ seeds, s.Path viewer k a e.id := by
  induction k generalizing e with
  | zero =>
    rw [Function.iterate_zero, id, mem_start]
    apply and_congr_right
    intro he
    constructor
    · intro hs; exact ⟨e.id, hs, .here he⟩
    · rintro ⟨a, ha, h⟩; rwa [← h.eq_of_zero]
  | succ k ih =>
    rw [Function.iterate_succ_apply']
    simp only [below, List.mem_filter, Bool.and_eq_true, List.any_eq_true, beq_iff_eq]
    constructor
    · rintro ⟨hm, hv, p, hp, hl⟩
      have he : s.seen viewer e.id = some e := seen_eq_some.mpr ⟨hm, rfl, hv⟩
      obtain ⟨-, a, ha, h⟩ := ih.mp hp
      exact ⟨he, a, ha, .child h he hl⟩
    · rintro ⟨he, a, ha, h⟩
      obtain ⟨hm, -, hv⟩ := seen_eq_some.mp he
      cases h with
      | child h hb hp =>
        rw [he] at hb
        cases hb
        obtain ⟨f, hf⟩ := h.bottom
        obtain ⟨-, rfl, -⟩ := seen_eq_some.mp hf
        exact ⟨hm, hv, f, ih.mpr ⟨hf, a, ha, h⟩, hp⟩

theorem mem_iterate_above : e ∈ (s.above viewer)^[k] (s.start viewer seeds) ↔
    s.seen viewer e.id = some e ∧ ∃ a ∈ seeds, s.Path viewer k e.id a := by
  induction k generalizing e with
  | zero =>
    rw [Function.iterate_zero, id, mem_start]
    apply and_congr_right
    intro he
    constructor
    · intro hs; exact ⟨e.id, hs, .here he⟩
    · rintro ⟨a, ha, h⟩; rwa [h.eq_of_zero]
  | succ k ih =>
    rw [Function.iterate_succ_apply']
    simp only [above, List.mem_filter, Bool.and_eq_true, List.any_eq_true, beq_iff_eq]
    constructor
    · rintro ⟨hm, hv, c, hc, hl⟩
      have he : s.seen viewer e.id = some e := seen_eq_some.mpr ⟨hm, rfl, hv⟩
      obtain ⟨hcs, a, ha, h⟩ := ih.mp hc
      exact ⟨he, a, ha, h.prepend he hcs hl⟩
    · rintro ⟨he, a, ha, h⟩
      obtain ⟨hm, -, hv⟩ := seen_eq_some.mp he
      obtain ⟨b, f, hb, hp, h⟩ := h.step_down
      obtain ⟨-, rfl, -⟩ := seen_eq_some.mp hb
      exact ⟨hm, hv, f, ih.mpr ⟨hb, a, ha, h⟩, hp⟩

theorem iterate_nil {step : List Entity → List Entity} (hs : step [] = []) : step^[k] [] = [] :=
  Function.iterate_fixed hs k

theorem depth?_layers {step : List Entity → List Entity} (hs : step [] = []) (bound : Nat)
    (first : List Entity) :
    Marks bound (fun j => ∃ e ∈ step^[j] first, e.id = id) (depth? (layers step bound first) id) := by
  induction bound generalizing first with
  | zero => simp [Marks, layers, depth?, First]
  | succ bound ih =>
    intro d
    cases first with
    | nil => simp [layers, depth?, First, iterate_nil hs]
    | cons a rest =>
      have hcons : depth? (layers step (bound + 1) (a :: rest)) id =
          if ∃ e ∈ a :: rest, e.id = id then some 1
          else (depth? (layers step bound (step (a :: rest))) id).map (· + 1) := by
        simp only [depth?, layers, List.findIdx?_cons]
        by_cases h : ∃ e ∈ a :: rest, e.id = id
        · have hb : ((a :: rest).any fun e => e.id == id) = true := by simpa using h
          rw [if_pos h, hb]; rfl
        · have hb : ((a :: rest).any fun e => e.id == id) = false := by simpa using h
          rw [if_neg h, hb]; simp [Option.map_map]
      rw [hcons]
      split
      · next h =>
        constructor
        · intro hd; cases hd; exact ⟨0, rfl, first_zero.mpr h⟩
        · rintro ⟨k, rfl, hk⟩
          cases k with
          | zero => rfl
          | succ k => exact absurd h (first_succ.mp hk).1
      · next h =>
        rw [Option.map_eq_some_iff]
        constructor
        · rintro ⟨d, hd, rfl⟩
          obtain ⟨k, rfl, hk⟩ := (ih _ _).mp hd
          exact ⟨k + 1, rfl, first_succ.mpr ⟨h, hk⟩⟩
        · rintro ⟨k, rfl, hk⟩
          cases k with
          | zero => exact absurd (first_zero.mp hk) h
          | succ k => exact ⟨k + 1, (ih _ _).mpr ⟨k, rfl, (first_succ.mp hk).2⟩, rfl⟩

def Met (s : Store) (viewer : Option UserId) (seeds : List EntityId) (direction : Direction)
    (k : Nat) (id : EntityId) : Prop :=
  (direction.walksDown = true ∧ ∃ a ∈ seeds, s.Path viewer k a id) ∨
    (direction.walksUp = true ∧ ∃ a ∈ seeds, s.Path viewer k id a)

theorem depth?_down : Marks bound (fun j => ∃ a ∈ seeds, s.Path viewer j a id)
    (depth? (layers (s.below viewer) bound (s.start viewer seeds)) id) := by
  have hs : s.below viewer [] = [] := by simp [below]
  have hP : ∀ j, (∃ a ∈ seeds, s.Path viewer j a id) ↔
      ∃ e ∈ (s.below viewer)^[j] (s.start viewer seeds), e.id = id := by
    intro j
    constructor
    · rintro ⟨a, ha, h⟩
      obtain ⟨e, he⟩ := h.bottom
      obtain ⟨-, rfl, -⟩ := seen_eq_some.mp he
      exact ⟨e, mem_iterate_below.mpr ⟨he, a, ha, h⟩, rfl⟩
    · rintro ⟨e, he, rfl⟩
      exact (mem_iterate_below.mp he).2
  simp only [hP]
  exact depth?_layers hs bound _

theorem depth?_up : Marks bound (fun j => ∃ a ∈ seeds, s.Path viewer j id a)
    (depth? (layers (s.above viewer) bound (s.start viewer seeds)) id) := by
  have hs : s.above viewer [] = [] := by simp [above]
  have hP : ∀ j, (∃ a ∈ seeds, s.Path viewer j id a) ↔
      ∃ e ∈ (s.above viewer)^[j] (s.start viewer seeds), e.id = id := by
    intro j
    constructor
    · rintro ⟨a, ha, h⟩
      obtain ⟨e, he⟩ := h.top
      obtain ⟨-, rfl, -⟩ := seen_eq_some.mp he
      exact ⟨e, mem_iterate_above.mpr ⟨he, a, ha, h⟩, rfl⟩
    · rintro ⟨e, he, rfl⟩
      exact (mem_iterate_above.mp he).2
  simp only [hP]
  exact depth?_layers hs bound _

theorem Marks.when {P : Nat → Prop} {steps : List (List Entity)} (b : Bool)
    (h : Marks bound P (depth? steps id)) :
    Marks bound (fun j => b = true ∧ P j) (depth? (if b then steps else []) id) := by
  cases b with
  | true => simpa using h
  | false => exact .of_none fun j _ hj => Bool.false_ne_true hj.1

theorem marks_met (id : EntityId) : Marks bound (fun j => s.Met viewer seeds direction j id)
    (Option.merge min
      (depth? (if direction.walksDown then layers (s.below viewer) bound (s.start viewer seeds)
        else []) id)
      (depth? (if direction.walksUp then layers (s.above viewer) bound (s.start viewer seeds)
        else []) id)) :=
  (depth?_down.when direction.walksDown).merge (depth?_up.when direction.walksUp)

theorem Met.visible (h : s.Met viewer seeds direction k id) : ∃ e, s.seen viewer id = some e := by
  rcases h with ⟨-, a, -, h⟩ | ⟨-, a, -, h⟩
  · exact h.bottom
  · exact h.top

/-- A walk meets what paths shorter than its bound join to a seed, at the level of the shortest. -/
theorem mem_walk {h : HierarchyItem} : h ∈ s.walk seeds bound viewer direction ↔
    ∃ e k, s.seen viewer e.id = some e ∧ h = ⟨e.listItem, k + 1⟩ ∧
      First bound (fun j => s.Met viewer seeds direction j e.id) k := by
  simp only [walk, List.mem_mergeSort, List.mem_filterMap, Option.map_eq_some_iff]
  constructor
  · rintro ⟨e, he, d, hd, rfl⟩
    obtain ⟨k, rfl, hk⟩ := (marks_met e.id d).mp hd
    obtain ⟨f, hf⟩ := hk.2.1.visible
    obtain ⟨hm, hid, -⟩ := seen_eq_some.mp hf
    rw [eq_of_id_eq hm he hid] at hf
    exact ⟨e, k, hf, rfl, hk⟩
  · rintro ⟨e, k, he, rfl, hk⟩
    exact ⟨e, (seen_eq_some.mp he).1, k + 1, (marks_met e.id (k + 1)).mpr ⟨k, rfl, hk⟩, rfl⟩

theorem mem_walk_ids : id ∈ (s.walk seeds bound viewer direction).map (·.item.id) ↔
    ∃ k < bound, s.Met viewer seeds direction k id := by
  rw [List.mem_map]
  constructor
  · rintro ⟨h, hh, rfl⟩
    obtain ⟨e, k, -, rfl, hk, hm, -⟩ := mem_walk.mp hh
    exact ⟨k, hk, hm⟩
  · rintro ⟨k, hk, hm⟩
    obtain ⟨e, he⟩ := hm.visible
    obtain ⟨-, rfl, -⟩ := seen_eq_some.mp he
    obtain ⟨i, -, hi⟩ := exists_first (P := fun j => s.Met viewer seeds direction j e.id) hk hm
    exact ⟨_, mem_walk.mpr ⟨e, i, he, rfl, hi⟩, rfl⟩

theorem met_parents {a : EntityId} : s.Met viewer [a] .parentsOnly k id ↔ s.Path viewer k id a := by
  simp [Met, Direction.walksDown, Direction.walksUp]

theorem met_children {a : EntityId} : s.Met viewer [a] .childrenOnly k id ↔ s.Path viewer k a id := by
  simp [Met, Direction.walksDown, Direction.walksUp]

theorem map_filterMap_sublist {α β γ : Type} {f : α → Option β} {g : β → γ} (key : α → γ)
    (h : ∀ a b, f a = some b → g b = key a) (l : List α) :
    ((l.filterMap f).map g).Sublist (l.map key) := by
  induction l with
  | nil => exact .slnil
  | cons a l ih =>
    rw [List.map_cons]
    cases ha : f a with
    | none => rw [List.filterMap_cons_none ha]; exact ih.cons _
    | some b =>
      rw [List.filterMap_cons_some ha, List.map_cons, h a b ha]
      exact ih.cons_cons _

theorem nodup_walk : ((s.walk seeds bound viewer direction).map (·.item.id)).Nodup := by
  rw [walk, ((List.mergeSort_perm _ _).map _).nodup_iff]
  refine (map_filterMap_sublist Entity.id ?_ s.entities).nodup s.nodup
  intro e h he
  obtain ⟨d, -, rfl⟩ := Option.map_eq_some_iff.mp he
  rfl

end KnowledgeTree.Store
