import KnowledgeTree.Proofs.Walk
import KnowledgeTree.Hierarchy.Mutation
import Mathlib.Data.List.Perm.Basic

/-!
The shape of the live tree: each entity hangs at a bounded number of hops below a root, parents are
departments, and articles have one. In such a tree the bounded walks of the structural checks are
complete, and the changes that pass the checks keep the shape.
-/

namespace KnowledgeTree.Store

variable {s s' : Store} {d k m n : Nat} {a b p x : EntityId} {e f : Entity}

/-- So many parent links lead from an entity up to a root, all rows on the way being live. -/
inductive Rooted (s : Store) : Nat → EntityId → Prop
  | root {a : EntityId} {e : Entity} (h : s.live? a = some e) (hp : e.parent = none) : Rooted s 0 a
  | child {n : Nat} {a p : EntityId} {e : Entity} (h : s.live? a = some e)
      (hp : e.parent = some p) (hn : Rooted s n p) : Rooted s (n + 1) a

structure IsForest (s : Store) (d : Nat) : Prop where
  parent_department : ∀ {a e p}, s.live? a = some e → e.parent = some p →
    ∃ q, s.live? p = some q ∧ q.entityType = .department
  article_has_parent : ∀ {a e}, s.live? a = some e → e.entityType = .article → e.parent ≠ none
  rooted : ∀ {a e}, s.live? a = some e → ∃ n ≤ d, s.Rooted n a

namespace Rooted

theorem unique (h : s.Rooted m a) (h' : s.Rooted n a) : m = n := by
  induction h generalizing n with
  | root h hp =>
    cases h' with
    | root _ _ => rfl
    | child h' hp' _ =>
      rw [h] at h'; cases h'
      rw [hp] at hp'; cases hp'
  | child h hp hn ih =>
    cases h' with
    | root h' hp' =>
      rw [h] at h'; cases h'
      rw [hp] at hp'; cases hp'
    | child h' hp' hn' =>
      rw [h] at h'; cases h'
      rw [hp] at hp'; cases hp'
      rw [ih hn']

theorem down (h : s.Rooted n a) (hp : s.Path none k a b) : s.Rooted (n + k) b := by
  induction hp with
  | here _ => exact h
  | child _ hb hp ih => exact .child (seen_none.symm.trans hb) hp (ih h)

theorem up (h : s.Rooted n b) (hp : s.Path none k a b) : k ≤ n ∧ s.Rooted (n - k) a := by
  induction hp generalizing n with
  | here _ => exact ⟨Nat.zero_le n, h⟩
  | @child k a p b e hp hb hl ih =>
    rw [seen_none] at hb
    cases h with
    | root h' hp' =>
      rw [hb] at h'; cases h'
      rw [hl] at hp'; cases hp'
    | @child n _ q e' h' hp' hn =>
      rw [hb] at h'; cases h'
      rw [hl] at hp'; cases hp'
      obtain ⟨hle, hr⟩ := ih hn
      exact ⟨by omega, by rwa [Nat.add_sub_add_right]⟩

theorem not_cycle (h : s.Rooted n a) : ¬s.Path none (k + 1) a a := by
  intro hp
  have := h.unique (h.down hp)
  omega

theorem transfer {K : EntityId → Prop}
    (hl : ∀ a e, s.live? a = some e → K a → ∃ e', s'.live? a = some e' ∧ e'.parent = e.parent)
    (hK : ∀ a e p, s.live? a = some e → e.parent = some p → K a → K p)
    (h : s.Rooted n a) (ha : K a) : s'.Rooted n a := by
  induction h with
  | root h hp =>
    obtain ⟨e', he, hpe⟩ := hl _ _ h ha
    exact .root he (hpe.trans hp)
  | child h hp _ ih =>
    obtain ⟨e', he, hpe⟩ := hl _ _ h ha
    exact .child he (hpe.trans hp) (ih (hK _ _ _ h hp ha))

theorem lineage (h : s.Rooted n b) : ∃ l : List EntityId, l.length = n + 1 ∧ l.Nodup ∧
    ∀ a, a ∈ l ↔ ∃ k, s.Path none k a b := by
  induction h with
  | @root b e h hp =>
    refine ⟨[b], rfl, by simp, fun a => ?_⟩
    rw [List.mem_singleton]
    constructor
    · rintro rfl; exact ⟨0, .here (seen_none.trans h)⟩
    · rintro ⟨k, hk⟩
      have hr : s.Rooted 0 b := .root h hp
      have : k = 0 := by have := (hr.up hk).1; omega
      subst this
      exact hk.eq_of_zero
  | @child n b p e h hp hn ih =>
    obtain ⟨l, hlen, hnd, hmem⟩ := ih
    have hb : s.seen none b = some e := seen_none.trans h
    refine ⟨b :: l, by rw [List.length_cons, hlen], List.nodup_cons.mpr ⟨?_, hnd⟩, fun a => ?_⟩
    · intro hbl
      obtain ⟨k, hk⟩ := (hmem b).mp hbl
      exact (Rooted.child h hp hn).not_cycle (hk.child hb hp)
    · rw [List.mem_cons, hmem a]
      constructor
      · rintro (rfl | ⟨k, hk⟩)
        · exact ⟨0, .here hb⟩
        · exact ⟨k + 1, hk.child hb hp⟩
      · rintro ⟨k, hk⟩
        cases hk with
        | here _ => exact .inl rfl
        | child hk hb' hp' =>
          rw [hb] at hb'; cases hb'
          rw [hp] at hp'; cases hp'
          exact .inr ⟨_, hk⟩

end Rooted

/-! Walks of one seed -/

theorem mem_chain_self {bound : Nat} (hb : 0 < bound) :
    p ∈ (s.walk [p] bound none .parentsOnly).map (·.item.id) ↔ ∃ q, s.live? p = some q := by
  rw [mem_walk_ids]
  constructor
  · rintro ⟨k, -, hk⟩
    obtain ⟨q, hq⟩ := (met_parents.mp hk).top
    exact ⟨q, seen_none.symm.trans hq⟩
  · rintro ⟨q, hq⟩
    exact ⟨0, hb, met_parents.mpr (.here (seen_none.trans hq))⟩

theorem checkParentType_eq_ok {bound : Nat} {t : EntityType} {u : Unit} (hb : 0 < bound) :
    Hierarchy.checkParentType (s.walk [p] bound none .parentsOnly) p t = .ok u ↔
      ∃ q, s.live? p = some q ∧ q.entityType = .department := by
  unfold Hierarchy.checkParentType
  split
  · next hnone =>
    have hno : ¬∃ q, s.live? p = some q := by
      rw [← mem_chain_self hb, List.mem_map]
      rintro ⟨i, hi, hid⟩
      simpa [hid] using List.find?_eq_none.mp hnone i hi
    constructor
    · intro h; cases h
    · rintro ⟨q, hq, -⟩; exact absurd ⟨q, hq⟩ hno
  · next i hsome =>
    have hid : i.item.id = p := by simpa using List.find?_some hsome
    obtain ⟨q, k, hq, rfl, -⟩ := mem_walk.mp (List.mem_of_find?_eq_some hsome)
    have hq : s.live? p = some q := by rw [← hid, ← seen_none]; exact hq
    have ht : (q.listItem.entityType.acceptsChildren = true) ↔ q.entityType = .department := by
      change q.entityType.acceptsChildren = true ↔ _
      cases q.entityType <;> simp [EntityType.acceptsChildren]
    simp only [ht, hq, Option.some.injEq, exists_eq_left']
    split <;> simp_all

theorem length_chain {bound : Nat} (h : s.Rooted n p) (hb : n < bound) :
    (s.walk [p] bound none .parentsOnly).length = n + 1 := by
  obtain ⟨l, hlen, hnd, hmem⟩ := h.lineage
  have hperm : l.Perm ((s.walk [p] bound none .parentsOnly).map (·.item.id)) := by
    refine (List.perm_ext_iff_of_nodup hnd nodup_walk).mpr fun a => ?_
    rw [hmem, mem_walk_ids]
    constructor
    · rintro ⟨k, hk⟩
      have := (h.up hk).1
      exact ⟨k, by omega, met_parents.mpr hk⟩
    · rintro ⟨k, -, hk⟩; exact ⟨k, met_parents.mp hk⟩
  rw [← hlen, hperm.length_eq, List.length_map]

namespace IsForest

theorem length_le (h : s.IsForest d) (hp : s.Path none k a b) : k ≤ d := by
  obtain ⟨e, he⟩ := hp.bottom
  obtain ⟨n, hn, hr⟩ := h.rooted (seen_none.symm.trans he)
  have := (hr.up hp).1
  omega

theorem mem_subtree {bound : Nat} (h : s.IsForest d) (hb : d < bound) :
    a ∈ (s.walk [x] bound none .childrenOnly).map (·.item.id) ↔ ∃ k, s.Path none k x a := by
  rw [mem_walk_ids]
  constructor
  · rintro ⟨k, -, hk⟩; exact ⟨k, met_children.mp hk⟩
  · rintro ⟨k, hk⟩
    have := h.length_le hk
    exact ⟨k, by omega, met_children.mpr hk⟩

end IsForest

theorem le_foldl_max (l : List Nat) (n bound : Nat) :
    l.foldl max n ≤ bound ↔ n ≤ bound ∧ ∀ m ∈ l, m ≤ bound := by
  induction l generalizing n with
  | nil => simp
  | cons m l ih =>
    rw [List.foldl_cons, ih, List.forall_mem_cons, Nat.max_le, and_assoc]

/-! Changes that keep the shape -/

theorem isForest_empty : empty.IsForest d := by
  have h (a : EntityId) : empty.live? a = none := rfl
  refine ⟨?_, ?_, ?_⟩ <;> simp [h]

theorem IsForest.congr (h : s.IsForest d) (he : s'.entities = s.entities) : s'.IsForest d := by
  have hl : s'.live? = s.live? := by
    funext a; simp only [live?, row?, he]
  refine ⟨?_, ?_, ?_⟩
  · intro a e p ha hp
    rw [hl] at ha ⊢
    exact h.parent_department ha hp
  · intro a e ha
    rw [hl] at ha
    exact h.article_has_parent ha
  · intro a e ha
    rw [hl] at ha
    obtain ⟨n, hn, hr⟩ := h.rooted ha
    refine ⟨n, hn, hr.transfer (K := fun _ => True) (fun a e ha _ => ?_) (fun _ _ _ _ _ _ => trivial)
      trivial⟩
    exact ⟨e, by rw [hl, ha], rfl⟩

def Open (s : Store) (d : Nat) (t : EntityType) : Option EntityId → Prop
  | none => t = .department
  | some p => ∃ q n, s.live? p = some q ∧ q.entityType = .department ∧ s.Rooted n p ∧ n < d

theorem IsForest.insert (h : s.IsForest d) (hf : a ∉ s.ids)
    (hl : ∀ b, s'.live? b = if b = a then some e else s.live? b)
    (ho : s.Open d e.entityType e.parent) : s'.IsForest d := by
  have hold {b f} (hb : s.live? b = some f) : s'.live? b = some f := by
    have hne : b ≠ a := by
      rintro rfl
      obtain ⟨hm, rfl, -⟩ := live?_eq_some.mp hb
      exact hf (List.mem_map_of_mem hm)
    rw [hl, if_neg hne, hb]
  have hroot {b n} (hb : s.Rooted n b) : s'.Rooted n b :=
    hb.transfer (K := fun _ => True) (fun _ _ hb _ => ⟨_, hold hb, rfl⟩) (fun _ _ _ _ _ _ => trivial)
      trivial
  refine ⟨?_, ?_, ?_⟩
  · intro b f p hb hp
    rw [hl] at hb
    split at hb
    · cases hb
      rw [hp] at ho
      obtain ⟨q, n, hq, ht, -⟩ := ho
      exact ⟨q, hold hq, ht⟩
    · obtain ⟨q, hq, ht⟩ := h.parent_department hb hp
      exact ⟨q, hold hq, ht⟩
  · intro b f hb ht hp
    rw [hl] at hb
    split at hb
    · cases hb
      rw [hp, ht] at ho
      cases ho
    · exact h.article_has_parent hb ht hp
  · intro b f hb
    have hb' := hb
    rw [hl] at hb
    split at hb
    · cases hb
      cases hp : e.parent with
      | none => exact ⟨0, Nat.zero_le d, .root hb' hp⟩
      | some p =>
        rw [hp] at ho
        obtain ⟨q, n, -, -, hr, hn⟩ := ho
        exact ⟨n + 1, hn, .child hb' hp (hroot hr)⟩
    · obtain ⟨n, hn, hr⟩ := h.rooted hb
      exact ⟨n, hn, hroot hr⟩

section Edit

variable (h : s.IsForest d) (hx : s.live? x = some e)
  (hl : ∀ b, s'.live? b = if b = x then some f else s.live? b)

include h hx hl

theorem IsForest.path_edit (hp : s.Path none k x b) : s'.Path none k x b := by
  obtain ⟨n, -, hr⟩ := h.rooted hx
  have hx' : s'.live? x = some f := by rw [hl, if_pos rfl]
  generalize hy : x = y at hp
  induction hp with
  | here _ => subst hy; exact .here (seen_none.trans hx')
  | @child k y q b g hq hb hp ih =>
    subst hy
    have hne : b ≠ x := by
      rintro rfl
      exact hr.not_cycle (hq.child hb hp)
    have hb' : s'.seen none b = some g := by rw [seen_none, hl, if_neg hne, ← seen_none, hb]
    exact .child (ih rfl) hb' hp

omit h in
theorem Rooted.edit (hr : s.Rooted n b) (hb : ∀ k, ¬s.Path none k x b) : s'.Rooted n b := by
  refine hr.transfer (K := fun c => ∀ k, ¬s.Path none k x c) (fun c g hc hK => ?_)
    (fun c g p hc hp hK k hk => hK (k + 1) (hk.child (seen_none.trans hc) hp)) hb
  have hne : c ≠ x := by
    rintro rfl
    exact hK 0 (.here (seen_none.trans hc))
  exact ⟨g, by rw [hl, if_neg hne, hc], rfl⟩

theorem IsForest.edit (ht : f.entityType = e.entityType)
    (hpar : ∀ p, f.parent = some p → ∃ q, s.live? p = some q ∧ q.entityType = .department)
    (hart : e.entityType = .article → f.parent ≠ none) (hr : s'.Rooted n x)
    (hroom : ∀ k a, s.Path none k x a → n + k ≤ d) : s'.IsForest d := by
  have hold {b g} (hb : s.live? b = some g) :
      ∃ g', s'.live? b = some g' ∧ g'.entityType = g.entityType := by
    by_cases hbx : b = x
    · subst hbx
      rw [hx] at hb; cases hb
      exact ⟨f, by rw [hl, if_pos rfl], ht⟩
    · exact ⟨g, by rw [hl, if_neg hbx, hb], rfl⟩
  refine ⟨?_, ?_, ?_⟩
  · intro b g p hb hp
    have hq : ∃ q, s.live? p = some q ∧ q.entityType = .department := by
      rw [hl] at hb
      split at hb
      · cases hb; exact hpar p hp
      · exact h.parent_department hb hp
    obtain ⟨q, hq, hd⟩ := hq
    obtain ⟨q', hq', hd'⟩ := hold hq
    exact ⟨q', hq', hd'.trans hd⟩
  · intro b g hb hg
    rw [hl] at hb
    split at hb
    · cases hb; exact hart (ht.symm.trans hg)
    · exact h.article_has_parent hb hg
  · intro b g hb
    by_cases hbx : ∃ k, s.Path none k x b
    · obtain ⟨k, hk⟩ := hbx
      exact ⟨n + k, hroom k b hk, hr.down (h.path_edit hx hl hk)⟩
    · have hbx : ∀ k, ¬s.Path none k x b := not_exists.mp hbx
      have hlive : s.live? b = some g := by
        rw [hl] at hb
        split at hb
        · next heq => subst heq; exact absurd (.here (seen_none.trans hx)) (hbx 0)
        · exact hb
      obtain ⟨m, hm, hrb⟩ := h.rooted hlive
      exact ⟨m, hm, hrb.edit hx hl hbx⟩

theorem IsForest.edit_same (ht : f.entityType = e.entityType) (hp : f.parent = e.parent) :
    s'.IsForest d := by
  obtain ⟨n, hn, hr⟩ := h.rooted hx
  have hr' : s'.Rooted n x := by
    refine hr.transfer (K := fun _ => True) (fun b g hb _ => ?_) (fun _ _ _ _ _ _ => trivial) trivial
    by_cases hbx : b = x
    · subst hbx
      rw [hx] at hb; cases hb
      exact ⟨f, by rw [hl, if_pos rfl], hp⟩
    · exact ⟨g, by rw [hl, if_neg hbx, hb], rfl⟩
  refine h.edit hx hl ht (fun p hq => ?_) (fun ha => ?_) hr' (fun k a hk => ?_)
  · exact h.parent_department hx (hp.symm.trans hq)
  · rw [hp]; exact h.article_has_parent hx ha
  · obtain ⟨e', he'⟩ := hk.bottom
    obtain ⟨m, hm, hra⟩ := h.rooted (seen_none.symm.trans he')
    rw [hra.unique (hr.down hk)] at hm
    exact hm

end Edit

def OpenTo (s : Store) (d : Nat) (x : EntityId) (t : EntityType) : Option EntityId → Prop
  | none => t = .department
  | some p => ∃ q n, s.live? p = some q ∧ q.entityType = .department ∧ s.Rooted n p ∧
      (∀ k, ¬s.Path none k x p) ∧ ∀ k a, s.Path none k x a → n + 1 + k ≤ d

theorem IsForest.move (h : s.IsForest d) (hx : s.live? x = some e)
    (hl : ∀ b, s'.live? b = if b = x then some f else s.live? b)
    (ht : f.entityType = e.entityType) (ho : s.OpenTo d x e.entityType f.parent) :
    s'.IsForest d := by
  have hx' : s'.live? x = some f := by rw [hl, if_pos rfl]
  cases hp : f.parent with
  | none =>
    rw [hp] at ho
    refine h.edit hx hl ht (fun p hq => ?_) (fun ha => ?_) (.root hx' hp) (fun k a hk => ?_)
    · rw [hp] at hq; cases hq
    · rw [ho] at ha; cases ha
    · rw [Nat.zero_add]; exact h.length_le hk
  | some p =>
    rw [hp] at ho
    obtain ⟨q, n, hq, hd, hr, hn, hroom⟩ := ho
    refine h.edit hx hl ht (fun p' hp' => ?_) (fun _ hnone => ?_)
      (.child hx' hp (hr.edit hx hl hn)) hroom
    · rw [hp] at hp'; cases hp'; exact ⟨q, hq, hd⟩
    · rw [hp] at hnone; cases hnone

theorem IsForest.delete (h : s.IsForest d) {targets : List EntityId}
    (hx : ∀ a, a ∈ targets ↔ ∃ k, s.Path none k x a)
    (hl : ∀ b, s'.live? b = if b ∈ targets then none else s.live? b) : s'.IsForest d := by
  have hold {b g} (hb : s'.live? b = some g) : s.live? b = some g ∧ b ∉ targets := by
    rw [hl] at hb
    split at hb
    · cases hb
    · next hn => exact ⟨hb, hn⟩
  have hup {b g p} (hb : s.live? b = some g) (hn : b ∉ targets) (hp : g.parent = some p) :
      p ∉ targets := by
    intro ht
    obtain ⟨k, hk⟩ := (hx p).mp ht
    exact hn ((hx b).mpr ⟨k + 1, hk.child (seen_none.trans hb) hp⟩)
  refine ⟨?_, ?_, ?_⟩
  · intro b g p hb hp
    obtain ⟨hb, hn⟩ := hold hb
    obtain ⟨q, hq, hd⟩ := h.parent_department hb hp
    exact ⟨q, by rw [hl, if_neg (hup hb hn hp), hq], hd⟩
  · intro b g hb
    exact h.article_has_parent (hold hb).1
  · intro b g hb
    obtain ⟨hb, hn⟩ := hold hb
    obtain ⟨m, hm, hr⟩ := h.rooted hb
    exact ⟨m, hm, hr.transfer (K := fun c => c ∉ targets)
      (fun c g hc hK => ⟨g, by rw [hl, if_neg hK, hc], rfl⟩)
      (fun c g p hc hp hK => hup hc hK hp) hn⟩

end KnowledgeTree.Store
