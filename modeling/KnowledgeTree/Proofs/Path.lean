import KnowledgeTree.Proofs.Rows

/-!
Paths along parent links. A path leads down from an entity to one of its descendants; all rows on
it, both ends included, are visible to the viewer.
-/

namespace KnowledgeTree.Store

variable {s s' : Store} {viewer : Option UserId} {a b c : EntityId} {e : Entity} {m n : Nat}

inductive Path (s : Store) (viewer : Option UserId) : Nat → EntityId → EntityId → Prop
  | here {a : EntityId} {e : Entity} (h : s.seen viewer a = some e) : Path s viewer 0 a a
  | child {n : Nat} {a p b : EntityId} {e : Entity} (h : Path s viewer n a p)
      (hb : s.seen viewer b = some e) (hp : e.parent = some p) : Path s viewer (n + 1) a b

namespace Path

theorem bottom (h : s.Path viewer n a b) : ∃ e, s.seen viewer b = some e := by
  cases h with
  | here h => exact ⟨_, h⟩
  | child _ hb _ => exact ⟨_, hb⟩

theorem top (h : s.Path viewer n a b) : ∃ e, s.seen viewer a = some e := by
  induction h with
  | here h => exact ⟨_, h⟩
  | child _ _ _ ih => exact ih

theorem eq_of_zero (h : s.Path viewer 0 a b) : a = b := by
  cases h; rfl

theorem trans (h : s.Path viewer m a b) (h' : s.Path viewer n b c) :
    s.Path viewer (m + n) a c := by
  induction h' with
  | here _ => exact h
  | child _ hb hp ih => exact .child (ih h) hb hp

theorem prepend {p : EntityId} {f : Entity} (hp : s.seen viewer p = some f)
    (ha : s.seen viewer a = some e) (hl : e.parent = some p) (h : s.Path viewer n a b) :
    s.Path viewer (n + 1) p b := by
  have h1 : s.Path viewer (0 + 1) p a := .child (.here hp) ha hl
  have h2 := h1.trans h
  rwa [Nat.zero_add, Nat.add_comm] at h2

theorem split (h : s.Path viewer (m + n) a c) : ∃ b, s.Path viewer m a b ∧ s.Path viewer n b c := by
  induction n generalizing c with
  | zero =>
    obtain ⟨e, he⟩ := h.bottom
    exact ⟨c, h, .here he⟩
  | succ n ih =>
    cases h with
    | child h hb hp =>
      obtain ⟨b, h1, h2⟩ := ih h
      exact ⟨b, h1, .child h2 hb hp⟩

theorem step_down (h : s.Path viewer (n + 1) a c) :
    ∃ b e, s.seen viewer b = some e ∧ e.parent = some a ∧ s.Path viewer n b c := by
  rw [Nat.add_comm] at h
  obtain ⟨b, h1, h2⟩ := h.split
  cases h1 with
  | child h hb hp =>
    obtain rfl := h.eq_of_zero
    exact ⟨b, _, hb, hp, h2⟩

theorem live (h : s.Path viewer n a b) : s.Path none n a b := by
  induction h with
  | here h => exact .here (seen_none.trans (live?_of_seen h))
  | child _ hb hp ih => exact .child ih (seen_none.trans (live?_of_seen hb)) hp

end Path

end KnowledgeTree.Store
