import KnowledgeTree.Proofs.Sequence

/-!
Every call on one source of identifiers, also past the end of its block. The calls whose number is a
multiple of 2^64 fail and all others succeed, in ascending order between two failures. A failure is
not the end: the calls after it hand out the block once more from its start.
-/

namespace KnowledgeTree.IdSource

variable {source : IdSource} {block : UInt64} {a b : EntityId} {m n : Nat}

def after (source : IdSource) : Nat → IdSource
  | 0 => source
  | n + 1 => (source.after n).take.2

def answer (source : IdSource) (n : Nat) : Except Error EntityId := (source.after n).take.1

def fresh (block : UInt64) : IdSource := { block }

theorem take_after : source.take.2 = { source with issued := source.issued + 1 } := by
  simp only [take]
  split <;> rfl

theorem after_fresh : (fresh block).after n = ⟨UInt64.ofNat n, block⟩ := by
  induction n with
  | zero => rfl
  | succ n ih => rw [after, ih, take_after, UInt64.ofNat_add, UInt64.ofNat_one]

/-- The counter of calls wraps, and the number it is turned into does not. -/
theorem answer_fresh : (fresh block).answer n = if blockSize ∣ n + 1 then
    .error (.idGeneration "sequential identifier space exhausted")
    else .ok ((fresh block).nth ((n + 1) % blockSize)) := by
  have hcount : (UInt64.ofNat n).toNat = n % blockSize := UInt64.toNat_ofNat'
  rw [answer, after_fresh]
  simp only [take, hcount, nth, fresh]
  unfold blockSize
  split
  · next h =>
    have hnext : (n + 1) % 18446744073709551616 = n % 18446744073709551616 + 1 := by omega
    rw [if_neg (by omega), hnext]
  · next h => rw [if_pos (by omega)]

theorem toNat_nth (h : n < blockSize) :
    (source.nth n).uuid.toNat = source.block.toNat * blockSize + n := by
  have hblock : source.block.toNat < blockSize := source.block.toNat_lt
  simp only [nth, Uuid.ofNat, Uuid.toNat, BitVec.toNat_ofNat]
  unfold blockSize at h hblock ⊢
  exact Nat.mod_eq_of_lt (by omega)

theorem answer_fresh_eq_ok : (fresh block).answer n = .ok a ↔
    ¬blockSize ∣ n + 1 ∧ a = (fresh block).nth ((n + 1) % blockSize) := by
  rw [answer_fresh]
  split
  · next h => simp [h]
  · next h => simp [h, eq_comm]

theorem answer_fresh_add : (fresh block).answer (n + blockSize) = (fresh block).answer n := by
  have hmod : (n + blockSize + 1) % blockSize = (n + 1) % blockSize := by
    rw [Nat.add_right_comm, Nat.add_mod_right]
  have hdvd : blockSize ∣ n + blockSize + 1 ↔ blockSize ∣ n + 1 := by
    rw [Nat.dvd_iff_mod_eq_zero, Nat.dvd_iff_mod_eq_zero, hmod]
  simp only [answer_fresh, hdvd, hmod]

theorem answer_fresh_lt (hmn : m < n) (hlast : n / blockSize = m / blockSize)
    (ha : (fresh block).answer m = .ok a) (hb : (fresh block).answer n = .ok b) :
    a.uuid.toNat < b.uuid.toNat := by
  obtain ⟨hm, rfl⟩ := answer_fresh_eq_ok.mp ha
  obtain ⟨hn, rfl⟩ := answer_fresh_eq_ok.mp hb
  rw [toNat_nth (Nat.mod_lt _ (by decide)), toNat_nth (Nat.mod_lt _ (by decide))]
  unfold blockSize at hm hn hlast ⊢
  omega

theorem div_eq_of_successes (hmn : m < n)
    (h : ∀ k, m ≤ k → k ≤ n → ∃ id, (fresh block).answer k = .ok id) :
    n / blockSize = m / blockSize := by
  by_contra hne
  -- the last call of the block that the first of the two calls belongs to
  obtain ⟨id, hid⟩ := h ((m / blockSize + 1) * blockSize - 1)
    (by unfold blockSize; omega) (by unfold blockSize at hne ⊢; omega)
  refine (answer_fresh_eq_ok.mp hid).1 ⟨m / blockSize + 1, ?_⟩
  unfold blockSize
  omega

theorem answer_fresh_again (ha : (fresh block).answer m = .ok a) :
    (fresh block).answer n = .ok a ↔ n % blockSize = m % blockSize := by
  obtain ⟨hm, rfl⟩ := answer_fresh_eq_ok.mp ha
  rw [answer_fresh_eq_ok]
  constructor
  · rintro ⟨hn, heq⟩
    have hmod := nth_inj (Nat.mod_lt _ (by decide)) (Nat.mod_lt _ (by decide)) heq
    unfold blockSize at hm hn hmod ⊢
    omega
  · intro hmod
    have hnext : (n + 1) % blockSize = (m + 1) % blockSize := by
      rw [Nat.add_mod, hmod, ← Nat.add_mod]
    rw [Nat.dvd_iff_mod_eq_zero, hnext, ← Nat.dvd_iff_mod_eq_zero]
    exact ⟨hm, rfl⟩

structure Recurring (block : UInt64) : Prop where
  fails : ∀ n, blockSize ∣ n + 1 → (fresh block).answer n =
    .error (.idGeneration "sequential identifier space exhausted")
  succeeds : ∀ n, ¬blockSize ∣ n + 1 → ∃ id, (fresh block).answer n = .ok id ∧ id.isNil = false
  ascends : ∀ m n a b, m < n → (∀ k, m ≤ k → k ≤ n → ∃ id, (fresh block).answer k = .ok id) →
    (fresh block).answer m = .ok a → (fresh block).answer n = .ok b → a.uuid.toNat < b.uuid.toNat
  -- what was handed out comes again in each later block, and at no other time
  again : ∀ m n a, (fresh block).answer m = .ok a →
    ((fresh block).answer n = .ok a ↔ n % blockSize = m % blockSize)

/-- Identifiers ascend up to a failure, and the calls after it hand out the same ones again. -/
theorem ids_recur (block : UInt64) : Recurring block where
  fails n h := by rw [answer_fresh, if_pos h]
  succeeds n h := by
    have hid : (fresh block).answer n = .ok _ := answer_fresh_eq_ok.mpr ⟨h, rfl⟩
    exact ⟨_, hid, take_not_nil hid⟩
  ascends m n a b hmn h ha hb := answer_fresh_lt hmn (div_eq_of_successes hmn h) ha hb
  again m n a ha := answer_fresh_again ha

/-- The call after the first failure succeeds, and what it hands out is what the first call did. -/
theorem exhausted_source_reissues :
    (fresh 0).answer (blockSize - 1) =
      .error (.idGeneration "sequential identifier space exhausted") ∧
    (fresh 0).answer blockSize = .ok ⟨Uuid.ofNat 1⟩ ∧ (fresh 0).answer 0 = .ok ⟨Uuid.ofNat 1⟩ := by
  refine ⟨?_, ?_, rfl⟩
  · rw [answer_fresh, if_pos (by decide)]
  · rw [← Nat.zero_add blockSize, answer_fresh_add]
    rfl

end KnowledgeTree.IdSource
