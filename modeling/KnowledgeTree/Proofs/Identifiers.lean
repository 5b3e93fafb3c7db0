import KnowledgeTree.Proofs.Reachable

/-!
The identifiers that a source hands out, and with them those of reachable tables, are not nil.
-/

namespace KnowledgeTree

variable {limits : Limits} {s s' : Store} {id : EntityId}

theorem IdSource.take_not_nil {source : IdSource} (h : source.take.1 = .ok id) :
    id.isNil = false := by
  simp only [take] at h
  split at h
  · next hlt =>
    cases h
    have hnumber : 0 < (source.block.toNat * blockSize + (source.issued.toNat + 1)) % 2 ^ 128 := by
      -- the number is what is left of the identifier below the size of a block
      have hmod : (source.block.toNat * blockSize + (source.issued.toNat + 1)) % blockSize =
          source.issued.toNat + 1 := by
        rw [Nat.mul_add_mod_self_right, Nat.mod_eq_of_lt hlt]
      unfold blockSize at hmod ⊢
      omega
    have hne : Uuid.ofNat (source.block.toNat * blockSize + (source.issued.toNat + 1)) ≠ Uuid.nil := by
      intro heq
      have hbits := congrArg Uuid.toNat heq
      simp only [Uuid.ofNat, Uuid.nil, Uuid.toNat, BitVec.toNat_ofNat] at hbits
      omega
    simpa [EntityId.isNil] using hne
  · cases h

theorem CoreChange.ids (h : CoreChange limits s s') :
    ∀ a ∈ s'.ids, a ∈ s.ids ∨ a.isNil = false := by
  have hsame : s'.entities = s.entities → ∀ a ∈ s'.ids, a ∈ s.ids ∨ a.isNil = false := by
    intro heq a ha
    rw [Store.ids, heq] at ha
    exact .inl ha
  cases h with
  | create hr =>
    obtain ⟨_, -, -, -, hid, -⟩ := Hierarchy.create_cases hr
    obtain ⟨_, _, hadd, -⟩ := Hierarchy.added_of_create hr
    intro a ha
    rw [Store.ids, hadd.entities, List.map_append, List.mem_append, List.map_singleton,
      List.mem_singleton] at ha
    rcases ha with ha | rfl
    · exact .inl ha
    · exact .inr (IdSource.take_not_nil hid)
  | @update _ _ _ _ sys' hr =>
    obtain ⟨_, e, -, hedit, -⟩ := Hierarchy.edited_of_update hr
    intro a ha
    left
    by_contra hno
    have hrow := Store.row?_eq_none.mpr hno
    have hne : a ≠ e.id := by
      rintro rfl
      have hlive := hedit.live
      rw [Store.live?, hrow] at hlive
      cases hlive
    have hafter : sys'.store.row? a = none := by rw [hedit.rows, if_neg hne, hrow]
    exact Store.row?_eq_none.mp hafter ha
  | delete hr =>
    obtain ⟨-, -, -, hw⟩ := Hierarchy.delete_cases hr
    obtain ⟨-, -, hs⟩ := Store.delete_eq_ok.mp hw
    intro a ha
    rw [hs] at ha
    simp only [Store.ids, Store.adjust, List.map_map, Function.comp_def, Store.id_adjusted] at ha
    exact .inl ha
  | upsertRole hr =>
    obtain ⟨-, -, rfl⟩ := Store.upsertRole_eq_ok.mp hr
    exact hsame rfl
  | grant hr =>
    obtain ⟨-, -, -, rfl⟩ := Store.grant_eq_ok.mp hr
    exact hsame (by split <;> rfl)
  | revoke hr =>
    obtain ⟨-, -, rfl⟩ := Store.revoke_eq_ok.mp hr
    exact hsame rfl

theorem CoreReachable.not_nil (h : CoreReachable limits s) : ∀ a ∈ s.ids, a.isNil = false := by
  refine h.invariant (P := fun s => ∀ a ∈ s.ids, a.isNil = false) ?_ fun s s' hs hc a ha => ?_
  · intro a ha; cases ha
  · rcases hc.ids a ha with ha | ha
    · exact hs a ha
    · exact ha

end KnowledgeTree
