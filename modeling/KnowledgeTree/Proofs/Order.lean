import KnowledgeTree.Proofs.Scope
import Mathlib.Data.String.Basic

/-!
The orders in which entities are listed. They are linear on distinct ids, so what a walk lists is
determined by what it meets.
-/

namespace KnowledgeTree

namespace EntityId

theorem le_iff {a b : EntityId} : a ≤ b ↔ a.uuid.toNat ≤ b.uuid.toNat := Iff.rfl

theorem le_antisymm {a b : EntityId} (h : a ≤ b) (h' : b ≤ a) : a = b := by
  rcases a with ⟨⟨x⟩⟩
  rcases b with ⟨⟨y⟩⟩
  have hxy : x = y := BitVec.eq_of_toNat_eq (Nat.le_antisymm h h')
  rw [hxy]

end EntityId

namespace ListItem

variable {a b c : ListItem}

theorem le_iff : a.le b = true ↔ a.name < b.name ∨ a.name = b.name ∧ a.id ≤ b.id := by
  unfold le
  split
  · next h => simp [h]
  · next h => simp [h]

theorem le_trans (h : a.le b = true) (h' : b.le c = true) : a.le c = true := by
  rw [le_iff] at *
  rcases h with h | ⟨h, hid⟩
  · rcases h' with h' | ⟨h', -⟩
    · exact .inl (h.trans h')
    · exact .inl (h' ▸ h)
  · rcases h' with h' | ⟨h', hid'⟩
    · exact .inl (h ▸ h')
    · exact .inr ⟨h.trans h', Nat.le_trans hid hid'⟩

theorem le_total (a b : ListItem) : (a.le b || b.le a) = true := by
  rw [Bool.or_eq_true, le_iff, le_iff]
  rcases lt_trichotomy a.name b.name with h | h | h
  · exact .inl (.inl h)
  · exact (Nat.le_total a.id.uuid.toNat b.id.uuid.toNat).imp (fun hid => .inr ⟨h, hid⟩)
      fun hid => .inr ⟨h.symm, hid⟩
  · exact .inr (.inl h)

theorem id_eq_of_le (h : a.le b = true) (h' : b.le a = true) : a.id = b.id := by
  rw [le_iff] at h h'
  rcases h with h | ⟨h, hid⟩
  · rcases h' with h' | ⟨h', -⟩
    · exact absurd h' h.asymm
    · exact absurd h' h.ne'
  · rcases h' with h' | ⟨-, hid'⟩
    · exact absurd h h'.ne'
    · exact EntityId.le_antisymm hid hid'

theorem sorted_mergeSort (items : List ListItem) :
    (items.mergeSort le).Pairwise fun a b => a.le b = true :=
  @List.pairwise_mergeSort _ le (fun _ _ _ => le_trans) le_total items

theorem nodup_mergeSort {items : List ListItem} (h : (items.map ListItem.id).Nodup) :
    ((items.mergeSort le).map ListItem.id).Nodup :=
  ((List.mergeSort_perm items le).map ListItem.id).nodup_iff.mpr h

theorem eq_of_sorted {l m : List ListItem} (hn : (m.map ListItem.id).Nodup) (h : l.Perm m)
    (hl : l.Pairwise fun a b => a.le b = true) (hm : m.Pairwise fun a b => a.le b = true) : l = m :=
  h.eq_of_pairwise (fun _ _ ha hb hab hba =>
    List.inj_on_of_nodup_map hn (h.subset ha) hb (id_eq_of_le hab hba)) hl hm

theorem mergeSort_of_perm {items all : List ListItem} (hn : (items.map ListItem.id).Nodup)
    (h : items.Perm all) : all.mergeSort le = items.mergeSort le :=
  eq_of_sorted (nodup_mergeSort hn)
    ((List.mergeSort_perm all le).trans (h.symm.trans (List.mergeSort_perm items le).symm))
    (sorted_mergeSort all) (sorted_mergeSort items)

end ListItem

namespace HierarchyItem

variable {a b c : HierarchyItem}

theorem le_iff : a.le b = true ↔ a.depth < b.depth ∨ a.depth = b.depth ∧ a.item.le b.item = true := by
  unfold le
  split
  · next h => simp [h]
  · next h => simp [h]

theorem le_trans (h : a.le b = true) (h' : b.le c = true) : a.le c = true := by
  rw [le_iff] at *
  rcases h with h | ⟨h, hi⟩
  · exact .inl (by omega)
  · rcases h' with h' | ⟨h', hi'⟩
    · exact .inl (by omega)
    · exact .inr ⟨h.trans h', ListItem.le_trans hi hi'⟩

theorem le_total (a b : HierarchyItem) : (a.le b || b.le a) = true := by
  rw [Bool.or_eq_true, le_iff, le_iff]
  have hi := ListItem.le_total a.item b.item
  rw [Bool.or_eq_true] at hi
  rcases Nat.lt_trichotomy a.depth b.depth with h | h | h
  · exact .inl (.inl h)
  · exact hi.imp (fun hi => .inr ⟨h, hi⟩) fun hi => .inr ⟨h.symm, hi⟩
  · exact .inr (.inl h)

theorem id_eq_of_le (h : a.le b = true) (h' : b.le a = true) : a.item.id = b.item.id := by
  rw [le_iff] at h h'
  have hd : a.depth = b.depth := by omega
  exact ListItem.id_eq_of_le (by simpa [hd] using h) (by simpa [hd] using h')

end HierarchyItem

namespace Store

variable {s t : Store} {seeds seeds' : List EntityId} {bound : Nat} {viewer : Option UserId}
  {direction : Direction}

theorem walk_sorted : (s.walk seeds bound viewer direction).Pairwise fun a b => a.le b = true :=
  @List.pairwise_mergeSort _ HierarchyItem.le (fun _ _ _ => HierarchyItem.le_trans)
    HierarchyItem.le_total _

theorem walk_congr (h : ∀ i, i ∈ s.walk seeds bound viewer direction ↔
      i ∈ t.walk seeds' bound viewer direction) :
    s.walk seeds bound viewer direction = t.walk seeds' bound viewer direction := by
  have hs := List.Nodup.of_map _ (nodup_walk : ((s.walk seeds bound viewer direction).map _).Nodup)
  have ht := List.Nodup.of_map _ (nodup_walk : ((t.walk seeds' bound viewer direction).map _).Nodup)
  refine List.Perm.eq_of_pairwise (fun a b ha hb hab hba => ?_) walk_sorted walk_sorted
    ((List.perm_ext_iff_of_nodup hs ht).mpr h)
  exact List.inj_on_of_nodup_map nodup_walk ha ((h b).mpr hb) (HierarchyItem.id_eq_of_le hab hba)

end Store

end KnowledgeTree
