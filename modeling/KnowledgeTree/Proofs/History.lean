import KnowledgeTree.Proofs.Rows
import Mathlib.Data.List.Nodup

/-!
The record of published versions against the rows. Rows and versions are written by different
statements; what ties them together holds after every request.
-/

namespace KnowledgeTree

variable {s s' : Store} {ctx : Context} {id : EntityId} {e f : Entity} {v w : Version}

namespace Store

/-- The versions of an entity are numbered from 1 on in the order of their making, none is there
without a row, and the newest one is what a published row says. -/
structure Coherent (s : Store) : Prop where
  owned : ∀ id, s.row? id = none → s.history id = []
  numbered : ∀ id, (s.history id).map (·.number.value) = List.range' 1 (s.history id).length
  current : ∀ id e n, s.row? id = some e → e.publication = .published n →
    (s.history id).getLast? = some (e.record n)

theorem coherent_empty : empty.Coherent where
  owned _ _ := rfl
  numbered _ := rfl
  current _ _ _ h := by cases h

theorem mem_history : v ∈ s.history id ↔ v ∈ s.versions ∧ v.entity = id := by
  simp [history]

theorem history_append {new : List Version} (h : s'.versions = s.versions ++ new)
    (hn : ∀ v ∈ new, v.entity = e.id) :
    s'.history id = if id = e.id then s.history id ++ new else s.history id := by
  rw [history, h, List.filter_append]
  split
  · next hid =>
    have hall : new.filter (·.entity == id) = new := by
      rw [List.filter_eq_self]
      intro v hv
      simp [hn v hv, hid]
    rw [hall]; rfl
  · next hid =>
    have hnone : new.filter (·.entity == id) = [] := by
      rw [List.filter_eq_nil_iff]
      intro v hv
      simpa [hn v hv] using Ne.symm hid
    rw [hnone, List.append_nil]; rfl

theorem foldl_max_range' (n : Nat) : (List.range' 1 n).foldl max 0 = n := by
  induction n with
  | zero => rfl
  | succ n ih =>
    rw [List.range'_1_concat, List.foldl_append, ih]
    simp only [List.foldl_cons, List.foldl_nil]
    omega

namespace Coherent

theorem lastVersion (h : s.Coherent) (id : EntityId) :
    s.lastVersion id = (s.history id).length := by
  have hf := foldl_max_range' (s.history id).length
  rw [← h.numbered, List.foldl_map] at hf
  exact hf

theorem nextVersion (h : s.Coherent) {n : VersionNumber} (hn : s.nextVersion id = .ok n) :
    n.value = (s.history id).length + 1 := by
  rw [Store.nextVersion, h.lastVersion] at hn
  simp only [VersionNumber.ofNat?] at hn
  split at hn
  · next m hm =>
    cases hn
    split at hm
    · cases hm; rfl
    · cases hm
  · cases hn

theorem numbers_nodup (h : s.Coherent) (id : EntityId) :
    ((s.history id).map (·.number.value)).Nodup := by
  rw [h.numbered]
  exact List.nodup_range'

theorem eq_of_number (h : s.Coherent) (hv : v ∈ s.history id) (hw : w ∈ s.history id)
    (hn : v.number.value = w.number.value) : v = w :=
  List.inj_on_of_nodup_map (h.numbers_nodup id) hv hw hn

theorem published (h : s.Coherent) {n : VersionNumber} (he : s.row? id = some e)
    (hp : e.publication = .published n) :
    n.value = (s.history id).length ∧ e.record n ∈ s.history id := by
  have hl := h.current id e n he hp
  refine ⟨?_, List.mem_of_getLast? hl⟩
  have hm : ((s.history id).map (·.number.value)).getLast? = some n.value := by
    rw [List.getLast?_map, hl]; rfl
  rw [h.numbered, List.getLast?_range'] at hm
  split at hm
  · cases hm
  · simp only [Option.some.injEq] at hm
    omega

theorem write (h : s.Coherent) (hr : ∀ b, s'.row? b = if b = f.id then some f else s.row? b)
    (hv : s'.versions = s.versions ++ (f.publication.version?.map f.record).toList)
    (hn : ∀ n, f.publication = .published n → n.value = (s.history f.id).length + 1) :
    s'.Coherent := by
  have hh : ∀ b, s'.history b = if b = f.id
      then s.history b ++ (f.publication.version?.map f.record).toList else s.history b := by
    intro b
    apply history_append hv
    intro v hv
    cases hp : f.publication with
    | draft => simp [hp, Publication.version?] at hv
    | published n =>
      simp only [hp, Publication.version?, Option.map_some, Option.toList_some,
        List.mem_singleton] at hv
      rw [hv]; rfl
  refine ⟨fun b hb => ?_, fun b => ?_, fun b e n he hp => ?_⟩
  · rw [hr] at hb
    split at hb
    · cases hb
    · next hne => rw [hh, if_neg hne, h.owned b hb]
  · rw [hh]
    split
    · next hb =>
      cases hp : f.publication with
      | draft => simpa [Publication.version?] using h.numbered b
      | published n =>
        have hnb : n.value = 1 + (s.history b).length := by rw [hn n hp, hb, Nat.add_comm]
        simp only [Publication.version?, Option.map_some, Option.toList_some, List.map_append,
          List.length_append, List.map_singleton, List.length_singleton, h.numbered,
          List.range'_1_concat, Entity.record, hnb]
    · exact h.numbered b
  · -- the written row tells what the version appended for it does
    rw [hr] at he
    split at he
    · next hb =>
      cases he
      rw [hh, if_pos hb, hp]
      simp [Publication.version?]
    · next hne =>
      rw [hh, if_neg hne]
      exact h.current b e n he hp

theorem added (h : s.Coherent) (ha : Added s s' e)
    (hn : ∀ n, e.publication = .published n → n = .first) : s'.Coherent := by
  refine h.write (fun b => row?_append ha.entities ha.fresh) ha.versions fun n hp => ?_
  rw [hn n hp, h.owned e.id (row?_eq_none.mpr ha.fresh)]
  rfl

theorem edited (h : s.Coherent) (he : Edited s s' e f) (hid : f.id = e.id)
    (hn : ∀ n, f.publication = .published n → n.value = (s.history e.id).length + 1) :
    s'.Coherent := by
  refine h.write (fun b => ?_) he.versions fun n hp => ?_
  · rw [hid]; exact he.rows b
  · rw [hid]; exact hn n hp

theorem delete (h : s.Coherent) (p : Entity → Bool) (now : Time) :
    (s.adjust p fun e => { e with deletedAt := some now }).Coherent where
  owned b hb := by
    rw [row?_adjust, Option.map_eq_none_iff] at hb
    exact h.owned b hb
  numbered := h.numbered
  current b e n he hp := by
    rw [row?_adjust, Option.map_eq_some_iff] at he
    obtain ⟨f, hf, rfl⟩ := he
    have hc := h.current b f n hf
    unfold adjusted at hp ⊢
    split at hp
    · next hl => rw [if_pos hl]; exact hc hp
    · next hl => rw [if_neg hl]; exact hc hp

theorem step (h : s.Coherent) (ha : s.Answered s') : s'.Coherent := by
  cases ha with
  | same => exact h
  | added hadd hfirst => exact h.added hadd hfirst
  | edited hedit hnext => exact h.edited hedit rfl fun n hp => h.nextVersion (hnext n hp)
  | deleted targets now => exact h.delete _ now

end Coherent

end Store

/-- The tables that requests lead to, made by anyone in any order, whether they succeed or not. -/
inductive StoreReachable : Store → Prop
  | empty : StoreReachable .empty
  | request {α : Type} {sys : System} (h : StoreReachable sys.store) (ctx : Context)
      (r : Request α) : StoreReachable (sys.answer ctx r).2.store

namespace Store

theorem Coherent.answer {α : Type} {sys : System} (h : sys.store.Coherent) (ctx : Context)
    (r : Request α) : (sys.answer ctx r).2.store.Coherent :=
  h.step (sys.answered ctx r)

end Store

theorem StoreReachable.coherent (h : StoreReachable s) : s.Coherent := by
  induction h with
  | empty => exact Store.coherent_empty
  | request _ ctx r ih => exact ih.answer ctx r

/-! Reading versions -/

namespace Store

theorem get_eq_ok (hc : ctx.isDone = false) (he : s.live? id = some e) :
    s.get ctx id = .ok e := by
  rw [get, Context.check_live hc]
  exact find_eq_ok.mpr he

theorem restore_record (n : VersionNumber) (h : e.publication = .published n) :
    (e.record n).restore e = e := by
  rw [Version.restore, Entity.record, ← h]

namespace Coherent

theorem getVersion_eq_ok (h : s.Coherent) (hc : ctx.isDone = false) (he : s.live? id = some e)
    (hv : v ∈ s.history id) : s.getVersion ctx id v.number = .ok (v.restore e) := by
  obtain ⟨hm, hid⟩ := mem_history.mp hv
  have hf : s.versions.find? (fun w => w.entity == id && w.number == v.number) = some v := by
    cases hf : s.versions.find? (fun w => w.entity == id && w.number == v.number) with
    | none =>
      have hn := List.find?_eq_none.mp hf v hm
      simp [hid] at hn
    | some w =>
      have hw := List.find?_some hf
      simp only [Bool.and_eq_true, beq_iff_eq] at hw
      have hwm : w ∈ s.history id := mem_history.mpr ⟨List.mem_of_find?_eq_some hf, hw.1⟩
      rw [h.eq_of_number hwm hv (by rw [hw.2])]
  rw [getVersion, Context.check_live hc, find_eq_ok.mpr he]
  simp only [bind, Except.bind, hf]
  rfl

theorem mergeSort_history (h : s.Coherent) (id : EntityId) :
    ((s.history id).mergeSort fun v w => w.number.value ≤ v.number.value) =
      (s.history id).reverse := by
  have hlt : (s.history id).Pairwise fun v w => v.number.value < w.number.value := by
    rw [← List.pairwise_map (R := (· < ·)), h.numbered]
    exact List.pairwise_lt_range'
  have hrev : (s.history id).reverse.Pairwise fun v w => w.number.value ≤ v.number.value := by
    rw [List.pairwise_reverse]
    exact hlt.imp Nat.le_of_lt
  have hperm := List.mergeSort_perm (s.history id) fun v w => w.number.value ≤ v.number.value
  have hsorted : ((s.history id).mergeSort fun v w => w.number.value ≤ v.number.value).Pairwise
      fun v w => w.number.value ≤ v.number.value := by
    have hle := @List.pairwise_mergeSort Version (fun v w => w.number.value ≤ v.number.value)
      (by simp only [decide_eq_true_eq]; omega)
      (by simp only [Bool.or_eq_true, decide_eq_true_eq]; omega) (s.history id)
    simpa only [decide_eq_true_eq] using hle
  apply List.Perm.eq_of_pairwise _ hsorted hrev (hperm.trans (List.reverse_perm _).symm)
  intro v w hv hw hvw hwv
  apply h.eq_of_number (hperm.mem_iff.mp hv) (List.mem_reverse.mp hw)
  exact Nat.le_antisymm hwv hvw

theorem getVersionsList_eq_ok (h : s.Coherent) (hc : ctx.isDone = false)
    (he : s.live? id = some e) :
    s.getVersionsList ctx id = .ok ((s.history id).reverse.map (·.restore e)) := by
  rw [getVersionsList, Context.check_live hc, find_eq_ok.mpr he]
  simp only [bind, Except.bind, h.mergeSort_history]
  rfl

end Coherent

end Store

namespace Sample

def firstGuide : Entity := Entity.make ⟨.department, "Guide", "", none, ⟨Uuid.ofNat 9⟩⟩
  ⟨Uuid.ofNat 1⟩ (.published .first) ⟨0, 0⟩

def guideChanges : EntityChanges := ⟨firstGuide.id, "Guide", "How to", none, ⟨Uuid.ofNat 9⟩⟩

def guide : Entity :=
  firstGuide.edit guideChanges (.published ⟨2, by decide, by decide⟩) ⟨5, 0⟩

def guideTables : Store where
  entities := [guide]
  versions := [firstGuide.record .first, guide.record ⟨2, by decide, by decide⟩]

theorem reachable_guide : StoreReachable guideTables := by
  have h : (((({} : System).answer .background
      (.create ⟨.department, "Guide", "", none, ⟨Uuid.ofNat 9⟩⟩ ⟨Uuid.ofNat 1⟩ ⟨0, 0⟩)).2.answer
      .background (.updateDraft guideChanges ⟨3, 0⟩)).2.answer
      .background (.update guideChanges ⟨5, 0⟩)).2.store = guideTables := by decide +kernel
  have hr : StoreReachable ({} : System).store := .empty
  rw [← h]
  exact ((hr.request _ _).request _ _).request _ _

end Sample

namespace Store

/-- The versions of an entity are numbered from 1 to some n. Its row is a draft, or it is published
as version n and what that version records. While it is live, each version and the list of all of
them, newest first, can be read, the newest one is the published entity itself, and the next one to
be published has the number n + 1. -/
theorem version_history (h : StoreReachable s) (he : e ∈ s.entities) :
    ∃ n, (s.history e.id).map (·.number.value) = List.range' 1 n ∧
      (e.publication = .draft ∨ ∃ v, e.publication = .published v ∧ v.value = n ∧ 1 ≤ n ∧
        e.record v ∈ s.history e.id ∧ ∀ w ∈ s.history e.id, w.number = v → w = e.record v) ∧
      ∀ ctx : Context, ctx.isDone = false → e.isLive = true →
        (∀ v, e.publication = .published v →
          s.getVersion ctx e.id v = .ok e ∧ s.get ctx e.id = .ok e) ∧
        (∃ (numbers : List VersionNumber) (versions : List Entity),
          numbers.map VersionNumber.value = (List.range' 1 n).reverse ∧
          s.getVersionsList ctx e.id = .ok versions ∧
          numbers.map (s.getVersion ctx e.id) = versions.map .ok) ∧
        ∀ changes now v s', changes.id = e.id → s.update ctx changes now = .ok (v, s') →
          v.value = n + 1 := by
  have hs := h.coherent
  have hrow : s.row? e.id = some e := row?_eq_some.mpr ⟨he, rfl⟩
  refine ⟨(s.history e.id).length, hs.numbered e.id, ?_, fun ctx hc hl => ?_⟩
  · cases hp : e.publication with
    | draft => exact .inl rfl
    | published v =>
      obtain ⟨hv, hm⟩ := hs.published hrow hp
      refine .inr ⟨v, rfl, hv, ?_, hm, fun w hw hn => ?_⟩
      · rw [← hv]; exact v.pos
      · exact hs.eq_of_number hw hm (by rw [hn]; rfl)
  · have hlive : s.live? e.id = some e := live?_eq_some.mpr ⟨he, rfl, hl⟩
    refine ⟨fun v hp => ⟨?_, get_eq_ok hc hlive⟩, ?_, fun changes now v s' hid hu => ?_⟩
    · have hg := hs.getVersion_eq_ok hc hlive (hs.published hrow hp).2
      rwa [restore_record v hp] at hg
    · refine ⟨(s.history e.id).reverse.map (·.number), _, ?_, hs.getVersionsList_eq_ok hc hlive, ?_⟩
      · rw [List.map_map, List.map_reverse, ← hs.numbered]; rfl
      · rw [List.map_map, List.map_map]
        apply List.map_congr_left
        intro v hv
        exact hs.getVersion_eq_ok hc hlive (List.mem_reverse.mp hv)
    · obtain ⟨-, hnext, -⟩ := update_eq_ok.mp hu
      rw [hid] at hnext
      exact hs.nextVersion hnext

theorem version_history_guide : StoreReachable Sample.guideTables ∧
    Sample.guide ∈ Sample.guideTables.entities ∧
    ∃ n, (Sample.guideTables.history Sample.guide.id).map (·.number.value) = List.range' 1 n ∧
      ∃ v, Sample.guide.publication = .published v ∧ v.value = n ∧
        Sample.guideTables.getVersion .background Sample.guide.id v = .ok Sample.guide := by
  have hm : Sample.guide ∈ Sample.guideTables.entities := List.mem_singleton.mpr rfl
  obtain ⟨n, hn, hp, hr⟩ := version_history Sample.reachable_guide hm
  obtain hd | ⟨v, hv, hvn, -⟩ := hp
  · cases hd
  · exact ⟨Sample.reachable_guide, hm, n, hn, v, hv, hvn, ((hr .background rfl rfl).1 v hv).1⟩

end Store

end KnowledgeTree
