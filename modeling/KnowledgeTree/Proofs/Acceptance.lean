import KnowledgeTree.Proofs.Reachable

/-!
When a mutation is accepted, and what an update then changes. Whether a move fits is said with the levels of
the tree: where the new parent lies, and how many levels the moved subtree has.
-/

namespace KnowledgeTree

variable {limits : Limits} {ctx : Context} {sys sys' : System} {s s' : Store} {x p : EntityId}
  {e : Entity} {r : UpdateRequest} {publication : Publication} {d n : Nat} {u : Unit}

namespace Store

/-- The level on which a live entity lies; roots lie on level 1. -/
def HasLevel (s : Store) (x : EntityId) (level : Nat) : Prop :=
  ∃ n, s.Rooted n x ∧ level = n + 1

structure HasHeight (s : Store) (x : EntityId) (height : Nat) : Prop where
  reached : ∃ k a, s.Path none k x a ∧ height = k + 1
  greatest : ∀ k a, s.Path none k x a → k + 1 ≤ height

open Classical in
theorem IsForest.hasHeight (h : s.IsForest d) (hx : s.live? x = some e) :
    ∃ height, s.HasHeight x height := by
  let reaches : Nat → Prop := fun k => ∃ a, s.Path none k x a
  have hzero : reaches 0 := ⟨x, .here (seen_none.trans hx)⟩
  have hspec : reaches (Nat.findGreatest reaches d) := Nat.findGreatest_spec (Nat.zero_le d) hzero
  obtain ⟨a, ha⟩ := hspec
  refine ⟨_, ⟨_, a, ha, rfl⟩, fun k b hk => ?_⟩
  have hle : k ≤ Nat.findGreatest reaches d := Nat.le_findGreatest (h.length_le hk) ⟨b, hk⟩
  omega

def MayHang (s : Store) (limits : Limits) (e : Entity) : Option EntityId → Prop
  | none => e.entityType = .department
  | some p => p.isNil = false ∧ p ≠ e.id ∧ (∀ k, ¬s.Path none (k + 1) e.id p) ∧
      (∃ q, s.live? p = some q ∧ q.entityType = .department) ∧
      ∃ level height, s.HasLevel p level ∧ s.HasHeight e.id height ∧
        level + height ≤ limits.maxDepth + 1

theorem fits_iff {level height : Nat} (hn : s.Rooted n p) (hl : s.HasLevel p level)
    (hh : s.HasHeight x height) :
    level + height ≤ d + 1 ↔ ∀ k a, s.Path none k x a → n + 1 + k ≤ d := by
  obtain ⟨m, hm, rfl⟩ := hl
  obtain rfl := hm.unique hn
  obtain ⟨⟨k, a, hk, rfl⟩, hgreatest⟩ := hh
  constructor
  · intro hle j b hj
    have := hgreatest j b hj
    omega
  · intro hall
    have := hall k a hk
    omega

theorem mayHang_iff (h : s.IsForest limits.maxDepth) (he : s.live? e.id = some e)
    {parent : Option EntityId} : s.MayHang limits e parent ↔
      (∀ p, parent = some p → p.isNil = false) ∧
        s.OpenTo limits.maxDepth e.id e.entityType parent := by
  cases parent with
  | none => simp [MayHang, OpenTo]
  | some p =>
    simp only [MayHang, OpenTo, Option.some.injEq, forall_eq']
    apply and_congr_right'
    constructor
    · rintro ⟨hne, hbelow, ⟨q, hq, hd⟩, level, height, hl, hh, hle⟩
      obtain ⟨n, hn, rfl⟩ := hl
      refine ⟨q, n, hq, hd, hn, fun k hk => ?_, (fits_iff hn ⟨n, hn, rfl⟩ hh).mp hle⟩
      cases k with
      | zero => exact hne hk.eq_of_zero.symm
      | succ k => exact hbelow k hk
    · rintro ⟨q, n, hq, hd, hn, hout, hroom⟩
      obtain ⟨height, hh⟩ := h.hasHeight he
      have hne : p ≠ e.id := by
        rintro rfl
        exact hout 0 (.here (seen_none.trans hq))
      exact ⟨hne, fun k => hout (k + 1), ⟨q, hq, hd⟩, n + 1, height, ⟨n, hn, rfl⟩, hh,
        (fits_iff hn ⟨n, hn, rfl⟩ hh).mpr hroom⟩

end Store

/-! Checks -/

theorem NameRule.clean_eq_ok {rule : NameRule} {name given : String} :
    rule.clean given = .ok name ↔
      Text.trim given ≠ "" ∧ (Text.trim given).length ≤ rule.maxLength ∧ name = Text.trim given := by
  unfold NameRule.clean NameRule.validate NameRule.normalize
  split
  · next h => simp [Except.map, String.isEmpty_iff.mp h]
  · next h =>
    have hne : Text.trim given ≠ "" := fun hnil => h (String.isEmpty_iff.mpr hnil)
    split
    · next hlong => simp [Except.map, Nat.not_le.mpr hlong]
    · next hfits => simp [Except.map, hne, Nat.not_lt.mp hfits, eq_comm (a := name)]

theorem Store.nextVersion_eq_ok {v : VersionNumber} :
    s.nextVersion x = .ok v ↔ v.value = s.lastVersion x + 1 := by
  rcases v with ⟨n, hpos, hlt⟩
  simp only [Store.nextVersion, VersionNumber.ofNat?]
  split
  · next v hv =>
    split at hv
    · cases hv
      simp [eq_comm (a := n)]
    · cases hv
  · next hv =>
    split at hv
    · cases hv
    · next hout => simp; omega

namespace Hierarchy

theorem checkNotSelf_eq_ok :
    checkNotSelf r = .ok u ↔ (r.parentChanged = true → r.parent ≠ some r.id) := by
  unfold checkNotSelf
  split <;> simp_all

theorem checkChildless_alone (hx : s.live? x = some e) :
    checkChildless x (s.walk [x] 2 none .childrenOnly) = .ok u ↔
      ∀ b f, s.live? b = some f → f.parent = some x → b = x := by
  have hself : s.seen none x = some e := Store.seen_none.trans hx
  have hnodup : ((s.walk [x] 2 none .childrenOnly).map (·.item.id)).Nodup := Store.nodup_walk
  have hmem (a : EntityId) : a ∈ (s.walk [x] 2 none .childrenOnly).map (·.item.id) ↔
      ∃ k < 2, s.Path none k x a := by
    simp only [Store.mem_walk_ids, Store.met_children]
  have hlen : checkChildless x (s.walk [x] 2 none .childrenOnly) = .ok u ↔
      ((s.walk [x] 2 none .childrenOnly).map (·.item.id)).length ≤ 1 := by
    unfold checkChildless
    split
    · next hlt => simp [hlt]
    · next hle => simpa using hle
  rw [hlen]
  generalize (s.walk [x] 2 none .childrenOnly).map (·.item.id) = ids at hnodup hmem
  have hx' : x ∈ ids := (hmem x).mpr ⟨0, by omega, .here hself⟩
  constructor
  · intro hle b f hb hp
    have hbm : b ∈ ids :=
      (hmem b).mpr ⟨1, by omega, .child (.here hself) (Store.seen_none.trans hb) hp⟩
    obtain ⟨i, rfl⟩ := List.length_eq_one_iff.mp
      (Nat.le_antisymm hle (List.length_pos_of_mem hx'))
    exact (List.mem_singleton.mp hbm).trans (List.mem_singleton.mp hx').symm
  · intro halone
    have hall : ∀ a ∈ ids, a = x := by
      intro a ha
      obtain ⟨k, hk, hp⟩ := (hmem a).mp ha
      cases hp with
      | here _ => rfl
      | @child j _ q _ f hp hb hl =>
        obtain rfl : j = 0 := by omega
        rw [← hp.eq_of_zero] at hl
        exact halone a f (Store.seen_none.symm.trans hb) hl
    rw [List.eq_replicate_of_mem hall] at hnodup
    exact List.nodup_replicate.mp hnodup

theorem checkChildless_eq_ok (h : s.IsForest d) (hx : s.live? x = some e) :
    checkChildless x (s.walk [x] 2 none .childrenOnly) = .ok u ↔
      ∀ b f, s.live? b = some f → f.parent ≠ some x := by
  have hself : s.seen none x = some e := Store.seen_none.trans hx
  obtain ⟨n, -, hr⟩ := h.rooted hx
  rw [checkChildless_alone hx]
  constructor
  · intro halone b f hb hp
    obtain rfl := halone b f hb hp
    exact hr.not_cycle (.child (.here hself) (Store.seen_none.trans hb) hp)
  · intro hleaf b f hb hp
    exact absurd hp (hleaf b f hb)

theorem newParent_accepts (h : sys.store.IsForest limits.maxDepth) (hc : ctx.isDone = false)
    (he : sys.store.live? r.id = some e) {name : String} :
    (newParent limits r e.listItem).run ctx sys = (.ok (changes r name).parent, sys) ↔
      (r.parentChanged = true → (∀ p, r.parent = some p → p.isNil = false) ∧
        sys.store.OpenTo limits.maxDepth e.id e.entityType r.parent) := by
  have he' : sys.store.live? e.id = some e := by rwa [(Store.live?_eq_some.mp he).2.1]
  rw [newParent_eq_ok h he']
  simp only [hc, and_true, true_and]
  exact and_iff_right rfl

theorem hasNewParent_of_openTo {name : String}
    (h : r.parentChanged = true → s.OpenTo d e.id e.entityType r.parent) :
    s.hasNewParent (changes r name) = true := by
  unfold Store.hasNewParent
  split
  · next p hp =>
    have hmove : r.parentChanged = true ∧ r.parent = some p := by simpa [changes] using hp
    have ho := h hmove.1
    rw [hmove.2] at ho
    obtain ⟨q, n, hq, -⟩ := ho
    obtain ⟨hm, rfl, -⟩ := Store.live?_eq_some.mp hq
    simpa [Store.ids] using ⟨q, hm, rfl⟩
  · rfl

end Hierarchy

/-! Updates -/

structure UpdateRequest.Legal (r : UpdateRequest) (limits : Limits) (s : Store) : Prop where
  id : r.id.isNil = false
  user : r.user.isNil = false
  name : Text.trim r.name ≠ ""
  length : (Text.trim r.name).length ≤ limits.maxNameLength
  place : ∃ e, s.live? r.id = some e ∧ (r.parentChanged = true → s.MayHang limits e r.parent)
  leaf : r.isDraft = true → ∀ b f, s.live? b = some f → f.parent ≠ some r.id

def UpdateRequest.rewrite (r : UpdateRequest) (publication : Publication) (now : Time)
    (e : Entity) : Entity :=
  { e with
    name := Text.trim r.name
    content := r.content
    parent := if r.parentChanged then r.parent else e.parent
    updatedBy := r.user
    publication := publication
    updatedAt := now }

structure UpdateRequest.Effect (r : UpdateRequest) (now : Time) (publication : Publication)
    (e : Entity) (s s' : Store) : Prop where
  live : s.live? r.id = some e
  entities : s'.entities = s.entities.map fun f =>
    if f.id = r.id then r.rewrite publication now f else f
  draft : r.isDraft = true → publication = .draft ∧ s'.versions = s.versions
  published : r.isDraft = false → ∃ v, publication = .published v ∧
    v.value = s.lastVersion r.id + 1 ∧
    s'.versions = s.versions ++ [(r.rewrite publication now e).record v]
  roles : s'.roles = s.roles
  grants : s'.grants = s.grants

theorem edit_changes (r : UpdateRequest) (publication : Publication) (now : Time) (e : Entity) :
    e.edit (Hierarchy.changes r (Text.trim r.name)) publication now =
      r.rewrite publication now e := by
  unfold Entity.edit Hierarchy.changes UpdateRequest.rewrite
  split <;> rfl

theorem entities_rewritten (hx : s.live? r.id = some e) (now : Time) :
    (s.adjust (·.id == r.id)
      (Entity.edit (Hierarchy.changes r (Text.trim r.name)) publication now)).entities =
        s.entities.map fun f => if f.id = r.id then r.rewrite publication now f else f := by
  obtain ⟨hm, hid, hl⟩ := Store.live?_eq_some.mp hx
  refine List.map_congr_left fun f hf => ?_
  split
  · next heq =>
    -- ids are unique, so the row is the live one
    obtain rfl : f = e := Store.eq_of_id_eq hf hm (heq.trans hid.symm)
    rw [Store.adjusted_of_pos hl (by simpa using heq), edit_changes]
    rfl
  · next hne => rw [Store.adjusted_of_neg (by simpa using hne)]

def CreateRequest.row (r : CreateRequest) (id : EntityId) (now : Time) : Entity where
  id := id
  entityType := r.entityType
  name := Text.trim r.name
  content := r.content
  parent := r.parent
  createdBy := r.user
  updatedBy := r.user
  publication := if r.isDraft then .draft else .published .first
  createdAt := now
  updatedAt := now
  deletedAt := none

namespace Hierarchy

theorem added_row {r : CreateRequest} {id : EntityId}
    (hc : create limits ctx r sys = (.ok id, sys')) :
    sys.store.Added sys'.store (r.row id sys.clock.now) := by
  obtain ⟨name, hname, -, -, -, hwrite⟩ := create_cases hc
  obtain ⟨-, -, rfl⟩ := NameRule.clean_eq_ok.mp hname
  have hrow : Entity.make (newEntity r (Text.trim r.name)) id
      (if r.isDraft then .draft else .published .first) sys.clock.now =
        r.row id sys.clock.now := rfl
  rw [← hrow]
  split at hwrite
  · next hd =>
    rw [if_pos hd]
    exact Store.added_of_createDraft hwrite
  · next hd =>
    rw [if_neg hd]
    exact Store.added_of_create hwrite

theorem edited_row (hu : update limits ctx r sys = (.ok publication, sys')) : ∃ e,
    sys.store.live? r.id = some e ∧ publication.isDraft = r.isDraft ∧
      sys.store.Edited sys'.store e (r.rewrite publication sys.clock.now e) := by
  obtain ⟨name, e, hname, -, -, -, he, -, hwrite⟩ := update_cases hu
  obtain ⟨-, -, rfl⟩ := NameRule.clean_eq_ok.mp hname
  refine ⟨e, he, ?_⟩
  rw [← edit_changes]
  split at hwrite
  · next hd =>
    obtain ⟨-, rfl, hw⟩ := hwrite
    exact ⟨hd.symm, Store.edited_of_updateDraft hw he⟩
  · next hd =>
    obtain ⟨v, rfl, hw⟩ := hwrite
    exact ⟨(Bool.eq_false_iff.mpr hd).symm, Store.edited_of_update hw he⟩

theorem effect_of_update (hu : update limits ctx r sys = (.ok publication, sys')) :
    sys'.ids = sys.ids ∧ sys'.clock = sys.clock.read.2 ∧
      ∃ e, r.Effect sys.clock.now publication e sys.store sys'.store := by
  obtain ⟨-, -, -, -, name, e, s', hname, he, -, rfl, hwrite⟩ := update_eq_ok.mp hu
  obtain ⟨-, -, rfl⟩ := NameRule.clean_eq_ok.mp hname
  refine ⟨rfl, rfl, e, ?_⟩
  split at hwrite
  · next hd =>
    obtain ⟨-, rfl, hw⟩ := hwrite
    obtain ⟨-, -, -, -, rfl⟩ := Store.updateDraft_eq_ok.mp hw
    refine ⟨he, entities_rewritten he _, fun _ => ⟨rfl, rfl⟩, fun hp => ?_, rfl, rfl⟩
    rw [hd] at hp
    cases hp
  · next hd =>
    obtain ⟨v, rfl, hw⟩ := hwrite
    obtain ⟨-, hv, f, hf, -, rfl⟩ := Store.update_eq_ok.mp hw
    obtain rfl : e = f := Option.some.inj (he.symm.trans hf)
    refine ⟨he, entities_rewritten he _, fun hp => absurd hp hd, fun _ => ?_, rfl, rfl⟩
    refine ⟨v, rfl, Store.nextVersion_eq_ok.mp hv, ?_⟩
    rw [← edit_changes]
    rfl

theorem legal_of_update (h : sys.store.IsForest limits.maxDepth)
    (hu : update limits ctx r sys = (.ok publication, sys')) : r.Legal limits sys.store := by
  obtain ⟨hid, huser, hc, -, name, e, s', hname, he, hparent, -, hwrite⟩ := update_eq_ok.mp hu
  obtain ⟨hne, hlen, -⟩ := NameRule.clean_eq_ok.mp hname
  have he' : sys.store.live? e.id = some e := by rwa [(Store.live?_eq_some.mp he).2.1]
  have hplace := (newParent_accepts h hc he).mp hparent
  refine ⟨hid, huser, hne, hlen, ⟨e, he, fun hm => (Store.mayHang_iff h he').mpr (hplace hm)⟩, ?_⟩
  intro hd
  rw [if_pos hd] at hwrite
  exact (checkChildless_eq_ok h he).mp hwrite.1

theorem create_succeeds {r : CreateRequest} :
    (∃ id sys', create limits ctx r sys = (.ok id, sys')) ↔
      ctx.isDone = false ∧ r.user.isNil = false ∧ Text.trim r.name ≠ "" ∧
      (Text.trim r.name).length ≤ limits.maxNameLength ∧
      (checkPlace limits r.entityType r.parent).run ctx sys = (.ok (), sys) ∧
      ∃ id, sys.ids.take.1 = .ok id ∧ id ∉ sys.store.ids ∧
        ∀ p, r.parent = some p → p = id ∨ p ∈ sys.store.ids := by
  constructor
  · rintro ⟨id, sys', hcreate⟩
    obtain ⟨name, s', hname, huser, hplace, hid, -, hwrite⟩ := create_eq_ok.mp hcreate
    obtain ⟨hne, hlen, -⟩ := NameRule.clean_eq_ok.mp hname
    split at hwrite
    · obtain ⟨hc, ht⟩ := Store.createDraft_eq_ok.mp hwrite
      obtain ⟨hfresh, hparent, -⟩ := Store.insert_eq_ok.mp ht
      exact ⟨hc, huser, hne, hlen, hplace, id, hid, hfresh, hparent⟩
    · obtain ⟨hc, t, ht, -⟩ := Store.create_eq_ok.mp hwrite
      obtain ⟨hfresh, hparent, -⟩ := Store.insert_eq_ok.mp ht
      exact ⟨hc, huser, hne, hlen, hplace, id, hid, hfresh, hparent⟩
  · rintro ⟨hc, huser, hne, hlen, hplace, id, hid, hfresh, hparent⟩
    have hname : limits.nameRule.clean r.name = .ok (Text.trim r.name) :=
      NameRule.clean_eq_ok.mpr ⟨hne, hlen, rfl⟩
    have hinsert (operation : String) (publication : Publication) : ∃ t, sys.store.insert operation
        (Entity.make (newEntity r (Text.trim r.name)) id publication sys.clock.now) = .ok t :=
      Store.insert_of_fresh hfresh hparent
    have hwrite : ∃ s', if r.isDraft then
        sys.store.createDraft ctx (newEntity r (Text.trim r.name)) id sys.clock.now = .ok s'
      else sys.store.create ctx (newEntity r (Text.trim r.name)) id sys.clock.now = .ok s' := by
      split
      · obtain ⟨t, ht⟩ := hinsert "create_draft" .draft
        exact ⟨t, Store.createDraft_eq_ok.mpr ⟨hc, ht⟩⟩
      · obtain ⟨t, ht⟩ := hinsert "create" (.published .first)
        exact ⟨_, Store.create_eq_ok.mpr ⟨hc, t, ht, rfl⟩⟩
    obtain ⟨s', hs'⟩ := hwrite
    exact ⟨id, _, create_eq_ok.mpr ⟨_, s', hname, huser, hplace, hid, rfl, hs'⟩⟩

theorem update_succeeds :
    (∃ publication sys', update limits ctx r sys = (.ok publication, sys')) ↔
      ctx.isDone = false ∧ r.id.isNil = false ∧ r.user.isNil = false ∧ Text.trim r.name ≠ "" ∧
      (Text.trim r.name).length ≤ limits.maxNameLength ∧ checkNotSelf r = .ok () ∧
      (r.isDraft = false → sys.store.lastVersion r.id + 1 < 4294967296) ∧
      ∃ e, sys.store.live? r.id = some e ∧
        (newParent limits r e.listItem).run ctx sys =
          (.ok (changes r (Text.trim r.name)).parent, sys) ∧
        sys.store.hasNewParent (changes r (Text.trim r.name)) = true ∧
        (r.isDraft = true →
          checkChildless r.id (sys.store.walk [r.id] 2 none .childrenOnly) = .ok ()) := by
  constructor
  · rintro ⟨publication, sys', hu⟩
    obtain ⟨hid, huser, hc, hself, name, e, s', hname, he, hparent, -, hwrite⟩ :=
      update_eq_ok.mp hu
    obtain ⟨hne, hlen, rfl⟩ := NameRule.clean_eq_ok.mp hname
    refine ⟨hc, hid, huser, hne, hlen, hself, ?_⟩
    split at hwrite
    · next hd =>
      obtain ⟨hleaf, -, hw⟩ := hwrite
      obtain ⟨-, -, -, hnew, -⟩ := Store.updateDraft_eq_ok.mp hw
      exact ⟨fun hpublish => absurd hpublish (by simp [hd]), e, he, hparent, hnew, fun _ => hleaf⟩
    · next hd =>
      obtain ⟨v, -, hw⟩ := hwrite
      obtain ⟨-, hnext, -, -, hnew, -⟩ := Store.update_eq_ok.mp hw
      exact ⟨fun _ => Store.nextVersion_eq_ok.mp hnext ▸ v.lt, e, he, hparent, hnew,
        fun hdraft => absurd hdraft hd⟩
  · rintro ⟨hc, hid, huser, hne, hlen, hself, hv, e, he, hparent, hnew, hleaf⟩
    have hname : limits.nameRule.clean r.name = .ok (Text.trim r.name) :=
      NameRule.clean_eq_ok.mpr ⟨hne, hlen, rfl⟩
    cases hd : r.isDraft with
    | true =>
      obtain ⟨s', hw⟩ : ∃ s', sys.store.updateDraft ctx (changes r (Text.trim r.name))
          sys.clock.now = .ok s' := ⟨_, Store.updateDraft_eq_ok.mpr ⟨hc, e, he, hnew, rfl⟩⟩
      refine ⟨.draft, ⟨s', _, _⟩, update_eq_ok.mpr
        ⟨hid, huser, hc, hself, _, e, s', hname, he, hparent, rfl, ?_⟩⟩
      rw [if_pos hd]
      exact ⟨hleaf hd, rfl, hw⟩
    | false =>
      obtain ⟨v, hnext⟩ : ∃ v, sys.store.nextVersion r.id = .ok v :=
        ⟨⟨sys.store.lastVersion r.id + 1, by omega, hv hd⟩, Store.nextVersion_eq_ok.mpr rfl⟩
      obtain ⟨s', hw⟩ : ∃ s', sys.store.update ctx (changes r (Text.trim r.name)) sys.clock.now =
          .ok (v, s') := ⟨_, Store.update_eq_ok.mpr ⟨hc, hnext, e, he, hnew, rfl⟩⟩
      refine ⟨.published v, ⟨s', _, _⟩, update_eq_ok.mpr
        ⟨hid, huser, hc, hself, _, e, s', hname, he, hparent, rfl, ?_⟩⟩
      rw [if_neg (by simp [hd])]
      exact ⟨v, rfl, hw⟩

theorem update_of_legal (h : sys.store.IsForest limits.maxDepth) (hc : ctx.isDone = false)
    (hv : r.isDraft = false → sys.store.lastVersion r.id + 1 < 4294967296)
    (hr : r.Legal limits sys.store) :
    ∃ publication sys', update limits ctx r sys = (.ok publication, sys') := by
  obtain ⟨hid, huser, hne, hlen, ⟨e, he, hplace⟩, hleaf⟩ := hr
  have heid : e.id = r.id := (Store.live?_eq_some.mp he).2.1
  have he' : sys.store.live? e.id = some e := by rwa [heid]
  have hopen (hm : r.parentChanged = true) := (Store.mayHang_iff h he').mp (hplace hm)
  have hself : checkNotSelf r = .ok () := by
    refine checkNotSelf_eq_ok.mpr fun hm hp => ?_
    have ho := (hopen hm).2
    rw [hp] at ho
    obtain ⟨q, n, hq, -, -, hout, -⟩ := ho
    apply hout 0
    rw [heid]
    exact .here (Store.seen_none.trans he)
  have hparent : (newParent limits r e.listItem).run ctx sys =
      (.ok (changes r (Text.trim r.name)).parent, sys) := (newParent_accepts h hc he).mpr hopen
  have hnew : sys.store.hasNewParent (changes r (Text.trim r.name)) = true :=
    hasNewParent_of_openTo fun hm => (hopen hm).2
  exact update_succeeds.mpr ⟨hc, hid, huser, hne, hlen, hself, hv, e, he, hparent, hnew,
    fun hd => (checkChildless_eq_ok h he).mpr (hleaf hd)⟩

/-- In reachable tables an update succeeds just if it is legal. It then rewrites one row, and adds
one version unless it makes a draft; nothing else changes. -/
theorem update_accepts_legal (h : CoreReachable limits sys.store) (hc : ctx.isDone = false)
    (hv : r.isDraft = false → sys.store.lastVersion r.id + 1 < 4294967296) :
    ((∃ publication sys', update limits ctx r sys = (.ok publication, sys')) ↔
      r.Legal limits sys.store) ∧
    ∀ publication sys', update limits ctx r sys = (.ok publication, sys') →
      sys'.ids = sys.ids ∧ sys'.clock = sys.clock.read.2 ∧
        ∃ e, r.Effect sys.clock.now publication e sys.store sys'.store := by
  refine ⟨⟨?_, update_of_legal h.isForest hc hv⟩, fun publication sys' => effect_of_update⟩
  rintro ⟨publication, sys', hu⟩
  exact legal_of_update h.isForest hu

end Hierarchy

namespace Sample

def tangle : UpdateRequest where
  id := library.id
  name := "Library"
  parentChanged := true
  parent := some shelf.id
  user := author

def unhook : UpdateRequest where
  id := shelf.id
  name := " Shelves "
  parentChanged := true
  user := author

theorem legal_unhook : unhook.Legal {} tables where
  id := by decide
  user := by decide
  name := by decide +kernel
  length := by decide +kernel
  place := ⟨shelf, by decide +kernel, fun _ => rfl⟩
  leaf := by rintro ⟨⟩

theorem not_legal_tangle : ¬tangle.Legal {} tables := by
  rintro ⟨-, -, -, -, ⟨e, he, hplace⟩, -⟩
  obtain rfl : library = e := Option.some.inj ((by decide +kernel : tables.live? library.id =
    some library).symm.trans he)
  obtain ⟨-, -, hout, -⟩ := hplace rfl
  have hlibrary : tables.seen none library.id = some library := by decide +kernel
  have hshelf : tables.seen none shelf.id = some shelf := by decide +kernel
  exact hout 0 (.child (.here hlibrary) hshelf rfl)

end Sample

namespace Hierarchy

theorem update_accepts_legal_shelf : CoreReachable {} Sample.tables ∧
    (∃ publication sys', update {} .background Sample.unhook { store := Sample.tables } =
      (.ok publication, sys')) ∧
    ¬∃ publication sys', update {} .background Sample.tangle { store := Sample.tables } =
      (.ok publication, sys') := by
  have h : CoreReachable {} ({ store := Sample.tables } : System).store := Sample.reachable_tables
  have hlive : Context.background.isDone = false := rfl
  have hunhook := update_accepts_legal (r := Sample.unhook) h hlive fun _ => by decide +kernel
  have htangle := update_accepts_legal (r := Sample.tangle) h hlive fun _ => by decide +kernel
  exact ⟨h, hunhook.1.mpr Sample.legal_unhook, fun hu => Sample.not_legal_tangle (htangle.1.mp hu)⟩

end Hierarchy

end KnowledgeTree
