import KnowledgeTree.Proofs.Agreement
import KnowledgeTree.Proofs.Failure
import KnowledgeTree.Proofs.History

/-!
What stays, whatever is done to the tables. Version records are only ever appended, a row keeps who
created it and when, and the row of a deleted entity does not change any more. So what was read of a
version is read again, and an entity that was deleted is out of reach for good.
-/

namespace KnowledgeTree

variable {α : Type} {limits : Limits} {ctx ctx' : Context} {sys : System} {s s' t : Store}
  {id : EntityId} {e e' f : Entity}

/-! Runs of operations -/

/-- A relation that chains, and that each request and each change of roles and grants keeps to, holds
from before to after any operation. -/
theorem Operation.run_induction {R : Store → Store → Prop} (refl : ∀ s, R s s)
    (trans : ∀ s t u, R s t → R t u → R s u)
    (answer : ∀ {β : Type} (sys : System) (ctx : Context) (r : Request β),
      R sys.store (sys.answer ctx r).2.store)
    (roles : ∀ s t : Store, t.entities = s.entities → t.versions = s.versions → R s t)
    (op : Operation α) : R sys.store (op.run limits ctx sys).2.store := by
  have script : ∀ {β : Type} (x : Script β) (sys : System), R sys.store (x.run ctx sys).2.store := by
    intro β x
    induction x with
    | done result => exact fun sys => refl _
    | ask r next ih =>
      intro sys
      have hanswer := answer sys ctx r
      rw [Script.run]
      rcases hr : sys.answer ctx r with ⟨result, mid⟩
      rw [hr] at hanswer
      cases result with
      | ok b => exact trans _ _ _ hanswer (ih b mid)
      | error e => exact hanswer
  have guarded : ∀ {β : Type} (permission : Except Error Unit) (x : Script β),
      R sys.store (Service.guarded permission (x.run ctx) sys).2.store := by
    intro β permission x
    cases permission with
    | ok _ => exact script x sys
    | error e => exact refl _
  cases op with
  | query q => exact refl _
  | primitive r => exact answer sys ctx r
  | upsertRole name isAdmin =>
    rw [run]
    cases hr : sys.store.upsertRole ctx name isAdmin with
    | error e => exact refl _
    | ok t =>
      obtain ⟨-, -, rfl⟩ := Store.upsertRole_eq_ok.mp hr
      exact roles _ _ rfl rfl
  | grant role entity capability =>
    rw [run]
    cases hr : sys.store.grant ctx role entity capability with
    | error e => exact refl _
    | ok t =>
      obtain ⟨-, -, -, rfl⟩ := Store.grant_eq_ok.mp hr
      refine roles _ _ ?_ ?_ <;> exact apply_ite _ _ _ _ |>.trans (ite_self _)
  | revoke role entity capability =>
    rw [run]
    cases hr : sys.store.revoke ctx role entity capability with
    | error e => exact refl _
    | ok p =>
      obtain ⟨found, t⟩ := p
      obtain ⟨-, -, rfl⟩ := Store.revoke_eq_ok.mp hr
      exact roles _ _ rfl rfl
  | core m => cases m <;> exact script _ sys
  | create caller input => exact guarded _ _
  | update caller id input => exact guarded _ _
  | delete caller id => exact guarded _ _

/-- Tables that operations of any layer lead to, under any limits and contexts, with the clock and
the supply of ids anywhere before each of them. -/
inductive Later (s : Store) : Store → Prop
  | here : Later s s
  | step {α : Type} {sys : System} (h : Later s sys.store) (limits : Limits) (ctx : Context)
      (op : Operation α) : Later s (op.run limits ctx sys).2.store

theorem Later.relation {R : Store → Store → Prop} (refl : ∀ s, R s s)
    (trans : ∀ s t u, R s t → R t u → R s u)
    (answer : ∀ {β : Type} (sys : System) (ctx : Context) (r : Request β),
      R sys.store (sys.answer ctx r).2.store)
    (roles : ∀ s t : Store, t.entities = s.entities → t.versions = s.versions → R s t)
    (h : Later s s') : R s s' := by
  induction h with
  | here => exact refl _
  | step _ limits ctx op ih => exact trans _ _ _ ih (op.run_induction refl trans answer roles)

namespace Store

/-! What carries on -/

structure Continues (s s' : Store) : Prop where
  versions : s.versions <+: s'.versions
  row : ∀ {id e}, s.row? id = some e → ∃ e', s'.row? id = some e' ∧ e'.createdBy = e.createdBy ∧
    e'.createdAt = e.createdAt ∧ (e.isLive = false → e' = e)

namespace Continues

theorem of_eq (he : s'.entities = s.entities) (hv : s'.versions = s.versions) : s.Continues s' where
  versions := hv ▸ List.prefix_rfl
  row {id e} h := ⟨e, by rw [row?, he]; exact h, rfl, rfl, fun _ => rfl⟩

theorem refl (s : Store) : s.Continues s := of_eq rfl rfl

theorem trans (h : s.Continues s') (h' : s'.Continues t) : s.Continues t where
  versions := h.versions.trans h'.versions
  row {id e} he := by
    obtain ⟨e', he', hb, ha, hd⟩ := h.row he
    obtain ⟨e'', he'', hb', ha', hd'⟩ := h'.row he'
    refine ⟨e'', he'', hb'.trans hb, ha'.trans ha, fun hl => ?_⟩
    obtain rfl := hd hl
    exact hd' hl

theorem write (hr : ∀ b, s'.row? b = if b = f.id then some f else s.row? b)
    (hv : s.versions <+: s'.versions)
    (hf : ∀ e, s.row? f.id = some e → f.createdBy = e.createdBy ∧ f.createdAt = e.createdAt ∧
      e.isLive = true) : s.Continues s' := by
  refine ⟨hv, fun {id e} he => ?_⟩
  rw [hr]
  split
  · next hid =>
    subst hid
    obtain ⟨hb, ha, hl⟩ := hf e he
    refine ⟨f, rfl, hb, ha, fun hd => ?_⟩
    rw [hl] at hd
    cases hd
  · exact ⟨e, he, rfl, rfl, fun _ => rfl⟩

theorem added (ha : Added s s' e) : s.Continues s' := by
  refine write (fun b => row?_append ha.entities ha.fresh) ⟨_, ha.versions.symm⟩ fun f hf => ?_
  rw [row?_eq_none.mpr ha.fresh] at hf
  cases hf

theorem edited {changes : EntityChanges} {publication : Publication} {now : Time}
    (he : Edited s s' e (e.edit changes publication now)) : s.Continues s' := by
  refine write (f := e.edit changes publication now) he.rows ⟨_, he.versions.symm⟩ fun f hf => ?_
  obtain ⟨hm, hid, hl⟩ := live?_eq_some.mp he.live
  have hef : s.row? e.id = some e := row?_eq_some.mpr ⟨hm, hid⟩
  cases hef.symm.trans hf
  exact ⟨rfl, rfl, hl⟩

theorem delete (p : Entity → Bool) (now : Time) :
    s.Continues (s.adjust p fun e => { e with deletedAt := some now }) where
  versions := List.prefix_rfl
  row {id e} he := by
    refine ⟨_, by rw [row?_adjust, he]; rfl, ?_, ?_, adjusted_of_dead⟩
    all_goals unfold adjusted; split <;> rfl

theorem step (h : s.Answered s') : s.Continues s' := by
  cases h with
  | same => exact refl s
  | added hadd _ => exact added hadd
  | edited hedit _ => exact edited hedit
  | deleted targets now => exact delete _ now

theorem answer (sys : System) (ctx : Context) (r : Request α) :
    sys.store.Continues (sys.answer ctx r).2.store :=
  step (sys.answered ctx r)

end Continues

theorem Coherent.congr (h : s.Coherent) (he : s'.entities = s.entities)
    (hv : s'.versions = s.versions) : s'.Coherent := by
  have hr : ∀ b, s'.row? b = s.row? b := fun b => by rw [row?, he]; rfl
  have hh : ∀ b, s'.history b = s.history b := fun b => by rw [history, hv]; rfl
  constructor
  · intro b hb
    rw [hr] at hb
    rw [hh, h.owned b hb]
  · intro b
    rw [hh, h.numbered b]
  · intro b e n hb hp
    rw [hr] at hb
    rw [hh, h.current b e n hb hp]

end Store

theorem Later.continues (h : Later s s') : s.Continues s' :=
  h.relation .refl (fun _ _ _ => .trans) .answer fun _ _ => .of_eq

theorem Later.coherent (h : Later s s') (hs : s.Coherent) : s'.Coherent :=
  h.relation (R := fun s s' => s.Coherent → s'.Coherent) (fun _ => id) (fun _ _ _ h h' => h' ∘ h)
    (fun _ ctx r h => h.answer ctx r) (fun _ _ he hv h => h.congr he hv) hs

namespace Store

/-! Reading a version again -/

theorem getVersion_cases {n : VersionNumber} (h : s.getVersion ctx id n = .ok e) :
    ∃ f v, s.live? id = some f ∧ v ∈ s.history id ∧ v.number = n ∧ e = v.restore f := by
  simp only [getVersion, Except.bind_eq_ok, Context.check_eq_ok, exists_const, find_eq_ok] at h
  obtain ⟨-, f, hf, h⟩ := h
  split at h
  · next v hv =>
    cases h
    have hvn := List.find?_some hv
    simp only [Bool.and_eq_true, beq_iff_eq] at hvn
    exact ⟨f, v, hf, mem_history.mpr ⟨List.mem_of_find?_eq_some hv, hvn.1⟩, hvn.2, rfl⟩
  · cases h

theorem Continues.history (h : s.Continues s') {v : Version} (hv : v ∈ s.history id) :
    v ∈ s'.history id := by
  obtain ⟨hm, hid⟩ := mem_history.mp hv
  exact mem_history.mpr ⟨h.versions.subset hm, hid⟩

theorem Continues.restore (h : s.Continues s') (hf : s.live? id = some f)
    (he : s'.live? id = some e) (v : Version) : v.restore e = v.restore f := by
  obtain ⟨hfm, hfid, hfl⟩ := live?_eq_some.mp hf
  obtain ⟨hem, heid, hel⟩ := live?_eq_some.mp he
  obtain ⟨e', he', hb, ha, -⟩ := h.row (row?_eq_some.mpr ⟨hfm, hfid⟩)
  cases he'.symm.trans (row?_eq_some.mpr ⟨hem, heid⟩)
  have hd : e.deletedAt = f.deletedAt :=
    (Option.isNone_iff_eq_none.mp hel).trans (Option.isNone_iff_eq_none.mp hfl).symm
  rw [Version.restore, Version.restore, hb, ha, hd]

theorem Continues.getVersion (h : s.Continues s') (hs : s'.Coherent) {n : VersionNumber}
    (hg : s.getVersion ctx id n = .ok e) (hc : ctx'.isDone = false) (he : s'.live? id = some e') :
    s'.getVersion ctx' id n = .ok e := by
  obtain ⟨f, v, hf, hv, rfl, rfl⟩ := getVersion_cases hg
  rw [hs.getVersion_eq_ok hc he (h.history hv), h.restore hf he]

/-! Deletion -/

def Deleted (s : Store) (id : EntityId) : Prop := ∃ e, s.row? id = some e ∧ e.isLive = false

theorem Deleted.live? (h : s.Deleted id) : s.live? id = none := by
  obtain ⟨e, he, hl⟩ := h
  rw [Store.live?, he, Option.filter_some, hl]
  rfl

theorem Continues.deleted (h : s.Continues s') (hd : s.Deleted id) : s'.Deleted id := by
  obtain ⟨e, he, hl⟩ := hd
  obtain ⟨e', he', -, -, heq⟩ := h.row he
  exact ⟨e', he', by rw [heq hl, hl]⟩

theorem live?_of_not_deleted (h : s.row? id = some e) (hd : ¬s.Deleted id) :
    s.live? id = some e := by
  cases hl : e.isLive with
  | true => rw [live?, h, Option.filter_some, hl, if_pos rfl]
  | false => exact absurd ⟨e, h, hl⟩ hd

/-- An entity out of reach: nothing finds it, writes to it, takes its id, hangs below it or lists
it. A publication looks for a free version number before it looks for the row. -/
structure Gone (s : Store) (id : EntityId) : Prop where
  get : ∀ ctx, ctx.isDone = false → s.get ctx id = .error (.entityNotFound id)
  getListItem : ∀ ctx, ctx.isDone = false → s.getListItem ctx id = .error (.entityNotFound id)
  getVersion : ∀ ctx n, ctx.isDone = false → s.getVersion ctx id n = .error (.entityNotFound id)
  getVersionsList : ∀ ctx, ctx.isDone = false →
    s.getVersionsList ctx id = .error (.entityNotFound id)
  update : ∀ ctx changes now, ctx.isDone = false → changes.id = id →
    s.update ctx changes now = .error (if (s.history id).length + 1 < 4294967296
      then .entityNotFound id
      else .store "update" s!"Integer {(s.history id).length + 1} out of range at index 0")
  updateDraft : ∀ ctx changes now, ctx.isDone = false → changes.id = id →
    s.updateDraft ctx changes now = .error (.entityNotFound id)
  create : ∀ ctx new now, s.create ctx new id now =
    .error (if ctx.isDone then .cancelled else uniqueFailed "create")
  createDraft : ∀ ctx new now, s.createDraft ctx new id now =
    .error (if ctx.isDone then .cancelled else uniqueFailed "create_draft")
  child : ∀ limits ctx (r : CreateRequest) name sys, sys.store = s → ctx.isDone = false →
    r.user.isNil = false → limits.nameRule.clean r.name = .ok name → id.isNil = false →
    r.parent = some id → (Hierarchy.create limits ctx r sys).1 = .error (.parentNotFound id)
  getAll : ∀ ctx items, s.getAll ctx = .ok items → id ∉ items.map ListItem.id
  getHierarchy : ∀ ctx seeds bound viewer direction items,
    s.getHierarchy ctx seeds bound viewer direction = .ok items → id ∉ items.map (·.item.id)
  directPermissions : ∀ ctx role capability direct,
    s.directPermissions ctx role capability = .ok direct → id ∉ direct.entityIds

theorem not_mem_walk (h : s.live? id = none) (seeds : List EntityId) (bound : Nat)
    (viewer : Option UserId) (direction : Direction) :
    id ∉ (s.walk seeds bound viewer direction).map (·.item.id) := by
  rw [mem_walk_ids]
  rintro ⟨k, -, hk⟩
  obtain ⟨e, he⟩ := hk.visible
  rw [live?_of_seen he] at h
  cases h

theorem parentChain_of_missing (h : sys.store.live? id = none) (hc : ctx.isDone = false) :
    (Hierarchy.parentChain limits id).run ctx sys = (.error (.parentNotFound id), sys) := by
  have hchain : sys.store.walk [id] limits.probeDepth none .parentsOnly = [] := by
    rw [← List.map_eq_nil_iff (f := (·.item.id)), List.eq_nil_iff_forall_not_mem]
    intro a ha
    obtain ⟨k, -, hk⟩ := mem_walk_ids.mp ha
    obtain ⟨e, he⟩ := (met_parents.mp hk).bottom
    rw [seen_none, h] at he
    cases he
  have hwalk : (Script.request (.walk [id] limits.probeDepth .parentsOnly)).run ctx sys =
      (.ok [], sys) := by
    rw [Script.run_request]
    exact System.answer_walk_eq_ok.mpr ⟨rfl, hc, hchain.symm⟩
  exact (Script.run_bind_of_ok hwalk _).trans (Script.run_bind_of_error rfl _)

theorem create_under (h : sys.store.live? id = none) (hc : ctx.isDone = false)
    {r : CreateRequest} {name : String} (hu : r.user.isNil = false)
    (hn : limits.nameRule.clean r.name = .ok name) (hid : id.isNil = false)
    (hr : r.parent = some id) :
    (Hierarchy.create limits ctx r sys).1 = .error (.parentNotFound id) := by
  have huser : r.user.require = .ok () := Hierarchy.requireUser_eq_ok.mpr hu
  have hparent : id.require "parent_id" = .ok () := Hierarchy.require_eq_ok.mpr hid
  have hplace : (Hierarchy.checkPlace limits r.entityType r.parent).run ctx sys =
      (.error (.parentNotFound id), sys) := by
    rw [hr]
    exact (Script.run_bind_of_ok (Script.run_check_eq_ok.mpr ⟨hparent, rfl⟩) _).trans
      (Script.run_bind_of_error (parentChain_of_missing h hc) _)
  rw [Hierarchy.create, Hierarchy.createScript,
    Script.run_bind_of_ok (Script.run_check_eq_ok.mpr ⟨huser, rfl⟩),
    Script.run_bind_of_ok (Script.run_check_eq_ok.mpr ⟨hn, rfl⟩), Script.run_bind_of_error hplace]

theorem Coherent.nextVersion_eq (h : s.Coherent) (id : EntityId) : s.nextVersion id =
    if hn : (s.history id).length + 1 < 4294967296 then .ok ⟨_, Nat.succ_pos _, hn⟩
    else .error (.store "update" s!"Integer {(s.history id).length + 1} out of range at index 0") := by
  simp only [Store.nextVersion, h.lastVersion, VersionNumber.ofNat?]
  by_cases hn : (s.history id).length + 1 < 4294967296
  · rw [dif_pos hn, dif_pos ⟨Nat.succ_pos _, hn⟩]
  · rw [dif_neg hn, dif_neg fun h => hn h.2]

theorem edit_missing {operation : String} {changes : EntityChanges} {publication : Publication}
    {now : Time} (h : s.live? changes.id = none) :
    s.edit operation changes publication now = .error (.entityNotFound changes.id) := by
  rw [edit, h]

theorem Coherent.update_missing {changes : EntityChanges} (hs : s.Coherent)
    (h : s.live? changes.id = none) (hc : ctx.isDone = false) (now : Time) :
    s.update ctx changes now = .error (if (s.history changes.id).length + 1 < 4294967296
      then .entityNotFound changes.id
      else .store "update"
        s!"Integer {(s.history changes.id).length + 1} out of range at index 0") := by
  rw [update, Context.check_live hc, hs.nextVersion_eq]
  by_cases hn : (s.history changes.id).length + 1 < 4294967296
  · rw [dif_pos hn, if_pos hn]
    exact Except.bind_of_error (edit_missing h) _
  · rw [dif_neg hn, if_neg hn]
    rfl

theorem Deleted.gone (h : s.Deleted id) (hs : s.Coherent) : s.Gone id := by
  have hlive := h.live?
  have hfind : s.find id = .error (.entityNotFound id) := by rw [find, hlive]
  have hids : id ∈ s.ids := by
    obtain ⟨e, he, -⟩ := h
    obtain ⟨hm, rfl⟩ := row?_eq_some.mp he
    exact List.mem_map_of_mem hm
  have hinsert : ∀ operation e, e.id = id →
      s.insert operation e = .error (uniqueFailed operation) := by
    rintro operation e rfl
    exact dif_pos hids
  constructor
  · intro ctx hc
    rw [get, Context.check_live hc]
    exact hfind
  · intro ctx hc
    rw [getListItem, Context.check_live hc]
    exact Except.bind_of_error hfind _
  · intro ctx n hc
    rw [getVersion, Context.check_live hc]
    exact Except.bind_of_error hfind _
  · intro ctx hc
    rw [getVersionsList, Context.check_live hc]
    exact Except.bind_of_error hfind _
  · rintro ctx changes now hc rfl
    exact hs.update_missing hlive hc now
  · rintro ctx changes now hc rfl
    rw [updateDraft, Context.check_live hc]
    exact Except.bind_of_error (edit_missing hlive) _
  · intro ctx new now
    rw [create, Context.check]
    split
    · rfl
    · exact Except.bind_of_error (hinsert _ _ rfl) _
  · intro ctx new now
    rw [createDraft, Context.check]
    split
    · rfl
    · exact hinsert _ _ rfl
  · rintro limits ctx r name sys rfl hc hu hn hid hr
    exact create_under hlive hc hu hn hid hr
  · intro ctx items hi
    obtain ⟨-, rfl⟩ := getAll_eq_ok.mp hi
    simp only [List.mem_map, List.mem_mergeSort]
    rintro ⟨_, ⟨e, he, rfl⟩, rfl⟩
    rw [mem_live] at he
    cases hlive.symm.trans he
  · intro ctx seeds bound viewer direction items hi
    obtain ⟨-, -, h⟩ := Except.bind_eq_ok.mp hi
    cases h
    exact not_mem_walk hlive seeds bound viewer direction
  · intro ctx role capability direct hd
    obtain ⟨-, r, -, rfl⟩ := directPermissions_eq_ok.mp hd
    intro hm
    obtain ⟨⟨e, he⟩, -⟩ := mem_seeds.mp hm
    rw [hlive] at he
    cases he

end Store

/-- From any tables that operations lead to on, versions are only appended. What was read of a
version is read again as long as the entity was not deleted, and an entity that was deleted stays
deleted and is out of reach. -/
theorem history_final (h : Later .empty s) (hl : Later s s') :
    s.versions <+: s'.versions ∧
    (∀ ctx ctx' id number e, s.getVersion ctx id number = .ok e → ¬s'.Deleted id →
      ctx'.isDone = false → s'.getVersion ctx' id number = .ok e) ∧
    ∀ id, s.Deleted id → s'.Deleted id ∧ s'.row? id = s.row? id ∧ s'.Gone id := by
  have hs' : s'.Coherent := hl.coherent (h.coherent Store.coherent_empty)
  have hc := hl.continues
  refine ⟨hc.versions, fun ctx ctx' id number e hg hd hctx => ?_, fun id hd => ?_⟩
  · obtain ⟨f, v, hf, -⟩ := Store.getVersion_cases hg
    obtain ⟨hm, hid, -⟩ := Store.live?_eq_some.mp hf
    obtain ⟨e', he', -⟩ := hc.row (Store.row?_eq_some.mpr ⟨hm, hid⟩)
    exact hc.getVersion hs' hg hctx (Store.live?_of_not_deleted he' hd)
  · have hd' := hc.deleted hd
    refine ⟨hd', ?_, hd'.gone hs'⟩
    obtain ⟨e, he, hdead⟩ := hd
    obtain ⟨e', he', -, -, heq⟩ := hc.row he
    rw [he', he, heq hdead]

theorem StoreReachable.later (h : StoreReachable s) : Later .empty s := by
  induction h with
  | empty => exact .here
  | request _ ctx r ih => exact ih.step {} ctx (.primitive r)

theorem CoreReachable.later (h : CoreReachable limits s) : Later .empty s := by
  induction h with
  | empty _ => exact .here
  | @call sys _ ctx c ih =>
    cases c with
    | create r => exact ih.step limits ctx (.core (.create r))
    | update r => exact ih.step limits ctx (.core (.update r))
    | delete id => exact ih.step limits ctx (.core (.delete id))
    | upsertRole name isAdmin =>
      have hrun : (CoreCall.upsertRole name isAdmin).run limits ctx sys =
        ((Operation.upsertRole name isAdmin).run limits ctx sys).2 := rfl
      rw [hrun]
      exact ih.step limits ctx (.upsertRole name isAdmin)
    | grant role entity capability => exact ih.step limits ctx (.grant role entity capability)
    | revoke role entity capability => exact ih.step limits ctx (.revoke role entity capability)

theorem CoreReachable.coherent (h : CoreReachable limits s) : s.Coherent :=
  h.later.coherent Store.coherent_empty

namespace Sample

def guideDraft : Store :=
  ((⟨guideTables, {}, {}⟩ : System).answer .background (.updateDraft guideChanges ⟨6, 0⟩)).2.store

def guideRemoved : Store :=
  ((⟨guideTables, {}, {}⟩ : System).answer .background (.delete [guide.id] ⟨7, 0⟩)).2.store

theorem later_draft : Later guideTables guideDraft := by
  have h : Later guideTables (⟨guideTables, {}, {}⟩ : System).store := .here
  exact h.step {} .background (.primitive (.updateDraft guideChanges ⟨6, 0⟩))

end Sample

theorem history_final_guide :
    Later .empty Sample.guideTables ∧ Later Sample.guideTables Sample.guideDraft ∧
    Sample.guideTables.getVersion .background Sample.guide.id .first = .ok Sample.firstGuide ∧
    Sample.guideDraft.getVersion .background Sample.guide.id .first = .ok Sample.firstGuide ∧
    Later .empty Sample.guideRemoved ∧ Later Sample.guideRemoved Sample.guideRemoved ∧
    Sample.guideRemoved.Deleted Sample.guide.id ∧ Sample.guideRemoved.Gone Sample.guide.id := by
  have hstart := Sample.reachable_guide.later
  have hread : Sample.guideTables.getVersion .background Sample.guide.id .first =
      .ok Sample.firstGuide := by decide +kernel
  have hdraft : Sample.guideDraft.live? Sample.guide.id ≠ none := by decide +kernel
  have hremoved : Sample.guideRemoved.Deleted Sample.guide.id :=
    ⟨{ Sample.guide with deletedAt := some ⟨7, 0⟩ }, by decide +kernel, rfl⟩
  obtain ⟨-, hagain, -⟩ := history_final hstart Sample.later_draft
  have hlater : Later .empty Sample.guideRemoved := by
    have h : Later .empty (⟨Sample.guideTables, {}, {}⟩ : System).store := hstart
    exact h.step {} .background (.primitive (.delete [Sample.guide.id] ⟨7, 0⟩))
  obtain ⟨-, -, hgone⟩ := history_final hlater .here
  exact ⟨hstart, Sample.later_draft, hread,
    hagain _ _ _ _ _ hread (fun hd => hdraft hd.live?) rfl, hlater, .here, hremoved,
    (hgone _ hremoved).2.2⟩

namespace Sample

def libraryAt (v : VersionNumber) : Entity := { library with publication := .published v }

def sameLibrary : EntityChanges := ⟨library.id, library.name, library.content, none, author⟩

def reissue (s : Store) : Store :=
  ((⟨s, {}, {}⟩ : System).answer .background (.update sameLibrary ⟨0, 0⟩)).2.store

def issued : Store := ((⟨.empty, {}, {}⟩ : System).answer .background
  (.create ⟨.department, "Library", "", none, author⟩ library.id ⟨0, 0⟩)).2.store

def reissued (n : Nat) : Store := Nat.repeat reissue n issued

def withdrawn (n : Nat) : Store :=
  ((⟨reissued n, {}, {}⟩ : System).answer .background (.delete [library.id] ⟨0, 0⟩)).2.store

theorem reachable_reissued (n : Nat) : StoreReachable (reissued n) := by
  induction n with
  | zero =>
    have h : StoreReachable (⟨.empty, {}, {}⟩ : System).store := .empty
    exact h.request .background _
  | succ n ih =>
    have h : StoreReachable (⟨reissued n, {}, {}⟩ : System).store := ih
    exact h.request .background _

theorem reachable_withdrawn (n : Nat) : StoreReachable (withdrawn n) := by
  have h : StoreReachable (⟨reissued n, {}, {}⟩ : System).store := reachable_reissued n
  exact h.request .background _

section Reissued

variable {n : Nat} {v : VersionNumber} (he : (reissued n).entities = [libraryAt v])

include he

theorem row_reissued : (reissued n).row? library.id = some (libraryAt v) :=
  Store.row?_eq_some.mpr ⟨he ▸ List.mem_singleton.mpr rfl, rfl⟩

theorem live_reissued : (reissued n).live? library.id = some (libraryAt v) := by
  rw [Store.live?, row_reissued he]
  rfl

theorem history_reissued : ((reissued n).history library.id).length = v.value :=
  ((reachable_reissued n).coherent.published (row_reissued he) rfl).1.symm

theorem withdrawn_eq : withdrawn n = (reissued n).adjust (fun e => [library.id].contains e.id)
    fun e => { e with deletedAt := some ⟨0, 0⟩ } := by
  have hlive : libraryAt v ∈ (reissued n).live := Store.mem_live.mpr (live_reissued he)
  have hdelete : (reissued n).delete .background [library.id] ⟨0, 0⟩ = .ok _ :=
    Store.delete_eq_ok.mpr ⟨rfl, ⟨_, hlive, List.mem_singleton.mpr rfl⟩, rfl⟩
  rw [withdrawn, System.answer, hdelete]
  rfl

theorem deleted_withdrawn : (withdrawn n).Deleted library.id := by
  refine ⟨{ libraryAt v with deletedAt := some ⟨0, 0⟩ }, ?_, rfl⟩
  rw [withdrawn_eq he, Store.row?_adjust, row_reissued he]
  rfl

theorem history_withdrawn : ((withdrawn n).history library.id).length = v.value := by
  rw [withdrawn_eq he]
  exact history_reissued he

end Reissued

theorem entities_reissued (n : Nat) (hn : n + 1 < 4294967296) :
    (reissued n).entities = [libraryAt ⟨n + 1, Nat.succ_pos n, hn⟩] := by
  induction n with
  | zero => rfl
  | succ n ih =>
    have he := ih (Nat.lt_of_succ_lt hn)
    have hnext : (reissued n).nextVersion library.id = .ok ⟨n + 1 + 1, Nat.succ_pos _, hn⟩ := by
      have h := (reachable_reissued n).coherent.nextVersion_eq library.id
      simp only [history_reissued he] at h
      exact h.trans (dif_pos hn)
    have hupdate : (reissued n).update .background sameLibrary ⟨0, 0⟩ = .ok (_, _) :=
      Store.update_eq_ok.mpr ⟨rfl, hnext, _, live_reissued he, rfl, rfl⟩
    change (reissue (reissued n)).entities = _
    rw [reissue, System.answer, hupdate]
    change (reissued n).entities.map _ = _
    rw [he]
    rfl

theorem update_withdrawn (n : Nat) (hn : n + 1 < 4294967296) :
    (withdrawn n).update .background sameLibrary ⟨0, 0⟩ = .error (if n + 1 + 1 < 4294967296
      then .entityNotFound library.id
      else .store "update" s!"Integer {n + 1 + 1} out of range at index 0") := by
  have he := entities_reissued n hn
  have hlength : ((withdrawn n).history library.id).length = n + 1 := history_withdrawn he
  rw [← hlength]
  have hdead : (withdrawn n).live? sameLibrary.id = none := (deleted_withdrawn he).live?
  exact (reachable_withdrawn n).coherent.update_missing hdead rfl ⟨0, 0⟩

end Sample

/-- A deleted entity whose version numbers are used up is not reported as missing. -/
theorem history_final_used_up : StoreReachable (Sample.withdrawn 4294967294) ∧
    (Sample.withdrawn 4294967294).Deleted Sample.library.id ∧
    (Sample.withdrawn 4294967294).update .background Sample.sameLibrary ⟨0, 0⟩ =
      .error (.store "update" "Integer 4294967296 out of range at index 0") ∧
    (Sample.withdrawn 4294967294).updateDraft .background Sample.sameLibrary ⟨0, 0⟩ =
      .error (.entityNotFound Sample.library.id) := by
  have hn : 4294967294 + 1 < 4294967296 := by decide
  have hreach := Sample.reachable_withdrawn 4294967294
  have hdeleted := Sample.deleted_withdrawn (Sample.entities_reissued 4294967294 hn)
  have hupdate := Sample.update_withdrawn 4294967294 hn
  rw [if_neg (by decide)] at hupdate
  have hgone := hdeleted.gone hreach.coherent
  exact ⟨hreach, hdeleted, hupdate, hgone.updateDraft .background Sample.sameLibrary ⟨0, 0⟩ rfl rfl⟩

end KnowledgeTree
