import KnowledgeTree.Proofs.Creation

/-!
Callers get back what they wrote. What a caller creates or changes stays within the caller's
permissions, at its new place too, unless it is a draft that is someone else's.
-/

namespace KnowledgeTree

variable {limits : Limits} {ctx : Context} {sys sys' : System} {s s' : Store} {caller : Caller}
  {role : String} {user : UserId} {capability : Capability} {id p x a b : EntityId} {e f : Entity}
  {k n : Nat}

/-! Paths around a row that was written -/

namespace Store

section Written

variable (hseen : ∀ b, b ≠ x → s'.seen (some user) b = s.seen (some user) b)

include hseen

theorem Path.around (hp : s.Path (some user) n a b) (hout : ∀ k, ¬s.Path (some user) k x b) :
    s'.Path (some user) n a b := by
  induction hp with
  | @here a e ha =>
    have hne : a ≠ x := by
      rintro rfl
      exact hout 0 (.here ha)
    exact .here ((hseen a hne).trans ha)
  | @child n a p b e _ hb hl ih =>
    have hne : b ≠ x := by
      rintro rfl
      exact hout 0 (.here hb)
    exact .child (ih fun k hk => hout (k + 1) (hk.child hb hl)) ((hseen b hne).trans hb) hl

variable (hg : s'.grants = s.grants)

include hg

theorem Under.around (h : s.Under role user capability p)
    (hout : ∀ k, ¬s.Path (some user) k x p) : s'.Under role user capability p := by
  obtain ⟨g, n, hgrant, hp⟩ := h
  unfold Granted at hgrant
  rw [← hg] at hgrant
  exact ⟨g, n, hgrant, hp.around hseen hout⟩

variable (hx : s'.seen (some user) x = some f)

include hx

theorem Under.moved (h : s.Under role user capability p) (hout : ∀ k, ¬s.Path (some user) k x p)
    (hp : f.parent = some p) : s'.Under role user capability x :=
  (h.around hseen hg hout).child hx hp

theorem Under.rewritten (h : s.Under role user capability x)
    (hacyclic : ∀ k, ¬s.Path (some user) (k + 1) x x)
    (hp : ∀ e, s.seen (some user) x = some e → f.parent = e.parent) :
    s'.Under role user capability x := by
  obtain ⟨g, n, hgrant, hpath⟩ := h
  cases hpath with
  | here _ =>
    unfold Granted at hgrant
    rw [← hg] at hgrant
    exact ⟨x, 0, hgrant, .here hx⟩
  | @child n _ p _ e hpath he hl =>
    have hunder : s.Under role user capability p := ⟨g, n, hgrant, hpath⟩
    exact hunder.moved hseen hg hx (fun k hk => hacyclic k (hk.child he hl)) ((hp e he).trans hl)

end Written

end Store

namespace Hierarchy

theorem live?_created {r : CreateRequest} (hc : create limits ctx r sys = (.ok id, sys')) :
    sys'.store.live? id = some (r.row id sys.clock.now) := by
  have ha := added_row hc
  have hseen : sys'.store.seen none id = _ := Store.seen_append ha.entities ha.fresh
  exact Store.seen_none.symm.trans (hseen.trans (if_pos rfl))

theorem live?_updated {r : UpdateRequest} {publication : Publication}
    (hu : update limits ctx r sys = (.ok publication, sys')) : ∃ e,
      sys.store.live? r.id = some e ∧
        sys'.store.live? r.id = some (r.rewrite publication sys.clock.now e) := by
  obtain ⟨e, he, -, hedit⟩ := edited_row hu
  obtain ⟨-, hid, hl⟩ := Store.live?_eq_some.mp he
  have hlive : (r.rewrite publication sys.clock.now e).isVisibleTo none = true := by
    rw [Entity.isVisibleTo, Bool.and_true]
    exact hl
  refine ⟨e, he, ?_⟩
  rw [← Store.seen_none, hedit.seen, if_pos hid.symm, if_pos hlive]

theorem not_above_parent (hf : sys.store.IsForest limits.maxDepth) {r : UpdateRequest}
    {publication : Publication} (hu : update limits ctx r sys = (.ok publication, sys'))
    (hm : r.parentChanged = true) (hp : r.parent = some p) :
    ∀ k, ¬sys.store.Path none k r.id p := by
  obtain ⟨_, e, -, -, -, -, he, hparent, -⟩ := update_cases hu
  have hid := (Store.live?_eq_some.mp he).2.1
  rw [← hid] at he
  obtain ⟨-, -, hopen⟩ := (newParent_eq_ok hf he).mp hparent
  have ho := (hopen hm).2
  rw [hp, hid] at ho
  obtain ⟨q, n, -, -, -, hout, -⟩ := ho
  exact hout

end Hierarchy

def UpdateInput.rewrite (input : UpdateInput) (user : UserId) (publication : Publication)
    (now : Time) (e : Entity) : Entity :=
  { e with
    name := Text.trim input.name
    content := input.content
    parent := if input.parentChanged then input.parent else e.parent
    updatedBy := user
    publication := publication
    updatedAt := now }

theorem UpdateInput.rewrite_request (input : UpdateInput) (user : UserId)
    (publication : Publication) (now : Time) (e : Entity) :
    (input.request id user).rewrite publication now e = input.rewrite user publication now e := rfl

structure Service.Holds (limits : Limits) (caller : Caller) (s : Store) (id : EntityId)
    (e : Entity) : Prop where
  get : ∀ ctx, ctx.isDone = false → get limits ctx caller id s = .ok e
  permitted : ∀ ctx capability, ctx.isDone = false →
    ∃ ids, getPermittedIds limits ctx caller capability s = .ok ids ∧ id ∈ ids

namespace Service

section NotAdmin

variable (hf : sys.store.IsForest limits.maxDepth)
  (hn : ∀ r, sys.store.role? (Text.trim caller.role) = some r → r.isAdmin = false)

include hf hn

theorem under_created {input : CreateInput}
    (h : create limits ctx caller input sys = (.ok id, sys')) :
    sys'.store.Under (Text.trim caller.role) caller.user .write id := by
  obtain ⟨hpermit, hcreate⟩ := guarded_eq_ok.mp h
  obtain ⟨-, p, hpar, hw⟩ := permitCreate_cases hn hpermit
  have hunder := Store.under_write.mp (hf.mem_scope.mp hw)
  have ha := Hierarchy.added_row hcreate
  have hnew := Store.seen_of_live (Hierarchy.live?_created hcreate) (.inr rfl)
  refine hunder.moved (fun b hb => ?_) ha.grants hnew (fun k hk => ?_) hpar
  · exact (Store.seen_append ha.entities ha.fresh).trans (if_neg hb)
  · -- the new id was in no path
    obtain ⟨q, hq⟩ := hk.top
    exact ha.fresh (Store.mem_ids_of_live (Store.live?_of_seen hq))

theorem under_updated {input : UpdateInput} {publication : Publication}
    (h : update limits ctx caller id input sys = (.ok publication, sys'))
    (he : sys.store.live? id = some e)
    (hkeep : input.isDraft = false ∨ e.createdBy = caller.user) :
    sys'.store.Under (Text.trim caller.role) caller.user .write id := by
  obtain ⟨hpermit, hupdate⟩ := guarded_eq_ok.mp h
  obtain ⟨-, hw, hplace⟩ := permitUpdate_cases hn hpermit
  have hunder := Store.under_write.mp (hf.mem_scope.mp hw)
  obtain ⟨f, hlive, hpub, hedit⟩ := Hierarchy.edited_row hupdate
  obtain ⟨f', hlive', hafter⟩ := Hierarchy.live?_updated hupdate
  cases he.symm.trans hlive
  cases he.symm.trans hlive'
  have hid : e.id = id := (Store.live?_eq_some.mp he).2.1
  -- what the caller wrote is no hidden draft
  have hshown : ((input.request id caller.user).rewrite publication sys.clock.now e).ShownTo
      caller.user := by
    refine hkeep.imp_left fun hpublish => ?_
    rintro (hdraft : publication = .draft)
    rw [hdraft] at hpub
    exact absurd (hpub.trans hpublish) (by decide)
  have hseen := Store.seen_of_live hafter hshown
  have hrest : ∀ b, b ≠ id → sys'.store.seen (some caller.user) b =
      sys.store.seen (some caller.user) b := by
    intro b hb
    rw [hedit.seen, if_neg (by rwa [hid])]
  cases hm : input.parentChanged with
  | true =>
    obtain ⟨p, hpar, hp⟩ := hplace hm
    have hunder := Store.under_write.mp (hf.mem_scope.mp hp)
    have hout := Hierarchy.not_above_parent hf hupdate hm hpar
    refine hunder.moved hrest hedit.grants hseen (fun k hk => hout k hk.live) ?_
    exact (if_pos hm).trans hpar
  | false =>
    obtain ⟨n, -, hroot⟩ := hf.rooted he
    refine hunder.rewritten hrest hedit.grants hseen (fun k hk => hroot.not_cycle hk.live) ?_
    intro f hf
    cases he.symm.trans (Store.live?_of_seen hf)
    exact if_neg (by simp [UpdateInput.request, hm])

end NotAdmin

theorem holds_of_live {perms : EffectivePermissions}
    (hp : Access.effectivePermissions limits ctx caller .write s = .ok perms)
    (hr : s'.roles = s.roles) (hf : s'.IsForest limits.maxDepth) (hid : id.isNil = false)
    (he : s'.live? id = some e)
    (hw : (∀ r, s.role? (Text.trim caller.role) = some r → r.isAdmin = false) →
      s'.Under (Text.trim caller.role) caller.user .write id) : Holds limits caller s' id e := by
  obtain ⟨hu, hn, -, r, hrole, -⟩ := Access.effectivePermissions_eq_ok.mp hp
  have hrole' : s'.role? (Text.trim caller.role) = some r := by rwa [Store.role?, hr]
  have hallowed : ∀ ctx capability, ctx.isDone = false → ∃ perms,
      Access.effectivePermissions limits ctx caller capability s' = .ok perms ∧
        perms.allows id = true := by
    intro ctx capability hc
    refine ⟨_, Access.effectivePermissions_eq_ok.mpr ⟨hu, hn, hc, r, hrole', rfl⟩, ?_⟩
    cases ha : r.isAdmin with
    | true => rfl
    | false =>
      have hunder := hw fun q hq => by
        cases hrole.symm.trans hq
        exact ha
      exact List.contains_iff_mem.mpr (hf.mem_scope.mpr (.inl hunder.of_write))
  constructor
  · intro ctx hc
    obtain ⟨perms, hread, ha⟩ := hallowed ctx .read hc
    exact get_eq_ok.mpr ⟨perms, hread, ha, hid, he⟩
  · intro ctx capability hc
    obtain ⟨perms, hperms, ha⟩ := hallowed ctx capability hc
    exact ⟨_, getPermittedIds_eq_ok.mpr ⟨perms, hperms, rfl⟩, (mem_reach hperms).mpr ⟨ha, e, he⟩⟩

theorem holds_created (hf : sys.store.IsForest limits.maxDepth) {input : CreateInput}
    (h : create limits ctx caller input sys = (.ok id, sys')) :
    Holds limits caller sys'.store id (input.row caller.user id sys.clock.now) := by
  obtain ⟨hpermit, hcreate⟩ := guarded_eq_ok.mp h
  obtain ⟨perms, hp, -⟩ := Except.bind_eq_ok.mp hpermit
  obtain ⟨_, -, -, -, hid, -⟩ := Hierarchy.create_cases hcreate
  rw [← CreateInput.row_request]
  exact holds_of_live hp (Hierarchy.added_row hcreate).roles (Hierarchy.isForest_create hf hcreate)
    (IdSource.take_not_nil hid) (Hierarchy.live?_created hcreate) fun hn => under_created hf hn h

theorem holds_updated (hf : sys.store.IsForest limits.maxDepth) {input : UpdateInput}
    {publication : Publication}
    (h : update limits ctx caller id input sys = (.ok publication, sys')) :
    publication.isDraft = input.isDraft ∧ ∃ e, sys.store.live? id = some e ∧
      ((input.isDraft = false ∨ e.createdBy = caller.user ∨
        ∃ r, sys.store.role? (Text.trim caller.role) = some r ∧ r.isAdmin = true) →
      Holds limits caller sys'.store id
        (input.rewrite caller.user publication sys.clock.now e)) := by
  obtain ⟨hpermit, hupdate⟩ := guarded_eq_ok.mp h
  obtain ⟨perms, hp, -⟩ := Except.bind_eq_ok.mp hpermit
  obtain ⟨hp, -⟩ := allows_of_authorize hp
  obtain ⟨hid, -⟩ := Hierarchy.update_eq_ok.mp hupdate
  obtain ⟨_, -, hdraft, hedit⟩ := Hierarchy.edited_row hupdate
  obtain ⟨e, he, hafter⟩ := Hierarchy.live?_updated hupdate
  rw [UpdateInput.rewrite_request] at hafter
  refine ⟨hdraft, e, he, fun hkeep => holds_of_live hp hedit.roles
    (Hierarchy.isForest_update hf hupdate) hid hafter fun hn => under_updated hf hn h he ?_⟩
  rcases hkeep with hpublish | hown | ⟨r, hr, hadmin⟩
  · exact .inl hpublish
  · exact .inr hown
  · rw [hn r hr] at hadmin
    cases hadmin

/-- In all reachable tables callers read back what they created or changed, with the name trimmed
and the publication as it was answered, and may read and write it, wherever it hangs now. A draft
must be the caller's own, unless the caller is an administrator. -/
theorem own_writes (h : CoreReachable limits sys.store) :
    (∀ ctx input id sys', create limits ctx caller input sys = (.ok id, sys') →
      Holds limits caller sys'.store id (input.row caller.user id sys.clock.now)) ∧
    ∀ ctx id input publication sys',
      update limits ctx caller id input sys = (.ok publication, sys') →
      publication.isDraft = input.isDraft ∧ ∃ e, sys.store.live? id = some e ∧
        ((input.isDraft = false ∨ e.createdBy = caller.user ∨
          ∃ r, sys.store.role? (Text.trim caller.role) = some r ∧ r.isAdmin = true) →
        Holds limits caller sys'.store id
          (input.rewrite caller.user publication sys.clock.now e)) := by
  refine ⟨fun ctx input id sys' hcreate => ?_, fun ctx id input publication sys' hupdate => ?_⟩
  · exact holds_created h.isForest hcreate
  · exact holds_updated h.isForest hupdate

end Service

namespace Sample

def publishNotes : UpdateInput where
  name := " Notes on paper "
  content := "Sorted by size"
  parentChanged := true
  parent := some shelf.id

def catalogue : CreateInput where
  entityType := .article
  name := " Catalogue "
  content := "By author"
  parent := some shelf.id

theorem notes_in_scope : notes.id ∈ tables.scope {} "editor" author .write := by
  have hgrant : ⟨"editor", shelf.id, .write⟩ ∈ tables.grants := by decide +kernel
  have hshelf : tables.seen (some author) shelf.id = some shelf := rfl
  have hnotes : tables.seen (some author) notes.id = some notes := rfl
  rw [reachable_tables.isForest.mem_scope, Store.under_write]
  exact ⟨shelf.id, 1, Store.granted_write.mpr hgrant, .child (.here hshelf) hnotes rfl⟩

theorem permit_publishNotes :
    Service.permitUpdate {} .background editor notes.id publishNotes tables = .ok () := by
  have hu : author.isNil = false := by decide +kernel
  have hp := effectivePermissions_editors hu .write
  have hnotes := List.contains_iff_mem.mpr notes_in_scope
  refine Except.bind_eq_ok.mpr ⟨_, Service.authorize_eq_ok.mpr ⟨hp, hnotes⟩, ?_⟩
  exact Service.checkPlace_only_eq_ok.mpr ⟨_, rfl, shelf_in_scope _ _⟩

end Sample

namespace Service

theorem own_writes_notes : CoreReachable {} Sample.tables ∧
    (∃ sys', create {} .background Sample.editor Sample.catalogue ⟨Sample.tables, {}, ⟨3, 0⟩⟩ =
        (.ok ⟨Uuid.ofNat 4⟩, sys') ∧
      ∃ e, get {} .background Sample.editor ⟨Uuid.ofNat 4⟩ sys'.store = .ok e ∧
        e.name = "Catalogue" ∧ e.content = "By author" ∧ e.parent = some Sample.shelf.id ∧
        e.publication = .published .first) ∧
    ∃ sys', update {} .background Sample.editor Sample.notes.id Sample.publishNotes
        ⟨Sample.tables, {}, {}⟩ = (.ok (.published .first), sys') ∧
      ∃ e, get {} .background Sample.editor Sample.notes.id sys'.store = .ok e ∧
        e.name = "Notes on paper" ∧ e.content = "Sorted by size" := by
  have hmade : (Hierarchy.create {} .background (Sample.catalogue.request Sample.editor.user)
      ⟨Sample.tables, {}, ⟨3, 0⟩⟩).1 = .ok ⟨Uuid.ofNat 4⟩ := by cbv
  have hcore : (Hierarchy.update {} .background
      (Sample.publishNotes.request Sample.notes.id Sample.editor.user)
      ⟨Sample.tables, {}, {}⟩).1 = .ok (.published .first) := by cbv
  have hpermit := Sample.permit_shelf (rfl : Sample.catalogue.parent = some Sample.shelf.id)
  have hcreate := guarded_eq_ok.mpr ⟨hpermit, Prod.ext hmade rfl⟩
  have hupdate := guarded_eq_ok.mpr ⟨Sample.permit_publishNotes, Prod.ext hcore rfl⟩
  have hcatalogue : Text.trim Sample.catalogue.name = "Catalogue" := by decide +kernel
  have hnotes : Text.trim Sample.publishNotes.name = "Notes on paper" := by decide +kernel
  have hstocked : CoreReachable {} (⟨Sample.tables, {}, ⟨3, 0⟩⟩ : System).store :=
    Sample.reachable_tables
  have hs : CoreReachable {} (⟨Sample.tables, {}, {}⟩ : System).store := Sample.reachable_tables
  have hheld := (own_writes hstocked).1 _ _ _ _ hcreate
  obtain ⟨-, e, -, hholds⟩ := (own_writes hs).2 _ _ _ _ _ hupdate
  exact ⟨Sample.reachable_tables, ⟨_, hcreate, _, hheld.get _ rfl, hcatalogue, rfl, rfl, rfl⟩,
    _, hupdate, _, (hholds (.inl rfl)).get _ rfl, hnotes, rfl⟩

end Service

end KnowledgeTree
