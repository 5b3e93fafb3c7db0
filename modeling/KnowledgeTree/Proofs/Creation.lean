import KnowledgeTree.Proofs.Persistence
import KnowledgeTree.Proofs.Sequence

/-!
When a caller's creation is accepted, and what it then changes.
-/

namespace KnowledgeTree

variable {limits : Limits} {ctx : Context} {sys sys' : System} {s s' : Store} {caller : Caller}
  {input : CreateInput} {made : List EntityId} {id p : EntityId} {r : Role} {t : EntityType}
  {parent : Option EntityId}

namespace Store

def HasPlace (s : Store) (limits : Limits) (t : EntityType) : Option EntityId → Prop
  | none => t = .department
  | some p => (∃ q, s.live? p = some q ∧ q.entityType = .department) ∧
      ∃ level ≤ limits.maxDepth, s.HasLevel p level

theorem hasPlace_iff : s.HasPlace limits t parent ↔ s.Open limits.maxDepth t parent := by
  cases parent with
  | none => rfl
  | some p =>
    constructor
    · rintro ⟨⟨q, hq, hd⟩, level, hle, n, hn, rfl⟩
      exact ⟨q, n, hq, hd, hn, hle⟩
    · rintro ⟨q, n, hq, hd, hn, hlt⟩
      exact ⟨⟨q, hq, hd⟩, n + 1, hlt, n, hn, rfl⟩

theorem Added.history {e : Entity} (hs : s.Coherent) (ha : s.Added s' e) :
    s'.history e.id = (e.publication.version?.map e.record).toList := by
  have hnone : s.history e.id = [] := hs.owned e.id (row?_eq_none.mpr ha.fresh)
  have hown : ∀ v ∈ (e.publication.version?.map e.record).toList, v.entity = e.id := by
    intro v hv
    obtain ⟨n, -, rfl⟩ := Option.map_eq_some_iff.mp (Option.mem_toList.mp hv)
    rfl
  rw [history_append ha.versions hown, if_pos rfl, hnone, List.nil_append]

end Store

def Access.MayPlace (limits : Limits) (ctx : Context) (caller : Caller) (r : Role) (s : Store) :
    Option EntityId → Prop
  | none => r.isAdmin = true
  | some p => r.isAdmin = true ∨ ∃ ids,
      effectivePermissions limits ctx caller .write s = .ok (.only ids) ∧ p ∈ ids

structure CreateInput.Legal (input : CreateInput) (limits : Limits) (ctx : Context)
    (caller : Caller) (r : Role) (s : Store) : Prop where
  name : Text.trim input.name ≠ ""
  length : (Text.trim input.name).length ≤ limits.maxNameLength
  place : s.HasPlace limits input.entityType input.parent
  permission : Access.MayPlace limits ctx caller r s input.parent

namespace CreateInput

def row (input : CreateInput) (user : UserId) (id : EntityId) (now : Time) : Entity where
  id := id
  entityType := input.entityType
  name := Text.trim input.name
  content := input.content
  parent := input.parent
  createdBy := user
  updatedBy := user
  publication := if input.isDraft then .draft else .published .first
  createdAt := now
  updatedAt := now
  deletedAt := none

def version (input : CreateInput) (user : UserId) (id : EntityId) (now : Time) : Version where
  entity := id
  number := .first
  entityType := input.entityType
  name := Text.trim input.name
  content := input.content
  parent := input.parent
  editedBy := user
  createdAt := now

structure Effect (input : CreateInput) (user : UserId) (id : EntityId) (now : Time)
    (s s' : Store) : Prop where
  fresh : id ∉ s.ids
  entities : s'.entities = s.entities ++ [input.row user id now]
  draft : input.isDraft = true → s'.versions = s.versions ∧ s'.history id = []
  published : input.isDraft = false →
    s'.versions = s.versions ++ [input.version user id now] ∧
      s'.history id = [input.version user id now]
  roles : s'.roles = s.roles
  grants : s'.grants = s.grants

theorem row_request (user : UserId) (id : EntityId) (now : Time) :
    (input.request user).row id now = input.row user id now := rfl

theorem effect_of_create {user : UserId} (hs : sys.store.Coherent)
    (h : Hierarchy.create limits ctx (input.request user) sys = (.ok id, sys')) :
    sys'.ids = sys.ids.take.2 ∧ sys'.clock = sys.clock.read.2 ∧
      input.Effect user id sys.clock.now sys.store sys'.store := by
  have ha := Hierarchy.added_row h
  rw [row_request] at ha
  have hversions := ha.versions
  have hhistory : sys'.store.history id = _ := ha.history hs
  obtain ⟨_, s', -, -, -, -, rfl, -⟩ := Hierarchy.create_eq_ok.mp h
  refine ⟨rfl, rfl, ha.fresh, ha.entities, fun hd => ?_, fun hp => ?_, ha.roles, ha.grants⟩
  · have hdraft : (input.row user id sys.clock.now).publication = .draft := if_pos hd
    rw [hdraft] at hversions hhistory
    exact ⟨hversions.trans (List.append_nil _), hhistory⟩
  · have hfirst : (input.row user id sys.clock.now).publication = .published .first :=
      if_neg (by simp [hp])
    rw [hfirst] at hversions hhistory
    exact ⟨hversions, hhistory⟩

end CreateInput

namespace Service

theorem permitCreate_eq_ok (h : CoreReachable limits s) (hc : ctx.isDone = false)
    (hu : caller.user.isNil = false) (hr : s.role? (Text.trim caller.role) = some r) {u : Unit} :
    permitCreate limits ctx caller input s = .ok u ↔
      Access.MayPlace limits ctx caller r s input.parent := by
  have heff : Access.effectivePermissions limits ctx caller .write s =
      .ok (if r.isAdmin then .admin
        else .only (s.scope limits (Text.trim caller.role) caller.user .write)) :=
    h.effectivePermissions_eq hc hu hr
  rw [permitCreate, Except.bind_of_ok heff]
  cases ha : r.isAdmin with
  | true =>
    cases input.parent <;>
      simp [Access.MayPlace, ha, checkPlace, EffectivePermissions.requireAdmin,
        EffectivePermissions.isAdmin, EffectivePermissions.checkId, EffectivePermissions.allows]
  | false =>
    rw [ha, if_neg Bool.false_ne_true] at heff
    rw [if_neg Bool.false_ne_true, checkPlace_only_eq_ok]
    cases input.parent <;> simp [Access.MayPlace, ha, heff]

/-- In tables that a run with one source of ids leads to, while the source is not exhausted, a
creation by a caller with a role succeeds just if it is legal. It then adds one row, with an id that
no creation returned before, and one version unless the row is a draft; nothing else changes. -/
theorem create_accepts_legal (input : CreateInput)
    (h : Sequenced limits made sys.ids sys.store) (hn : sys.ids.HasNext)
    (hc : ctx.isDone = false) (hu : caller.user.isNil = false)
    (hr : sys.store.role? (Text.trim caller.role) = some r) :
    ((∃ id sys', create limits ctx caller input sys = (.ok id, sys')) ↔
      input.Legal limits ctx caller r sys.store) ∧
    ∀ id sys', create limits ctx caller input sys = (.ok id, sys') →
      id ∉ made ∧ sys'.ids = sys.ids.take.2 ∧ sys'.clock = sys.clock.read.2 ∧
        input.Effect caller.user id sys.clock.now sys.store sys'.store := by
  have hreach := h.coreReachable
  have hf := hreach.isForest
  have hpermit : ∀ u, permitCreate limits ctx caller input sys.store = .ok u ↔
      Access.MayPlace limits ctx caller r sys.store input.parent :=
    fun _ => permitCreate_eq_ok hreach hc hu hr
  refine ⟨⟨?_, fun hlegal => ?_⟩, fun id sys' hcreate => ?_⟩
  · rintro ⟨id, sys', hcreate⟩
    obtain ⟨hp, hcore⟩ := guarded_eq_ok.mp hcreate
    obtain ⟨-, -, hname, hlength, hplace, -⟩ := Hierarchy.create_succeeds.mp ⟨id, sys', hcore⟩
    obtain ⟨-, -, hopen⟩ := (Hierarchy.checkPlace_eq_ok hf).mp hplace
    exact ⟨hname, hlength, Store.hasPlace_iff.mpr hopen, (hpermit ()).mp hp⟩
  · obtain ⟨hname, hlength, hplace, hmay⟩ := hlegal
    have hid := IdSource.take_eq_ok hn
    have hlive : ∀ p, input.parent = some p → p ∈ sys.store.ids := by
      intro p hp
      rw [hp] at hplace
      obtain ⟨⟨q, hq, -⟩, -⟩ := hplace
      exact Store.mem_ids_of_live hq
    have hcheck : (Hierarchy.checkPlace limits input.entityType input.parent).run ctx sys =
        (.ok (), sys) := by
      refine (Hierarchy.checkPlace_eq_ok hf).mpr ⟨rfl, fun p hp => ?_, Store.hasPlace_iff.mp hplace⟩
      exact ⟨hreach.not_nil p (hlive p hp), hc⟩
    obtain ⟨id, sys', hcore⟩ := (Hierarchy.create_succeeds (r := input.request caller.user)).mpr
      ⟨hc, hu, hname, hlength, hcheck, _, hid, (h.fresh hn hid).2, fun p hp => .inr (hlive p hp)⟩
    exact ⟨id, sys', guarded_eq_ok.mpr ⟨(hpermit ()).mpr hmay, hcore⟩⟩
  · obtain ⟨-, hcore⟩ := guarded_eq_ok.mp hcreate
    obtain ⟨_, -, -, -, hid, -⟩ := Hierarchy.create_cases hcore
    exact ⟨(h.fresh hn hid).1, CreateInput.effect_of_create hreach.coherent hcore⟩

end Service

namespace Sample

theorem sequenced_furniture : ∃ made, Sequenced {} made ⟨2, 0⟩ furniture := by
  let first : CoreCall := .create { entityType := .department, name := "Library", user := author }
  let second : CoreCall :=
    .create { entityType := .department, name := " Shelf ", parent := some library.id,
              user := author }
  have h : Sequenced {} [] ({} : System).ids ({} : System).store := .start rfl _
  have hfirst := h.call (by decide) .background first
  have hsecond := hfirst.call (by decide +kernel) .background second
  have hids : (second.run {} .background (first.run {} .background {})).ids = ⟨2, 0⟩ := by cbv
  have hstore : (second.run {} .background (first.run {} .background {})).store = furniture := by
    cbv
  rw [hids, hstore] at hsecond
  exact ⟨_, hsecond⟩

theorem sequenced_stock : ∃ made, Sequenced {} made ⟨3, 0⟩ stock := by
  let third : CoreCall :=
    .create { entityType := .article, name := "Notes", parent := some shelf.id, isDraft := true,
              user := author }
  obtain ⟨made, h⟩ := sequenced_furniture
  have hbefore : Sequenced {} made (⟨furniture, {}, ⟨2, 0⟩⟩ : System).ids
    (⟨furniture, {}, ⟨2, 0⟩⟩ : System).store := h
  have hafter := hbefore.call (by decide) .background third
  have hids : (third.run {} .background ⟨furniture, {}, ⟨2, 0⟩⟩).ids = ⟨3, 0⟩ := by cbv
  have hstore : (third.run {} .background ⟨furniture, {}, ⟨2, 0⟩⟩).store = stock := by cbv
  rw [hids, hstore] at hafter
  exact ⟨_, hafter⟩

theorem sequenced_tables : ∃ made, Sequenced {} made ⟨3, 0⟩ tables := by
  obtain ⟨made, h⟩ := sequenced_stock
  have hbefore : Sequenced {} made (⟨stock, {}, ⟨3, 0⟩⟩ : System).ids
    (⟨stock, {}, ⟨3, 0⟩⟩ : System).store := h
  have hrole := hbefore.call (by decide) .background (.upsertRole "editor" false)
  have hgrant := hrole.call (by decide +kernel) .background (.grant "editor" shelf.id .write)
  have hids : (CoreCall.runAll {} .background [.upsertRole "editor" false,
    .grant "editor" shelf.id .write] ⟨stock, {}, ⟨3, 0⟩⟩).ids = ⟨3, 0⟩ := by decide +kernel
  have hstore : (CoreCall.runAll {} .background [.upsertRole "editor" false,
    .grant "editor" shelf.id .write] ⟨stock, {}, ⟨3, 0⟩⟩).store = tables := by decide +kernel
  rw [← hids, ← hstore]
  exact ⟨_, hgrant⟩

theorem legal_index : index.Legal {} .background editor ⟨"editor", false⟩ tables where
  name := by decide +kernel
  length := by decide +kernel
  place := by
    have hlibrary : tables.live? library.id = some library := by decide +kernel
    have hshelf : tables.live? shelf.id = some shelf := by decide +kernel
    exact ⟨⟨shelf, hshelf, rfl⟩, 2, by decide, 1, .child hshelf rfl (.root hlibrary rfl), rfl⟩
  permission := .inr ⟨_, effectivePermissions_editors (by decide +kernel) .write,
    shelf_in_scope _ _⟩

end Sample

namespace Service

theorem create_accepts_legal_editor : (∃ made, Sequenced {} made ⟨3, 0⟩ Sample.tables) ∧
    (⟨3, 0⟩ : IdSource).HasNext ∧ Context.background.isDone = false ∧
    Sample.editor.user.isNil = false ∧
    Sample.tables.role? (Text.trim Sample.editor.role) = some ⟨"editor", false⟩ ∧
    (∃ id sys', create {} .background Sample.editor Sample.index ⟨Sample.tables, {}, ⟨3, 0⟩⟩ =
        (.ok id, sys') ∧
      Sample.index.Effect Sample.editor.user id ⟨0, 0⟩ Sample.tables sys'.store) ∧
    ¬∃ id sys', create {} .background Sample.editor { Sample.index with parent := none }
      ⟨Sample.tables, {}, ⟨3, 0⟩⟩ = (.ok id, sys') := by
  obtain ⟨made, h⟩ := Sample.sequenced_tables
  have hs : Sequenced {} made (⟨Sample.tables, {}, ⟨3, 0⟩⟩ : System).ids
    (⟨Sample.tables, {}, ⟨3, 0⟩⟩ : System).store := h
  have hn : (⟨3, 0⟩ : IdSource).HasNext := by decide
  have hu : Sample.editor.user.isNil = false := by decide +kernel
  have hr : Sample.tables.role? (Text.trim Sample.editor.role) = some ⟨"editor", false⟩ := by
    rw [Sample.editor, Sample.trim_editor, Sample.editors]
  have hlive : Context.background.isDone = false := rfl
  obtain ⟨haccepted, heffect⟩ := create_accepts_legal Sample.index hs hn hlive hu hr
  obtain ⟨hrefused, -⟩ := create_accepts_legal { Sample.index with parent := none } hs hn hlive hu
    hr
  obtain ⟨id, sys', hcreate⟩ := haccepted.mpr Sample.legal_index
  refine ⟨⟨made, h⟩, hn, hlive, hu, hr, ⟨id, sys', hcreate, (heffect _ _ hcreate).2.2.2⟩, ?_⟩
  rintro hex
  -- articles have a parent
  cases (hrefused.mp hex).place

end Service

end KnowledgeTree
