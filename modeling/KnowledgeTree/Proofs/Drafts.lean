import KnowledgeTree.Proofs.Agreement
import KnowledgeTree.Proofs.Identifiers

/-!
Drafts of other users. Whatever a caller who is not an administrator asks about one is refused, but
where the caller's permissions reach its parent the refusal is another one than for an entity that
is not there.
-/

namespace KnowledgeTree

variable {limits : Limits} {ctx : Context} {sys : System} {s : Store} {caller : Caller}
  {capability : Capability} {perms : EffectivePermissions} {user : UserId} {id : EntityId}
  {e : Entity}

def Store.without (s : Store) (id : EntityId) : Store where
  entities := s.entities.filter (·.id != id)
  versions := s.versions.filter (·.entity != id)
  roles := s.roles
  grants := s.grants.filter (·.entity != id)
  nodup := (List.filter_sublist.map _).nodup s.nodup

theorem Store.row?_without : (s.without id).row? id = none := by
  rw [row?_eq_none]
  simp [ids, without]

theorem Entity.not_shown (hd : e.publication = .draft) (hu : e.createdBy ≠ user) :
    ¬e.ShownTo user := by
  rintro (hno | hno)
  · exact hno hd
  · exact hu hno

theorem Entity.not_visible_of_hidden (h : ¬e.ShownTo user) : e.isVisibleTo (some user) = false := by
  rw [Bool.eq_false_iff]
  intro hv
  exact h (isVisibleTo_iff.mp hv).2

theorem Store.seen_of_hidden (he : s.row? id = some e) (h : ¬e.ShownTo user) :
    s.seen (some user) id = none := by
  rw [seen, he, Option.filter_some, e.not_visible_of_hidden h]
  rfl

/-! Calls that concern one entity -/

inductive EntityCall
  | get
  | getListItem
  | getVersion (number : Int)
  | getVersionsList
  | update (input : UpdateInput)
  | delete
deriving DecidableEq, Repr

inductive EntityReply
  | entity (e : Entity)
  | item (i : ListItem)
  | versions (es : List Entity)
  | published (p : Publication)
  | deleted (ids : List EntityId)
deriving DecidableEq, Repr

namespace EntityCall

def needs : EntityCall → Capability
  | get | getListItem | getVersion _ | getVersionsList => .read
  | update _ | delete => .write

def reply (limits : Limits) (ctx : Context) (caller : Caller) (id : EntityId) (sys : System) :
    EntityCall → Except Error EntityReply
  | get => (Service.get limits ctx caller id sys.store).map .entity
  | getListItem => (Service.getListItem limits ctx caller id sys.store).map .item
  | getVersion number => (Service.getVersion limits ctx caller id number sys.store).map .entity
  | getVersionsList => (Service.getVersionsList limits ctx caller id sys.store).map .versions
  | update input => (Service.update limits ctx caller id input sys).1.map .published
  | delete => (Service.delete limits ctx caller id sys).1.map .deleted

theorem reply_of_error {c : EntityCall} {error : Error}
    (h : Service.authorize limits ctx caller id c.needs sys.store = .error error) :
    c.reply limits ctx caller id sys = .error error := by
  cases c with
  | get | getListItem | getVersion _ | getVersionsList =>
    have hget : Service.get limits ctx caller id sys.store = .error error :=
      Except.bind_of_error h _
    simp only [reply, Service.getListItem, Service.getVersion, Service.getVersionsList, hget]
    rfl
  | update input =>
    have hpermit : Service.permitUpdate limits ctx caller id input sys.store = .error error :=
      Except.bind_of_error h _
    rw [reply, Service.update, hpermit]
    rfl
  | delete =>
    have hpermit : Service.permitDelete limits ctx caller id sys.store = .error error :=
      Except.bind_of_error h _
    rw [reply, Service.delete, hpermit]
    rfl

end EntityCall

namespace Service

theorem find?_eq (hid : id.isNil = false) (hc : ctx.isDone = false) :
    find? ctx id s = .ok (s.live? id) := by
  have hget : Hierarchy.get ctx id s = s.find id := by
    rw [Hierarchy.get, (Hierarchy.require_eq_ok (u := ())).mpr hid]
    change s.get ctx id = _
    rw [Store.get, Context.check_live hc]
    rfl
  rw [find?, hget, Store.find]
  cases s.live? id <;> rfl

section Refused

variable (hp : Access.effectivePermissions limits ctx caller capability s = .ok perms)

include hp

theorem authorize_refused (hid : id.isNil = false) (ha : perms.allows id = false) :
    authorize limits ctx caller id capability s =
      .error (if (s.live? id).any (isHiddenInScope perms caller) then .entityNotFound id
        else .forbidden capability id) := by
  obtain ⟨-, -, hc, -⟩ := Access.effectivePermissions_eq_ok.mp hp
  rw [authorize, Except.bind_of_ok hp, if_neg (by rw [ha]; exact Bool.false_ne_true),
    Except.bind_of_ok (find?_eq hid hc)]
  split
  · rfl
  · rw [EffectivePermissions.checkId, ha]
    rfl

theorem not_allows_of_unseen (hn : perms ≠ .admin) (hs : s.seen (some caller.user) id = none) :
    perms.allows id = false := by
  rw [Bool.eq_false_iff]
  intro ha
  obtain ⟨e, he⟩ := seen_of_allows hp hn ha
  rw [hs] at he
  cases he

end Refused

section Reply

variable {c : EntityCall} {ids : List EntityId}

theorem reply_of_hidden (h : CoreReachable limits sys.store)
    (hp : Access.effectivePermissions limits ctx caller c.needs sys.store = .ok (.only ids))
    (he : sys.store.live? id = some e) (hd : e.publication = .draft)
    (hu : e.createdBy ≠ caller.user) :
    c.reply limits ctx caller id sys = .error
      (if e.parent.any ids.contains then .entityNotFound id else .forbidden c.needs id) := by
  obtain ⟨hm, hid, -⟩ := Store.live?_eq_some.mp he
  have hnil : id.isNil = false := h.not_nil id (hid ▸ List.mem_map_of_mem hm)
  have hrow := Store.row?_eq_some.mpr ⟨hm, hid⟩
  -- permissions extend to rows that the caller sees, and this one the caller does not
  have hseen := Store.seen_of_hidden hrow (Entity.not_shown hd hu)
  have hallows := not_allows_of_unseen hp (by simp) hseen
  have hvisible : isVisibleTo (.only ids) caller e = false := by
    rw [isVisibleTo, hd, beq_false_of_ne hu]; rfl
  have hscope : isHiddenInScope (.only ids) caller e = e.parent.any ids.contains := by
    rw [isHiddenInScope, hvisible]; rfl
  have hauth := authorize_refused hp hnil hallows
  rw [he, Option.any_some, hscope] at hauth
  exact EntityCall.reply_of_error hauth

theorem reply_of_missing (hid : id.isNil = false)
    (hp : Access.effectivePermissions limits ctx caller c.needs sys.store = .ok (.only ids))
    (hrow : sys.store.row? id = none) :
    c.reply limits ctx caller id sys = .error (.forbidden c.needs id) := by
  have hallows := not_allows_of_unseen hp (by simp) (by rw [Store.seen, hrow]; rfl)
  have hauth := authorize_refused hp hid hallows
  rw [Store.live?, hrow] at hauth
  exact EntityCall.reply_of_error hauth

end Reply

theorem effectivePermissions_without (id : EntityId) {ids : List EntityId}
    (hp : Access.effectivePermissions limits ctx caller capability s = .ok (.only ids)) :
    ∃ rest, Access.effectivePermissions limits ctx caller capability (s.without id) =
      .ok (.only rest) :=
  ⟨_, Access.effectivePermissions_of_roles hp rfl⟩

/-- In all reachable tables, all that a caller who is not an administrator asks about a draft of
another user is refused. The refusal is that of a missing entity, which is forbidden, except where
the caller's permissions extend to the parent of the draft: there it says that there is no such
entity, and so tells that there is one. -/
theorem hidden_reply (h : CoreReachable limits sys.store) (c : EntityCall) {ids : List EntityId}
    (hp : Access.effectivePermissions limits ctx caller c.needs sys.store = .ok (.only ids))
    (he : sys.store.live? id = some e) (hd : e.publication = .draft)
    (hu : e.createdBy ≠ caller.user) :
    let missing : System := { sys with store := sys.store.without id }
    c.reply limits ctx caller id sys = .error
      (if e.parent.any ids.contains then .entityNotFound id else .forbidden c.needs id) ∧
    c.reply limits ctx caller id missing = .error (.forbidden c.needs id) ∧
    (c.reply limits ctx caller id sys = c.reply limits ctx caller id missing ↔
      e.parent.any ids.contains = false) := by
  intro missing
  obtain ⟨hm, hid, -⟩ := Store.live?_eq_some.mp he
  have hnil : id.isNil = false := h.not_nil id (hid ▸ List.mem_map_of_mem hm)
  obtain ⟨rest, hrest⟩ := effectivePermissions_without id hp
  have hhidden := reply_of_hidden h hp he hd hu
  have hmissing : c.reply limits ctx caller id missing = .error (.forbidden c.needs id) :=
    reply_of_missing hnil hrest Store.row?_without
  refine ⟨hhidden, hmissing, ?_⟩
  rw [hhidden, hmissing]
  cases e.parent.any ids.contains <;> simp

end Service

def Sample.colleague : Caller := ⟨⟨Uuid.ofNat 8⟩, "editor"⟩

theorem Sample.live_notes : tables.live? notes.id = some notes := by decide +kernel

theorem Sample.notes_not_of_colleague : notes.createdBy ≠ colleague.user := by decide +kernel

namespace Service

theorem hidden_reply_colleague : CoreReachable {} Sample.tables ∧
    Sample.tables.live? Sample.notes.id = some Sample.notes ∧
    Sample.notes.publication = .draft ∧ Sample.notes.createdBy ≠ Sample.colleague.user ∧
    ∃ ids, Access.effectivePermissions {} .background Sample.colleague .write Sample.tables =
        .ok (.only ids) ∧
      EntityCall.delete.reply {} .background Sample.colleague Sample.notes.id
          ⟨Sample.tables, {}, {}⟩ =
        .error (if Sample.notes.parent.any ids.contains then .entityNotFound Sample.notes.id
          else .forbidden .write Sample.notes.id) := by
  have hs : CoreReachable {} (⟨Sample.tables, {}, {}⟩ : System).store := Sample.reachable_tables
  have hu : Sample.colleague.user.isNil = false := by decide +kernel
  have hp := Sample.effectivePermissions_editors hu .write
  exact ⟨Sample.reachable_tables, Sample.live_notes, rfl, Sample.notes_not_of_colleague, _, hp,
    (hidden_reply hs .delete hp Sample.live_notes rfl Sample.notes_not_of_colleague).1⟩

/-- A colleague who may read the shelf is told apart whether there are notes on it. -/
theorem hidden_reply_differs : CoreReachable {} Sample.tables ∧
    Sample.tables.live? Sample.notes.id = some Sample.notes ∧
    Sample.notes.publication = .draft ∧ Sample.notes.createdBy ≠ Sample.colleague.user ∧
    (∀ e ∈ Sample.tables.entities, e.parent ≠ some Sample.notes.id) ∧
    (∃ ids, Access.effectivePermissions {} .background Sample.colleague .read Sample.tables =
        .ok (.only ids) ∧ ∃ p ∈ ids, Sample.notes.parent = some p) ∧
    EntityCall.get.reply {} .background Sample.colleague Sample.notes.id ⟨Sample.tables, {}, {}⟩ ≠
      EntityCall.get.reply {} .background Sample.colleague Sample.notes.id
        ⟨Sample.tables.without Sample.notes.id, {}, {}⟩ := by
  have hs : CoreReachable {} (⟨Sample.tables, {}, {}⟩ : System).store := Sample.reachable_tables
  have hu : Sample.colleague.user.isNil = false := by decide +kernel
  have hp : Access.effectivePermissions {} .background Sample.colleague .read Sample.tables =
      .ok (.only (Sample.tables.scope {} "editor" Sample.colleague.user .read)) :=
    Sample.effectivePermissions_editors hu .read
  have hshelf := Sample.shelf_in_scope Sample.colleague.user .read
  obtain ⟨rest, hrest⟩ := effectivePermissions_without Sample.notes.id hp
  refine ⟨Sample.reachable_tables, Sample.live_notes, rfl, Sample.notes_not_of_colleague,
    by decide +kernel, ⟨_, hp, Sample.shelf.id, hshelf, rfl⟩, ?_⟩
  have hhidden := reply_of_hidden (c := .get) hs hp Sample.live_notes rfl
    Sample.notes_not_of_colleague
  have hmissing : EntityCall.get.reply {} .background Sample.colleague Sample.notes.id
      ⟨Sample.tables.without Sample.notes.id, {}, {}⟩ = .error (.forbidden .read Sample.notes.id) :=
    reply_of_missing (by decide +kernel) hrest Store.row?_without
  have hparent : Sample.notes.parent = some Sample.shelf.id := rfl
  rw [hparent, Option.any_some, List.contains_iff_mem.mpr hshelf, if_pos rfl] at hhidden
  rw [hhidden, hmissing]
  simp

end Service

end KnowledgeTree
