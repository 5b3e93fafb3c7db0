import KnowledgeTree.Proofs.Drafts
import KnowledgeTree.Proofs.Order

/-!
What drafts hold stays with their authors. Two states of the tables that differ only in drafts of
other users give a caller who is not an administrator the same answers.
-/

namespace KnowledgeTree

variable {limits : Limits} {ctx : Context} {sys sys' : System} {s t : Store} {caller : Caller}
  {capability : Capability} {perms : EffectivePermissions} {user : UserId} {viewer : Option UserId}
  {direction : Direction} {bound k : Nat} {id a b : EntityId} {e f : Entity}
  {seeds seeds' extra : List EntityId}

/-! What rests on visible rows -/

namespace Store

section Seen

variable (h : ∀ id, t.seen viewer id = s.seen viewer id)

include h

theorem Path.of_seen (hp : s.Path viewer k a b) : t.Path viewer k a b := by
  induction hp with
  | here ha => exact .here ((h _).trans ha)
  | child _ hb hl ih => exact .child ih ((h _).trans hb) hl

theorem Met.of_seen (hs : ∀ a e, s.seen viewer a = some e → a ∈ seeds → a ∈ seeds')
    (hm : s.Met viewer seeds direction k id) : t.Met viewer seeds' direction k id := by
  rcases hm with ⟨hd, a, ha, hp⟩ | ⟨hd, a, ha, hp⟩
  · obtain ⟨e, he⟩ := hp.top
    exact .inl ⟨hd, a, hs a e he ha, hp.of_seen h⟩
  · obtain ⟨e, he⟩ := hp.bottom
    exact .inr ⟨hd, a, hs a e he ha, hp.of_seen h⟩

theorem walk_of_seen (hs : ∀ a e, s.seen viewer a = some e → (a ∈ seeds ↔ a ∈ seeds')) :
    t.walk seeds' bound viewer direction = s.walk seeds bound viewer direction := by
  have hmet : ∀ k id, t.Met viewer seeds' direction k id ↔ s.Met viewer seeds direction k id := by
    intro k id
    constructor
    · refine Met.of_seen (fun id => (h id).symm) fun a e he => ?_
      exact (hs a e ((h a).symm.trans he)).mpr
    · exact Met.of_seen h fun a e he => (hs a e he).mp
  refine walk_congr fun i => ?_
  simp only [mem_walk, h, hmet]

end Seen

theorem granted_congr {role : String} (h : ∀ g, g ∈ t.grants ↔ g ∈ s.grants) :
    t.Granted role capability a ↔ s.Granted role capability a := by
  simp only [Granted, h]

theorem mem_seeds_of_grants {role : String} (h : ∀ id, t.seen viewer id = s.seen viewer id)
    (hg : ∀ g, g ∈ t.grants ↔ g ∈ s.grants) (he : s.seen viewer a = some e) :
    a ∈ s.seeds role capability ↔ a ∈ t.seeds role capability := by
  have hs := live?_of_seen he
  have ht := live?_of_seen ((h a).trans he)
  rw [mem_seeds, mem_seeds, granted_congr hg, hs, ht]

theorem walk_seeds_of_seen {role : String} (h : ∀ id, t.seen viewer id = s.seen viewer id)
    (hg : ∀ g, g ∈ t.grants ↔ g ∈ s.grants) :
    t.walk (t.seeds role capability) bound viewer direction =
      s.walk (s.seeds role capability) bound viewer direction :=
  walk_of_seen h fun _ _ he => mem_seeds_of_grants h hg he

theorem getVersion_congr {number : VersionNumber} (hl : t.live? id = s.live? id)
    (hv : t.history id = s.history id) :
    t.getVersion ctx id number = s.getVersion ctx id number := by
  have hfind : ∀ u : Store, (u.versions.find? fun v => v.entity == id && v.number == number) =
      (u.history id).find? (·.number == number) := by
    intro u
    simp only [history, List.find?_filter, Bool.decide_and, Bool.decide_eq_true]
  simp only [getVersion, find, hl, hfind, hv]

theorem getVersionsList_congr (hl : t.live? id = s.live? id) (hv : t.history id = s.history id) :
    t.getVersionsList ctx id = s.getVersionsList ctx id := by
  simp only [getVersionsList, find, hl, hv]

end Store

theorem Access.effectivePermissions_eq :
    Access.effectivePermissions limits ctx caller capability s =
      if caller.user.isNil || (Text.trim caller.role).isEmpty then .error .unauthorized
      else ctx.check >>= fun _ => match s.role? (Text.trim caller.role) with
        | none => .error .unauthorized
        | some r => .ok (if r.isAdmin then .admin
            else .only (s.scope limits (Text.trim caller.role) caller.user capability)) := by
  split
  · next hn =>
    rw [effectivePermissions, directPermissions, if_pos hn]
    rfl
  · next hn =>
    cases hc : ctx.isDone with
    | true =>
      rw [effectivePermissions, directPermissions, if_neg hn, Store.directPermissions,
        Context.check_done hc]
      rfl
    | false =>
      rw [Context.check_live hc]
      cases hr : s.role? (Text.trim caller.role) with
      | none =>
        rw [effectivePermissions, directPermissions, if_neg hn, Store.directPermissions,
          Context.check_live hc, hr]
        rfl
      | some r =>
        simp only [Bool.or_eq_true, not_or, Bool.not_eq_true] at hn
        exact effectivePermissions_eq_ok.mpr ⟨hn.1, hn.2, hc, r, hr, rfl⟩

/-! States that a user cannot tell apart -/

structure Entity.Redraft (user : UserId) (e f : Entity) : Prop where
  live : e.isLive = true
  draft : e.publication = .draft
  other : e.createdBy ≠ user
  same : ∃ name content updatedBy updatedAt, f = { e with name, content, updatedBy, updatedAt }

/-- Roles, grants, rows and versions are the same, except that live drafts of other users may have
been edited and have other versions, and that the second state may have further drafts of other
users. Those may be granted, and rows may hang below them. -/
structure Store.Alike (s t : Store) (user : UserId) (extra : List EntityId) : Prop where
  roles : ∀ name, t.role? name = s.role? name
  grants : ∀ g, g ∈ t.grants ↔ g ∈ s.grants
  rows : ∀ id ∉ extra, t.row? id = s.row? id ∨
    ∃ e f, s.row? id = some e ∧ t.row? id = some f ∧ e.Redraft user f
  histories : ∀ id ∉ extra, t.history id = s.history id ∨
    ∃ e f, s.row? id = some e ∧ e.Redraft user f
  further : ∀ id ∈ extra, s.row? id = none ∧
    ∀ f, t.row? id = some f → f.publication = .draft ∧ f.createdBy ≠ user

theorem Entity.Redraft.not_shown (h : e.Redraft user f) : ¬e.ShownTo user ∧ ¬f.ShownTo user := by
  obtain ⟨-, hd, hu, _, _, _, _, rfl⟩ := h
  exact ⟨Entity.not_shown hd hu, Entity.not_shown hd hu⟩

namespace Store.Alike

variable (h : s.Alike t user extra)

include h

theorem seen (id : EntityId) : t.seen (some user) id = s.seen (some user) id := by
  by_cases hx : id ∈ extra
  · obtain ⟨hs, ht⟩ := h.further id hx
    have hnone : t.seen (some user) id = none := by
      cases hr : t.row? id with
      | none => rw [Store.seen, hr]; rfl
      | some f =>
        obtain ⟨hd, hu⟩ := ht f hr
        exact seen_of_hidden hr (Entity.not_shown hd hu)
    rw [hnone, Store.seen, hs]
    rfl
  · rcases h.rows id hx with heq | ⟨e, f, hs, ht, hr⟩
    · rw [Store.seen, heq, Store.seen]
    · rw [seen_of_hidden hs hr.not_shown.1, seen_of_hidden ht hr.not_shown.2]

theorem any_hidden (hx : id ∉ extra) :
    (t.live? id).any (Service.isHiddenInScope perms caller) =
      (s.live? id).any (Service.isHiddenInScope perms caller) := by
  rcases h.rows id hx with heq | ⟨e, f, hs, ht, hl, -, -, _, _, _, _, rfl⟩
  · rw [live?, heq, live?]
  · have hf : ∀ u : Store, ∀ e : Entity, u.row? id = some e → e.isLive = true →
        u.live? id = some e := by
      intro u e hr hl
      rw [live?, hr, Option.filter_some, if_pos hl]
    rw [hf s e hs hl, hf t _ ht hl]
    rfl

theorem live?_of_seen (he : s.seen (some user) id = some e) : t.live? id = s.live? id := by
  rw [Store.live?_of_seen he, Store.live?_of_seen ((h.seen id).trans he)]

theorem history_of_seen (hx : id ∉ extra) (he : s.seen (some user) id = some e) :
    t.history id = s.history id := by
  rcases h.histories id hx with heq | ⟨f, f', hs, hr⟩
  · exact heq
  · rw [seen_of_hidden hs hr.not_shown.1] at he
    cases he

end Store.Alike

namespace Service

theorem find?_nil (hid : id.isNil = true) :
    find? ctx id s = .error (.validationFailed "id" .nilIdentifier) := by
  rw [find?, Hierarchy.get, EntityId.require, if_pos hid]
  rfl

section Alike

variable (h : s.Alike t caller.user extra)

include h

theorem effectivePermissions_alike (limits : Limits) (ctx : Context) (capability : Capability) :
    Access.effectivePermissions limits ctx caller capability t =
      Access.effectivePermissions limits ctx caller capability s := by
  rw [Access.effectivePermissions_eq, Access.effectivePermissions_eq, h.roles, Store.scope,
    Store.walk_seeds_of_seen h.seen h.grants]
  rfl

theorem authorize_alike (hx : id ∉ extra) : authorize limits ctx caller id capability t =
    authorize limits ctx caller id capability s := by
  have heff := effectivePermissions_alike h limits ctx capability
  cases hp : Access.effectivePermissions limits ctx caller capability s with
  | error error =>
    rw [hp] at heff
    rw [authorize, authorize, Except.bind_of_error hp, Except.bind_of_error heff]
  | ok perms =>
    rw [hp] at heff
    cases ha : perms.allows id with
    | true => rw [authorize_eq_ok.mpr ⟨hp, ha⟩, authorize_eq_ok.mpr ⟨heff, ha⟩]
    | false =>
      cases hid : id.isNil with
      | true =>
        rw [authorize, authorize, Except.bind_of_ok hp, Except.bind_of_ok heff, ha,
          find?_nil hid, find?_nil hid]
      | false =>
        rw [authorize_refused hp hid ha, authorize_refused heff hid ha, h.any_hidden hx]

end Alike

section Reading

variable (hn : ∀ r, s.role? (Text.trim caller.role) = some r → r.isAdmin = false)

include hn

theorem seen_of_authorize (ha : authorize limits ctx caller id capability s = .ok perms) :
    ∃ e, s.seen (some caller.user) id = some e := by
  obtain ⟨hp, ha⟩ := authorize_eq_ok.mp ha
  have hperms := Access.scope_of_effective hn hp
  exact seen_of_allows hp (by rw [hperms]; simp) ha

theorem seen_of_get (hg : get limits ctx caller id s = .ok e) :
    ∃ e, s.seen (some caller.user) id = some e := by
  obtain ⟨perms, ha, -⟩ := Except.bind_eq_ok.mp hg
  exact seen_of_authorize hn ha

variable (h : s.Alike t caller.user extra) (hx : id ∉ extra)

include h hx

theorem get_alike : get limits ctx caller id t = get limits ctx caller id s := by
  have hauth : authorize limits ctx caller id .read t = authorize limits ctx caller id .read s :=
    authorize_alike h hx
  rw [get, get, hauth]
  cases ha : authorize limits ctx caller id .read s with
  | error error => rfl
  | ok perms =>
    -- what is authorized is seen, and seen rows are the same in both states
    obtain ⟨e, he⟩ := seen_of_authorize hn ha
    have hlive : t.live? id = s.live? id := h.live?_of_seen he
    have hget : Hierarchy.get ctx id t = Hierarchy.get ctx id s := by
      simp only [Hierarchy.get, Store.get, Store.find, hlive]
    rw [hget]

theorem getVersion_alike (number : Int) :
    getVersion limits ctx caller id number t = getVersion limits ctx caller id number s := by
  rw [getVersion, getVersion, get_alike hn h hx]
  cases hg : get limits ctx caller id s with
  | error error => rfl
  | ok e =>
    obtain ⟨f, hf⟩ := seen_of_get hn hg
    have hversion : ∀ n, t.getVersion ctx id n = s.getVersion ctx id n :=
      fun _ => Store.getVersion_congr (h.live?_of_seen hf) (h.history_of_seen hx hf)
    simp only [Hierarchy.getVersion, hversion]

theorem getVersionsList_alike :
    getVersionsList limits ctx caller id t = getVersionsList limits ctx caller id s := by
  rw [getVersionsList, getVersionsList, get_alike hn h hx]
  cases hg : get limits ctx caller id s with
  | error error => rfl
  | ok e =>
    obtain ⟨f, hf⟩ := seen_of_get hn hg
    have hversions : t.getVersionsList ctx id = s.getVersionsList ctx id :=
      Store.getVersionsList_congr (h.live?_of_seen hf) (h.history_of_seen hx hf)
    simp only [Hierarchy.getVersionsList, hversions]

omit hx in
theorem getTree_alike : getTree limits ctx caller t = getTree limits ctx caller s := by
  rw [getTree_eq, getTree_eq, effectivePermissions_alike h]
  cases hp : Access.effectivePermissions limits ctx caller .read s with
  | error error => rfl
  | ok perms =>
    obtain rfl := Access.scope_of_effective hn hp
    simp only [Except.map, Store.shown, Store.walk_seeds_of_seen h.seen h.grants]

omit hx in
theorem getPermittedIds_alike (capability : Capability) :
    getPermittedIds limits ctx caller capability t =
      getPermittedIds limits ctx caller capability s := by
  rw [getPermittedIds, getPermittedIds, effectivePermissions_alike h]
  cases hp : Access.effectivePermissions limits ctx caller capability s with
  | error error => rfl
  | ok perms =>
    obtain rfl := Access.scope_of_effective hn hp
    rfl

end Reading

theorem get_of_reply {c : EntityCall} {x : EntityReply} (hc : c.needs = .read)
    (h : c.reply limits ctx caller id sys = .ok x) :
    ∃ e, get limits ctx caller id sys.store = .ok e := by
  cases hg : get limits ctx caller id sys.store with
  | ok e => exact ⟨e, rfl⟩
  | error error =>
    cases c with
    | get | getListItem | getVersion _ | getVersionsList =>
      simp only [EntityCall.reply, getListItem, getVersion, getVersionsList, hg] at h
      cases h
    | update _ | delete => cases hc

/-- Two states that differ only in drafts of other users, as `Store.Alike` has it, give a caller who
is not an administrator the same answers, but for what is asked about a draft that only one of them
has; and nothing that reads a single entity succeeds on a draft of another user. -/
theorem drafts_confidential (h : sys.store.Alike sys'.store caller.user extra)
    (hn : ∀ r, sys.store.role? (Text.trim caller.role) = some r → r.isAdmin = false) :
    (∀ c : EntityCall, c.needs = .read → ∀ id ∉ extra,
      c.reply limits ctx caller id sys' = c.reply limits ctx caller id sys) ∧
    getTree limits ctx caller sys'.store = getTree limits ctx caller sys.store ∧
    (∀ capability, getPermittedIds limits ctx caller capability sys'.store =
      getPermittedIds limits ctx caller capability sys.store) ∧
    ∀ one ∈ [sys, sys'], ∀ id e, one.store.row? id = some e → e.publication = .draft →
      e.createdBy ≠ caller.user → ∀ c : EntityCall, c.needs = .read →
        ∀ x, c.reply limits ctx caller id one ≠ .ok x := by
  refine ⟨fun c hc id hx => ?_, getTree_alike hn h, getPermittedIds_alike hn h,
    fun one hone id e he hd hu c hc x hr => ?_⟩
  · cases c with
    | get => rw [EntityCall.reply, get_alike hn h hx, EntityCall.reply]
    | getListItem =>
      rw [EntityCall.reply, getListItem, get_alike hn h hx, EntityCall.reply, getListItem]
    | getVersion number => rw [EntityCall.reply, getVersion_alike hn h hx, EntityCall.reply]
    | getVersionsList => rw [EntityCall.reply, getVersionsList_alike hn h hx, EntityCall.reply]
    | update _ | delete => cases hc
  · have hn' : ∀ r, one.store.role? (Text.trim caller.role) = some r → r.isAdmin = false := by
      rcases List.mem_pair.mp hone with rfl | rfl
      · exact hn
      · rwa [h.roles]
    obtain ⟨f, hf⟩ := get_of_reply hc hr
    obtain ⟨g, hg⟩ := seen_of_get hn' hf
    rw [Store.seen_of_hidden he (Entity.not_shown hd hu)] at hg
    cases hg

end Service

namespace Sample

def plans : Entity := Entity.make ⟨.article, "Plans", "", some shelf.id, author⟩ ⟨Uuid.ofNat 4⟩
  .draft ⟨0, 0⟩

def redrafted : Store :=
  { tables with
    entities := [library, shelf, { notes with name := "Secret" }, plans]
    versions := tables.versions ++ [notes.record .first]
    nodup := by decide }

theorem redraft_notes : notes.Redraft colleague.user { notes with name := "Secret" } :=
  ⟨rfl, rfl, notes_not_of_colleague, _, _, _, _, rfl⟩

theorem alike_redrafted : tables.Alike redrafted colleague.user [plans.id] := by
  have hrow : tables.row? notes.id = some notes := by decide +kernel
  refine ⟨fun _ => rfl, fun _ => Iff.rfl, fun id hx => ?_, fun id _ => ?_, fun id hx => ?_⟩
  · by_cases hid : notes.id = id
    · subst hid
      exact .inr ⟨notes, _, hrow, by decide +kernel, redraft_notes⟩
    · have hplans : plans.id ≠ id := fun heq => hx (List.mem_singleton.mpr heq.symm)
      left
      simp only [Store.row?, redrafted, tables, stock, List.find?_cons, beq_false_of_ne hid,
        beq_false_of_ne hplans]
  · by_cases hid : notes.id = id
    · subst hid
      exact .inr ⟨notes, _, hrow, redraft_notes⟩
    · left
      have hrecord : (notes.record .first).entity ≠ id := hid
      simp [Store.history, redrafted, List.filter_append, hrecord]
  · obtain rfl := List.mem_singleton.mp hx
    refine ⟨by decide +kernel, fun f hf => ?_⟩
    have hplans : redrafted.row? plans.id = some plans := by decide +kernel
    cases hplans.symm.trans hf
    exact ⟨rfl, by decide +kernel⟩

end Sample

namespace Service

theorem drafts_confidential_colleague :
    Sample.tables.Alike Sample.redrafted Sample.colleague.user [Sample.plans.id] ∧
    (∀ r, Sample.tables.role? (Text.trim Sample.colleague.role) = some r → r.isAdmin = false) ∧
    getTree {} .background Sample.colleague Sample.redrafted =
      getTree {} .background Sample.colleague Sample.tables ∧
    ∀ x, EntityCall.get.reply {} .background Sample.colleague Sample.notes.id
      ⟨Sample.redrafted, {}, {}⟩ ≠ .ok x := by
  have h : (⟨Sample.tables, {}, {}⟩ : System).store.Alike (⟨Sample.redrafted, {}, {}⟩ : System).store
      Sample.colleague.user [Sample.plans.id] := Sample.alike_redrafted
  have hn : ∀ r, Sample.tables.role? (Text.trim Sample.colleague.role) = some r →
      r.isAdmin = false := by
    intro r hr
    rw [Sample.colleague, Sample.trim_editor, Sample.editors] at hr
    cases hr; rfl
  have hrow : Sample.redrafted.row? Sample.notes.id =
      some { Sample.notes with name := "Secret" } := by decide +kernel
  refine ⟨Sample.alike_redrafted, hn, (drafts_confidential h hn).2.1, ?_⟩
  exact (drafts_confidential h hn).2.2.2 ⟨Sample.redrafted, {}, {}⟩ (by simp) _ _ hrow rfl
    Sample.notes_not_of_colleague .get rfl

end Service

end KnowledgeTree
