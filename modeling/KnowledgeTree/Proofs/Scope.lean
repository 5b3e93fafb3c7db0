import KnowledgeTree.Proofs.Reachable
import KnowledgeTree.Access.Permission

/-!
What a caller's permissions extend to. In a tree of the right shape the bounded walks from the
granted entities meet all that visible paths join to them.
-/

namespace KnowledgeTree

variable {limits : Limits} {ctx : Context} {s : Store} {role : String} {user : UserId}
  {caller : Caller} {capability : Capability} {direction : Direction} {viewer : Option UserId}
  {bound d : Nat} {a b id : EntityId} {e : Entity}

namespace Store

theorem walk_nil : s.walk [] bound viewer direction = [] := by
  rw [← List.map_eq_nil_iff (f := fun h : HierarchyItem => h.item.id),
    List.eq_nil_iff_forall_not_mem]
  intro id hid
  obtain ⟨k, -, h⟩ := mem_walk_ids.mp hid
  simp [Met] at h

def Under (s : Store) (role : String) (user : UserId) (capability : Capability)
    (id : EntityId) : Prop :=
  ∃ g n, s.Granted role capability g ∧ s.Path (some user) n g id

/-- The entity is under a grant, or, for reading, a path leads down from it to one. -/
def InScope (s : Store) (role : String) (user : UserId) (capability : Capability)
    (id : EntityId) : Prop :=
  s.Under role user capability id ∨
    capability = .read ∧ ∃ g n, s.Granted role .read g ∧ s.Path (some user) n id g

theorem under_write : s.InScope role user .write id ↔ s.Under role user .write id := by
  constructor
  · rintro (h | ⟨h, -⟩)
    · exact h
    · cases h
  · exact .inl

theorem walksUp_scope : capability.scope.walksUp = true ↔ capability = .read := by
  cases capability <;> simp [Capability.scope, Direction.walksUp]

theorem walksDown_scope : capability.scope.walksDown = true := by
  cases capability <;> rfl

def scope (s : Store) (limits : Limits) (role : String) (user : UserId)
    (capability : Capability) : List EntityId :=
  ((s.walk (s.seeds role capability) limits.levels (some user) capability.scope).map
    (·.item.id)).mergeSort fun a b => a ≤ b

theorem nodup_scope : (s.scope limits role user capability).Nodup := by
  rw [scope, (List.mergeSort_perm _ _).nodup_iff]
  exact nodup_walk

theorem mem_seeds_of_seen (h : s.seen viewer id = some e) (hg : s.Granted role capability id) :
    id ∈ s.seeds role capability :=
  mem_seeds.mpr ⟨⟨e, live?_of_seen h⟩, hg⟩

/-- The limit on the levels of a walk cuts nothing off. -/
theorem IsForest.mem_scope (h : s.IsForest limits.maxDepth) :
    id ∈ s.scope limits role user capability ↔ s.InScope role user capability id := by
  rw [scope, List.mem_mergeSort, mem_walk_ids]
  constructor
  · rintro ⟨k, -, ⟨-, g, hg, hp⟩ | ⟨hup, g, hg, hp⟩⟩
    · exact .inl ⟨g, k, (mem_seeds.mp hg).2, hp⟩
    · obtain rfl := walksUp_scope.mp hup
      exact .inr ⟨rfl, g, k, (mem_seeds.mp hg).2, hp⟩
  · -- a visible path is a path through the tree, and those are short enough
    rintro (⟨g, k, hg, hp⟩ | ⟨rfl, g, k, hg, hp⟩)
    · obtain ⟨f, hf⟩ := hp.top
      have hk := h.length_le hp.live
      refine ⟨k, by simp only [Limits.levels]; omega, .inl ⟨walksDown_scope, g, ?_, hp⟩⟩
      exact mem_seeds_of_seen hf hg
    · obtain ⟨f, hf⟩ := hp.bottom
      have hk := h.length_le hp.live
      refine ⟨k, by simp only [Limits.levels]; omega, .inr ⟨rfl, g, ?_, hp⟩⟩
      exact mem_seeds_of_seen hf hg

end Store

theorem Access.effectivePermissions_eq_ok {perms : EffectivePermissions} :
    Access.effectivePermissions limits ctx caller capability s = .ok perms ↔
      caller.user.isNil = false ∧ (Text.trim caller.role).isEmpty = false ∧ ctx.isDone = false ∧
        ∃ r, s.role? (Text.trim caller.role) = some r ∧ perms =
          if r.isAdmin then .admin
          else .only (s.scope limits (Text.trim caller.role) caller.user capability) := by
  have hids : ∀ seeds direction, ctx.isDone = false →
      Hierarchy.getPermittedIds limits ctx seeds direction (some caller.user) s =
        .ok ((s.walk seeds limits.levels (some caller.user) direction).map (·.item.id)) := by
    intro seeds direction hc
    unfold Hierarchy.getPermittedIds
    split
    · next hs => rw [List.isEmpty_iff.mp hs, Store.walk_nil]; rfl
    · rw [Store.getHierarchy, Context.check_live hc]; rfl
  simp only [effectivePermissions, directPermissions, Except.bind_eq_ok]
  constructor
  · rintro ⟨direct, hd, hp⟩
    split at hd
    · cases hd
    · next hn =>
      obtain ⟨hc, r, hr, rfl⟩ := Store.directPermissions_eq_ok.mp hd
      simp only [Bool.or_eq_true, not_or, Bool.not_eq_true] at hn
      refine ⟨hn.1, hn.2, hc, r, hr, ?_⟩
      cases ha : r.isAdmin with
      | true =>
        simp only [ha, if_true] at hp
        cases hp; rfl
      | false =>
        simp only [ha, hids _ _ hc] at hp
        cases hp; rfl
  · rintro ⟨hu, hn, hc, r, hr, rfl⟩
    refine ⟨⟨r.isAdmin, s.seeds (Text.trim caller.role) capability⟩, ?_, ?_⟩
    · rw [if_neg (by simp [hu, hn])]
      exact Store.directPermissions_eq_ok.mpr ⟨hc, r, hr, rfl⟩
    · cases ha : r.isAdmin with
      | true => rfl
      | false => simp only [hids _ _ hc]; rfl

/-! Roles of reachable tables -/

theorem CoreChange.roles {s s' : Store} (h : CoreChange limits s s') :
    ∀ r ∈ s'.roles, r.name.isEmpty = false ∨ ∃ q ∈ s.roles, q.name = r.name := by
  have hsame : s'.roles = s.roles → ∀ r ∈ s'.roles,
      r.name.isEmpty = false ∨ ∃ q ∈ s.roles, q.name = r.name := by
    intro heq r hr
    exact .inr ⟨r, heq ▸ hr, rfl⟩
  cases h with
  | create hr =>
    obtain ⟨_, _, ha, -⟩ := Hierarchy.added_of_create hr
    exact hsame ha.roles
  | update hr =>
    obtain ⟨_, _, -, he, -⟩ := Hierarchy.edited_of_update hr
    exact hsame he.roles
  | delete hr =>
    obtain ⟨-, -, -, hw⟩ := Hierarchy.delete_cases hr
    obtain ⟨-, -, hs⟩ := Store.delete_eq_ok.mp hw
    exact hsame (by rw [hs]; rfl)
  | upsertRole hr =>
    obtain ⟨hn, -, rfl⟩ := Store.upsertRole_eq_ok.mp hr
    intro r hr
    rcases Store.mem_withRole hr with hname | hq
    · exact .inl (by rw [hname]; exact hn)
    · exact .inr hq
  | grant hr =>
    obtain ⟨-, -, -, rfl⟩ := Store.grant_eq_ok.mp hr
    exact hsame (by split <;> rfl)
  | revoke hr =>
    obtain ⟨-, -, rfl⟩ := Store.revoke_eq_ok.mp hr
    exact hsame rfl

theorem CoreReachable.role_named (h : CoreReachable limits s) :
    ∀ r ∈ s.roles, r.name.isEmpty = false := by
  refine h.invariant (P := fun s => ∀ r ∈ s.roles, r.name.isEmpty = false) ?_ fun s s' hs hc => ?_
  · intro r hr; cases hr
  · intro r hr
    rcases hc.roles r hr with hn | ⟨q, hq, hname⟩
    · exact hn
    · rw [← hname]; exact hs q hq

theorem CoreReachable.effectivePermissions_eq (h : CoreReachable limits s) (hc : ctx.isDone = false)
    (hu : caller.user.isNil = false) {r : Role}
    (hr : s.role? (Text.trim caller.role) = some r) :
    Access.effectivePermissions limits ctx caller capability s = .ok
      (if r.isAdmin then .admin
        else .only (s.scope limits (Text.trim caller.role) caller.user capability)) := by
  obtain ⟨hm, hname⟩ := Store.role?_name hr
  have hnamed : (Text.trim caller.role).isEmpty = false := by
    rw [← hname]
    exact h.role_named r hm
  exact Access.effectivePermissions_eq_ok.mpr ⟨hu, hnamed, hc, r, hr, rfl⟩

/-! Paths of rows -/

def Entity.ShownTo (user : UserId) (e : Entity) : Prop :=
  e.publication ≠ .draft ∨ e.createdBy = user

theorem Entity.isVisibleTo_iff : e.isVisibleTo (some user) = true ↔
    e.isLive = true ∧ e.ShownTo user := by
  cases hp : e.publication <;>
    simp [isVisibleTo, ShownTo, hp, Publication.isDraft]

namespace Store

/-- Parent links lead from the second entity up to the first, and every row on the way, deleted or
not, is shown to the user. -/
inductive Chain (s : Store) (user : UserId) : EntityId → EntityId → Prop
  | here {a : EntityId} {e : Entity} (h : s.row? a = some e) (hs : e.ShownTo user) :
      Chain s user a a
  | child {a p b : EntityId} {e : Entity} (h : Chain s user a p) (hb : s.row? b = some e)
      (hs : e.ShownTo user) (hp : e.parent = some p) : Chain s user a b

theorem seen_of_live (h : s.live? id = some e) (hs : e.ShownTo user) :
    s.seen (some user) id = some e := by
  obtain ⟨hm, hid, hl⟩ := live?_eq_some.mp h
  exact seen_eq_some.mpr ⟨hm, hid, Entity.isVisibleTo_iff.mpr ⟨hl, hs⟩⟩

theorem row?_of_seen (h : s.seen (some user) id = some e) :
    s.row? id = some e ∧ e.ShownTo user := by
  obtain ⟨hm, hid, hv⟩ := seen_eq_some.mp h
  exact ⟨row?_eq_some.mpr ⟨hm, hid⟩, (Entity.isVisibleTo_iff.mp hv).2⟩

theorem Path.chain {n : Nat} (h : s.Path (some user) n a b) : s.Chain user a b := by
  induction h with
  | here h =>
    obtain ⟨hr, hs⟩ := row?_of_seen h
    exact .here hr hs
  | child _ hb hp ih =>
    obtain ⟨hr, hs⟩ := row?_of_seen hb
    exact .child ih hr hs hp

theorem IsForest.path_of_chain (h : s.IsForest d) (hc : s.Chain user a b)
    (hb : s.live? b = some e) : ∃ n, s.Path (some user) n a b := by
  induction hc generalizing e with
  | here hr hs =>
    rw [live?, hr, Option.filter_eq_some_iff] at hb
    obtain ⟨heq, hl⟩ := hb
    cases heq
    exact ⟨0, .here (seen_of_live (by rw [live?, hr, Option.filter_some, if_pos hl]) hs)⟩
  | child _ hr hs hp ih =>
    have hrow := hb
    rw [live?, hr, Option.filter_eq_some_iff] at hrow
    cases hrow.1
    obtain ⟨q, hq, -⟩ := h.parent_department hb hp
    obtain ⟨n, hn⟩ := ih hq
    exact ⟨n + 1, hn.child (seen_of_live hb hs) hp⟩

theorem IsForest.exists_path (h : s.IsForest d) : (∃ n, s.Path (some user) n a b) ↔
    (∃ e, s.live? a = some e) ∧ (∃ e, s.live? b = some e) ∧ s.Chain user a b := by
  constructor
  · rintro ⟨n, hp⟩
    obtain ⟨e, he⟩ := hp.top
    obtain ⟨f, hf⟩ := hp.bottom
    exact ⟨⟨e, live?_of_seen he⟩, ⟨f, live?_of_seen hf⟩, hp.chain⟩
  · rintro ⟨-, ⟨f, hf⟩, hc⟩
    exact h.path_of_chain hc hf

end Store

def Sample.editor : Caller := ⟨author, "editor"⟩

namespace Store

/-- In all reachable tables the permissions of a caller whose role is not an administrator are
exactly these: for writing, the live entities that a chain of rows shown to the caller joins to an
entity above them, or to themselves, with a write grant; for reading, those that such a chain joins
to an entity with any grant, above them or below. -/
theorem effectivePermissions_exact (h : CoreReachable limits s) (hc : ctx.isDone = false)
    (hu : caller.user.isNil = false) {r : Role}
    (hr : s.role? (Text.trim caller.role) = some r) (ha : r.isAdmin = false) :
    (∃ ids, Access.effectivePermissions limits ctx caller .write s = .ok (.only ids) ∧
      ids.Nodup ∧ ∀ id, id ∈ ids ↔ (∃ e, s.live? id = some e) ∧
        ∃ g f, s.live? g = some f ∧ ⟨r.name, g, .write⟩ ∈ s.grants ∧ s.Chain caller.user g id) ∧
    ∃ ids, Access.effectivePermissions limits ctx caller .read s = .ok (.only ids) ∧
      ids.Nodup ∧ ∀ id, id ∈ ids ↔ (∃ e, s.live? id = some e) ∧
        ∃ g f c, s.live? g = some f ∧ ⟨r.name, g, c⟩ ∈ s.grants ∧
          (s.Chain caller.user g id ∨ s.Chain caller.user id g) := by
  have hf := h.isForest
  obtain ⟨hm, hname⟩ := role?_name hr
  have hnamed : (Text.trim caller.role).isEmpty = false := by
    rw [← hname]; exact h.role_named r hm
  have hok : ∀ capability, Access.effectivePermissions limits ctx caller capability s =
      .ok (.only (s.scope limits r.name caller.user capability)) := by
    intro capability
    rw [Access.effectivePermissions_eq_ok, hname]
    exact ⟨hu, hnamed, hc, r, hr, by rw [ha]; rfl⟩
  refine ⟨⟨_, hok .write, nodup_scope, fun id => ?_⟩, ⟨_, hok .read, nodup_scope, fun id => ?_⟩⟩
  · rw [hf.mem_scope, under_write]
    constructor
    · rintro ⟨g, n, hg, hp⟩
      obtain ⟨⟨f, hgl⟩, he, hchain⟩ := hf.exists_path.mp ⟨n, hp⟩
      exact ⟨he, g, f, hgl, granted_write.mp hg, hchain⟩
    · rintro ⟨he, g, f, hgl, hg, hchain⟩
      obtain ⟨n, hn⟩ := hf.exists_path.mpr ⟨⟨f, hgl⟩, he, hchain⟩
      exact ⟨g, n, granted_write.mpr hg, hn⟩
  · rw [hf.mem_scope]
    constructor
    · rintro (⟨g, n, hg, hp⟩ | ⟨-, g, n, hg, hp⟩)
      · obtain ⟨c, hg⟩ := granted_read.mp hg
        obtain ⟨⟨f, hgl⟩, he, hchain⟩ := hf.exists_path.mp ⟨n, hp⟩
        exact ⟨he, g, f, c, hgl, hg, .inl hchain⟩
      · obtain ⟨c, hg⟩ := granted_read.mp hg
        obtain ⟨he, ⟨f, hgl⟩, hchain⟩ := hf.exists_path.mp ⟨n, hp⟩
        exact ⟨he, g, f, c, hgl, hg, .inr hchain⟩
    · rintro ⟨he, g, f, c, hgl, hg, hchain | hchain⟩
      · obtain ⟨n, hn⟩ := hf.exists_path.mpr ⟨⟨f, hgl⟩, he, hchain⟩
        exact .inl ⟨g, n, granted_read.mpr ⟨c, hg⟩, hn⟩
      · obtain ⟨n, hn⟩ := hf.exists_path.mpr ⟨he, ⟨f, hgl⟩, hchain⟩
        exact .inr ⟨rfl, g, n, granted_read.mpr ⟨c, hg⟩, hn⟩

theorem effectivePermissions_exact_editor : CoreReachable {} Sample.tables ∧
    Sample.editor.user.isNil = false ∧
    Sample.tables.role? (Text.trim Sample.editor.role) = some ⟨"editor", false⟩ ∧
    (∃ ids, Access.effectivePermissions {} .background Sample.editor .write Sample.tables =
      .ok (.only ids) ∧ Sample.notes.id ∈ ids) ∧
    ∃ ids, Access.effectivePermissions {} .background Sample.editor .read Sample.tables =
      .ok (.only ids) ∧ Sample.library.id ∈ ids := by
  have hu : Sample.editor.user.isNil = false := by decide +kernel
  have hr : Sample.tables.role? (Text.trim Sample.editor.role) = some ⟨"editor", false⟩ := by
    decide +kernel
  obtain ⟨⟨writable, hw, -, hwmem⟩, readable, hread, -, hrmem⟩ :=
    effectivePermissions_exact Sample.reachable_tables (rfl : Context.background.isDone = false) hu hr rfl
  have hshelf : Sample.tables.live? Sample.shelf.id = some Sample.shelf := by decide +kernel
  have hlibrary : Sample.tables.live? Sample.library.id = some Sample.library := by decide +kernel
  have hnotes : Sample.tables.live? Sample.notes.id = some Sample.notes := by decide +kernel
  have hgrant : ⟨"editor", Sample.shelf.id, .write⟩ ∈ Sample.tables.grants := by decide +kernel
  have hpub : ∀ e ∈ [Sample.library, Sample.shelf], e.ShownTo Sample.editor.user := by
    intro e he
    left
    revert e
    decide +kernel
  refine ⟨Sample.reachable_tables, hu, hr, ⟨writable, hw, ?_⟩, readable, hread, ?_⟩
  · refine (hwmem _).mpr ⟨⟨_, hnotes⟩, _, _, hshelf, hgrant, ?_⟩
    exact .child (.here rfl (hpub _ (by decide))) rfl (.inr rfl) rfl
  · refine (hrmem _).mpr ⟨⟨_, hlibrary⟩, _, _, _, hshelf, hgrant, .inr ?_⟩
    exact .child (.here rfl (hpub _ (by decide))) rfl (hpub _ (by decide)) rfl

end Store

end KnowledgeTree
