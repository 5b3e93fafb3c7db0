import KnowledgeTree.Proofs.GrantHistory
import KnowledgeTree.Proofs.Names
import KnowledgeTree.Proofs.Persistence

/-!
The names of roles. A role is saved under a name without blanks at its ends, and a caller's role is
looked up without them too, while a grant and a revocation take the name as it is given. So every
role in the tables, and every grant, has a trimmed name, and with blanks around it the name is unknown
to a grant and misses in a revocation.
-/

namespace KnowledgeTree

variable {α : Type} {limits : Limits} {ctx ctx' : Context} {sys : System} {s s' : Store}
  {name role : String} {entity : EntityId} {capability : Capability} {caller : Caller}

/-! What an operation does to the roles and the grants -/

def Booked (ctx : Context) (s s' : Store) : Prop :=
  (s'.roles = s.roles ∧ s'.grants = s.grants) ∨ ∃ c : CoreCall, c.Books ctx s s'

theorem Store.Answered.booked (h : s.Answered s') : Booked ctx s s' := by
  cases h with
  | same => exact .inl ⟨rfl, rfl⟩
  | added h _ => exact .inl ⟨h.roles, h.grants⟩
  | edited h _ => exact .inl ⟨h.roles, h.grants⟩
  | deleted targets now => exact .inl ⟨rfl, rfl⟩

theorem CoreCall.booked (limits : Limits) (ctx : Context) (sys : System) (c : CoreCall) :
    Booked ctx sys.store (c.run limits ctx sys).store := by
  cases hc : c.succeeds limits ctx sys with
  | true => exact .inr ⟨c, books_of_succeeds hc⟩
  | false => rw [store_of_fails hc]; exact .inl ⟨rfl, rfl⟩

theorem Operation.booked (op : Operation α) :
    Booked ctx sys.store (op.run limits ctx sys).2.store := by
  have guarded : ∀ (permission : Except Error Unit) {β : Type}
      (action : System → Except Error β × System), Booked ctx sys.store (action sys).2.store →
      Booked ctx sys.store (Service.guarded permission action sys).2.store := by
    intro permission β action h
    cases permission with
    | ok _ => exact h
    | error _ => exact .inl ⟨rfl, rfl⟩
  cases op with
  | query q => exact .inl ⟨rfl, rfl⟩
  | primitive r => exact (sys.answered ctx r).booked
  | upsertRole name isAdmin =>
    -- both sides are opened by hand, since unification is slow to find them equal
    have h := (CoreCall.upsertRole name isAdmin).booked limits ctx sys
    rw [CoreCall.run] at h
    rw [run]
    exact h
  | grant role entity capability =>
    exact (CoreCall.grant role entity capability).booked limits ctx sys
  | revoke role entity capability =>
    exact (CoreCall.revoke role entity capability).booked limits ctx sys
  | core m =>
    cases m with
    | create r => exact (CoreCall.create r).booked limits ctx sys
    | update r => exact (CoreCall.update r).booked limits ctx sys
    | delete id => exact (CoreCall.delete id).booked limits ctx sys
  | create caller input =>
    exact guarded _ _ ((CoreCall.create (input.request caller.user)).booked limits ctx sys)
  | update caller id input =>
    exact guarded _ _ ((CoreCall.update (input.request id caller.user)).booked limits ctx sys)
  | delete caller id => exact guarded _ _ ((CoreCall.delete id).booked limits ctx sys)

/-! The names in the tables -/

namespace Store

structure TrimmedRoles (s : Store) : Prop where
  roles : ∀ {name r}, s.role? name = some r → Text.Trimmed name
  grants : ∀ {g}, g ∈ s.grants → Text.Trimmed g.role

theorem trimmedRoles_empty : Store.empty.TrimmedRoles where
  roles h := by cases h
  grants h := by cases h

theorem role?_eq_mk {r : Role} (h : s.role? name = some r) :
    s.role? name = some ⟨name, r.isAdmin⟩ := by
  obtain ⟨-, rfl⟩ := role?_name h
  exact h

end Store

theorem Booked.trimmedRoles (h : Booked ctx s s') (hs : s.TrimmedRoles) : s'.TrimmedRoles := by
  rcases h with ⟨hr, hg⟩ | ⟨c, hc⟩
  · exact ⟨fun h => hs.roles ((Store.role?_congr hr).symm.trans h), fun h => hs.grants (hg ▸ h)⟩
  · constructor
    · intro name r h
      rcases hc.role?.mp (Store.role?_eq_mk h) with ⟨given, -, rfl⟩ | ⟨h, -⟩
      · exact Text.trimmed_trim given
      · exact hs.roles h
    · intro g h
      rcases hc.mem_grants.mp h with rfl | ⟨h, -⟩
      · -- a grant is made to a role that is there
        cases hc with
        | grant hgrant =>
          obtain ⟨-, ⟨r, hr⟩, -⟩ := Store.grant_eq_ok.mp hgrant
          exact hs.roles hr
      · exact hs.grants h

theorem Booked.exists_role (h : Booked ctx s s') (hs : ∃ r, s.role? name = some r) :
    ∃ r, s'.role? name = some r := by
  obtain ⟨r, hr⟩ := hs
  rcases h with ⟨hroles, -⟩ | ⟨c, hc⟩
  · exact ⟨r, (Store.role?_congr hroles).trans hr⟩
  · by_cases hset : ∃ isAdmin, c.Sets name isAdmin
    · obtain ⟨isAdmin, hset⟩ := hset
      exact ⟨_, hc.role?.mpr (.inl hset)⟩
    · exact ⟨_, hc.role?.mpr (.inr ⟨Store.role?_eq_mk hr, hset⟩)⟩

theorem Later.trimmedRoles (h : Later s s') (hs : s.TrimmedRoles) : s'.TrimmedRoles := by
  induction h with
  | here => exact hs
  | step _ _ _ op ih => exact op.booked.trimmedRoles ih

theorem Later.exists_role (h : Later s s') (hs : ∃ r, s.role? name = some r) :
    ∃ r, s'.role? name = some r := by
  induction h with
  | here => exact hs
  | step _ _ _ op ih => exact op.booked.exists_role ih

theorem Store.exists_role_of_upsertRole {isAdmin : Bool}
    (h : s.upsertRole ctx name isAdmin = .ok s') : ∃ r, s'.role? (Text.trim name) = some r := by
  obtain ⟨-, -, rfl⟩ := upsertRole_eq_ok.mp h
  exact ⟨_, find?_withRole.trans (if_pos rfl)⟩

/-! What callers hold -/

def Access.Holds (ctx : Context) (caller : Caller) (capability : Capability) (s : Store)
    (entity : EntityId) : Prop :=
  ∃ direct, directPermissions ctx caller capability s = .ok direct ∧ entity ∈ direct.entityIds

theorem Access.directPermissions_eq_ok {direct : DirectPermissions} :
    directPermissions ctx caller capability s = .ok direct ↔
      (caller.user.isNil = false ∧ (Text.trim caller.role).isEmpty = false) ∧
        s.directPermissions ctx (Text.trim caller.role) capability = .ok direct := by
  rw [directPermissions]
  split
  · next h =>
    rw [Bool.or_eq_true] at h
    refine iff_of_false (by simp) ?_
    rintro ⟨⟨hu, ht⟩, -⟩
    simp [hu, ht] at h
  · next h =>
    rw [Bool.or_eq_true, not_or, Bool.not_eq_true, Bool.not_eq_true] at h
    exact (and_iff_right h).symm

theorem Access.holds_iff : Holds ctx caller capability s entity ↔
    ctx.isDone = false ∧ caller.user.isNil = false ∧ (Text.trim caller.role).isEmpty = false ∧
      (∃ r, s.role? (Text.trim caller.role) = some r) ∧ (∃ e, s.live? entity = some e) ∧
      s.Granted (Text.trim caller.role) capability entity := by
  constructor
  · rintro ⟨direct, hd, he⟩
    obtain ⟨⟨hu, ht⟩, hd⟩ := directPermissions_eq_ok.mp hd
    obtain ⟨hc, r, hr, rfl⟩ := Store.directPermissions_eq_ok.mp hd
    exact ⟨hc, hu, ht, ⟨r, hr⟩, Store.mem_seeds.mp he⟩
  · rintro ⟨hc, hu, ht, ⟨r, hr⟩, he⟩
    exact ⟨_, directPermissions_eq_ok.mpr
      ⟨⟨hu, ht⟩, Store.directPermissions_eq_ok.mpr ⟨hc, r, hr, rfl⟩⟩, Store.mem_seeds.mpr he⟩

theorem Access.holds_of_known (hn : role.isEmpty = false) (hr : ∃ r, s.role? role = some r)
    (he : ∃ e, s.live? entity = some e) (hcaller : Text.trim caller.role = role) :
    Holds ctx caller capability s entity ↔
      ctx.isDone = false ∧ caller.user.isNil = false ∧ s.Granted role capability entity := by
  rw [holds_iff, hcaller]
  simp only [hn, hr, he, true_and]

namespace Store

/-- A grant to the role goes through, and whoever has the role then holds the entity. Taking the grant
back finds it, and leaves no more than a grant of writing allows. -/
def Lends (s : Store) (role : String) (entity : EntityId) (capability : Capability) : Prop :=
  ∀ ctx, ctx.isDone = false → ∃ granted, s.grant ctx role entity capability = .ok granted ∧
    (∀ ctx caller, Text.trim caller.role = role →
      (Access.Holds ctx caller capability granted entity ↔
        ctx.isDone = false ∧ caller.user.isNil = false)) ∧
    ∀ ctx, ctx.isDone = false → ∃ revoked,
      granted.revoke ctx role entity capability = .ok (true, revoked) ∧
      (∀ g, g ∈ revoked.grants ↔ g ∈ s.grants ∧ g ≠ ⟨role, entity, capability⟩) ∧
      ∀ ctx caller, Text.trim caller.role = role →
        (Access.Holds ctx caller capability revoked entity ↔
          ctx.isDone = false ∧ caller.user.isNil = false ∧
            capability = .read ∧ ⟨role, entity, .write⟩ ∈ s.grants)

/-- How a role saved under a name is served. Without the blanks around it the name serves grants,
revocations and callers. With them it serves callers only. -/
structure Served (s : Store) (name : String) (entity : EntityId) (capability : Capability) :
    Prop where
  trimmed : s.Lends (Text.trim name) entity capability
  padded : Text.trim name ≠ name → ∀ ctx, ctx.isDone = false →
    s.grant ctx name entity capability =
      .error (.validationFailed "role" (.unknownValue name)) ∧
    s.revoke ctx name entity capability = .ok (false, s)

theorem TrimmedRoles.grant_padded (h : s.TrimmedRoles) (hn : ¬Text.Trimmed name)
    (hc : ctx.isDone = false) (entity : EntityId) (capability : Capability) :
    s.grant ctx name entity capability =
      .error (.validationFailed "role" (.unknownValue name)) := by
  have hrole : s.role? name = none :=
    Option.eq_none_iff_forall_ne_some.mpr fun r hr => hn (h.roles hr)
  rw [Store.grant, Context.check_live hc, hrole]
  rfl

theorem TrimmedRoles.revoke_padded (h : s.TrimmedRoles) (hn : ¬Text.Trimmed name)
    (hc : ctx.isDone = false) (entity : EntityId) (capability : Capability) :
    s.revoke ctx name entity capability = .ok (false, s) := by
  have hfree : ∀ g ∈ s.grants, g ≠ ⟨name, entity, capability⟩ := by
    rintro g hg rfl
    exact hn (h.grants hg)
  refine revoke_eq_ok.mpr ⟨hc, ?_, ?_⟩
  · rw [eq_comm, ← Bool.not_eq_true, List.contains_iff_mem]
    exact fun hm => hfree _ hm rfl
  · rw [List.filter_eq_self.mpr fun g hg => bne_iff_ne.mpr (hfree g hg)]

theorem exists_grant (hc : ctx.isDone = false) (hr : ∃ r, s.role? role = some r)
    (he : ∃ e, s.live? entity = some e) (capability : Capability) : ∃ s',
      s.grant ctx role entity capability = .ok s' ∧ (∃ r, s'.role? role = some r) ∧
        ∃ e, s'.live? entity = some e := by
  obtain ⟨s', hg⟩ : ∃ s', s.grant ctx role entity capability = .ok s' :=
    ⟨_, grant_eq_ok.mpr ⟨hc, hr, he, rfl⟩⟩
  have hs := (grant_eq_ok.mp hg).2.2.2
  split at hs <;> subst hs
  · exact ⟨_, hg, hr, he⟩
  · exact ⟨_, hg, hr, he⟩

theorem granted_of_revoke {found : Bool}
    (h : s.revoke ctx role entity capability = .ok (found, s')) :
    s'.Granted role capability entity ↔
      capability = .read ∧ ⟨role, entity, .write⟩ ∈ s.grants := by
  constructor
  · rintro ⟨k, hk, rfl | rfl⟩
    · exact absurd rfl ((mem_grants_of_revoke h).mp hk).2
    · obtain ⟨hm, hne⟩ := (mem_grants_of_revoke h).mp hk
      cases capability with
      | read => exact ⟨rfl, hm⟩
      | write => exact absurd rfl hne
  · rintro ⟨rfl, hm⟩
    exact ⟨.write, (mem_grants_of_revoke h).mpr ⟨hm, by simp⟩, .inr rfl⟩

theorem lends_of_known (hn : role.isEmpty = false) (hr : ∃ r, s.role? role = some r)
    (he : ∃ e, s.live? entity = some e) (capability : Capability) :
    s.Lends role entity capability := by
  intro ctx hc
  obtain ⟨granted, hg, hr', he'⟩ := exists_grant hc hr he capability
  have hnew : ⟨role, entity, capability⟩ ∈ granted.grants := (mem_grants_of_grant hg).mpr (.inl rfl)
  refine ⟨granted, hg, fun ctx caller hcaller => ?_, fun ctx hc => ?_⟩
  · have hgranted : granted.Granted role capability entity := ⟨_, hnew, .inl rfl⟩
    rw [Access.holds_of_known hn hr' he' hcaller]
    simp only [hgranted, and_true]
  · obtain ⟨revoked, hrevoke⟩ : ∃ revoked,
        granted.revoke ctx role entity capability = .ok (true, revoked) :=
      ⟨_, revoke_eq_ok.mpr ⟨hc, (List.contains_iff_mem.mpr hnew).symm, rfl⟩⟩
    have hrevoked := (revoke_eq_ok.mp hrevoke).2.2
    refine ⟨revoked, hrevoke, fun g => ?_, fun ctx caller hcaller => ?_⟩
    · rw [mem_grants_of_revoke hrevoke, mem_grants_of_grant hg, or_and_right]
      simp
    · have hwrite : capability = .read ∧ ⟨role, entity, .write⟩ ∈ granted.grants ↔
          capability = .read ∧ ⟨role, entity, .write⟩ ∈ s.grants := by
        refine and_congr_right fun hread => ?_
        rw [mem_grants_of_grant hg, hread]
        simp
      rw [Access.holds_of_known hn (hrevoked ▸ hr') (hrevoked ▸ he') hcaller,
        granted_of_revoke hrevoke, hwrite]

/-- However the tables came about since, a role that was saved under a name is served. -/
theorem served_of_upsertRole {t : Store} {isAdmin : Bool} (h : Later .empty t)
    (hu : t.upsertRole ctx name isAdmin = .ok s') (hl : Later s' s)
    (he : ∃ e, s.live? entity = some e) (capability : Capability) :
    s.Served name entity capability := by
  have hn : (Text.trim name).isEmpty = false := (upsertRole_eq_ok.mp hu).1
  have hr : ∃ r, s.role? (Text.trim name) = some r :=
    hl.exists_role (exists_role_of_upsertRole hu)
  have ht : s.TrimmedRoles := by
    have hsaved : Booked ctx t s' := .inr ⟨_, .upsertRole hu⟩
    exact hl.trimmedRoles (hsaved.trimmedRoles (h.trimmedRoles trimmedRoles_empty))
  refine ⟨lends_of_known hn hr he capability, fun hne ctx hc => ?_⟩
  have hpadded : ¬Text.Trimmed name := fun h => hne (Text.trim_eq_self_iff.mpr h)
  exact ⟨ht.grant_padded hpadded hc entity capability,
    ht.revoke_padded hpadded hc entity capability⟩

end Store

namespace Sample

def saved : Store := { furniture with roles := [⟨"editor", false⟩] }

def shelfLent : Store := { saved with grants := [⟨"editor", shelf.id, .write⟩] }

end Sample

namespace Store

theorem served_of_upsertRole_editor :
    Later .empty Sample.furniture ∧
    Sample.furniture.upsertRole .background " editor " false = .ok Sample.saved ∧
    Later Sample.saved Sample.saved ∧
    (∃ e, Sample.saved.live? Sample.shelf.id = some e) ∧
    Sample.saved.Served " editor " Sample.shelf.id .write ∧
    Sample.saved.Served "editor" Sample.shelf.id .read := by
  have hstart := Sample.reachable_furniture.later
  have hpadded : Sample.furniture.upsertRole .background " editor " false = .ok Sample.saved := by
    decide +kernel
  have hplain : Sample.furniture.upsertRole .background "editor" false = .ok Sample.saved := by
    decide +kernel
  have hshelf : ∃ e, Sample.saved.live? Sample.shelf.id = some e :=
    ⟨Sample.shelf, by decide +kernel⟩
  exact ⟨hstart, hpadded, .here, hshelf, served_of_upsertRole hstart hpadded .here hshelf .write,
    served_of_upsertRole hstart hplain .here hshelf .read⟩

/-- The role was saved with blanks around its name. A caller may present it so, but a grant with them
is refused and a revocation with them misses, which leaves the shelf with the role. -/
theorem padded_role_missed :
    Later .empty Sample.furniture ∧
    Sample.furniture.upsertRole .background " editor " false = .ok Sample.saved ∧
    Sample.saved.live? Sample.shelf.id = some Sample.shelf ∧
    Sample.saved.grant .background " editor " Sample.shelf.id .write =
      .error (.validationFailed "role" (.unknownValue " editor ")) ∧
    Sample.saved.grant .background "editor" Sample.shelf.id .write = .ok Sample.shelfLent ∧
    Sample.shelfLent.revoke .background " editor " Sample.shelf.id .write =
      .ok (false, Sample.shelfLent) ∧
    Access.directPermissions .background ⟨Sample.author, " editor "⟩ .write Sample.shelfLent =
      .ok ⟨false, [Sample.shelf.id]⟩ := by
  refine ⟨Sample.reachable_furniture.later, ?_, ?_, ?_, ?_, ?_, ?_⟩ <;> decide +kernel

end Store

end KnowledgeTree
