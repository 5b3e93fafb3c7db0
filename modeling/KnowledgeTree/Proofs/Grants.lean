import KnowledgeTree.Proofs.Rows
import KnowledgeTree.Store.Grant

/-!
Changes of roles and grants that succeed, and what a role holds directly.
-/

namespace KnowledgeTree.Store

variable {s s' : Store} {ctx : Context} {role name : String} {entity : EntityId}
  {capability : Capability}

theorem role?_name {r : Role} (h : s.role? name = some r) : r ∈ s.roles ∧ r.name = name :=
  ⟨List.mem_of_find?_eq_some h, by simpa using List.find?_some h⟩

def withRole (s : Store) (name : String) (isAdmin : Bool) : List Role :=
  if (s.role? name).isSome then s.roles.map fun r => if r.name == name then { r with isAdmin } else r
  else s.roles ++ [⟨name, isAdmin⟩]

theorem upsertRole_eq_ok {isAdmin : Bool} : s.upsertRole ctx name isAdmin = .ok s' ↔
    (Text.trim name).isEmpty = false ∧ ctx.isDone = false ∧
      s' = { s with roles := s.withRole (Text.trim name) isAdmin } := by
  simp only [upsertRole]
  split
  · next h => simp [h]
  · next h =>
    simp only [Except.bind_eq_ok, Context.check_eq_ok, exists_const, pure, Except.pure,
      Except.ok.injEq, eq_comm (a := s')]
    rw [Bool.not_eq_true] at h
    simp only [h, true_and]
    rfl

theorem grant_eq_ok : s.grant ctx role entity capability = .ok s' ↔ ctx.isDone = false ∧
    (∃ r, s.role? role = some r) ∧ (∃ e, s.live? entity = some e) ∧
      s' = if s.grants.contains ⟨role, entity, capability⟩ then s
        else { s with grants := s.grants ++ [⟨role, entity, capability⟩] } := by
  unfold grant
  cases hd : ctx.isDone with
  | true => rw [Context.check_done hd]; simp [bind, Except.bind]
  | false =>
    rw [Context.check_live hd]
    cases hr : s.role? role with
    | none => simp [bind, Except.bind, throw, throwThe, MonadExceptOf.throw]
    | some r =>
      cases he : s.live? entity with
      | none => simp [bind, Except.bind, throw, throwThe, MonadExceptOf.throw]
      | some e => simp [bind, Except.bind, pure, Except.pure, eq_comm (a := s')]

theorem mem_withRole {r : Role} {isAdmin : Bool} (h : r ∈ s.withRole name isAdmin) :
    r.name = name ∨ ∃ q ∈ s.roles, q.name = r.name := by
  unfold withRole at h
  split at h
  · obtain ⟨q, hq, rfl⟩ := List.mem_map.mp h
    refine .inr ⟨q, hq, ?_⟩
    split <;> rfl
  · rcases List.mem_append.mp h with h | h
    · exact .inr ⟨r, h, rfl⟩
    · rw [List.mem_singleton.mp h]
      exact .inl rfl

theorem revoke_eq_ok {found : Bool} :
    s.revoke ctx role entity capability = .ok (found, s') ↔ ctx.isDone = false ∧
      found = s.grants.contains ⟨role, entity, capability⟩ ∧
      s' = { s with grants := s.grants.filter (· != ⟨role, entity, capability⟩) } := by
  simp only [revoke, Except.bind_eq_ok, Context.check_eq_ok, exists_const, pure, Except.pure,
    Except.ok.injEq, Prod.mk.injEq, eq_comm (a := found), eq_comm (a := s')]

/-! What a role holds directly -/

/-- A grant to the role allows the capability on the entity; a grant of writing allows both. -/
def Granted (s : Store) (role : String) (capability : Capability) (entity : EntityId) : Prop :=
  ∃ c, ⟨role, entity, c⟩ ∈ s.grants ∧ (c = capability ∨ c = .write)

theorem isGranted_iff : s.isGranted role capability entity = true ↔
    s.Granted role capability entity := by
  simp only [isGranted, List.any_eq_true, Bool.and_eq_true, Bool.or_eq_true, beq_iff_eq]
  constructor
  · rintro ⟨⟨_, _, c⟩, hg, ⟨rfl, rfl⟩, hc⟩
    exact ⟨c, hg, hc⟩
  · rintro ⟨c, hg, hc⟩
    exact ⟨_, hg, ⟨rfl, rfl⟩, hc⟩

theorem granted_write : s.Granted role .write entity ↔ ⟨role, entity, .write⟩ ∈ s.grants := by
  simp [Granted]

theorem granted_read : s.Granted role .read entity ↔ ∃ c, ⟨role, entity, c⟩ ∈ s.grants := by
  constructor
  · rintro ⟨c, hg, -⟩
    exact ⟨c, hg⟩
  · rintro ⟨c, hg⟩
    refine ⟨c, hg, ?_⟩
    cases c with
    | read => exact .inl rfl
    | write => exact .inr rfl

def seeds (s : Store) (role : String) (capability : Capability) : List EntityId :=
  ((s.live.filter fun e => s.isGranted role capability e.id).map Entity.id).mergeSort
    fun a b => a ≤ b

theorem mem_seeds : entity ∈ s.seeds role capability ↔
    (∃ e, s.live? entity = some e) ∧ s.Granted role capability entity := by
  simp only [seeds, List.mem_mergeSort, List.mem_map, List.mem_filter, isGranted_iff, mem_live]
  constructor
  · rintro ⟨e, ⟨he, hg⟩, rfl⟩
    exact ⟨⟨e, he⟩, hg⟩
  · rintro ⟨⟨e, he⟩, hg⟩
    obtain rfl := (live?_eq_some.mp he).2.1
    exact ⟨e, ⟨he, hg⟩, rfl⟩

theorem directPermissions_eq_ok {direct : DirectPermissions} :
    s.directPermissions ctx role capability = .ok direct ↔ ctx.isDone = false ∧
      ∃ r, s.role? role = some r ∧ direct = ⟨r.isAdmin, s.seeds role capability⟩ := by
  simp only [directPermissions, Except.bind_eq_ok, Context.check_eq_ok, exists_const]
  apply and_congr_right'
  cases hr : s.role? role with
  | none => simp [throw, throwThe, MonadExceptOf.throw]
  | some r =>
    simp only [pure, Except.pure, Except.ok.injEq, Option.some.injEq, exists_eq_left',
      eq_comm (a := direct)]
    rfl

end KnowledgeTree.Store
