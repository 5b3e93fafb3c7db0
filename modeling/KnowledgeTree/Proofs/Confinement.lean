import KnowledgeTree.Proofs.Scope
import KnowledgeTree.Access.Service

/-!
Callers confined to their grants. What a caller who is not an administrator changes never brings
other entities into the caller's scope than those that the caller creates.
-/

namespace KnowledgeTree

variable {limits : Limits} {ctx : Context} {sys sys' : System} {s s' s'' : Store} {role : String}
  {user : UserId} {caller : Caller} {capability : Capability} {x y p id : EntityId} {e q : Entity}
  {made made' : List EntityId}

namespace Store

theorem Granted.of_write {g : EntityId} (h : s.Granted role .write g) :
    s.Granted role capability g :=
  ⟨.write, granted_write.mp h, .inr rfl⟩

theorem Under.of_write (h : s.Under role user .write x) : s.Under role user capability x := by
  obtain ⟨g, n, hg, hp⟩ := h
  exact ⟨g, n, hg.of_write, hp⟩

theorem Under.child (h : s.Under role user capability p) (hx : s.seen (some user) x = some e)
    (hp : e.parent = some p) : s.Under role user capability x := by
  obtain ⟨g, n, hg, hpath⟩ := h
  exact ⟨g, n + 1, hg, hpath.child hx hp⟩

theorem InScope.parent (h : s.InScope role user .read x) (hx : s.seen (some user) x = some e)
    (hp : e.parent = some p) (hq : s.seen (some user) p = some q) :
    s.InScope role user .read p := by
  rcases h with ⟨g, n, hg, hpath⟩ | ⟨-, g, n, hg, hpath⟩
  · cases hpath with
    | here _ => exact .inr ⟨rfl, x, 0 + 1, hg, Path.prepend hq hx hp (.here hx)⟩
    | @child n _ p' _ e' hpath hx' hp' =>
      rw [hx] at hx'; cases hx'
      rw [hp] at hp'; cases hp'
      exact .inl ⟨g, n, hg, hpath⟩
  · exact .inr ⟨rfl, g, n + 1, hg, hpath.prepend hq hx hp⟩

/-- Of what the user sees after a change, all but one entity was seen before and hung where it
hangs. That entity, if it is moved, is moved below one that the role may write, and it is one that
the role may write itself or a new one. -/
structure Rehung (s s' : Store) (role : String) (user : UserId) (x : EntityId) : Prop where
  roles : s'.roles = s.roles
  grants : s'.grants = s.grants
  rest : ∀ b f, b ≠ x → s'.seen (some user) b = some f →
    ∃ e, s.seen (some user) b = some e ∧ e.parent = f.parent
  place : ∀ f p, s'.seen (some user) x = some f → f.parent = some p →
    s.Under role user .write p ∨ ∃ e, s.seen (some user) x = some e ∧ e.parent = some p
  own : s.Under role user .write x ∨
    s.seen (some user) x = none ∧ ∀ b e, s.seen (some user) b = some e → e.parent ≠ some x

namespace Rehung

variable (h : s.Rehung s' role user x)

include h

theorem granted {g : EntityId} (hg : s'.Granted role capability g) :
    s.Granted role capability g := by
  unfold Granted at hg ⊢
  rwa [h.grants] at hg

theorem under (hy : s'.Under role user capability y) :
    s.Under role user capability y ∨ y = x := by
  obtain ⟨g, n, hg, hp⟩ := hy
  induction hp with
  | @here a f hf =>
    by_cases hax : a = x
    · exact .inr hax
    · obtain ⟨e, he, -⟩ := h.rest a f hax hf
      exact .inl ⟨a, 0, h.granted hg, .here he⟩
  | @child n a p b f _ hb hl ih =>
    by_cases hbx : b = x
    · exact .inr hbx
    · left
      obtain ⟨e, he, hpe⟩ := h.rest b f hbx hb
      rw [hl] at hpe
      rcases ih hg with hp | rfl
      · exact hp.child he hpe
      · -- what hangs below x was there before, so x is not new
        rcases h.own with hw | ⟨-, hnone⟩
        · exact hw.of_write.child he hpe
        · exact absurd hpe (hnone b e he)

theorem upward {g : EntityId} {n : Nat} (hg : s'.Granted role .read g)
    (hp : s'.Path (some user) n y g) : s.InScope role user .read y ∨ y = x := by
  induction n generalizing y with
  | zero =>
    obtain rfl := hp.eq_of_zero
    obtain ⟨f, hf⟩ := hp.top
    by_cases hyx : y = x
    · exact .inr hyx
    · obtain ⟨e, he, -⟩ := h.rest y f hyx hf
      exact .inl (.inl ⟨y, 0, h.granted hg, .here he⟩)
  | succ n ih =>
    by_cases hyx : y = x
    · exact .inr hyx
    · left
      obtain ⟨f, hf⟩ := hp.top
      obtain ⟨q, hq, -⟩ := h.rest y f hyx hf
      obtain ⟨b, f', hb, hl, hp⟩ := hp.step_down
      by_cases hbx : b = x
      · -- from x the path goes up as it did, or to an entity that may be written
        subst hbx
        rcases h.place f' y hb hl with hw | ⟨e, he, hpe⟩
        · exact .inl hw.of_write
        · rcases h.own with hw | ⟨hnone, -⟩
          · exact InScope.parent (.inl hw.of_write) he hpe hq
          · rw [hnone] at he; cases he
      · obtain ⟨e, he, hpe⟩ := h.rest b f' hbx hb
        rw [hl] at hpe
        rcases ih hp with hi | heq
        · exact hi.parent he hpe hq
        · exact absurd heq hbx

theorem inScope (hy : s'.InScope role user capability y) :
    s.InScope role user capability y ∨ y = x := by
  rcases hy with hu | ⟨rfl, g, n, hg, hp⟩
  · rcases h.under hu with hs | heq
    · exact .inl (.inl hs)
    · exact .inr heq
  · exact h.upward hg hp

end Rehung

structure Confined (s s' : Store) (role : String) (user : UserId) (made : List EntityId) : Prop where
  roles : s'.roles = s.roles
  scope : ∀ capability y, s'.InScope role user capability y →
    s.InScope role user capability y ∨ y ∈ made

namespace Confined

theorem refl : s.Confined s role user [] := ⟨rfl, fun _ _ => .inl⟩

theorem trans (h : s.Confined s' role user made) (h' : s'.Confined s'' role user made') :
    s.Confined s'' role user (made ++ made') := by
  refine ⟨h'.roles.trans h.roles, fun capability y hy => ?_⟩
  rw [List.mem_append]
  rcases h'.scope capability y hy with hy | hy
  · rcases h.scope capability y hy with hy | hy
    · exact .inl hy
    · exact .inr (.inl hy)
  · exact .inr (.inr hy)

end Confined

theorem Rehung.confined_new (h : s.Rehung s' role user x) : s.Confined s' role user [x] := by
  refine ⟨h.roles, fun capability y hy => ?_⟩
  rw [List.mem_singleton]
  exact h.inScope hy

theorem Rehung.confined (h : s.Rehung s' role user x) (hx : s.Under role user .write x) :
    s.Confined s' role user [] := by
  refine ⟨h.roles, fun capability y hy => .inl ?_⟩
  rcases h.inScope hy with hy | rfl
  · exact hy
  · exact .inl hx.of_write

end Store

/-! What mutations leave -/

namespace Hierarchy

open Store

theorem rehung_create {r : CreateRequest} (hf : sys.store.IsForest limits.maxDepth)
    (h : create limits ctx r sys = (.ok id, sys')) (hp : r.parent = some p)
    (hw : sys.store.Under role user .write p) : sys.store.Rehung sys'.store role user id := by
  obtain ⟨e, rfl, hpe, ha⟩ : ∃ e : Entity, e.id = id ∧ e.parent = some p ∧
      Added sys.store sys'.store e := by
    obtain ⟨name, publication, ha, -⟩ := added_of_create h
    exact ⟨_, rfl, hp, ha⟩
  have hnone : sys.store.row? e.id = none := row?_eq_none.mpr ha.fresh
  have hseen : ∀ b, sys'.store.seen (some user) b =
      if b = e.id then (if e.isVisibleTo (some user) then some e else none)
      else sys.store.seen (some user) b :=
    fun b => seen_append ha.entities ha.fresh
  refine ⟨ha.roles, ha.grants, fun b f hb hs => ?_, fun f q hs hq => .inl ?_,
    .inr ⟨?_, fun b f hf' hpf => ?_⟩⟩
  · rw [hseen, if_neg hb] at hs
    exact ⟨f, hs, rfl⟩
  · rw [hseen, if_pos rfl] at hs
    split at hs
    · cases hs
      rw [hpe] at hq
      cases hq
      exact hw
    · cases hs
  · rw [seen, hnone]; rfl
  · -- a live row below the new id would hang below a live row, and there is none
    obtain ⟨q, hq, -⟩ := hf.parent_department (live?_of_seen hf') hpf
    rw [live?, hnone] at hq
    cases hq

theorem rehung_update {r : UpdateRequest} {publication : Publication}
    (h : update limits ctx r sys = (.ok publication, sys'))
    (hx : sys.store.Under role user .write r.id)
    (hp : r.parentChanged = true →
      ∃ p, r.parent = some p ∧ sys.store.Under role user .write p) :
    sys.store.Rehung sys'.store role user r.id := by
  obtain ⟨name, e, hid, hedit, -⟩ := edited_of_update h
  obtain ⟨g, n, -, hpath⟩ := id hx
  obtain ⟨e', he'⟩ := hpath.bottom
  have hsame := live?_of_seen he'
  rw [← hid, hedit.live] at hsame
  cases hsame
  refine ⟨hedit.roles, hedit.grants, fun b f hb hs => ?_, fun f p hs hl => ?_, .inl hx⟩
  · rw [hedit.seen, if_neg (by rwa [hid])] at hs
    exact ⟨f, hs, rfl⟩
  · rw [hedit.seen, if_pos hid.symm] at hs
    split at hs
    · cases hs
      cases hc : r.parentChanged with
      | true =>
        obtain ⟨p', hp', hw⟩ := hp hc
        simp only [Entity.edit, changes, hc, hp', if_true, Option.getD_some] at hl
        cases hl
        exact .inl hw
      | false =>
        simp only [Entity.edit, changes, hc] at hl
        exact .inr ⟨e, he', hl⟩
    · cases hs

theorem rehung_delete {ids : List EntityId} (h : delete limits ctx id sys = (.ok ids, sys'))
    (hx : sys.store.Under role user .write id) : sys.store.Rehung sys'.store role user id := by
  obtain ⟨-, -, -, hw⟩ := delete_cases h
  obtain ⟨-, -, hs⟩ := delete_eq_ok.mp hw
  have hseen : ∀ b f, sys'.store.seen (some user) b = some f →
      sys.store.seen (some user) b = some f := by
    intro b f hf
    rw [hs, seen_delete] at hf
    split at hf
    · cases hf
    · exact hf
  refine ⟨by rw [hs]; rfl, by rw [hs]; rfl, fun b f _ hf => ⟨f, hseen b f hf, rfl⟩, ?_, .inl hx⟩
  intro f p hf hp
  exact .inr ⟨f, hseen id f hf, hp⟩

end Hierarchy

/-! Permissions of operations -/

namespace Service

theorem checkPlace_only_eq_ok {ids : List EntityId} {parent : Option EntityId} {u : Unit} :
    checkPlace (.only ids) parent = .ok u ↔ ∃ p, parent = some p ∧ p ∈ ids := by
  cases parent with
  | none =>
    simp [checkPlace, EffectivePermissions.requireAdmin, EffectivePermissions.isAdmin]
  | some p =>
    simp [checkPlace, EffectivePermissions.checkId, EffectivePermissions.allows]

theorem guarded_eq_ok {α : Type} {permission : Except Error Unit}
    {action : System → Except Error α × System} {a : α} :
    guarded permission action sys = (.ok a, sys') ↔
      permission = .ok () ∧ action sys = (.ok a, sys') := by
  cases permission <;> simp [guarded]

theorem guarded_cases {α : Type} (permission : Except Error Unit)
    (action : System → Except Error α × System) :
    (guarded permission action sys).2 = sys ∨
      (guarded permission action sys).2 = (action sys).2 := by
  cases permission with
  | ok _ => exact .inr rfl
  | error _ => exact .inl rfl

theorem allows_of_authorize {perms : EffectivePermissions}
    (h : authorize limits ctx caller id capability s = .ok perms) :
    Access.effectivePermissions limits ctx caller capability s = .ok perms ∧
      perms.allows id = true := by
  obtain ⟨perms', hp, h⟩ := Except.bind_eq_ok.mp h
  split at h
  · next ha => cases h; exact ⟨hp, ha⟩
  · next ha =>
    obtain ⟨_, -, h⟩ := Except.bind_eq_ok.mp h
    split at h
    · cases h
    · obtain ⟨_, hcheck, -⟩ := Except.bind_eq_ok.mp h
      rw [EffectivePermissions.checkId, if_neg ha] at hcheck
      cases hcheck

end Service

section Scoped

variable {ids : List EntityId}
  (h : Access.effectivePermissions limits ctx caller capability s = .ok (.only ids))

include h

theorem Access.effectivePermissions_of_roles (hr : s'.roles = s.roles) :
    Access.effectivePermissions limits ctx caller capability s' =
      .ok (.only (s'.scope limits (Text.trim caller.role) caller.user capability)) := by
  obtain ⟨hu, hn, hc, r, hrole, hperms⟩ := Access.effectivePermissions_eq_ok.mp h
  split at hperms
  · cases hperms
  · next ha =>
    have hrole' : s'.role? (Text.trim caller.role) = some r := by rwa [Store.role?, hr]
    exact Access.effectivePermissions_eq_ok.mpr ⟨hu, hn, hc, r, hrole', (if_neg ha).symm⟩

theorem Access.eq_scope :
    ids = s.scope limits (Text.trim caller.role) caller.user capability := by
  cases h.symm.trans (Access.effectivePermissions_of_roles h rfl)
  rfl

end Scoped

section Caller

variable (hn : ∀ r, s.role? (Text.trim caller.role) = some r → r.isAdmin = false)

include hn

theorem Access.scope_of_effective {perms : EffectivePermissions}
    (h : Access.effectivePermissions limits ctx caller capability s = .ok perms) :
    perms = .only (s.scope limits (Text.trim caller.role) caller.user capability) := by
  obtain ⟨-, -, -, r, hr, rfl⟩ := Access.effectivePermissions_eq_ok.mp h
  rw [hn r hr]; rfl

namespace Service

theorem permitCreate_cases {input : CreateInput} {u : Unit}
    (h : permitCreate limits ctx caller input s = .ok u) :
    Access.effectivePermissions limits ctx caller .write s =
        .ok (.only (s.scope limits (Text.trim caller.role) caller.user .write)) ∧
      ∃ p, input.parent = some p ∧
        p ∈ s.scope limits (Text.trim caller.role) caller.user .write := by
  obtain ⟨perms, hp, h⟩ := Except.bind_eq_ok.mp h
  obtain rfl := Access.scope_of_effective hn hp
  exact ⟨hp, checkPlace_only_eq_ok.mp h⟩

theorem permitUpdate_cases {input : UpdateInput} {u : Unit}
    (h : permitUpdate limits ctx caller id input s = .ok u) :
    Access.effectivePermissions limits ctx caller .write s =
        .ok (.only (s.scope limits (Text.trim caller.role) caller.user .write)) ∧
      id ∈ s.scope limits (Text.trim caller.role) caller.user .write ∧
      (input.parentChanged = true → ∃ p, input.parent = some p ∧
        p ∈ s.scope limits (Text.trim caller.role) caller.user .write) := by
  obtain ⟨perms, hp, h⟩ := Except.bind_eq_ok.mp h
  obtain ⟨hp, ha⟩ := allows_of_authorize hp
  obtain rfl := Access.scope_of_effective hn hp
  refine ⟨hp, by simpa [EffectivePermissions.allows] using ha, fun hc => ?_⟩
  rw [if_pos hc] at h
  exact checkPlace_only_eq_ok.mp h

theorem permitDelete_cases {u : Unit} (h : permitDelete limits ctx caller id s = .ok u) :
    Access.effectivePermissions limits ctx caller .write s =
        .ok (.only (s.scope limits (Text.trim caller.role) caller.user .write)) ∧
      id ∈ s.scope limits (Text.trim caller.role) caller.user .write := by
  obtain ⟨perms, hp, -⟩ := Except.bind_eq_ok.mp h
  obtain ⟨hp, ha⟩ := allows_of_authorize hp
  obtain rfl := Access.scope_of_effective hn hp
  exact ⟨hp, by simpa [EffectivePermissions.allows] using ha⟩

end Service

end Caller

/-! Operations of one caller -/

inductive ServiceCall
  | create (input : CreateInput)
  | update (id : EntityId) (input : UpdateInput)
  | delete (id : EntityId)
deriving DecidableEq, Repr

namespace ServiceCall

def run (limits : Limits) (ctx : Context) (caller : Caller) (sys : System) : ServiceCall → System
  | create input => (Service.create limits ctx caller input sys).2
  | update id input => (Service.update limits ctx caller id input sys).2
  | delete id => (Service.delete limits ctx caller id sys).2

def created (limits : Limits) (ctx : Context) (caller : Caller) (sys : System) :
    ServiceCall → List EntityId
  | create input => (Service.create limits ctx caller input sys).1.toOption.toList
  | update _ _ => []
  | delete _ => []

theorem reachable (h : CoreReachable limits sys.store) (c : ServiceCall) :
    CoreReachable limits (c.run limits ctx caller sys).store := by
  have hcore (r : System) (hr : r = sys ∨ ∃ c : CoreCall, r = c.run limits ctx sys) :
      CoreReachable limits r.store := by
    rcases hr with rfl | ⟨c, rfl⟩
    · exact h
    · exact h.call ctx c
  apply hcore
  cases c with
  | create input =>
    exact (Service.guarded_cases _ _).imp_right fun heq => ⟨.create _, heq⟩
  | update id input =>
    exact (Service.guarded_cases _ _).imp_right fun heq => ⟨.update _, heq⟩
  | delete id =>
    exact (Service.guarded_cases _ _).imp_right fun heq => ⟨.delete _, heq⟩

end ServiceCall

inductive CallerRun (limits : Limits) (caller : Caller) (s : Store) : List EntityId → Store → Prop
  | start : CallerRun limits caller s [] s
  | call {made : List EntityId} {sys : System} (h : CallerRun limits caller s made sys.store)
      (ctx : Context) (c : ServiceCall) :
      CallerRun limits caller s (made ++ c.created limits ctx caller sys)
        (c.run limits ctx caller sys).store

namespace Service

theorem confined_of_error {α : Type} {permission : Except Error Unit} {error : Error}
    {action : System → Except Error α × System}
    (ha : ∀ e sys', action sys = (.error e, sys') → sys'.store = sys.store)
    (h : guarded permission action sys = (.error error, sys')) :
    sys.store.Confined sys'.store role user [] := by
  have heq : sys'.store = sys.store := by
    cases permission with
    | ok _ => exact ha error sys' h
    | error _ => cases h; rfl
  rw [heq]
  exact .refl

variable (hf : sys.store.IsForest limits.maxDepth)
  (hn : ∀ r, sys.store.role? (Text.trim caller.role) = some r → r.isAdmin = false)

include hf hn

theorem confined_create {input : CreateInput}
    (h : create limits ctx caller input sys = (.ok id, sys')) :
    sys.store.Confined sys'.store (Text.trim caller.role) caller.user [id] := by
  obtain ⟨hpermit, hcreate⟩ := guarded_eq_ok.mp h
  obtain ⟨-, p, hp, hw⟩ := permitCreate_cases hn hpermit
  have hw := Store.under_write.mp (hf.mem_scope.mp hw)
  exact (Hierarchy.rehung_create hf hcreate hp hw).confined_new

theorem confined_update {input : UpdateInput} {publication : Publication}
    (h : update limits ctx caller id input sys = (.ok publication, sys')) :
    sys.store.Confined sys'.store (Text.trim caller.role) caller.user [] := by
  obtain ⟨hpermit, hupdate⟩ := guarded_eq_ok.mp h
  obtain ⟨-, hx, hplace⟩ := permitUpdate_cases hn hpermit
  have hx := Store.under_write.mp (hf.mem_scope.mp hx)
  refine (Hierarchy.rehung_update hupdate hx fun hc => ?_).confined hx
  obtain ⟨p, hp, hw⟩ := hplace hc
  exact ⟨p, hp, Store.under_write.mp (hf.mem_scope.mp hw)⟩

theorem confined_delete {ids : List EntityId}
    (h : delete limits ctx caller id sys = (.ok ids, sys')) :
    sys.store.Confined sys'.store (Text.trim caller.role) caller.user [] := by
  obtain ⟨hpermit, hdelete⟩ := guarded_eq_ok.mp h
  obtain ⟨-, hx⟩ := permitDelete_cases hn hpermit
  have hx := Store.under_write.mp (hf.mem_scope.mp hx)
  exact (Hierarchy.rehung_delete hdelete hx).confined hx

theorem confined_call (c : ServiceCall) :
    sys.store.Confined (c.run limits ctx caller sys).store (Text.trim caller.role) caller.user
      (c.created limits ctx caller sys) := by
  cases c with
  | create input =>
    rcases hr : create limits ctx caller input sys with ⟨result, sys'⟩
    simp only [ServiceCall.run, ServiceCall.created, hr]
    cases result with
    | ok id => exact confined_create hf hn hr
    | error e => exact confined_of_error (fun e sys' => (Hierarchy.atomic_create _).eq) hr
  | update id input =>
    rcases hr : update limits ctx caller id input sys with ⟨result, sys'⟩
    simp only [ServiceCall.run, ServiceCall.created, hr]
    cases result with
    | ok publication => exact confined_update hf hn hr
    | error e => exact confined_of_error (fun e sys' => (Hierarchy.atomic_update _).eq) hr
  | delete id =>
    rcases hr : delete limits ctx caller id sys with ⟨result, sys'⟩
    simp only [ServiceCall.run, ServiceCall.created, hr]
    cases result with
    | ok ids => exact confined_delete hf hn hr
    | error e => exact confined_of_error (fun e sys' => (Hierarchy.atomic_delete _).eq) hr

end Service

theorem CallerRun.confined (h : CoreReachable limits s)
    (hn : ∀ r, s.role? (Text.trim caller.role) = some r → r.isAdmin = false)
    (hr : CallerRun limits caller s made s') : CoreReachable limits s' ∧
      s.Confined s' (Text.trim caller.role) caller.user made := by
  induction hr with
  | start => exact ⟨h, .refl⟩
  | @call made sys _ ctx c ih =>
    obtain ⟨hreach, hc⟩ := ih
    have hn' : ∀ r, sys.store.role? (Text.trim caller.role) = some r → r.isAdmin = false := by
      unfold Store.role? at hn ⊢
      rwa [hc.roles]
    exact ⟨c.reachable hreach, hc.trans (Service.confined_call hreach.isForest hn' c)⟩

/-! The permissions of the caller -/

namespace Access

/-- The caller's permissions list entities before and after a change, and those listed after it were
listed before or are among some entities. -/
def Bounded (limits : Limits) (ctx : Context) (caller : Caller) (s s' : Store)
    (made : List EntityId) : Prop :=
  ∀ capability, ∃ before after,
    effectivePermissions limits ctx caller capability s = .ok (.only before) ∧
    effectivePermissions limits ctx caller capability s' = .ok (.only after) ∧
    ∀ y ∈ after, y ∈ before ∨ y ∈ made

theorem bounded_of_confined {perms : EffectivePermissions} (hf : s.IsForest limits.maxDepth)
    (hf' : s'.IsForest limits.maxDepth)
    (hn : ∀ r, s.role? (Text.trim caller.role) = some r → r.isAdmin = false)
    (hp : effectivePermissions limits ctx caller capability s = .ok perms)
    (hc : s.Confined s' (Text.trim caller.role) caller.user made) :
    Bounded limits ctx caller s s' made := by
  obtain ⟨hu, ht, hd, r, hr, -⟩ := effectivePermissions_eq_ok.mp hp
  have hr' : s'.role? (Text.trim caller.role) = some r := by
    unfold Store.role? at hr ⊢
    rwa [hc.roles]
  intro capability
  refine ⟨s.scope limits (Text.trim caller.role) caller.user capability,
    s'.scope limits (Text.trim caller.role) caller.user capability, ?_, ?_, fun y hy => ?_⟩
  · exact effectivePermissions_eq_ok.mpr ⟨hu, ht, hd, r, hr, by rw [hn r hr]; rfl⟩
  · exact effectivePermissions_eq_ok.mpr ⟨hu, ht, hd, r, hr', by rw [hn r hr]; rfl⟩
  · rw [hf.mem_scope]
    exact hc.scope capability y (hf'.mem_scope.mp hy)

end Access

namespace Sample

def index : CreateInput where
  entityType := .article
  name := "Index"
  parent := some shelf.id

theorem trim_editor : Text.trim "editor" = "editor" := by decide +kernel

theorem editors : tables.role? "editor" = some ⟨"editor", false⟩ := by decide +kernel

theorem effectivePermissions_editors {user : UserId} (hu : user.isNil = false)
    (capability : Capability) :
    Access.effectivePermissions {} .background ⟨user, "editor"⟩ capability tables =
      .ok (.only (tables.scope {} "editor" user capability)) := by
  rw [Access.effectivePermissions_eq_ok, trim_editor]
  exact ⟨hu, by decide +kernel, rfl, _, editors, rfl⟩

theorem shelf_in_scope (user : UserId) (capability : Capability) :
    shelf.id ∈ tables.scope {} "editor" user capability := by
  have hgrant : ⟨"editor", shelf.id, .write⟩ ∈ tables.grants := by decide +kernel
  have hseen : tables.seen (some user) shelf.id = some shelf := rfl
  rw [reachable_tables.isForest.mem_scope]
  exact .inl ⟨shelf.id, 0, (Store.granted_write.mpr hgrant).of_write, .here hseen⟩

theorem permit_shelf {input : CreateInput} (h : input.parent = some shelf.id) :
    Service.permitCreate {} .background editor input tables = .ok () := by
  have hu : author.isNil = false := by decide +kernel
  refine Except.bind_eq_ok.mpr ⟨_, effectivePermissions_editors hu .write, ?_⟩
  exact Service.checkPlace_only_eq_ok.mpr ⟨_, h, shelf_in_scope _ _⟩

theorem create_index : ∃ sys', Service.create {} .background editor index
    ⟨tables, {}, ⟨3, 0⟩⟩ = (.ok ⟨Uuid.ofNat 4⟩, sys') := by
  have hcore : (Hierarchy.create {} .background (index.request editor.user)
    ⟨tables, {}, ⟨3, 0⟩⟩).1 = .ok ⟨Uuid.ofNat 4⟩ := by cbv
  exact ⟨_, Service.guarded_eq_ok.mpr ⟨permit_shelf rfl, Prod.ext hcore rfl⟩⟩

end Sample

namespace Service

/-- No operation of a caller who is not an administrator extends the caller's permissions, but for
the entity that it creates; a new entity hangs below one that the caller may write, and an update
changes no row but one that the caller may write. Over a run of such operations, what the caller
comes to hold was held before or was created by the caller. -/
theorem no_escalation (h : CoreReachable limits sys.store)
    (hn : ∀ r, sys.store.role? (Text.trim caller.role) = some r → r.isAdmin = false) :
    (∀ ctx input id sys', create limits ctx caller input sys = (.ok id, sys') →
      Access.Bounded limits ctx caller sys.store sys'.store [id] ∧
      ∃ writable e p,
        Access.effectivePermissions limits ctx caller .write sys.store = .ok (.only writable) ∧
        sys'.store.entities = sys.store.entities ++ [e] ∧ e.id = id ∧ e.parent = some p ∧
        p ∈ writable) ∧
    (∀ ctx id input publication sys',
      update limits ctx caller id input sys = (.ok publication, sys') →
      Access.Bounded limits ctx caller sys.store sys'.store [] ∧
      ∃ writable,
        Access.effectivePermissions limits ctx caller .write sys.store = .ok (.only writable) ∧
        id ∈ writable ∧ ∀ b, b ≠ id → sys'.store.row? b = sys.store.row? b) ∧
    (∀ ctx id ids sys', delete limits ctx caller id sys = (.ok ids, sys') →
      Access.Bounded limits ctx caller sys.store sys'.store []) ∧
    ∀ made s', CallerRun limits caller sys.store made s' → ∀ ctx capability before,
      Access.effectivePermissions limits ctx caller capability sys.store = .ok (.only before) →
      ∃ after, Access.effectivePermissions limits ctx caller capability s' = .ok (.only after) ∧
        ∀ y ∈ after, y ∈ before ∨ y ∈ made := by
  have hf := h.isForest
  refine ⟨fun ctx input id sys' hc => ?_, fun ctx id input publication sys' hu => ?_,
    fun ctx id ids sys' hd => ?_, fun made s' hr ctx capability before hb => ?_⟩
  · obtain ⟨hpermit, hcreate⟩ := guarded_eq_ok.mp hc
    obtain ⟨heff, p, hp, hw⟩ := permitCreate_cases hn hpermit
    have hf' := Hierarchy.isForest_create hf hcreate
    refine ⟨Access.bounded_of_confined hf hf' hn heff (confined_create hf hn hc), ?_⟩
    obtain ⟨name, publication, ha, -⟩ := Hierarchy.added_of_create hcreate
    exact ⟨_, _, p, heff, ha.entities, rfl, hp, hw⟩
  · obtain ⟨hpermit, hupdate⟩ := guarded_eq_ok.mp hu
    obtain ⟨heff, hx, -⟩ := permitUpdate_cases hn hpermit
    have hf' := Hierarchy.isForest_update hf hupdate
    refine ⟨Access.bounded_of_confined hf hf' hn heff (confined_update hf hn hu), ?_⟩
    obtain ⟨name, e, hid, hedit, -⟩ := Hierarchy.edited_of_update hupdate
    refine ⟨_, heff, hx, fun b hb => ?_⟩
    rw [hedit.rows, hid]
    exact if_neg hb
  · obtain ⟨hpermit, hdelete⟩ := guarded_eq_ok.mp hd
    obtain ⟨heff, -⟩ := permitDelete_cases hn hpermit
    have hf' := Hierarchy.isForest_delete hf hdelete
    exact Access.bounded_of_confined hf hf' hn heff (confined_delete hf hn hd)
  · obtain ⟨hreach, hconf⟩ := CallerRun.confined h hn hr
    obtain ⟨before', after, hb', ha, hy⟩ :=
      Access.bounded_of_confined hf hreach.isForest hn hb hconf capability
    rw [hb] at hb'
    cases hb'
    exact ⟨after, ha, hy⟩

theorem no_escalation_editor : CoreReachable {} Sample.tables ∧
    (∀ r, Sample.tables.role? (Text.trim Sample.editor.role) = some r → r.isAdmin = false) ∧
    ∃ id sys', create {} .background Sample.editor Sample.index ⟨Sample.tables, {}, ⟨3, 0⟩⟩ =
        (.ok id, sys') ∧
      Access.Bounded {} .background Sample.editor Sample.tables sys'.store [id] := by
  have hn : ∀ r, Sample.tables.role? (Text.trim Sample.editor.role) = some r →
      r.isAdmin = false := by
    intro r h
    rw [Sample.editor, Sample.trim_editor] at h
    cases Sample.editors.symm.trans h
    rfl
  have hs : CoreReachable {} (⟨Sample.tables, {}, ⟨3, 0⟩⟩ : System).store := Sample.reachable_tables
  obtain ⟨sys', hok⟩ := Sample.create_index
  exact ⟨Sample.reachable_tables, hn, _, sys', hok, ((no_escalation hs hn).1 _ _ _ _ hok).1⟩

end Service

end KnowledgeTree
