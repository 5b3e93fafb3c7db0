import KnowledgeTree.Proofs.Reachable

/-!
The grants in the tables against the calls that made them. A grant stands from the call that makes
it until it is revoked; neither the flag of its role nor the fate of its entity removes it.
-/

namespace KnowledgeTree

variable {limits : Limits} {ctx ctx' : Context} {sys : System} {s s' t : Store} {g : Grant}
  {role name : String} {isAdmin : Bool} {log : List CoreCall} {c : CoreCall}
  {start stop : CoreCall → Prop}

namespace CoreCall

def succeeds (limits : Limits) (ctx : Context) (sys : System) : CoreCall → Bool
  | create r => (Hierarchy.create limits ctx r sys).1.isOk
  | update r => (Hierarchy.update limits ctx r sys).1.isOk
  | delete id => (Hierarchy.delete limits ctx id sys).1.isOk
  | upsertRole name isAdmin => (sys.store.upsertRole ctx name isAdmin).isOk
  | grant role entity capability => (sys.store.grant ctx role entity capability).isOk
  | revoke role entity capability => (sys.store.revoke ctx role entity capability).isOk

def Sets (role : String) (isAdmin : Bool) (c : CoreCall) : Prop :=
  ∃ name, c = .upsertRole name isAdmin ∧ Text.trim name = role

end CoreCall

/-- The tables a run of calls leads to, with the calls of the run that succeeded, in their order. -/
inductive Recorded (limits : Limits) : List CoreCall → Store → Prop
  | start (h : limits.validate = .ok ()) : Recorded limits [] .empty
  | call {log : List CoreCall} {sys : System} (h : Recorded limits log sys.store) (ctx : Context)
      (c : CoreCall) : Recorded limits (if c.succeeds limits ctx sys then log ++ [c] else log)
        (c.run limits ctx sys).store

/-- A call in the log starts something that no later call stops. -/
def Since (start stop : CoreCall → Prop) (log : List CoreCall) : Prop :=
  ∃ before c after, log = before ++ c :: after ∧ start c ∧ ∀ b ∈ after, ¬stop b

def Standing (log : List CoreCall) (g : Grant) : Prop :=
  Since (· = .grant g.role g.entity g.capability) (· = .revoke g.role g.entity g.capability) log

def LastFlag (log : List CoreCall) (role : String) (isAdmin : Bool) : Prop :=
  Since (CoreCall.Sets role isAdmin) (fun c => ∃ b, c.Sets role b) log

theorem not_since_nil : ¬Since start stop [] := by
  rintro ⟨before, c, after, h, -⟩
  simp at h

theorem since_concat :
    Since start stop (log ++ [c]) ↔ start c ∨ Since start stop log ∧ ¬stop c := by
  constructor
  · rintro ⟨before, x, after, heq, hx, hafter⟩
    rcases List.eq_nil_or_concat' after with rfl | ⟨rest, y, rfl⟩
    · obtain ⟨-, rfl⟩ := List.append_singleton_inj.mp heq
      exact .inl hx
    · rw [← List.cons_append, ← List.append_assoc] at heq
      obtain ⟨rfl, rfl⟩ := List.append_singleton_inj.mp heq
      simp only [List.forall_mem_append, List.forall_mem_singleton] at hafter
      exact .inr ⟨⟨before, x, rest, rfl, hx, hafter.1⟩, hafter.2⟩
  · rintro (hc | ⟨⟨before, x, after, rfl, hx, hafter⟩, hc⟩)
    · exact ⟨log, c, [], rfl, hc, by simp⟩
    · refine ⟨before, x, after ++ [c], by simp, hx, ?_⟩
      simp only [List.forall_mem_append, List.forall_mem_singleton]
      exact ⟨hafter, hc⟩

theorem exists_since {P : CoreCall → Prop} (h : c ∈ log) (hc : P c) : Since P P log := by
  induction log using List.reverseRecOn with
  | nil => cases h
  | append_singleton log d ih =>
    rw [since_concat]
    by_cases hd : P d
    · exact .inl hd
    · rcases List.mem_append.mp h with h | h
      · exact .inr ⟨ih h, hd⟩
      · rw [List.mem_singleton.mp h] at hc
        exact .inl hc

theorem standing_concat : Standing (log ++ [c]) g ↔ c = .grant g.role g.entity g.capability ∨
    Standing log g ∧ ¬c = .revoke g.role g.entity g.capability :=
  since_concat

theorem lastFlag_concat : LastFlag (log ++ [c]) role isAdmin ↔
    c.Sets role isAdmin ∨ LastFlag log role isAdmin ∧ ¬∃ b, c.Sets role b :=
  since_concat

/-! What one call does to the roles and the grants -/

namespace Store

theorem role?_congr (h : s'.roles = s.roles) : s'.role? role = s.role? role := by
  rw [role?, role?, h]

theorem find?_withRole : (s.withRole name isAdmin).find? (·.name == role) =
    if role = name then some ⟨name, isAdmin⟩ else s.role? role := by
  have hname : ((·.name == role) ∘ fun r => if r.name == name then { r with isAdmin } else r) =
      ((·.name == role) : Role → Bool) := by
    funext r
    simp only [Function.comp_apply]
    split <;> rfl
  unfold withRole
  cases hr : s.role? name with
  | some r =>
    have hrn : r.name = name := (role?_name hr).2
    rw [Option.isSome_some, if_pos rfl, List.find?_map, hname]
    change (s.role? role).map _ = _
    split
    · next heq =>
      rw [heq, hr, Option.map_some, if_pos (by simpa using hrn), ← hrn]
    · next hne =>
      cases hq : s.role? role with
      | none => rfl
      | some q =>
        have hqn : q.name ≠ name := fun h => hne ((role?_name hq).2.symm.trans h)
        rw [Option.map_some, if_neg (by simpa using hqn)]
  | none =>
    rw [Option.isSome_none, if_neg Bool.false_ne_true, List.find?_append]
    change (s.role? role).or _ = _
    split
    · next heq => simp [heq, hr]
    · next hne => simp [Ne.symm hne]

theorem mem_grants_of_grant {entity : EntityId} {capability : Capability}
    (h : s.grant ctx role entity capability = .ok s') :
    g ∈ s'.grants ↔ g = ⟨role, entity, capability⟩ ∨ g ∈ s.grants := by
  obtain ⟨-, -, -, rfl⟩ := grant_eq_ok.mp h
  split
  · next hm =>
    have hm : ⟨role, entity, capability⟩ ∈ s.grants := by simpa using hm
    constructor
    · exact .inr
    · rintro (rfl | hg)
      · exact hm
      · exact hg
  · simp [or_comm]

theorem mem_grants_of_revoke {entity : EntityId} {capability : Capability} {found : Bool}
    (h : s.revoke ctx role entity capability = .ok (found, s')) :
    g ∈ s'.grants ↔ g ∈ s.grants ∧ g ≠ ⟨role, entity, capability⟩ := by
  obtain ⟨-, -, rfl⟩ := revoke_eq_ok.mp h
  simp

end Store

namespace CoreCall

theorem sets_upsertRole {flag : Bool} :
    (upsertRole name flag).Sets role isAdmin ↔ flag = isAdmin ∧ Text.trim name = role := by
  constructor
  · rintro ⟨_, h, hname⟩
    cases h
    exact ⟨rfl, hname⟩
  · rintro ⟨rfl, hname⟩
    exact ⟨name, rfl, hname⟩

inductive Books (ctx : Context) (s s' : Store) : CoreCall → Prop
  | create {r : CreateRequest} (hr : s'.roles = s.roles) (hg : s'.grants = s.grants) :
      Books ctx s s' (create r)
  | update {r : UpdateRequest} (hr : s'.roles = s.roles) (hg : s'.grants = s.grants) :
      Books ctx s s' (update r)
  | delete {id : EntityId} (hr : s'.roles = s.roles) (hg : s'.grants = s.grants) :
      Books ctx s s' (delete id)
  | upsertRole {name : String} {flag : Bool} (h : s.upsertRole ctx name flag = .ok s') :
      Books ctx s s' (upsertRole name flag)
  | grant {role : String} {entity : EntityId} {capability : Capability}
      (h : s.grant ctx role entity capability = .ok s') :
      Books ctx s s' (grant role entity capability)
  | revoke {role : String} {entity : EntityId} {capability : Capability} {found : Bool}
      (h : s.revoke ctx role entity capability = .ok (found, s')) :
      Books ctx s s' (revoke role entity capability)

theorem books_of_succeeds (h : c.succeeds limits ctx sys = true) :
    c.Books ctx sys.store (c.run limits ctx sys).store := by
  cases c with
  | create r =>
    obtain ⟨id, hid⟩ := Except.exists_ok h
    obtain ⟨_, _, hadd, -⟩ := Hierarchy.added_of_create (Prod.ext hid rfl)
    exact .create hadd.roles hadd.grants
  | update r =>
    obtain ⟨publication, hpublication⟩ := Except.exists_ok h
    obtain ⟨_, _, -, hedit, -⟩ := Hierarchy.edited_of_update (Prod.ext hpublication rfl)
    exact .update hedit.roles hedit.grants
  | delete id =>
    obtain ⟨ids, hids⟩ := Except.exists_ok h
    obtain ⟨-, -, -, hw⟩ := Hierarchy.delete_cases (Prod.ext hids rfl)
    obtain ⟨-, -, hs⟩ := Store.delete_eq_ok.mp hw
    rw [run, hs]
    exact .delete rfl rfl
  | upsertRole name flag =>
    obtain ⟨s', hs⟩ := Except.exists_ok h
    rw [run, hs]
    exact .upsertRole hs
  | grant role entity capability =>
    obtain ⟨s', hs⟩ := Except.exists_ok h
    rw [run, hs]
    exact .grant hs
  | revoke role entity capability =>
    obtain ⟨⟨found, s'⟩, hs⟩ := Except.exists_ok h
    rw [run, hs]
    exact .revoke hs

theorem store_of_fails (h : c.succeeds limits ctx sys = false) :
    (c.run limits ctx sys).store = sys.store := by
  cases c with
  | create r =>
    obtain ⟨e, he⟩ := Except.exists_error h
    exact Hierarchy.atomic_create r ctx sys e he
  | update r =>
    obtain ⟨e, he⟩ := Except.exists_error h
    exact Hierarchy.atomic_update r ctx sys e he
  | delete id =>
    obtain ⟨e, he⟩ := Except.exists_error h
    exact Hierarchy.atomic_delete id ctx sys e he
  | upsertRole name flag =>
    obtain ⟨e, he⟩ := Except.exists_error h
    rw [run, he]
    rfl
  | grant role entity capability =>
    obtain ⟨e, he⟩ := Except.exists_error h
    rw [run, he]
    rfl
  | revoke role entity capability =>
    obtain ⟨e, he⟩ := Except.exists_error h
    rw [run, he]
    rfl

theorem Books.role? (h : c.Books ctx s s') : s'.role? role = some ⟨role, isAdmin⟩ ↔
    c.Sets role isAdmin ∨ s.role? role = some ⟨role, isAdmin⟩ ∧ ¬∃ b, c.Sets role b := by
  cases h with
  | create hr _ | update hr _ | delete hr _ => simp [Store.role?_congr hr, Sets]
  | @upsertRole name flag h =>
    obtain ⟨-, -, hs⟩ := Store.upsertRole_eq_ok.mp h
    have hset : s'.role? role =
        if role = Text.trim name then some ⟨Text.trim name, flag⟩ else s.role? role := by
      rw [hs]
      exact Store.find?_withRole
    simp only [hset, sets_upsertRole]
    split
    · next heq => simp [heq]
    · next hne => simp [Ne.symm hne]
  | grant h =>
    obtain ⟨-, -, -, hs⟩ := Store.grant_eq_ok.mp h
    have hroles : s'.roles = s.roles := by rw [hs]; split <;> rfl
    simp [Store.role?_congr hroles, Sets]
  | revoke h =>
    obtain ⟨-, -, hs⟩ := Store.revoke_eq_ok.mp h
    have hroles : s'.roles = s.roles := by rw [hs]
    simp [Store.role?_congr hroles, Sets]

theorem Books.mem_grants (h : c.Books ctx s s') : g ∈ s'.grants ↔
    c = .grant g.role g.entity g.capability ∨
      g ∈ s.grants ∧ ¬c = .revoke g.role g.entity g.capability := by
  rcases g with ⟨r, e, k⟩
  cases h with
  | create _ hg | update _ hg | delete _ hg => simp [hg]
  | upsertRole h =>
    obtain ⟨-, -, rfl⟩ := Store.upsertRole_eq_ok.mp h
    simp
  | grant h => simp [Store.mem_grants_of_grant h, eq_comm]
  | revoke h => simp [Store.mem_grants_of_revoke h, eq_comm]

end CoreCall

namespace Recorded

theorem mem_grants (h : Recorded limits log s) : g ∈ s.grants ↔ Standing log g := by
  induction h with
  | start _ => exact iff_of_false (List.not_mem_nil) not_since_nil
  | call _ ctx c ih =>
    split
    · next hok => rw [(CoreCall.books_of_succeeds hok).mem_grants, ih, standing_concat]
    · next hfail => rw [CoreCall.store_of_fails (by simpa using hfail), ih]

theorem role? (h : Recorded limits log s) :
    s.role? role = some ⟨role, isAdmin⟩ ↔ LastFlag log role isAdmin := by
  induction h with
  | start _ => exact iff_of_false (by rintro ⟨⟩) not_since_nil
  | call _ ctx c ih =>
    split
    · next hok => rw [(CoreCall.books_of_succeeds hok).role?, ih, lastFlag_concat]
    · next hfail => rw [CoreCall.store_of_fails (by simpa using hfail), ih]

theorem role?_eq_none (h : Recorded limits log s) :
    s.role? role = none ↔ ∀ c ∈ log, ∀ b, ¬c.Sets role b := by
  constructor
  · intro hnone c hc b hset
    have hsince : Since (fun c => ∃ b, c.Sets role b) (fun c => ∃ b, c.Sets role b) log :=
      exists_since hc ⟨b, hset⟩
    obtain ⟨before, d, after, rfl, ⟨b, hd⟩, hafter⟩ := hsince
    have hlast : LastFlag (before ++ d :: after) role b := ⟨before, d, after, rfl, hd, hafter⟩
    rw [h.role?.mpr hlast] at hnone
    cases hnone
  · intro hnever
    cases hr : s.role? role with
    | none => rfl
    | some r =>
      obtain ⟨name, isAdmin⟩ := r
      obtain rfl : name = role := (Store.role?_name hr).2
      obtain ⟨before, d, after, rfl, hd, -⟩ := h.role?.mp hr
      exact absurd hd (hnever d (by simp) isAdmin)

end Recorded

/-! Changes of single grants -/

inductive Amendment
  | grant (g : Grant)
  | revoke (g : Grant)
deriving DecidableEq, Repr

namespace Amendment

def target : Amendment → Grant
  | grant g => g
  | revoke g => g

def apply (ctx : Context) (s : Store) : Amendment → Except Error (Option Bool) × Store
  | grant g =>
    match s.grant ctx g.role g.entity g.capability with
    | .ok s' => (.ok none, s')
    | .error e => (.error e, s)
  | revoke g =>
    match s.revoke ctx g.role g.entity g.capability with
    | .ok (found, s') => (.ok (some found), s')
    | .error e => (.error e, s)

def edit (grants : List Grant) : Amendment → List Grant
  | grant g => if grants.contains g then grants else grants ++ [g]
  | revoke g => grants.filter (· != g)

theorem apply_store (a : Amendment) : (a.apply ctx s).2 =
    if (a.apply ctx s).1.isOk then { s with grants := a.edit s.grants } else s := by
  cases a with
  | grant g =>
    cases hr : s.grant ctx g.role g.entity g.capability with
    | error e => simp only [apply, hr]; rfl
    | ok s' =>
      simp only [apply, hr]
      obtain ⟨-, -, -, rfl⟩ := Store.grant_eq_ok.mp hr
      simp only [edit]
      change _ = if true then _ else _
      rw [if_pos rfl]
      split <;> rfl
  | revoke g =>
    cases hr : s.revoke ctx g.role g.entity g.capability with
    | error e => simp only [apply, hr]; rfl
    | ok r =>
      obtain ⟨-, -, hs⟩ := Store.revoke_eq_ok.mp hr
      simp only [apply, hr]
      exact hs

theorem apply_answer (a : Amendment) (he : t.entities = s.entities) (hr : t.roles = s.roles)
    (hg : a.target ∈ t.grants ↔ a.target ∈ s.grants) :
    (a.apply ctx t).1 = (a.apply ctx s).1 := by
  cases a with
  | grant g =>
    have hlive : t.live? g.entity = s.live? g.entity := by
      rw [Store.live?, Store.live?, Store.row?, Store.row?, he]
    simp only [apply, Store.grant, Store.role?_congr hr, hlive]
    cases ctx.check with
    | error e => rfl
    | ok u =>
      cases s.role? g.role with
      | none => rfl
      | some r =>
        cases s.live? g.entity with
        | none => rfl
        | some e => rfl
  | revoke g =>
    have hfound : t.grants.contains g = s.grants.contains g := by
      rw [Bool.eq_iff_iff, List.contains_iff_mem, List.contains_iff_mem]
      exact hg
    simp only [apply, Store.revoke, hfound]
    cases ctx.check with
    | error e => rfl
    | ok u => rfl

theorem contains_edit (a : Amendment) (hne : g ≠ a.target) (grants : List Grant) :
    (a.edit grants).contains g = grants.contains g := by
  cases a with
  | grant h =>
    have hne : g ≠ h := hne
    simp only [edit]
    split <;> simp [hne]
  | revoke h =>
    have hne : g ≠ h := hne
    simp [edit, hne]

theorem edit_grant_of_ne {a : Amendment} (hne : g ≠ a.target) (grants : List Grant) :
    (grant g).edit (a.edit grants) = if grants.contains g then a.edit grants
      else a.edit grants ++ [g] := by
  rw [← contains_edit a hne]
  rfl

theorem edit_revoke_grant {h : Grant} (hne : g ≠ h) (grants : List Grant) :
    (revoke h).edit ((grant g).edit grants) = (grant g).edit ((revoke h).edit grants) := by
  rw [edit_grant_of_ne hne]
  simp only [edit]
  split
  · rfl
  · simp [List.filter_append, hne]

theorem edit_comm {a b : Amendment} (hne : a.target ≠ b.target) (grants : List Grant) :
    (b.edit (a.edit grants)).Perm (a.edit (b.edit grants)) := by
  cases a with
  | grant g =>
    cases b with
    | grant h =>
      have hne : g ≠ h := hne
      rw [edit_grant_of_ne (a := .grant g) hne.symm, edit_grant_of_ne (a := .grant h) hne]
      simp only [edit]
      split
      · exact .refl _
      · split
        · exact .refl _
        · rw [List.append_assoc, List.append_assoc]
          exact (List.Perm.swap h g []).append_left grants
    | revoke h =>
      have hne : g ≠ h := hne
      rw [edit_revoke_grant hne]
  | revoke g =>
    cases b with
    | grant h =>
      have hne : g ≠ h := hne
      rw [edit_revoke_grant hne.symm]
    | revoke h => simp only [edit, List.filter_filter, Bool.and_comm, List.Perm.refl]

end Amendment

structure Store.SameGrants (s t : Store) : Prop where
  entities : s.entities = t.entities
  versions : s.versions = t.versions
  roles : s.roles = t.roles
  grants : s.grants.Perm t.grants

namespace Amendment

theorem apply_comm {a b : Amendment} (hne : a.target ≠ b.target) (ctx ctx' : Context) (s : Store) :
    (b.apply ctx' (a.apply ctx s).2).1 = (b.apply ctx' s).1 ∧
      (a.apply ctx (b.apply ctx' s).2).1 = (a.apply ctx s).1 ∧
      (b.apply ctx' (a.apply ctx s).2).2.SameGrants (a.apply ctx (b.apply ctx' s).2).2 := by
  have hanswer {c d : Amendment} (hcd : c.target ≠ d.target) (ctx ctx' : Context) :
      (d.apply ctx' (c.apply ctx s).2).1 = (d.apply ctx' s).1 := by
    rw [apply_store c]
    split
    · apply apply_answer
      · rfl
      · rfl
      · rw [← List.contains_iff_mem, ← List.contains_iff_mem, contains_edit c hcd.symm]
    · rfl
  have hb := hanswer hne ctx ctx'
  have ha := hanswer hne.symm ctx' ctx
  refine ⟨hb, ha, ?_⟩
  rw [apply_store b, apply_store a (s := (b.apply ctx' s).2), hb, ha, apply_store a, apply_store b]
  cases (a.apply ctx s).1.isOk with
  | true =>
    cases (b.apply ctx' s).1.isOk with
    | true => exact ⟨rfl, rfl, rfl, edit_comm hne s.grants⟩
    | false => exact ⟨rfl, rfl, rfl, .refl _⟩
  | false =>
    cases (b.apply ctx' s).1.isOk with
    | true => exact ⟨rfl, rfl, rfl, .refl _⟩
    | false => exact ⟨rfl, rfl, rfl, .refl _⟩

end Amendment

namespace Store

theorem directPermissions_congr (he : s'.entities = s.entities) (hr : s'.roles = s.roles)
    (hg : ∀ role capability entity,
      s'.Granted role capability entity ↔ s.Granted role capability entity) :
    s'.directPermissions = s.directPermissions := by
  funext ctx role capability
  have hgranted : s'.isGranted role capability = s.isGranted role capability := by
    funext entity
    rw [Bool.eq_iff_iff, isGranted_iff, isGranted_iff]
    exact hg role capability entity
  simp only [directPermissions, role?_congr hr, live, he, hgranted]

theorem SameGrants.directPermissions (h : s.SameGrants t) :
    s.directPermissions = t.directPermissions := by
  apply directPermissions_congr h.entities h.roles
  intro role capability entity
  simp only [Granted, h.grants.mem_iff]

theorem nodup_seeds (s : Store) (role : String) (capability : Capability) :
    (s.seeds role capability).Nodup := by
  apply (List.mergeSort_perm _ _).nodup_iff.mpr
  exact (((List.filter_sublist).trans List.filter_sublist).map Entity.id).nodup s.nodup

theorem directPermissions_eq_unauthorized {capability : Capability} (hc : ctx.isDone = false) :
    s.directPermissions ctx role capability = .error .unauthorized ↔ s.role? role = none := by
  rw [directPermissions, Context.check_live hc]
  cases hr : s.role? role with
  | none => simp [bind, Except.bind, throw, throwThe, MonadExceptOf.throw]
  | some r => simp [bind, Except.bind, pure, Except.pure]

theorem grant_again {entity : EntityId} {capability : Capability}
    (h : s.grant ctx role entity capability = .ok s') :
    (⟨role, entity, capability⟩ ∈ s.grants → s' = s) ∧
      ∀ ctx' : Context, ctx'.isDone = false → s'.grant ctx' role entity capability = .ok s' := by
  obtain ⟨-, ⟨r, hr⟩, ⟨e, he⟩, hs⟩ := grant_eq_ok.mp h
  constructor
  · intro hm
    rw [hs, if_pos (List.contains_iff_mem.mpr hm)]
  · intro ctx' hc'
    have hroles : s'.roles = s.roles := by rw [hs]; split <;> rfl
    have hentities : s'.entities = s.entities := by rw [hs]; split <;> rfl
    have hm : ⟨role, entity, capability⟩ ∈ s'.grants := (mem_grants_of_grant h).mpr (.inl rfl)
    refine grant_eq_ok.mpr ⟨hc', ⟨r, by rw [role?_congr hroles, hr]⟩, ⟨e, ?_⟩, ?_⟩
    · rw [live?, row?, hentities]
      exact he
    · rw [if_pos (List.contains_iff_mem.mpr hm)]

theorem revoke_read {entity : EntityId} {found : Bool}
    (h : s.revoke ctx role entity .read = .ok (found, s'))
    (hw : ⟨role, entity, .write⟩ ∈ s.grants) :
    ⟨role, entity, .write⟩ ∈ s'.grants ∧ s'.directPermissions = s.directPermissions := by
  have hstays : ⟨role, entity, .write⟩ ∈ s'.grants :=
    (mem_grants_of_revoke h).mpr ⟨hw, by simp⟩
  refine ⟨hstays, directPermissions_congr ?_ ?_ fun role' k x => ?_⟩
  · rw [(revoke_eq_ok.mp h).2.2]
  · rw [(revoke_eq_ok.mp h).2.2]
  · constructor
    · rintro ⟨c, hc, hk⟩
      exact ⟨c, ((mem_grants_of_revoke h).mp hc).1, hk⟩
    · rintro ⟨c, hc, hk⟩
      by_cases heq : (⟨role', x, c⟩ : Grant) = ⟨role, entity, .read⟩
      · -- what the revoked grant allowed, the one of writing allows
        cases heq
        exact ⟨.write, hstays, .inr rfl⟩
      · exact ⟨c, (mem_grants_of_revoke h).mpr ⟨hc, heq⟩, hk⟩

structure Ledger (s : Store) (log : List CoreCall) : Prop where
  unknown : ∀ ctx role capability, ctx.isDone = false →
    (s.directPermissions ctx role capability = .error .unauthorized ↔
      ∀ c ∈ log, ∀ isAdmin, ¬c.Sets role isAdmin)
  known : ∀ ctx role capability, ctx.isDone = false → (∃ c ∈ log, ∃ isAdmin, c.Sets role isAdmin) →
    ∃ isAdmin ids, s.directPermissions ctx role capability = .ok ⟨isAdmin, ids⟩ ∧
      LastFlag log role isAdmin ∧ ids.Nodup ∧
      ∀ e, e ∈ ids ↔ (∃ row, s.live? e = some row) ∧
        (Standing log ⟨role, e, capability⟩ ∨ Standing log ⟨role, e, .write⟩)
  again : ∀ ctx g s', s.grant ctx g.role g.entity g.capability = .ok s' →
    (Standing log g → s' = s) ∧
      ∀ ctx' : Context, ctx'.isDone = false → s'.grant ctx' g.role g.entity g.capability = .ok s'
  flag : ∀ ctx name isAdmin s', s.upsertRole ctx name isAdmin = .ok s' → s'.grants = s.grants
  revoked : ∀ ctx g, ctx.isDone = false → ∃ found s',
    s.revoke ctx g.role g.entity g.capability = .ok (found, s') ∧ (found = true ↔ Standing log g)
  write : ∀ ctx role e found s', s.revoke ctx role e .read = .ok (found, s') →
    ⟨role, e, .write⟩ ∈ s.grants →
      ⟨role, e, .write⟩ ∈ s'.grants ∧ s'.directPermissions = s.directPermissions
  order : ∀ (a b : Amendment) ctx ctx', a.target ≠ b.target →
    (b.apply ctx' (a.apply ctx s).2).1 = (b.apply ctx' s).1 ∧
      (a.apply ctx (b.apply ctx' s).2).1 = (a.apply ctx s).1 ∧
      (b.apply ctx' (a.apply ctx s).2).2.SameGrants (a.apply ctx (b.apply ctx' s).2).2 ∧
      (b.apply ctx' (a.apply ctx s).2).2.directPermissions =
        (a.apply ctx (b.apply ctx' s).2).2.directPermissions

/-- In the tables any run leads to, the grants are exactly those the run made and did not revoke. -/
theorem ledger_of_recorded (h : Recorded limits log s) : s.Ledger log where
  unknown ctx role capability hc := by
    rw [directPermissions_eq_unauthorized hc, h.role?_eq_none]
  known ctx role capability hc hset := by
    obtain ⟨c, hcm, b, hset⟩ := hset
    obtain ⟨r, hr⟩ : ∃ r, s.role? role = some r := by
      rw [← Option.ne_none_iff_exists']
      exact fun hnone => h.role?_eq_none.mp hnone c hcm b hset
    obtain ⟨name, isAdmin⟩ := r
    obtain rfl : name = role := (role?_name hr).2
    refine ⟨isAdmin, _, directPermissions_eq_ok.mpr ⟨hc, _, hr, rfl⟩, h.role?.mp hr,
      nodup_seeds s name capability, fun e => ?_⟩
    rw [mem_seeds, ← h.mem_grants, ← h.mem_grants]
    apply and_congr_right'
    constructor
    · rintro ⟨k, hg, rfl | rfl⟩
      · exact .inl hg
      · exact .inr hg
    · rintro (hg | hg)
      · exact ⟨capability, hg, .inl rfl⟩
      · exact ⟨.write, hg, .inr rfl⟩
  again ctx g s' hg := by
    rw [← h.mem_grants]
    exact grant_again hg
  flag ctx name isAdmin s' hu := by
    obtain ⟨-, -, rfl⟩ := upsertRole_eq_ok.mp hu
    rfl
  revoked ctx g hc := by
    refine ⟨_, _, revoke_eq_ok.mpr ⟨hc, rfl, rfl⟩, ?_⟩
    rw [List.contains_iff_mem]
    exact h.mem_grants
  write ctx role e found s' hr hw := revoke_read hr hw
  order a b ctx ctx' hne := by
    obtain ⟨hb, ha, hsame⟩ := Amendment.apply_comm hne ctx ctx' s
    exact ⟨hb, ha, hsame, hsame.directPermissions⟩

end Store

theorem Recorded.step (h : Recorded limits log s) (ctx : Context)
    (hok : c.succeeds limits ctx { store := s } = true)
    (hs : (c.run limits ctx { store := s }).store = s') : Recorded limits (log ++ [c]) s' := by
  have hc : Recorded limits (if c.succeeds limits ctx { store := s } then log ++ [c] else log)
      (c.run limits ctx { store := s }).store := Recorded.call h ctx c
  rwa [hok, if_pos rfl, hs] at hc

namespace Sample

def opened : Store where
  entities := [library]
  versions := [library.record .first]
  nodup := by decide

def loan : List CoreCall :=
  [.create { entityType := .department, name := "Library", user := author },
    .upsertRole " editor " true, .grant "editor" library.id .write,
    .grant "editor" library.id .read, .upsertRole "editor" false,
    .revoke "editor" library.id .read]

def lent : Store :=
  { opened with roles := [⟨"editor", false⟩], grants := [⟨"editor", library.id, .write⟩] }

theorem recorded_loan : Recorded {} loan lent := by
  have hcreate : Recorded {} (loan.take 1) opened :=
    (Recorded.start rfl).step .background (by decide +kernel) (by decide +kernel)
  have hrole : Recorded {} (loan.take 2) { opened with roles := [⟨"editor", true⟩] } :=
    hcreate.step .background (by decide +kernel) (by decide +kernel)
  have hwrite : Recorded {} (loan.take 3) { opened with
      roles := [⟨"editor", true⟩], grants := [⟨"editor", library.id, .write⟩] } :=
    hrole.step .background (by decide +kernel) (by decide +kernel)
  have hread : Recorded {} (loan.take 4) { opened with
      roles := [⟨"editor", true⟩]
      grants := [⟨"editor", library.id, .write⟩, ⟨"editor", library.id, .read⟩] } :=
    hwrite.step .background (by decide +kernel) (by decide +kernel)
  have hflag : Recorded {} (loan.take 5) { opened with
      roles := [⟨"editor", false⟩]
      grants := [⟨"editor", library.id, .write⟩, ⟨"editor", library.id, .read⟩] } :=
    hread.step .background (by decide +kernel) (by decide +kernel)
  exact hflag.step .background (by decide +kernel) (by decide +kernel)

end Sample

namespace Store

theorem ledger_of_recorded_loan : Recorded {} Sample.loan Sample.lent ∧
    (∃ isAdmin ids, Sample.lent.directPermissions .background "editor" .read = .ok ⟨isAdmin, ids⟩ ∧
      LastFlag Sample.loan "editor" isAdmin ∧ Sample.library.id ∈ ids) ∧
    ¬Standing Sample.loan ⟨"editor", Sample.library.id, .read⟩ := by
  have h := ledger_of_recorded Sample.recorded_loan
  have hlibrary : Sample.lent.live? Sample.library.id = some Sample.library := by decide +kernel
  have hstands : Standing Sample.loan ⟨"editor", Sample.library.id, .write⟩ :=
    Sample.recorded_loan.mem_grants.mp (by decide +kernel)
  have heditor : CoreCall.upsertRole "editor" false ∈ Sample.loan := by simp [Sample.loan]
  have hname : Text.trim "editor" = "editor" := by decide +kernel
  obtain ⟨isAdmin, ids, hok, hlast, -, hids⟩ := h.known .background "editor" .read rfl
    ⟨_, heditor, false, "editor", rfl, hname⟩
  refine ⟨Sample.recorded_loan, ⟨isAdmin, ids, hok, hlast, ?_⟩, fun hread => ?_⟩
  · exact (hids _).mpr ⟨⟨_, hlibrary⟩, .inr hstands⟩
  · have hm := Sample.recorded_loan.mem_grants.mpr hread
    exact absurd hm (by decide +kernel)

end Store

end KnowledgeTree
