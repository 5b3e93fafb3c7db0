import KnowledgeTree.Http.Router
import KnowledgeTree.Proofs.Reachable
import KnowledgeTree.Proofs.WriteLast

/-!
Whatever fails leaves the tables as they were, at each layer: the primitive changes, roles and
grants, the mutations of the tree, the operations of callers, and requests over HTTP.
-/

namespace KnowledgeTree

variable {α : Type} {limits : Limits} {ctx : Context} {sys : System}

/-! What can be asked of the tables -/

inductive Query : Type → Type
  | find (id : EntityId) : Query Entity
  | listItem (id : EntityId) : Query ListItem
  | version (id : EntityId) (number : VersionNumber) : Query Entity
  | versions (id : EntityId) : Query (List Entity)
  | all : Query (List ListItem)
  | walk (seeds : List EntityId) (bound : Nat) (viewer : Option UserId) (direction : Direction) :
      Query (List HierarchyItem)
  | granted (role : String) (capability : Capability) : Query DirectPermissions
  | coreGet (id : EntityId) : Query Entity
  | coreListItem (id : EntityId) : Query ListItem
  | coreVersion (id : EntityId) (number : Int) : Query Entity
  | coreVersions (id : EntityId) : Query (List Entity)
  | coreAll : Query (List ListItem)
  | coreTree (seeds : List EntityId) (isAdmin : Bool) (viewer : UserId) : Query (List TreeNode)
  | corePermitted (seeds : List EntityId) (direction : Direction) (viewer : Option UserId) :
      Query (List EntityId)
  | direct (caller : Caller) (capability : Capability) : Query DirectPermissions
  | effective (caller : Caller) (capability : Capability) : Query EffectivePermissions
  | checked (id : EntityId) (caller : Caller) (capability : Capability) : Query EffectivePermissions
  | get (caller : Caller) (id : EntityId) : Query Entity
  | getListItem (caller : Caller) (id : EntityId) : Query ListItem
  | getVersion (caller : Caller) (id : EntityId) (number : Int) : Query Entity
  | getVersionsList (caller : Caller) (id : EntityId) : Query (List Entity)
  | tree (caller : Caller) : Query (List TreeNode)
  | permittedIds (caller : Caller) (capability : Capability) : Query (List EntityId)

def Query.answer (limits : Limits) (ctx : Context) (s : Store) : Query α → Except Error α
  | find id => s.get ctx id
  | listItem id => s.getListItem ctx id
  | version id number => s.getVersion ctx id number
  | versions id => s.getVersionsList ctx id
  | all => s.getAll ctx
  | walk seeds bound viewer direction => s.getHierarchy ctx seeds bound viewer direction
  | granted role capability => s.directPermissions ctx role capability
  | coreGet id => Hierarchy.get ctx id s
  | coreListItem id => Hierarchy.getListItem ctx id s
  | coreVersion id number => Hierarchy.getVersion ctx id number s
  | coreVersions id => Hierarchy.getVersionsList ctx id s
  | coreAll => Hierarchy.getAll ctx s
  | coreTree seeds isAdmin viewer => Hierarchy.getTree limits ctx seeds isAdmin viewer s
  | corePermitted seeds direction viewer =>
    Hierarchy.getPermittedIds limits ctx seeds direction viewer s
  | direct caller capability => Access.directPermissions ctx caller capability s
  | effective caller capability => Access.effectivePermissions limits ctx caller capability s
  | checked id caller capability => Access.checkEntityPermission limits ctx id caller capability s
  | get caller id => Service.get limits ctx caller id s
  | getListItem caller id => Service.getListItem limits ctx caller id s
  | getVersion caller id number => Service.getVersion limits ctx caller id number s
  | getVersionsList caller id => Service.getVersionsList limits ctx caller id s
  | tree caller => Service.getTree limits ctx caller s
  | permittedIds caller capability => Service.getPermittedIds limits ctx caller capability s

inductive Mutation : Type → Type
  | create (r : CreateRequest) : Mutation EntityId
  | update (r : UpdateRequest) : Mutation Publication
  | delete (id : EntityId) : Mutation (List EntityId)

namespace Mutation

def script (limits : Limits) : Mutation α → Script α
  | create r => Hierarchy.createScript limits r
  | update r => Hierarchy.updateScript limits r
  | delete id => Hierarchy.deleteScript limits id

theorem writesLast (m : Mutation α) : (m.script limits).WritesLast := by
  cases m with
  | create r => exact Hierarchy.writesLast_create r
  | update r => exact Hierarchy.writesLast_update r
  | delete id => exact Hierarchy.writesLast_delete id

end Mutation

inductive Operation : Type → Type 1
  | query {α : Type} (q : Query α) : Operation α
  | primitive {α : Type} (r : Request α) : Operation α
  | upsertRole (name : String) (isAdmin : Bool) : Operation Unit
  | grant (role : String) (entity : EntityId) (capability : Capability) : Operation Unit
  | revoke (role : String) (entity : EntityId) (capability : Capability) : Operation Bool
  | core {α : Type} (m : Mutation α) : Operation α
  | create (caller : Caller) (input : CreateInput) : Operation EntityId
  | update (caller : Caller) (id : EntityId) (input : UpdateInput) : Operation Publication
  | delete (caller : Caller) (id : EntityId) : Operation (List EntityId)

def Operation.run (limits : Limits) (ctx : Context) (sys : System) :
    Operation α → Except Error α × System
  | query q => (q.answer limits ctx sys.store, sys)
  | primitive r => sys.answer ctx r
  | upsertRole name isAdmin => sys.commitUnit (sys.store.upsertRole ctx name isAdmin)
  | grant role entity capability => sys.commitUnit (sys.store.grant ctx role entity capability)
  | revoke role entity capability => sys.commit (sys.store.revoke ctx role entity capability)
  | core (.create r) => Hierarchy.create limits ctx r sys
  | core (.update r) => Hierarchy.update limits ctx r sys
  | core (.delete id) => Hierarchy.delete limits ctx id sys
  | create caller input => Service.create limits ctx caller input sys
  | update caller id input => Service.update limits ctx caller id input sys
  | delete caller id => Service.delete limits ctx caller id sys

def Unharmed (ctx : Context) (sys : System) (outcome : Except Error α × System) : Prop :=
  outcome.2.store = sys.store ∨ ctx.isDone = false ∧ ∃ a, outcome.1 = .ok a

namespace Unharmed

theorem script {x : Script α} (h : x.WritesLast) : Unharmed ctx sys (x.run ctx sys) := by
  rw [← Script.runUnder_const]
  cases hc : ctx.isDone with
  | true => exact .inl (Script.runUnder_done (fun _ => hc) x)
  | false =>
    cases hr : (x.runUnder (fun _ => ctx) sys).1 with
    | ok a => exact .inr ⟨hc, a, hr⟩
    | error e => exact .inl (h.error hr)

theorem guarded {permission : Except Error Unit} {action : System → Except Error α × System}
    (h : Unharmed ctx sys (action sys)) :
    Unharmed ctx sys (Service.guarded permission action sys) := by
  cases permission with
  | ok _ => exact h
  | error e => exact .inl rfl

theorem commit {result : Except Error (α × Store)}
    (h : ∀ p, result = .ok p → ctx.isDone = false) : Unharmed ctx sys (sys.commit result) := by
  cases result with
  | ok p => exact .inr ⟨h p rfl, p.1, rfl⟩
  | error e => exact .inl rfl

theorem commitUnit {result : Except Error Store} (h : ∀ s, result = .ok s → ctx.isDone = false) :
    Unharmed ctx sys (sys.commitUnit result) := by
  cases result with
  | ok s => exact .inr ⟨h s rfl, (), rfl⟩
  | error e => exact .inl rfl

end Unharmed

theorem Operation.unharmed (op : Operation α) : Unharmed ctx sys (op.run limits ctx sys) := by
  cases op with
  | query q => exact .inl rfl
  | primitive r =>
    cases hc : ctx.isDone with
    | true => exact .inl (System.answer_done hc r)
    | false =>
      cases hr : (sys.answer ctx r).1 with
      | ok a => exact .inr ⟨hc, a, hr⟩
      | error e => exact .inl (System.answer_error hr)
  | upsertRole name isAdmin => exact .commitUnit fun s hs => (Store.upsertRole_eq_ok.mp hs).2.1
  | grant role entity capability => exact .commitUnit fun s hs => (Store.grant_eq_ok.mp hs).1
  | revoke role entity capability => exact .commit fun p hp => (Store.revoke_eq_ok.mp hp).1
  | core m =>
    cases m with
    | create r => exact .script (Hierarchy.writesLast_create r)
    | update r => exact .script (Hierarchy.writesLast_update r)
    | delete id => exact .script (Hierarchy.writesLast_delete id)
  | create caller input => exact .guarded (.script (Hierarchy.writesLast_create _))
  | update caller id input => exact .guarded (.script (Hierarchy.writesLast_update _))
  | delete caller id => exact .guarded (.script (Hierarchy.writesLast_delete _))

/-! Requests over HTTP -/

namespace Http

def Response.isSuccess (r : Response) : Bool := 200 ≤ r.status && r.status < 300

def Endpoint.writes : Endpoint → Bool
  | create | update _ | delete _ => true
  | health | tree | permittedIds | get _ | item _ | versions _ | version _ _ => false

def Action.writes : Action → Bool
  | create _ _ | update _ _ _ | delete _ _ => true
  | health | tree _ | permittedIds _ _ | get _ _ | item _ _ | versions _ _ | version _ _ _ => false

variable {r : Request} {a : Action} {endpoint : Endpoint}

theorem Endpoint.get_reads (path : String) :
    ∀ p ∈ atPath path, p.1 = "GET" → p.2.writes = false := by
  unfold atPath
  split <;> try split
  all_goals simp [writes]

theorem Endpoint.reads_of_find {method path : String} (hm : method = "GET" ∨ method = "HEAD")
    (h : find method path = .ok endpoint) : endpoint.writes = false := by
  have hget : (if method = "HEAD" then "GET" else method) = "GET" := by
    rcases hm with rfl | rfl <;> rfl
  simp only [find, hget] at h
  split at h
  · cases h
  · split at h
    · next p hp =>
      cases h
      exact get_reads path _ (List.mem_of_find?_eq_some hp) (by simpa using List.find?_some hp)
    · cases h

theorem Endpoint.yields_action (endpoint : Endpoint) (r : Request) :
    Except.Yields (fun a => a.writes = endpoint.writes) (endpoint.action r) := by
  cases endpoint with
  | health => exact .pure rfl
  | tree => exact .bind fun _ => .pure rfl
  | permittedIds | create => exact .bind fun _ => .bind fun _ => .pure rfl
  | get _ | delete _ | item _ | versions _ =>
    exact .bind fun _ => .bind fun _ => .bind fun _ => .pure rfl
  | update _ => exact .bind fun _ => .bind fun _ => .bind fun _ => .bind fun _ => .pure rfl
  | version _ _ =>
    exact .bind fun _ => .bind fun _ => .bind fun _ => .bind fun _ => .bind fun _ => .pure rfl

theorem Action.change_cases {status : Nat} {form : α → Json} {outcome : Except Error α × System}
    (h : Unharmed ctx sys outcome) (hs : 200 ≤ status ∧ status < 300) :
    (change status form outcome).2.store = sys.store ∨
      (change status form outcome).1.isSuccess = true := by
  rcases h with h | ⟨-, b, hb⟩
  · exact .inl h
  · right
    simp [change, hb, respond, Response.json, Response.isSuccess, hs]

theorem Action.perform_cases (a : Action) :
    (a.perform limits ctx sys).2.store = sys.store ∨
      a.writes = true ∧ (a.perform limits ctx sys).1.isSuccess = true := by
  cases a with
  | health | tree _ | permittedIds _ _ | get _ _ | item _ _ | versions _ _ | version _ _ _ =>
    exact .inl rfl
  | create caller body =>
    simp only [perform]
    split
    · exact .inl rfl
    · next entityType _ =>
      have h : Unharmed ctx sys (Service.create limits ctx caller (body.input entityType) sys) :=
        Operation.unharmed (.create caller (body.input entityType))
      exact (change_cases h (by decide : 200 ≤ 201 ∧ 201 < 300)).imp_right (⟨rfl, ·⟩)
  | update caller id body =>
    have h : Unharmed ctx sys (Service.update limits ctx caller id body.input sys) :=
      Operation.unharmed (.update caller id body.input)
    exact (change_cases h (by decide : 200 ≤ 200 ∧ 200 < 300)).imp_right (⟨rfl, ·⟩)
  | delete caller id =>
    have h : Unharmed ctx sys (Service.delete limits ctx caller id sys) :=
      Operation.unharmed (.delete caller id)
    exact (change_cases h (by decide : 200 ≤ 200 ∧ 200 < 300)).imp_right (⟨rfl, ·⟩)

theorem route_cases (setup : Setup) (r : Request) :
    (route setup r sys).2.store = sys.store ∨
      (r.method ≠ "GET" ∧ r.method ≠ "HEAD") ∧ (route setup r sys).1.isSuccess = true := by
  unfold route
  split
  · exact .inl rfl
  · next endpoint hfind =>
    split
    · exact .inl rfl
    · next action haction =>
      refine action.perform_cases.imp_right fun ⟨hw, hs⟩ => ⟨?_, hs⟩
      rw [Endpoint.yields_action endpoint r action haction] at hw
      rw [← not_or]
      intro hm
      rw [Endpoint.reads_of_find hm hfind] at hw
      cases hw

theorem withoutContent_status (r : Request) (response : Response) :
    (withoutContent r response).status = response.status := by
  unfold withoutContent
  split <;> rfl

theorem handle_cases (setup : Setup) (r : Request) :
    (handle setup r sys).2.store = sys.store ∨
      (r.method ≠ "GET" ∧ r.method ≠ "HEAD") ∧ (handle setup r sys).1.isSuccess = true := by
  have hroute : (route setup r sys).2.store = sys.store ∨
      (r.method ≠ "GET" ∧ r.method ≠ "HEAD") ∧ (route setup r sys).1.isSuccess = true :=
    route_cases setup r
  unfold handle
  split
  · exact .inl rfl
  · cases admits setup.apiKey r with
    | false => exact .inl rfl
    | true =>
      -- headers are added and content is dropped, the status stays
      rw [if_pos rfl]
      simpa only [Response.isSuccess, withoutContent_status] using hroute

end Http

/-- Whatever the tables are: an operation that fails leaves them as they were, reading changes
nothing, no operation under a cancelled or expired context changes them, and neither does a request
over HTTP that is answered with another status than success, or that is a GET or HEAD. Mutations that
fail leave the tables as they were also where the context changes from one of their requests to
the next. -/
theorem failure_leaves_tables (limits : Limits) (ctx : Context) (sys : System) :
    (∀ {α : Type} (op : Operation α) (e : Error), (op.run limits ctx sys).1 = .error e →
      (op.run limits ctx sys).2.store = sys.store) ∧
    (∀ {α : Type} (q : Query α), ((Operation.query q).run limits ctx sys).2 = sys) ∧
    (ctx.isDone = true → ∀ {α : Type} (op : Operation α),
      (op.run limits ctx sys).2.store = sys.store) ∧
    (∀ (setup : Http.Setup) (r : Http.Request),
      (Http.handle setup r sys).1.isSuccess = false ∨ r.method = "GET" ∨ r.method = "HEAD" →
      (Http.handle setup r sys).2.store = sys.store) ∧
    ∀ {α : Type} (m : Mutation α) (permission : Except Error Unit) (ctxs : Nat → Context) (e : Error),
      (Service.guarded permission ((m.script limits).runUnder ctxs) sys).1 = .error e →
      (Service.guarded permission ((m.script limits).runUnder ctxs) sys).2.store = sys.store := by
  refine ⟨fun op e he => ?_, fun q => rfl, fun hc _ op => ?_, fun setup r hr => ?_,
    fun m permission ctxs e he => ?_⟩
  · rcases op.unharmed with h | ⟨-, a, ha⟩
    · exact h
    · rw [he] at ha
      cases ha
  · rcases op.unharmed with h | ⟨hlive, -⟩
    · exact h
    · rw [hc] at hlive
      cases hlive
  · rcases Http.handle_cases setup r with h | ⟨⟨hget, hhead⟩, hs⟩
    · exact h
    · rcases hr with hr | hr | hr
      · rw [hs] at hr
        cases hr
      · exact absurd hr hget
      · exact absurd hr hhead
  · cases permission with
    | error e => rfl
    | ok _ => exact m.writesLast.error he

theorem failure_leaves_tables_stock :
    let sys : System := { store := Sample.tables }
    let missing : EntityId := ⟨Uuid.ofNat 7⟩
    (sys.answer .background (.delete [missing] ⟨0, 0⟩)).1 = .error (.entityNotFound missing) ∧
    (sys.answer .background (.delete [missing] ⟨0, 0⟩)).2.store = Sample.tables ∧
    (Hierarchy.delete {} .cancelled Sample.shelf.id sys).2.store = Sample.tables ∧
    (Http.handle {} { method := "HEAD", target := ⟨"/tree", none⟩ } sys).2.store = Sample.tables := by
  intro sys missing
  obtain ⟨hfail, -, -, -, -⟩ := failure_leaves_tables {} .background sys
  obtain ⟨-, -, hdone, hhttp, -⟩ := failure_leaves_tables {} .cancelled sys
  have herror : (sys.answer .background (.delete [missing] ⟨0, 0⟩)).1 =
      .error (.entityNotFound missing) := by decide +kernel
  exact ⟨herror, hfail (.primitive (.delete [missing] ⟨0, 0⟩)) _ herror,
    hdone rfl (.core (.delete Sample.shelf.id)), hhttp {} _ (.inr (.inr rfl))⟩

end KnowledgeTree
