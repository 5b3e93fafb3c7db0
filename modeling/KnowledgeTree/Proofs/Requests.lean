import KnowledgeTree.Proofs.Failure

/-!
What a request over HTTP asks of the service: which endpoint it reaches, and which operation its
headers, path, query and body spell out there.
-/

namespace KnowledgeTree

variable {α β : Type}

namespace Http

variable {r : Request} {endpoint : Endpoint} {a : Action} {caller : Caller} {method : String}
  {segments : List String}

/-! What requests ask for -/

inductive Endpoint.Serves : Endpoint → String → List String → Prop
  | health : Serves health "GET" ["", "health"]
  | tree : Serves tree "GET" ["", "tree"]
  | permittedIds : Serves permittedIds "GET" ["", "permitted-ids"]
  | create : Serves create "POST" ["", "entities"]
  | get {id : String} (h : id.isEmpty = false) : Serves (get id) "GET" ["", "entities", id]
  | update {id : String} (h : id.isEmpty = false) : Serves (update id) "PUT" ["", "entities", id]
  | delete {id : String} (h : id.isEmpty = false) : Serves (delete id) "DELETE" ["", "entities", id]
  | item {id : String} : Serves (item id) "GET" ["", "entities", id, "item"]
  | versions {id : String} : Serves (versions id) "GET" ["", "entities", id, "versions"]
  | version {id number : String} (h : number.isEmpty = false) :
      Serves (version id number) "GET" ["", "entities", id, "versions", number]

def Request.Reaches (r : Request) (endpoint : Endpoint) : Prop :=
  -- HEAD reaches what GET does
  endpoint.Serves (if r.method = "HEAD" then "GET" else r.method) (r.target.path.splitOn "/")

structure Request.Names (r : Request) (caller : Caller) : Prop where
  user : ∃ value, r.trimmed? "x-user-id" = some value ∧ UserId.ofText? value = some caller.user
  not_nil : caller.user.isNil = false
  role : r.trimmed? "x-role" = some caller.role

structure Request.Carries (r : Request) (decode : Json → Except Json.Fault α) (value : α) :
    Prop where
  type : ∃ name, r.text? "content-type" = some name ∧ isJsonType name = true
  size : r.body.utf8ByteSize ≤ Request.maxBody
  body : (Json.Document.ofText r.body).decode decode = .ok value

def Request.Wants (r : Request) (capability : Capability) : Prop :=
  let values := (queryPairs (r.target.query.getD "")).filter (·.1 == "capability")
  values = [] ∧ capability = .read ∨
    ∃ name value, values = [(name, value)] ∧ Capability.parse value = .ok capability

def Spells (raw : String) (read : String → Option α) (value : α) : Prop :=
  ∃ text, decodeSegment? raw = some text ∧ read text = some value

def versionOfText? (text : String) : Option Int :=
  Text.signed? 9223372036854775808 (Text.trim text).toList

/-- The operation of the service that a request spells out at an endpoint. -/
inductive Endpoint.Takes (r : Request) : {α : Type} → Endpoint → Operation α → Prop
  | tree {caller : Caller} (hc : r.Names caller) : Takes r .tree (.query (.tree caller))
  | permittedIds {caller : Caller} {capability : Capability} (hc : r.Names caller)
      (hq : r.Wants capability) : Takes r .permittedIds (.query (.permittedIds caller capability))
  | create {caller : Caller} {body : CreateBody} {entityType : EntityType} (hc : r.Names caller)
      (hb : r.Carries CreateBody.ofJson body)
      (ht : EntityType.parse body.entityType = .ok entityType) : Takes r .create (.create caller
        ⟨entityType, body.name, body.content, body.parent, body.isDraft⟩)
  | get {caller : Caller} {raw : String} {id : EntityId} (hc : r.Names caller)
      (hid : Spells raw EntityId.ofText? id) : Takes r (.get raw) (.query (.get caller id))
  | update {caller : Caller} {raw : String} {id : EntityId} {body : UpdateBody}
      (hc : r.Names caller) (hid : Spells raw EntityId.ofText? id)
      (hb : r.Carries UpdateBody.ofJson body) : Takes r (.update raw) (.update caller id
        ⟨body.name, body.content, body.parentChanged, body.parent, body.isDraft⟩)
  | delete {caller : Caller} {raw : String} {id : EntityId} (hc : r.Names caller)
      (hid : Spells raw EntityId.ofText? id) : Takes r (.delete raw) (.delete caller id)
  | item {caller : Caller} {raw : String} {id : EntityId} (hc : r.Names caller)
      (hid : Spells raw EntityId.ofText? id) : Takes r (.item raw) (.query (.getListItem caller id))
  | versions {caller : Caller} {raw : String} {id : EntityId} (hc : r.Names caller)
      (hid : Spells raw EntityId.ofText? id) :
      Takes r (.versions raw) (.query (.getVersionsList caller id))
  | version {caller : Caller} {raw rawNumber : String} {id : EntityId} {number : Int}
      (hc : r.Names caller) (hid : Spells raw EntityId.ofText? id)
      (hn : Spells rawNumber versionOfText? number) :
      Takes r (.version raw rawNumber) (.query (.getVersion caller id number))

def Endpoint.success : Endpoint → Nat
  | create => 201
  | _ => 200

/-! Endpoints -/

namespace Endpoint

theorem mem_atPath {path : String} :
    (method, endpoint) ∈ atPath path ↔ endpoint.Serves method (path.splitOn "/") := by
  unfold atPath
  generalize path.splitOn "/" = segments
  constructor
  · intro h
    split at h
    · cases List.mem_singleton.mp h; exact .health
    · cases List.mem_singleton.mp h; exact .tree
    · cases List.mem_singleton.mp h; exact .permittedIds
    · cases List.mem_singleton.mp h; exact .create
    · next id =>
      split at h
      · cases h
      · next hid =>
        rw [Bool.not_eq_true] at hid
        simp only [List.mem_cons, Prod.mk.injEq, List.not_mem_nil, or_false] at h
        rcases h with ⟨rfl, rfl⟩ | ⟨rfl, rfl⟩ | ⟨rfl, rfl⟩
        · exact .get hid
        · exact .update hid
        · exact .delete hid
    · cases List.mem_singleton.mp h; exact .item
    · cases List.mem_singleton.mp h; exact .versions
    · next id number =>
      split at h
      · cases h
      · next hnumber =>
        rw [Bool.not_eq_true] at hnumber
        cases List.mem_singleton.mp h
        exact .version hnumber
    · cases h
  · intro h
    cases h <;> simp_all

theorem Serves.unique {other : Endpoint} (h : endpoint.Serves method segments)
    (h' : other.Serves method segments) : endpoint = other := by
  generalize hm : method = m at h'
  generalize hs : segments = ss at h'
  cases h <;> cases h' <;> simp_all

theorem find_eq_ok : find r.method r.target.path = .ok endpoint ↔ r.Reaches endpoint := by
  rw [Request.Reaches, ← mem_atPath]
  simp only [find]
  generalize (if r.method = "HEAD" then "GET" else r.method) = method
  constructor
  · intro h
    split at h
    · cases h
    · split at h
      · next m e hfind =>
        cases h
        have hm : m = method := by simpa using List.find?_some hfind
        exact hm ▸ List.mem_of_find?_eq_some hfind
      · cases h
  · intro h
    split
    · next hnil => rw [hnil] at h; cases h
    · split
      · next m e hfind =>
        have hm : m = method := by simpa using List.find?_some hfind
        have he := mem_atPath.mp (hm ▸ List.mem_of_find?_eq_some hfind)
        rw [he.unique (mem_atPath.mp h)]
      · next hnone =>
        have hno := List.find?_eq_none.mp hnone _ h
        simp at hno

end Endpoint

/-! Reading a request -/

namespace Request

theorem caller_eq_ok : r.caller = .ok caller ↔ r.Names caller := by
  simp only [Request.caller]
  constructor
  · intro h
    split at h
    · next user role hu hr =>
      cases h
      obtain ⟨hu, hnil⟩ := Option.filter_eq_some_iff.mp hu
      exact ⟨Option.bind_eq_some_iff.mp hu, by simpa using hnil, hr⟩
    · cases h
  · rintro ⟨⟨value, hv, hu⟩, hnil, hr⟩
    have huser : ((r.trimmed? "x-user-id").bind UserId.ofText?).filter (! ·.isNil) =
        some caller.user := by
      rw [hv, Option.bind_some, hu, Option.filter_some, hnil]
      rfl
    rw [huser, hr]

theorem caller_error {refusal : Response} (h : r.caller = .error refusal) :
    refusal.status = 401 := by
  simp only [Request.caller] at h
  split at h
  · cases h
  · cases h
    rfl

theorem capability_eq_ok {capability : Capability} :
    r.capability = .ok capability ↔ r.Wants capability := by
  simp only [Request.capability, Request.Wants]
  constructor
  · intro h
    split at h
    · next hnil => cases h; exact .inl ⟨hnil, rfl⟩
    · next name value hone =>
      refine .inr ⟨name, value, hone, ?_⟩
      cases hp : Capability.parse value with
      | ok c => rw [hp] at h; cases h; rfl
      | error e => rw [hp] at h; cases h
    · cases h
  · rintro (⟨hnil, rfl⟩ | ⟨name, value, hone, hp⟩)
    · rw [hnil]
    · rw [hone]
      simp only [hp]
      rfl

theorem jsonBody_eq_ok {decode : Json → Except Json.Fault α} {value : α} :
    r.jsonBody decode = .ok value ↔ r.Carries decode value := by
  unfold Request.jsonBody
  constructor
  · intro h
    split at h
    · cases h
    · next htype =>
      split at h
      · cases h
      · next hsize =>
        split at h
        · next hbody =>
          cases h
          refine ⟨?_, by omega, hbody⟩
          simpa [Option.any_eq_true] using htype
        · cases h
        · cases h
  · rintro ⟨⟨name, hname, htype⟩, hsize, hbody⟩
    rw [hname, Option.any_some, htype, if_neg (by simp), if_neg (by omega), hbody]

theorem Names.unique {other : Caller} (h : r.Names caller) (h' : r.Names other) :
    caller = other :=
  Except.ok.inj ((caller_eq_ok.mpr h).symm.trans (caller_eq_ok.mpr h'))

theorem Wants.unique {capability other : Capability} (h : r.Wants capability)
    (h' : r.Wants other) : capability = other :=
  Except.ok.inj ((capability_eq_ok.mpr h).symm.trans (capability_eq_ok.mpr h'))

theorem Carries.unique {decode : Json → Except Json.Fault α} {value other : α}
    (h : r.Carries decode value) (h' : r.Carries decode other) : value = other :=
  Except.ok.inj ((jsonBody_eq_ok.mpr h).symm.trans (jsonBody_eq_ok.mpr h'))

end Request

theorem Spells.unique {raw : String} {read : String → Option α} {value other : α}
    (h : Spells raw read value) (h' : Spells raw read other) : value = other := by
  obtain ⟨text, hs, hr⟩ := h
  obtain ⟨text', hs', hr'⟩ := h'
  cases hs.symm.trans hs'
  exact Option.some.inj (hr.symm.trans hr')

theorem Endpoint.Takes.unique {op : Operation α} {other : Operation β} (h : endpoint.Takes r op)
    (h' : endpoint.Takes r other) : (⟨α, op⟩ : Σ α, Operation α) = ⟨β, other⟩ := by
  cases h with
  | tree hc => cases h' with | tree hc' => rw [hc.unique hc']
  | permittedIds hc hq => cases h' with | permittedIds hc' hq' => rw [hc.unique hc', hq.unique hq']
  | create hc hb ht =>
    cases h' with
    | create hc' hb' ht' =>
      cases hc.unique hc'
      cases hb.unique hb'
      rw [Except.ok.inj (ht.symm.trans ht')]
  | get hc hid => cases h' with | get hc' hid' => rw [hc.unique hc', hid.unique hid']
  | update hc hid hb =>
    cases h' with | update hc' hid' hb' => rw [hc.unique hc', hid.unique hid', hb.unique hb']
  | delete hc hid => cases h' with | delete hc' hid' => rw [hc.unique hc', hid.unique hid']
  | item hc hid => cases h' with | item hc' hid' => rw [hc.unique hc', hid.unique hid']
  | versions hc hid => cases h' with | versions hc' hid' => rw [hc.unique hc', hid.unique hid']
  | version hc hid hn =>
    cases h' with | version hc' hid' hn' => rw [hc.unique hc', hid.unique hid', hn.unique hn']

theorem segment_eq_ok {raw text : String} :
    segment raw = .ok text ↔ decodeSegment? raw = some text := by
  unfold segment
  split
  · next h => rw [h, Except.ok.injEq, Option.some.injEq]
  · next h => simp [h]

theorem entityId_eq_ok {text : String} {id : EntityId} :
    entityId text = .ok id ↔ EntityId.ofText? text = some id := by
  unfold entityId
  split
  · next h => rw [h, Except.ok.injEq, Option.some.injEq]
  · next h => simp [h]

theorem versionNumber_eq_ok {text : String} {number : Int} :
    versionNumber text = .ok number ↔ versionOfText? text = some number := by
  unfold versionNumber versionOfText?
  split
  · next h => rw [h, Except.ok.injEq, Option.some.injEq]
  · next h => simp [h]

def statusFor (success : Nat) : Except Error α → Nat
  | .ok _ => success
  | .error e => statusOf e

theorem Failure.response_status (e : Error) : (Failure.ofError e).response.status = statusOf e := by
  unfold Failure.ofError
  split
  · next h => exact h.symm
  · rfl

theorem respond_status {success : Nat} {form : α → Json} {result : Except Error α} :
    (respond success form result).status = statusFor success result := by
  cases result with
  | ok a => rfl
  | error e => exact Failure.response_status e

theorem statusOf_ge (e : Error) : 400 ≤ statusOf e := by
  cases e <;> simp [statusOf, Error.isStructural]

def Action.Performs (a : Action) (success : Nat) (op : Operation α) : Prop :=
  ∀ (limits : Limits) (ctx : Context) (sys : System),
    (a.perform limits ctx sys).2 = (op.run limits ctx sys).2 ∧
      (a.perform limits ctx sys).1.status = statusFor success (op.run limits ctx sys).1

theorem Action.performs_create {body : CreateBody} {entityType : EntityType}
    (h : EntityType.parse body.entityType = .ok entityType) :
    (Action.create caller body).Performs 201 (.create caller (body.input entityType)) := by
  intro limits ctx sys
  simp only [perform, h]
  exact ⟨rfl, respond_status⟩

theorem entityAction_eq_ok {raw : String} {f : Caller → EntityId → Action} :
    (do return f (← r.caller) (← entityId (← segment raw))) = Except.ok a ↔
      ∃ caller id, r.Names caller ∧ Spells raw EntityId.ofText? id ∧ a = f caller id := by
  simp only [Except.bind_eq_ok, Request.caller_eq_ok, segment_eq_ok, entityId_eq_ok]
  constructor
  · rintro ⟨caller, hc, text, hs, id, hid, ⟨⟩⟩
    exact ⟨caller, id, hc, ⟨text, hs, hid⟩, rfl⟩
  · rintro ⟨caller, id, hc, ⟨text, hs, hid⟩, rfl⟩
    exact ⟨caller, hc, text, hs, id, hid, rfl⟩

theorem Endpoint.action_of_takes {op : Operation α} (h : endpoint.Takes r op) :
    ∃ a, endpoint.action r = .ok a ∧ a.Performs endpoint.success op := by
  cases h with
  | tree hc => exact ⟨_, Except.bind_eq_ok.mpr ⟨_, Request.caller_eq_ok.mpr hc, rfl⟩,
      fun _ _ _ => ⟨rfl, respond_status⟩⟩
  | @permittedIds caller capability hc hq =>
    refine ⟨.permittedIds caller capability, ?_, fun _ _ _ => ⟨rfl, respond_status⟩⟩
    simp only [action, Except.bind_eq_ok, Request.caller_eq_ok, Request.capability_eq_ok]
    exact ⟨_, hc, _, hq, rfl⟩
  | create hc hb ht =>
    refine ⟨_, ?_, Action.performs_create ht⟩
    simp only [action, Except.bind_eq_ok, Request.caller_eq_ok, Request.jsonBody_eq_ok]
    exact ⟨_, hc, _, hb, rfl⟩
  | get hc hid => exact ⟨_, entityAction_eq_ok.mpr ⟨_, _, hc, hid, rfl⟩,
      fun _ _ _ => ⟨rfl, respond_status⟩⟩
  | @update caller _ id body hc hid hb =>
    obtain ⟨text, hs, hid⟩ := hid
    refine ⟨.update caller id body, ?_, fun _ _ _ => ⟨rfl, respond_status⟩⟩
    simp only [action, Except.bind_eq_ok, Request.caller_eq_ok, Request.jsonBody_eq_ok,
      segment_eq_ok, entityId_eq_ok]
    exact ⟨_, hc, _, hs, _, hb, _, hid, rfl⟩
  | delete hc hid => exact ⟨_, entityAction_eq_ok.mpr ⟨_, _, hc, hid, rfl⟩,
      fun _ _ _ => ⟨rfl, respond_status⟩⟩
  | item hc hid => exact ⟨_, entityAction_eq_ok.mpr ⟨_, _, hc, hid, rfl⟩,
      fun _ _ _ => ⟨rfl, respond_status⟩⟩
  | versions hc hid => exact ⟨_, entityAction_eq_ok.mpr ⟨_, _, hc, hid, rfl⟩,
      fun _ _ _ => ⟨rfl, respond_status⟩⟩
  | @version caller _ _ id number hc hid hn =>
    obtain ⟨text, hs, hid⟩ := hid
    obtain ⟨textNumber, hsn, hn⟩ := hn
    refine ⟨.version caller id number, ?_, fun _ _ _ => ⟨rfl, respond_status⟩⟩
    simp only [action, Except.bind_eq_ok, Request.caller_eq_ok, segment_eq_ok, entityId_eq_ok,
      versionNumber_eq_ok]
    exact ⟨_, hc, _, hs, _, hsn, _, hid, _, hn, rfl⟩

theorem Endpoint.takes_of_action (h : endpoint.action r = .ok a) :
    (∃ (α : Type) (op : Operation α), endpoint.Takes r op) ∨ endpoint = .health ∧ a = .health ∨
      endpoint = .create ∧ ∃ caller body e, a = .create caller body ∧
        EntityType.parse body.entityType = .error e := by
  cases endpoint with
  | health => cases h; exact .inr (.inl ⟨rfl, rfl⟩)
  | tree =>
    simp only [action, Except.bind_eq_ok, Request.caller_eq_ok] at h
    obtain ⟨caller, hc, h⟩ := h
    cases h
    exact .inl ⟨_, _, .tree hc⟩
  | permittedIds =>
    simp only [action, Except.bind_eq_ok, Request.caller_eq_ok, Request.capability_eq_ok] at h
    obtain ⟨caller, hc, capability, hq, h⟩ := h
    cases h
    exact .inl ⟨_, _, .permittedIds hc hq⟩
  | create =>
    simp only [action, Except.bind_eq_ok, Request.caller_eq_ok, Request.jsonBody_eq_ok] at h
    obtain ⟨caller, hc, body, hb, h⟩ := h
    cases h
    cases ht : EntityType.parse body.entityType with
    | ok entityType => exact .inl ⟨_, _, .create hc hb ht⟩
    | error e => exact .inr (.inr ⟨rfl, caller, body, e, rfl, ht⟩)
  | get raw =>
    obtain ⟨caller, id, hc, hid, rfl⟩ := entityAction_eq_ok.mp h
    exact .inl ⟨_, _, .get hc hid⟩
  | update raw =>
    simp only [action, Except.bind_eq_ok, Request.caller_eq_ok, Request.jsonBody_eq_ok,
      segment_eq_ok, entityId_eq_ok] at h
    obtain ⟨caller, hc, text, hs, body, hb, id, hid, h⟩ := h
    cases h
    exact .inl ⟨_, _, .update hc ⟨text, hs, hid⟩ hb⟩
  | delete raw =>
    obtain ⟨caller, id, hc, hid, rfl⟩ := entityAction_eq_ok.mp h
    exact .inl ⟨_, _, .delete hc hid⟩
  | item raw =>
    obtain ⟨caller, id, hc, hid, rfl⟩ := entityAction_eq_ok.mp h
    exact .inl ⟨_, _, .item hc hid⟩
  | versions raw =>
    obtain ⟨caller, id, hc, hid, rfl⟩ := entityAction_eq_ok.mp h
    exact .inl ⟨_, _, .versions hc hid⟩
  | version raw rawNumber =>
    simp only [action, Except.bind_eq_ok, Request.caller_eq_ok, segment_eq_ok, entityId_eq_ok,
      versionNumber_eq_ok] at h
    obtain ⟨caller, hc, text, hs, textNumber, hsn, id, hid, number, hn, h⟩ := h
    cases h
    exact .inl ⟨_, _, .version hc ⟨text, hs, hid⟩ ⟨textNumber, hsn, hn⟩⟩

end Http

end KnowledgeTree
