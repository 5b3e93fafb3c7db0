import KnowledgeTree.Proofs.Confinement
import KnowledgeTree.Proofs.Requests

/-!
Requests change the tables only through the operation they ask for, and what became of it shows in
the status. Whatever a run of requests leads to, calls of the service lead to.
-/

namespace KnowledgeTree

variable {α β : Type} {limits : Limits} {ctx : Context} {sys : System}

namespace Http

variable {r : Request} {endpoint : Endpoint} {caller : Caller}

/-! Refusals -/

def Refuses (P : Response → Prop) (x : Except Response α) : Prop :=
  ∀ refusal, x = .error refusal → P refusal

theorem Refuses.bind {P : Response → Prop} {x : Except Response α} {f : α → Except Response β}
    (hx : Refuses P x) (hf : ∀ b, Refuses P (f b)) : Refuses P (x >>= f) := by
  intro refusal h
  cases x with
  | ok b => exact hf b refusal h
  | error e =>
    cases h
    exact hx refusal rfl

theorem Refuses.pure {P : Response → Prop} {b : β} : Refuses P (Pure.pure b) := by
  rintro refusal ⟨⟩

def Response.IsRefusal (response : Response) : Prop := 400 ≤ response.status

theorem isRefusal_ofError (e : Error) : (Failure.ofError e).response.IsRefusal := by
  rw [Response.IsRefusal, Failure.response_status]
  exact statusOf_ge e

theorem refuses_caller : Refuses Response.IsRefusal r.caller := by
  intro refusal h
  rw [Response.IsRefusal, Request.caller_error h]
  decide

theorem refuses_capability : Refuses Response.IsRefusal r.capability := by
  simp only [Request.capability]
  split
  · rintro refusal ⟨⟩
  · next value _ =>
    intro refusal h
    cases hp : Capability.parse value with
    | ok c => rw [hp] at h; cases h
    | error e => rw [hp] at h; cases h; exact isRefusal_ofError e
  · rintro refusal ⟨⟩
    exact Nat.le_refl 400

theorem refuses_jsonBody {decode : Json → Except Json.Fault α} :
    Refuses Response.IsRefusal (r.jsonBody decode) := by
  have hbare : ∀ status, 400 ≤ status →
      Refuses Response.IsRefusal (.error (.bare status) : Except Response α) := by
    rintro status h refusal ⟨⟩
    exact h
  unfold Request.jsonBody
  split
  · exact hbare 415 (by decide)
  · split
    · exact hbare 413 (by decide)
    · split
      · rintro refusal ⟨⟩
      · exact hbare 400 (by decide)
      · exact hbare 422 (by decide)

theorem refuses_segment {raw : String} : Refuses Response.IsRefusal (segment raw) := by
  unfold segment
  split
  · rintro refusal ⟨⟩
  · rintro refusal ⟨⟩
    exact Nat.le_refl 400

theorem refuses_entityId {text : String} : Refuses Response.IsRefusal (entityId text) := by
  unfold entityId
  split
  · rintro refusal ⟨⟩
  · rintro refusal ⟨⟩
    exact isRefusal_ofError _

theorem refuses_versionNumber {text : String} :
    Refuses Response.IsRefusal (versionNumber text) := by
  unfold versionNumber
  split
  · rintro refusal ⟨⟩
  · rintro refusal ⟨⟩
    exact isRefusal_ofError _

theorem Endpoint.refuses_action (endpoint : Endpoint) (r : Request) :
    Refuses Response.IsRefusal (endpoint.action r) := by
  cases endpoint with
  | health => rintro refusal ⟨⟩
  | tree => exact refuses_caller.bind fun _ => .pure
  | permittedIds => exact refuses_caller.bind fun _ => refuses_capability.bind fun _ => .pure
  | create => exact refuses_caller.bind fun _ => refuses_jsonBody.bind fun _ => .pure
  | get _ | delete _ | item _ | versions _ =>
    exact refuses_caller.bind fun _ => refuses_segment.bind fun _ => refuses_entityId.bind fun _ =>
      .pure
  | update _ =>
    exact refuses_caller.bind fun _ => refuses_segment.bind fun _ => refuses_jsonBody.bind fun _ =>
      refuses_entityId.bind fun _ => .pure
  | version _ _ =>
    exact refuses_caller.bind fun _ => refuses_segment.bind fun _ => refuses_segment.bind fun _ =>
      refuses_entityId.bind fun _ => refuses_versionNumber.bind fun _ => .pure

theorem route_takes {op : Operation α} (setup : Setup) (sys : System) (hreach : r.Reaches endpoint)
    (ht : endpoint.Takes r op) :
    (route setup r sys).2 = (op.run setup.limits setup.context sys).2 ∧
      (route setup r sys).1.status =
        statusFor endpoint.success (op.run setup.limits setup.context sys).1 := by
  obtain ⟨a, ha, hd⟩ := Endpoint.action_of_takes ht
  rw [route, Endpoint.find_eq_ok.mpr hreach]
  simp only [ha]
  exact hd setup.limits setup.context sys

theorem route_refused (setup : Setup) (hreach : r.Reaches endpoint) (hne : endpoint ≠ .health)
    (hno : ∀ (α : Type) (op : Operation α), ¬endpoint.Takes r op) :
    (route setup r sys).2 = sys ∧ (route setup r sys).1.IsRefusal := by
  rw [route, Endpoint.find_eq_ok.mpr hreach]
  simp only
  cases ha : endpoint.action r with
  | error refusal => exact ⟨rfl, endpoint.refuses_action r refusal ha⟩
  | ok a =>
    rcases Endpoint.takes_of_action ha with
      ⟨α, op, ht⟩ | ⟨hhealth, -⟩ | ⟨-, caller, body, e, rfl, he⟩
    · exact absurd ht (hno α op)
    · exact absurd hhealth hne
    · simp only [Action.perform, he]
      exact ⟨trivial, isRefusal_ofError e⟩

theorem handle_admitted (setup : Setup) (sys : System) (h : r.method ≠ "OPTIONS")
    (hk : admits setup.apiKey r = true) : (handle setup r sys).2 = (route setup r sys).2 ∧
      (handle setup r sys).1.status = (route setup r sys).1.status := by
  rw [handle, if_neg h, hk]
  exact ⟨rfl, withoutContent_status r _⟩

theorem handle_stopped (setup : Setup) (sys : System) (h : r.method ≠ "OPTIONS")
    (hk : admits setup.apiKey r = false) :
    (handle setup r sys).2 = sys ∧ (handle setup r sys).1.status = 401 := by
  rw [handle, if_neg h, hk]
  exact ⟨rfl, withoutContent_status r _⟩

theorem serve_cases (setup : Setup) (isSpent : Bool) (r : Request) (sys : System) :
    serve setup isSpent r sys = handle setup r sys ∨
      r.method ≠ "OPTIONS" ∧ 0 < setup.rateLimit ∧ isSpent = true ∧
        (serve setup isSpent r sys).2 = sys ∧ (serve setup isSpent r sys).1.status = 429 := by
  unfold serve
  split
  case isTrue h => exact .inr ⟨h.1, h.2.1, h.2.2, rfl, withoutContent_status r _⟩
  case isFalse => exact .inl rfl

theorem Endpoint.Takes.run_eq {op : Operation α} (ht : endpoint.Takes r op) (limits : Limits)
    (ctx : Context) (sys : System) : (op.run limits ctx sys).2 = sys ∨
      ∃ caller c, (op.run limits ctx sys).2 = ServiceCall.run limits ctx caller sys c := by
  cases ht with
  | @create caller _ _ _ _ _ => exact .inr ⟨caller, .create _, rfl⟩
  | @update caller _ id _ _ _ _ => exact .inr ⟨caller, .update id _, rfl⟩
  | @delete caller _ id _ _ => exact .inr ⟨caller, .delete id, rfl⟩
  | _ => exact .inl rfl

theorem handle_eq_or (setup : Setup) (r : Request) (sys : System) :
    (handle setup r sys).2 = sys ∨
      ∃ (endpoint : Endpoint) (α : Type) (op : Operation α), r.Reaches endpoint ∧
        admits setup.apiKey r = true ∧ endpoint.Takes r op ∧
        (handle setup r sys).2 = (op.run setup.limits setup.context sys).2 := by
  by_cases hoptions : r.method = "OPTIONS"
  · rw [handle, if_pos hoptions]
    exact .inl rfl
  cases hk : admits setup.apiKey r with
  | false => exact .inl (handle_stopped setup sys hoptions hk).1
  | true =>
    have heq := (handle_admitted setup sys hoptions hk).1
    cases hfind : Endpoint.find r.method r.target.path with
    | error status =>
      rw [heq, route, hfind]
      exact .inl rfl
    | ok endpoint =>
      have hreach := Endpoint.find_eq_ok.mp hfind
      by_cases hsome : ∃ (α : Type) (op : Operation α), endpoint.Takes r op
      · obtain ⟨α, op, ht⟩ := hsome
        exact .inr ⟨endpoint, α, op, hreach, rfl, ht, heq.trans (route_takes setup sys hreach ht).1⟩
      · by_cases hhealth : endpoint = .health
        · rw [heq, route, hfind, hhealth]
          exact .inl rfl
        · exact .inl (heq.trans (route_refused setup hreach hhealth
            fun α op ht => hsome ⟨α, op, ht⟩).1)

/-! Runs of requests -/

inductive ServiceRun (limits : Limits) (sys : System) : System → Prop
  | start : ServiceRun limits sys sys
  | call {sys' : System} (h : ServiceRun limits sys sys') (ctx : Context) (caller : Caller)
      (c : ServiceCall) : ServiceRun limits sys (c.run limits ctx caller sys')

theorem ServiceRun.handle {sys' : System} (h : ServiceRun limits sys sys') (setup : Setup)
    (hl : setup.limits = limits) (r : Request) :
    ServiceRun limits sys (handle setup r sys').2 := by
  subst hl
  rcases handle_eq_or setup r sys' with heq | ⟨endpoint, α, op, -, -, ht, heq⟩
  · rw [heq]
    exact h
  · rw [heq]
    rcases ht.run_eq setup.limits setup.context sys' with
      hsame | ⟨caller, c, hcall⟩
    · rw [hsame]
      exact h
    · rw [hcall]
      exact h.call setup.context caller c

theorem ServiceRun.serve {sys' : System} (h : ServiceRun limits sys sys') (setup : Setup)
    (hl : setup.limits = limits) (isSpent : Bool) (r : Request) :
    ServiceRun limits sys (serve setup isSpent r sys').2 := by
  rcases serve_cases setup isSpent r sys' with heq | ⟨-, -, -, heq, -⟩
  · rw [heq]
    exact h.handle setup hl r
  · rw [heq]
    exact h

namespace Sample

end Sample

end Http

end KnowledgeTree
