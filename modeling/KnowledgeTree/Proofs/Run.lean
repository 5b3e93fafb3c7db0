import KnowledgeTree.Hierarchy.Script

/-!
How scripts run: a sequence runs its parts one after the other and ends with the first failure.
Requests that only read leave the tables as they are, and so does every request that fails.
-/

namespace KnowledgeTree

variable {α β : Type} {ctx : Context} {sys sys' : System}

theorem Context.check_eq_ok {u : Unit} : ctx.check = .ok u ↔ ctx.isDone = false := by
  unfold Context.check
  split <;> simp_all

theorem Context.check_live (h : ctx.isDone = false) : ctx.check = .ok () := by
  rw [Context.check, h]; rfl

theorem Context.check_done (h : ctx.isDone = true) : ctx.check = .error .cancelled := by
  rw [Context.check, h]; rfl

theorem Except.bind_eq_ok {ε : Type} {x : Except ε α} {f : α → Except ε β} {b : β} :
    (x >>= f) = .ok b ↔ ∃ a, x = .ok a ∧ f a = .ok b := by
  cases x with
  | ok a =>
    constructor
    · intro h; exact ⟨a, rfl, h⟩
    · rintro ⟨a, ha, h⟩; cases ha; exact h
  | error e =>
    constructor
    · intro h; cases h
    · rintro ⟨a, ha, -⟩; cases ha

theorem Except.bind_of_ok {ε : Type} {x : Except ε α} {a : α} (h : x = .ok a)
    (f : α → Except ε β) : (x >>= f) = f a := by
  rw [h]; rfl

theorem Except.bind_of_error {ε : Type} {x : Except ε α} {e : ε} (h : x = .error e)
    (f : α → Except ε β) : (x >>= f) = .error e := by
  rw [h]; rfl

theorem Except.exists_ok {ε : Type} {x : Except ε α} (h : x.isOk = true) : ∃ a, x = .ok a := by
  cases x with
  | ok a => exact ⟨a, rfl⟩
  | error e => cases h

theorem Except.exists_error {ε : Type} {x : Except ε α} (h : x.isOk = false) :
    ∃ e, x = .error e := by
  cases x with
  | ok a => cases h
  | error e => exact ⟨e, rfl⟩

def Except.Yields {ε : Type} (P : α → Prop) (x : Except ε α) : Prop := ∀ a, x = .ok a → P a

theorem Except.Yields.pure {ε : Type} {P : α → Prop} {a : α} (h : P a) :
    Except.Yields P (Pure.pure a : Except ε α) := by
  rintro _ ⟨⟩
  exact h

theorem Except.Yields.bind {ε : Type} {P : β → Prop} {x : Except ε α} {f : α → Except ε β}
    (h : ∀ a, Except.Yields P (f a)) : Except.Yields P (x >>= f) := by
  intro b hb
  obtain ⟨a, -, hb⟩ := Except.bind_eq_ok.mp hb
  exact h a b hb

namespace Script

theorem run_bind (x : Script α) (f : α → Script β) :
    (x >>= f).run ctx sys = match x.run ctx sys with
      | (.ok a, sys) => (f a).run ctx sys
      | (.error e, sys) => (.error e, sys) := by
  change (x.bind f).run ctx sys = _
  induction x generalizing sys with
  | done result => cases result <;> rfl
  | ask request next ih =>
    simp only [Script.bind, run]
    rcases sys.answer ctx request with ⟨answer, after⟩
    cases answer with
    | ok b => exact ih b
    | error e => rfl

theorem run_bind_eq_ok {x : Script α} {f : α → Script β} {b : β} :
    (x >>= f).run ctx sys = (.ok b, sys') ↔
      ∃ a mid, x.run ctx sys = (.ok a, mid) ∧ (f a).run ctx mid = (.ok b, sys') := by
  rw [run_bind]
  rcases x.run ctx sys with ⟨result, mid⟩
  cases result with
  | ok a =>
    constructor
    · intro h; exact ⟨a, mid, rfl, h⟩
    · rintro ⟨_, _, he, h⟩; cases he; exact h
  | error e =>
    constructor
    · intro h; cases h
    · rintro ⟨_, _, he, -⟩; cases he

theorem run_bind_of_ok {x : Script α} {a : α} (h : x.run ctx sys = (.ok a, sys'))
    (f : α → Script β) : (x >>= f).run ctx sys = (f a).run ctx sys' := by
  rw [run_bind, h]

theorem run_bind_of_error {x : Script α} {e : Error} (h : x.run ctx sys = (.error e, sys'))
    (f : α → Script β) : (x >>= f).run ctx sys = (.error e, sys') := by
  rw [run_bind, h]

theorem run_bind_congr {x : Script α} {f g : α → Script β}
    (h : ∀ a mid, x.run ctx sys = (.ok a, mid) → (f a).run ctx mid = (g a).run ctx mid) :
    (x >>= f).run ctx sys = (x >>= g).run ctx sys := by
  rw [run_bind, run_bind]
  rcases hx : x.run ctx sys with ⟨result, mid⟩
  cases result with
  | ok a => exact h a mid hx
  | error e => rfl

theorem run_request (r : Request α) : (request r).run ctx sys = sys.answer ctx r := by
  simp only [request, run]
  rcases sys.answer ctx r with ⟨answer, after⟩
  cases answer <;> rfl

theorem run_check (result : Except Error α) : (check result).run ctx sys = (result, sys) := rfl

theorem run_check_eq_ok {result : Except Error α} {a : α} :
    (check result).run ctx sys = (.ok a, sys') ↔ result = .ok a ∧ sys' = sys := by
  rw [run_check, Prod.mk.injEq, eq_comm (a := sys)]

theorem run_pure_eq_ok {a b : α} :
    (pure a : Script α).run ctx sys = (.ok b, sys') ↔ b = a ∧ sys' = sys := by
  change ((Except.ok a : Except Error α), sys) = _ ↔ _
  rw [Prod.mk.injEq, Except.ok.injEq, eq_comm (a := a), eq_comm (a := sys)]

def Silent (x : Script α) : Prop := ∀ ctx sys, (x.run ctx sys).2 = sys

theorem silent_check (result : Except Error α) : Silent (check result) := fun _ _ => rfl

theorem silent_pure (a : α) : Silent (pure a : Script α) := fun _ _ => rfl

theorem Silent.bind {x : Script α} {f : α → Script β} (hx : Silent x) (hf : ∀ a, Silent (f a)) :
    Silent (x >>= f) := by
  intro ctx sys
  have h := hx ctx sys
  rw [run_bind]
  rcases hr : x.run ctx sys with ⟨result, mid⟩
  rw [hr] at h
  cases result with
  | ok a => exact (hf a ctx mid).trans h
  | error e => exact h

theorem silent_walk (seeds : List EntityId) (bound : Nat) (direction : Direction) :
    Silent (request (.walk seeds bound direction)) := fun _ _ => by rw [run_request]; rfl

theorem silent_listItem (id : EntityId) : Silent (request (.listItem id)) :=
  fun _ _ => by rw [run_request]; rfl

theorem Silent.eq {x : Script α} (h : Silent x) {result : Except Error α}
    (hr : x.run ctx sys = (result, sys')) : sys' = sys := by
  have := h ctx sys
  rwa [hr] at this

def Quiet (x : Script α) : Prop := ∀ ctx sys, (x.run ctx sys).2.store = sys.store

theorem Silent.quiet {x : Script α} (h : Silent x) : Quiet x :=
  fun ctx sys => congrArg System.store (h ctx sys)

theorem quiet_newId : Quiet (request .newId) := fun _ _ => by rw [run_request]; rfl

theorem quiet_now : Quiet (request .now) := fun _ _ => by rw [run_request]; rfl

def Atomic (x : Script α) : Prop :=
  ∀ ctx sys e, (x.run ctx sys).1 = .error e → (x.run ctx sys).2.store = sys.store

theorem Atomic.eq {x : Script α} (h : Atomic x) {e : Error} (he : x.run ctx sys = (.error e, sys')) :
    sys'.store = sys.store := by
  have := h ctx sys e
  rw [he] at this
  exact this rfl

theorem Quiet.bind_atomic {x : Script α} {f : α → Script β} (hx : Quiet x)
    (hf : ∀ a, Atomic (f a)) : Atomic (x >>= f) := by
  intro ctx sys e he
  have h := hx ctx sys
  rw [run_bind] at he ⊢
  rcases hr : x.run ctx sys with ⟨result, mid⟩
  rw [hr] at h he
  cases result with
  | ok a => exact (hf a ctx mid e he).trans h
  | error e' => exact h

theorem Atomic.bind_pure {x : Script α} (hx : Atomic x) (f : α → β) :
    Atomic (x >>= fun a => pure (f a)) := by
  intro ctx sys e he
  rw [run_bind] at he ⊢
  rcases hr : x.run ctx sys with ⟨result, mid⟩
  rw [hr] at he
  cases result with
  | ok a => cases he
  | error e' =>
    have h := hx ctx sys e' (by rw [hr])
    rwa [hr] at h

end Script

namespace System

variable {result : Except Error Store}

theorem commit_eq_ok {result : Except Error (α × Store)} {a : α} :
    sys.commit result = (.ok a, sys') ↔
      ∃ store, result = .ok (a, store) ∧ sys' = { sys with store } := by
  unfold commit
  split
  · next b store =>
    constructor
    · intro h; cases h; exact ⟨store, rfl, rfl⟩
    · rintro ⟨_, h, rfl⟩; cases h; rfl
  · constructor
    · intro h; cases h
    · rintro ⟨_, h, -⟩; cases h

theorem commitUnit_eq_ok {u : Unit} :
    sys.commitUnit result = (.ok u, sys') ↔
      ∃ store, result = .ok store ∧ sys' = { sys with store } := by
  unfold commitUnit
  rw [commit_eq_ok]
  cases result with
  | ok store => simp [Except.map]
  | error e => simp [Except.map]

theorem commit_error {result : Except Error (α × Store)} {e : Error}
    (h : (sys.commit result).1 = .error e) : (sys.commit result).2 = sys := by
  cases result with
  | ok r => cases h
  | error e => rfl

theorem answer_error {r : Request α} {e : Error} (h : (sys.answer ctx r).1 = .error e) :
    (sys.answer ctx r).2.store = sys.store := by
  cases r with
  | walk | listItem | newId | now => rfl
  | create | createDraft | update | updateDraft | delete =>
    exact congrArg System.store (commit_error h)

end System

theorem Script.atomic_request (r : Request α) : Script.Atomic (request r) := by
  intro ctx sys e h
  rw [run_request] at h ⊢
  exact System.answer_error h

end KnowledgeTree
