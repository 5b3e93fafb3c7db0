import KnowledgeTree.Proofs.Mutation

/-!
Mutations write once, as the last thing they do. So a mutation that fails at any of its requests has
written nothing, also when its context is cancelled or expires while it runs.
-/

namespace KnowledgeTree

variable {α β : Type} {limits : Limits} {ctx : Context} {ctxs : Nat → Context} {sys : System}

namespace Request

def isReading : Request β → Bool
  | walk _ _ _ | listItem _ | newId | now => true
  | create _ _ _ | createDraft _ _ _ | update _ _ | updateDraft _ _ | delete _ _ => false

end Request

namespace System

theorem answer_reading {r : Request β} (h : r.isReading = true) :
    (sys.answer ctx r).2.store = sys.store := by
  cases r with
  | walk | listItem | newId | now => rfl
  | create | createDraft | update | updateDraft | delete => cases h

theorem answer_done (h : ctx.isDone = true) (r : Request β) :
    (sys.answer ctx r).2.store = sys.store := by
  have hwrite : ∀ {γ : Type} {result : Except Error (γ × Store)},
      (∀ p, result ≠ .ok p) → (sys.commit result).2.store = sys.store := by
    intro γ result hno
    cases result with
    | ok p => exact absurd rfl (hno p)
    | error e => rfl
  have hunit : ∀ {result : Except Error Store}, (∀ s, result ≠ .ok s) →
      (sys.commitUnit result).2.store = sys.store := by
    intro result hno
    cases result with
    | ok s => exact absurd rfl (hno s)
    | error e => rfl
  have hlive : ctx.isDone ≠ false := by rw [h]; simp
  cases r with
  | walk | listItem | newId | now => rfl
  | create => exact hunit fun s hs => hlive (Store.create_eq_ok.mp hs).1
  | createDraft => exact hunit fun s hs => hlive (Store.createDraft_eq_ok.mp hs).1
  | update => exact hwrite fun p hp => hlive (Store.update_eq_ok.mp hp).1
  | updateDraft => exact hunit fun s hs => hlive (Store.updateDraft_eq_ok.mp hs).1
  | delete => exact hunit fun s hs => hlive (Store.delete_eq_ok.mp hs).1

end System

namespace Script

def runUnder (ctxs : Nat → Context) : Script α → System → Except Error α × System
  | done result, sys => (result, sys)
  | ask r next, sys =>
    match sys.answer (ctxs 0) r with
    | (.ok b, sys) => (next b).runUnder (fun n => ctxs (n + 1)) sys
    | (.error e, sys) => (.error e, sys)

theorem runUnder_const (x : Script α) : x.runUnder (fun _ => ctx) sys = x.run ctx sys := by
  induction x generalizing sys with
  | done result => rfl
  | ask r next ih =>
    rw [runUnder, run]
    rcases sys.answer ctx r with ⟨answer, mid⟩
    cases answer with
    | ok b => exact ih b
    | error e => rfl

theorem runUnder_done (h : ∀ n, (ctxs n).isDone = true) (x : Script α) :
    (x.runUnder ctxs sys).2.store = sys.store := by
  induction x generalizing ctxs sys with
  | done result => rfl
  | ask r next ih =>
    have hanswer : (sys.answer (ctxs 0) r).2.store = sys.store := System.answer_done (h 0) r
    rw [runUnder]
    rcases hr : sys.answer (ctxs 0) r with ⟨answer, mid⟩
    rw [hr] at hanswer
    cases answer with
    | ok b => exact (ih b fun n => h (n + 1)).trans hanswer
    | error e => exact hanswer

inductive Reads : Script α → Prop
  | done (result : Except Error α) : Reads (done result)
  | ask {β : Type} {r : Request β} {next : β → Script α} (hr : r.isReading = true)
      (h : ∀ b, Reads (next b)) : Reads (ask r next)

inductive WritesLast : Script α → Prop
  | done (result : Except Error α) : WritesLast (done result)
  | read {β : Type} {r : Request β} {next : β → Script α} (hr : r.isReading = true)
      (h : ∀ b, WritesLast (next b)) : WritesLast (ask r next)
  | write {β : Type} {r : Request β} {next : β → Script α}
      (h : ∀ b, ∃ a, next b = .done (.ok a)) : WritesLast (ask r next)

theorem WritesLast.error {x : Script α} (h : WritesLast x) {e : Error}
    (he : (x.runUnder ctxs sys).1 = .error e) : (x.runUnder ctxs sys).2.store = sys.store := by
  induction h generalizing ctxs sys with
  | done result => rfl
  | @read β r next hr h ih =>
    have hanswer : (sys.answer (ctxs 0) r).2.store = sys.store := System.answer_reading hr
    rw [runUnder] at he ⊢
    rcases hx : sys.answer (ctxs 0) r with ⟨answer, mid⟩
    rw [hx] at hanswer he
    cases answer with
    | ok b => exact (ih b he).trans hanswer
    | error e' => exact hanswer
  | @write β r next h =>
    -- a write that is answered ends the run well, so it is the write that failed
    rw [runUnder] at he ⊢
    rcases hx : sys.answer (ctxs 0) r with ⟨answer, mid⟩
    rw [hx] at he
    cases answer with
    | ok b =>
      obtain ⟨a, ha⟩ := h b
      simp only [ha, runUnder] at he
      cases he
    | error e' =>
      have herror : (sys.answer (ctxs 0) r).1 = .error e' := by rw [hx]
      have hstore := System.answer_error herror
      rwa [hx] at hstore

/-! Sequences -/

theorem reads_check (result : Except Error α) : Reads (check result) := .done _

theorem reads_pure (a : α) : Reads (pure a : Script α) := .done _

theorem reads_request {r : Request α} (h : r.isReading = true) : Reads (request r) :=
  .ask h fun _ => .done _

theorem Reads.bind {x : Script α} {f : α → Script β} (hx : Reads x) (hf : ∀ a, Reads (f a)) :
    Reads (x >>= f) := by
  change Reads (x.bind f)
  induction hx with
  | done result =>
    cases result with
    | ok a => exact hf a
    | error e => exact .done _
  | ask hr _ ih => exact .ask hr ih

theorem Reads.bind_last {x : Script α} {f : α → Script β} (hx : Reads x)
    (hf : ∀ a, WritesLast (f a)) : WritesLast (x >>= f) := by
  change WritesLast (x.bind f)
  induction hx with
  | done result =>
    cases result with
    | ok a => exact hf a
    | error e => exact .done _
  | ask hr _ ih => exact .read hr ih

theorem writesLast_request (r : Request α) (f : α → β) :
    WritesLast (request r >>= fun a => pure (f a)) :=
  .write fun a => ⟨f a, rfl⟩

end Script

namespace Hierarchy

open Script

theorem reads_parentChain (parent : EntityId) : Reads (parentChain limits parent) :=
  (reads_request rfl).bind fun _ => (reads_check _).bind fun _ => reads_pure _

theorem reads_checkPlace (t : EntityType) (parent : Option EntityId) :
    Reads (checkPlace limits t parent) := by
  cases parent with
  | none => exact reads_check _
  | some p =>
    exact (reads_check _).bind fun _ => (reads_parentChain p).bind fun _ =>
      (reads_check _).bind fun _ => reads_check _

theorem reads_checkMove (current : ListItem) (parent : EntityId) :
    Reads (checkMove limits current parent) :=
  (reads_parentChain parent).bind fun _ => (reads_check _).bind fun _ =>
    (reads_check _).bind fun _ => (reads_request rfl).bind fun _ =>
      (reads_check _).bind fun _ => reads_check _

theorem reads_newParent (r : UpdateRequest) (current : ListItem) :
    Reads (newParent limits r current) := by
  unfold newParent
  split
  · cases r.parent with
    | none => exact (reads_check _).bind fun _ => reads_pure _
    | some p =>
      exact (reads_check _).bind fun _ => (reads_checkMove current p).bind fun _ => reads_pure _
  · exact reads_pure _

theorem writesLast_create (r : CreateRequest) : WritesLast (createScript limits r) :=
  (reads_check _).bind_last fun _ => (reads_check _).bind_last fun _ =>
    (reads_checkPlace _ _).bind_last fun _ => (reads_request rfl).bind_last fun _ =>
      (reads_request rfl).bind_last fun _ => writesLast_request _ _

theorem writesLast_update (r : UpdateRequest) : WritesLast (updateScript limits r) := by
  refine (reads_check _).bind_last fun _ => (reads_check _).bind_last fun _ =>
    (reads_check _).bind_last fun _ => (reads_check _).bind_last fun _ =>
      (reads_request rfl).bind_last fun current =>
        (reads_newParent r current).bind_last fun _ => ?_
  split
  · exact (reads_request rfl).bind_last fun _ => (reads_check _).bind_last fun _ =>
      (reads_request rfl).bind_last fun _ => writesLast_request _ _
  · exact (reads_request rfl).bind_last fun _ => writesLast_request _ _

theorem writesLast_delete (id : EntityId) : WritesLast (deleteScript limits id) :=
  (reads_check _).bind_last fun _ => (reads_request rfl).bind_last fun _ =>
    (reads_check _).bind_last fun _ => (reads_request rfl).bind_last fun _ =>
      writesLast_request _ _

end Hierarchy

end KnowledgeTree
