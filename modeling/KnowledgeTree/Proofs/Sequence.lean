import KnowledgeTree.Proofs.Acceptance
import KnowledgeTree.Proofs.Identifiers

/-!
Runs of calls that take all identifiers from one source. The ids of the rows are those that creations
returned, in order, and as long as the source is not exhausted the next identifier is none of them.
-/

namespace KnowledgeTree

variable {α β : Type} {limits : Limits} {ctx : Context} {sys sys' : System} {s : Store}
  {source : IdSource} {made : List EntityId} {id : EntityId} {m n : Nat}

namespace IdSource

def nth (source : IdSource) (n : Nat) : EntityId :=
  ⟨Uuid.ofNat (source.block.toNat * blockSize + n)⟩

def HasNext (source : IdSource) : Prop := source.issued.toNat + 1 < blockSize

instance (source : IdSource) : Decidable source.HasNext :=
  inferInstanceAs (Decidable (source.issued.toNat + 1 < blockSize))

def Issued (source : IdSource) (id : EntityId) : Prop :=
  ∃ n ≤ source.issued.toNat, id = source.nth n

theorem nth_inj (hm : m < blockSize) (hn : n < blockSize) (h : source.nth m = source.nth n) :
    m = n := by
  have hblock : source.block.toNat < blockSize := source.block.toNat_lt
  have hbits := congrArg (fun a : EntityId => a.uuid.toNat) h
  simp only [nth, Uuid.ofNat, Uuid.toNat, BitVec.toNat_ofNat] at hbits
  unfold blockSize at hm hn hblock hbits
  omega

theorem nth_take : source.take.2.nth n = source.nth n := by
  have hafter : source.take.2.block = source.block := by
    simp only [take]
    split <;> rfl
  rw [nth, hafter, nth]

section Next

variable (h : source.HasNext)

include h

theorem take_eq_ok : source.take.1 = .ok (source.nth (source.issued.toNat + 1)) :=
  congrArg Prod.fst (if_pos h)

theorem issued_take : source.take.2.issued.toNat = source.issued.toNat + 1 := by
  have hlt : source.issued.toNat + 1 < blockSize := h
  have hafter : source.take.2.issued = source.issued + 1 := by
    simp only [take]
    split <;> rfl
  rw [hafter, UInt64.toNat_add, UInt64.toNat_one]
  exact Nat.mod_eq_of_lt hlt

theorem Issued.take (hid : source.Issued id) : source.take.2.Issued id := by
  obtain ⟨n, hn, rfl⟩ := hid
  have hmore := issued_take h
  exact ⟨n, by omega, nth_take.symm⟩

theorem issued_of_take (hid : source.take.1 = .ok id) : source.take.2.Issued id := by
  obtain rfl := Except.ok.inj ((take_eq_ok h).symm.trans hid)
  exact ⟨_, Nat.le_of_eq (issued_take h).symm, nth_take.symm⟩

theorem not_issued_of_take (hid : source.take.1 = .ok id) : ¬source.Issued id := by
  obtain rfl := Except.ok.inj ((take_eq_ok h).symm.trans hid)
  rintro ⟨n, hn, heq⟩
  have hlt : source.issued.toNat + 1 < blockSize := h
  have := nth_inj hlt (by omega) heq
  omega

end Next

end IdSource

/-! What scripts take from the source -/

namespace Script

def Sparing (x : Script α) : Prop := ∀ ctx sys, (x.run ctx sys).2.ids = sys.ids

theorem Silent.sparing {x : Script α} (h : Silent x) : Sparing x :=
  fun ctx sys => congrArg System.ids (h ctx sys)

theorem Sparing.bind {x : Script α} {f : α → Script β} (hx : Sparing x) (hf : ∀ a, Sparing (f a)) :
    Sparing (x >>= f) := by
  intro ctx sys
  have h := hx ctx sys
  rw [run_bind]
  rcases hr : x.run ctx sys with ⟨result, mid⟩
  rw [hr] at h
  cases result with
  | ok a => exact (hf a ctx mid).trans h
  | error e => exact h

theorem sparing_request {r : Request α}
    (h : ∀ (ctx : Context) (sys : System), (sys.answer ctx r).2.ids = sys.ids) :
    Sparing (request r) := by
  intro ctx sys
  rw [run_request]
  exact h ctx sys

def Draws (x : Script α) : Prop :=
  ∀ ctx sys, (x.run ctx sys).2.ids = sys.ids ∨ (x.run ctx sys).2.ids = sys.ids.take.2

theorem Silent.bind_draws {x : Script α} {f : α → Script β} (hx : Silent x)
    (hf : ∀ a, Draws (f a)) : Draws (x >>= f) := by
  intro ctx sys
  rw [run_bind]
  rcases hr : x.run ctx sys with ⟨result, mid⟩
  obtain rfl := hx.eq hr
  cases result with
  | ok a => exact hf a ctx _
  | error e => exact .inl rfl

theorem draws_newId {f : EntityId → Script β} (hf : ∀ id, Sparing (f id)) :
    Draws (request .newId >>= f) := by
  intro ctx sys
  rw [run_bind, run_request, System.answer]
  cases sys.ids.take.1 with
  | ok id => exact .inr (hf id ctx _)
  | error e => exact .inr rfl

theorem sparing_now : Sparing (request .now) := sparing_request fun _ _ => rfl

end Script

namespace System

theorem ids_commit (result : Except Error (α × Store)) : (sys.commit result).2.ids = sys.ids := by
  cases result <;> rfl

end System

namespace Hierarchy

open Script

theorem sparing_update (r : UpdateRequest) : Sparing (updateScript limits r) := by
  refine (silent_check _).sparing.bind fun _ => (silent_check _).sparing.bind fun _ =>
    (silent_check _).sparing.bind fun _ => (silent_check _).sparing.bind fun _ =>
      (silent_listItem _).sparing.bind fun current =>
        (silent_newParent r current).sparing.bind fun _ => ?_
  split
  · refine (silent_walk _ _ _).sparing.bind fun _ => (silent_check _).sparing.bind fun _ =>
      sparing_now.bind fun _ => (sparing_request fun _ _ => ?_).bind fun _ =>
        (silent_pure _).sparing
    exact System.ids_commit _
  · refine sparing_now.bind fun _ => (sparing_request fun _ _ => ?_).bind fun _ =>
      (silent_pure _).sparing
    exact System.ids_commit _

theorem sparing_delete (id : EntityId) : Sparing (deleteScript limits id) := by
  refine (silent_check _).sparing.bind fun _ => (silent_walk _ _ _).sparing.bind fun _ =>
    (silent_check _).sparing.bind fun _ => sparing_now.bind fun _ =>
      (sparing_request fun _ _ => ?_).bind fun _ => (silent_pure _).sparing
  exact System.ids_commit _

theorem draws_create (r : CreateRequest) : Draws (createScript limits r) := by
  refine (silent_check _).bind_draws fun _ => (silent_check _).bind_draws fun _ =>
    (silent_checkPlace _).bind_draws fun _ => draws_newId fun _ => sparing_now.bind fun _ =>
      (sparing_request fun _ _ => ?_).bind fun _ => (silent_pure _).sparing
  split <;> exact System.ids_commit _

end Hierarchy

/-! Runs -/

namespace CoreCall

def created (limits : Limits) (ctx : Context) (sys : System) : CoreCall → List EntityId
  | create r => (Hierarchy.create limits ctx r sys).1.toOption.toList
  | update _ => []
  | delete _ => []
  | upsertRole _ _ => []
  | grant _ _ _ => []
  | revoke _ _ _ => []

theorem ids_run (c : CoreCall) : (c.run limits ctx sys).ids = sys.ids ∨
    (c.run limits ctx sys).ids = sys.ids.take.2 := by
  cases c with
  | create r => exact Hierarchy.draws_create r ctx sys
  | update r => exact .inl (Hierarchy.sparing_update r ctx sys)
  | delete id => exact .inl (Hierarchy.sparing_delete id ctx sys)
  | upsertRole | grant | revoke => exact .inl (System.ids_commit _)

theorem created_cases {c : CoreCall} (h : id ∈ c.created limits ctx sys) :
    sys.ids.take.1 = .ok id ∧ (c.run limits ctx sys).ids = sys.ids.take.2 := by
  cases c with
  | create r =>
    rcases hr : Hierarchy.create limits ctx r sys with ⟨result, sys'⟩
    rw [created, hr] at h
    rw [run, hr]
    cases result with
    | ok a =>
      obtain rfl : id = a := List.mem_singleton.mp h
      obtain ⟨_, s', -, -, -, hid, rfl, -⟩ := Hierarchy.create_eq_ok.mp hr
      exact ⟨hid, rfl⟩
    | error e => cases h
  | update | delete | upsertRole | grant | revoke => cases h

theorem rows_run (c : CoreCall) : (c.run limits ctx sys).store.ids =
    sys.store.ids ++ c.created limits ctx sys := by
  have hsame {s' : Store} (heq : s'.ids = sys.store.ids) : s'.ids = sys.store.ids ++ [] := by
    rw [heq, List.append_nil]
  cases c with
  | create r =>
    rcases hr : Hierarchy.create limits ctx r sys with ⟨result, sys'⟩
    rw [run, created, hr]
    cases result with
    | ok id =>
      obtain ⟨_, _, hadd, -⟩ := Hierarchy.added_of_create hr
      rw [Store.ids, hadd.entities, List.map_append]
      rfl
    | error e => exact hsame (congrArg Store.ids ((Hierarchy.atomic_create r).eq hr))
  | update r =>
    rcases hr : Hierarchy.update limits ctx r sys with ⟨result, sys'⟩
    rw [run, hr]
    cases result with
    | ok publication =>
      obtain ⟨-, -, e, heffect⟩ := Hierarchy.effect_of_update hr
      apply hsame
      rw [Store.ids, heffect.entities, List.map_map]
      refine List.map_congr_left fun f _ => ?_
      simp only [Function.comp_apply]
      split <;> rfl
    | error e => exact hsame (congrArg Store.ids ((Hierarchy.atomic_update r).eq hr))
  | delete id =>
    rcases hr : Hierarchy.delete limits ctx id sys with ⟨result, sys'⟩
    rw [run, hr]
    cases result with
    | ok ids =>
      obtain ⟨-, -, -, hw⟩ := Hierarchy.delete_cases hr
      obtain ⟨-, -, hs⟩ := Store.delete_eq_ok.mp hw
      apply hsame
      rw [hs]
      simp only [Store.ids, Store.adjust, List.map_map, Function.comp_def, Store.id_adjusted]
    | error e => exact hsame (congrArg Store.ids ((Hierarchy.atomic_delete id).eq hr))
  | upsertRole name isAdmin =>
    cases hr : sys.store.upsertRole ctx name isAdmin with
    | ok s' =>
      obtain ⟨-, -, rfl⟩ := Store.upsertRole_eq_ok.mp hr
      rw [run, hr]
      exact hsame rfl
    | error e => rw [run, hr]; exact hsame rfl
  | grant role entity capability =>
    cases hr : sys.store.grant ctx role entity capability with
    | ok s' =>
      obtain ⟨-, -, -, rfl⟩ := Store.grant_eq_ok.mp hr
      rw [run, hr]
      exact hsame (by split <;> rfl)
    | error e => rw [run, hr]; exact hsame rfl
  | revoke role entity capability =>
    cases hr : sys.store.revoke ctx role entity capability with
    | ok r =>
      obtain ⟨-, -, hs⟩ := Store.revoke_eq_ok.mp hr
      rw [run, hr]
      exact hsame (by rw [System.commit, hs]; rfl)
    | error e => rw [run, hr]; exact hsame rfl

end CoreCall

/-- The ids that creations returned, the source and the tables, after a run of calls that take all
ids from one source which is not exhausted. The clock may stand anywhere before each call. -/
inductive Sequenced (limits : Limits) : List EntityId → IdSource → Store → Prop
  | start (h : limits.validate = .ok ()) (source : IdSource) : Sequenced limits [] source .empty
  | call {made : List EntityId} {sys : System} (h : Sequenced limits made sys.ids sys.store)
      (hn : sys.ids.HasNext) (ctx : Context) (c : CoreCall) :
      Sequenced limits (made ++ c.created limits ctx sys) (c.run limits ctx sys).ids
        (c.run limits ctx sys).store

namespace Sequenced

theorem coreReachable (h : Sequenced limits made source s) : CoreReachable limits s := by
  induction h with
  | start h _ => exact .empty h
  | call _ _ ctx c ih => exact ih.call ctx c

theorem ids_eq (h : Sequenced limits made source s) : s.ids = made := by
  induction h with
  | start _ _ => rfl
  | call _ _ ctx c ih => rw [c.rows_run, ih]

theorem issued (h : Sequenced limits made source s) : ∀ id ∈ made, source.Issued id := by
  induction h with
  | start _ _ => nofun
  | @call made sys _ hn ctx c ih =>
    have hsource : (c.run limits ctx sys).ids = sys.ids ∨
        (c.run limits ctx sys).ids = sys.ids.take.2 := c.ids_run
    intro id hid
    rcases List.mem_append.mp hid with hid | hid
    · rcases hsource with heq | heq
      · rw [heq]
        exact ih id hid
      · rw [heq]
        exact (ih id hid).take hn
    · obtain ⟨htake, heq⟩ := CoreCall.created_cases hid
      rw [heq]
      exact IdSource.issued_of_take hn htake

theorem fresh (h : Sequenced limits made source s) (hn : source.HasNext)
    (hid : source.take.1 = .ok id) : id ∉ made ∧ id ∉ s.ids := by
  have hnew : id ∉ made := fun hm => IdSource.not_issued_of_take hn hid (h.issued id hm)
  rw [h.ids_eq]
  exact ⟨hnew, hnew⟩

end Sequenced

end KnowledgeTree
