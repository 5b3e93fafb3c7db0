import KnowledgeTree.Proofs.Interference
import KnowledgeTree.Proofs.Persistence

/-!
Any number of clients, each in the middle of one mutation, whose requests are answered in any order.
One lock keeps the mutations that restructure the tree apart; the others take no lock.
-/

namespace KnowledgeTree

variable {α β : Type} {limits : Limits} {ctx : Context} {sys : System} {s : Store}
  {r : UpdateRequest} {x : Script Publication} {v : VersionNumber}

namespace Script

def isRunning : Script α → Bool
  | done _ => false
  | ask _ _ => true

def step (ctx : Context) : Script α → System → Script α × System
  | done result, sys => (done result, sys)
  | ask r next, sys =>
    (match (sys.answer ctx r).1 with
      | .ok b => next b
      | .error e => done (.error e), (sys.answer ctx r).2)

theorem run_step (x : Script α) :
    (x.step ctx sys).1.run ctx (x.step ctx sys).2 = x.run ctx sys := by
  cases x with
  | done result => rfl
  | ask r next =>
    rw [step, run]
    rcases sys.answer ctx r with ⟨answer, after⟩
    cases answer <;> rfl

end Script

/-- The mutation holds the lock on the structure of the tree. -/
def Mutation.isStructural : Mutation α → Bool
  | create r => r.parent.isSome
  | update r => r.parentChanged || r.isDraft
  | delete _ => true

structure Client : Type 1 where
  {α : Type}
  mutation : Mutation α
  rest : Script α

def Script.version? : Script Publication → Option VersionNumber
  | done (.ok publication) => publication.version?
  | _ => none

namespace Client

def holdsLock (c : Client) : Bool := c.mutation.isStructural && c.rest.isRunning

def published? : Client → Option (EntityId × VersionNumber)
  | ⟨.update r, rest⟩ => rest.version?.map (r.id, ·)
  | _ => none

end Client

structure Pool : Type 1 where
  store : Store
  clients : List Client := []

/-- A client begins a mutation, or has its next request answered. Its context, the clock and the
supply of ids may stand anywhere by then. -/
inductive Move : Type 1
  | start {α : Type} (mutation : Mutation α)
  | advance (client : Nat) (ctx : Context) (clock : Clock) (ids : IdSource)

namespace Pool

/-- A mutation that needs the lock does not begin while another one holds it. -/
def move (limits : Limits) (p : Pool) : Move → Pool
  | .start m =>
    if m.isStructural && p.clients.any Client.holdsLock then p
    else { p with clients := p.clients ++ [⟨m, m.script limits⟩] }
  | .advance i ctx clock ids =>
    match p.clients[i]? with
    | none => p
    | some c =>
      let after := c.rest.step ctx ⟨p.store, clock, ids⟩
      ⟨after.2.store, p.clients.set i ⟨c.mutation, after.1⟩⟩

def run (limits : Limits) (moves : List Move) (p : Pool) : Pool := moves.foldl (move limits) p

end Pool

/-! Publications -/

namespace Script

def Finishes (r : UpdateRequest) : Request α → (α → Script Publication) → Prop
  | .update changes _, next => changes.id = r.id ∧
      (r.parentChanged = false → changes.parent = none) ∧
      ∀ v, next v = done (.ok (.published v))
  | .updateDraft _ _, next => r.isDraft = true ∧ ∀ u, next u = done (.ok .draft)
  | _, _ => False

inductive Publishes (r : UpdateRequest) : Script Publication → Prop
  | done {result : Except Error Publication} (h : ∀ v, result ≠ .ok (.published v)) :
      Publishes r (done result)
  | read {β : Type} {q : Request β} {next : β → Script Publication} (hq : q.isReading = true)
      (h : ∀ b, Publishes r (next b)) : Publishes r (ask q next)
  | write {β : Type} {q : Request β} {next : β → Script Publication} (h : Finishes r q next) :
      Publishes r (ask q next)

theorem Finishes.answered {q : Request β} {next : β → Script Publication} (h : Finishes r q next)
    (b : β) : ∃ publication, next b = done (.ok publication) := by
  cases q with
  | update changes now => exact ⟨_, h.2.2 b⟩
  | updateDraft changes now => exact ⟨_, h.2 b⟩
  | walk | listItem | newId | now | create | createDraft | delete => cases h

theorem Reads.bind_publishes {y : Script α} {f : α → Script Publication} (hy : Reads y)
    (hf : ∀ a, (f a).Publishes r) : (y >>= f).Publishes r := by
  change (y.bind f).Publishes r
  induction hy with
  | done result =>
    cases result with
    | ok a => exact hf a
    | error e => exact .done fun v => by simp
  | ask hq _ ih => exact .read hq ih

theorem step_of_ok {q : Request β} {next : β → Script α} {b : β}
    (h : (sys.answer ctx q).1 = .ok b) : ((ask q next).step ctx sys).1 = next b := by
  rw [step, h]

theorem step_of_error {q : Request β} {next : β → Script α} {e : Error}
    (h : (sys.answer ctx q).1 = .error e) : ((ask q next).step ctx sys).1 = done (.error e) := by
  rw [step, h]

theorem version?_eq_some : x.version? = some v ↔ x = done (.ok (.published v)) := by
  unfold version?
  split
  · next publication => cases publication <;> simp [Publication.version?]
  · next hne =>
    constructor
    · intro h; cases h
    · intro h; exact absurd h (hne _)

namespace Publishes

theorem not_published (h : (Script.done (.ok (.published v)) : Script Publication).Publishes r) :
    False := by
  cases h with
  | done h => exact h v rfl

theorem failed (e : Error) : (Script.done (.error e) : Script Publication).Publishes r :=
  .done fun v h => by cases h

theorem step (h : x.Publishes r) (hr : (x.step ctx sys).1.isRunning = true) :
    (x.step ctx sys).1.Publishes r := by
  cases h with
  | done h => exact .done h
  | @read β q next hq h =>
    cases ha : (sys.answer ctx q).1 with
    | ok b => rw [step_of_ok ha]; exact h b
    | error e => rw [step_of_error ha]; exact failed e
  | @write β q next h =>
    cases ha : (sys.answer ctx q).1 with
    | ok b =>
      obtain ⟨publication, hb⟩ := h.answered b
      rw [step_of_ok ha, hb] at hr
      cases hr
    | error e => rw [step_of_error ha]; exact failed e

theorem published (h : x.Publishes r)
    (hx : (x.step ctx sys).1 = Script.done (.ok (.published v))) :
    ∃ changes now, changes.id = r.id ∧
      sys.store.update ctx changes now = .ok (v, (x.step ctx sys).2.store) := by
  cases h with
  | done h => exact absurd (by cases hx; rfl) (h v)
  | @read β q next hq h =>
    cases ha : (sys.answer ctx q).1 with
    | ok b => rw [step_of_ok ha] at hx; exact (hx ▸ h b).not_published.elim
    | error e => rw [step_of_error ha] at hx; cases hx
  | @write β q next h =>
    cases ha : (sys.answer ctx q).1 with
    | error e => rw [step_of_error ha] at hx; cases hx
    | ok b =>
      rw [step_of_ok ha] at hx
      cases q with
      | update changes now =>
        rw [h.2.2] at hx
        cases hx
        obtain ⟨s', hs', heq⟩ := System.commit_eq_ok.mp (Prod.ext ha rfl)
        have hstore : ((ask (.update changes now) next).step ctx sys).2.store = s' :=
          congrArg System.store heq
        exact ⟨changes, now, h.1, by rw [hstore, hs']⟩
      | updateDraft changes now => rw [h.2] at hx; cases hx
      | walk | listItem | newId | now | create | createDraft | delete => cases h

section Content

variable (hd : r.isDraft = false) (hp : r.parentChanged = false)

include hd hp

theorem mild (h : x.Publishes r) : x.Mild := by
  induction h with
  | done h => exact .done _
  | read hq _ ih => exact .ask (Request.isMild_reading hq) ih
  | @write β q next h =>
    refine .ask ?_ fun b => ?_
    · cases q with
      | update changes now => exact Request.isMild_update now (h.2.1 hp)
      | updateDraft changes now => cases hd.symm.trans h.1
      | walk | listItem | newId | now | create | createDraft | delete => cases h
    · obtain ⟨publication, hb⟩ := h.answered b
      rw [hb]
      exact .done _

theorem keeps_parents (h : x.Publishes r) (b : EntityId) :
    ((x.step ctx sys).2.store.row? b).map Entity.parent =
      (sys.store.row? b).map Entity.parent := by
  cases h with
  | done h => rfl
  | @read β q next hq h => rw [Script.step, System.answer_reading hq]
  | @write β q next h =>
    rw [Script.step]
    cases q with
    | updateDraft changes now => cases hd.symm.trans h.1
    | walk | listItem | newId | now | create | createDraft | delete => cases h
    | update changes now =>
      rcases sys.answer_update_cases ctx changes now with heq | ⟨e, v, -, -, hedit⟩
      · rw [heq]
      · rw [hedit.rows]
        split
        · next hb =>
          obtain ⟨hm, -, -⟩ := Store.live?_eq_some.mp hedit.live
          rw [hb, Store.row?_eq_some.mpr ⟨hm, rfl⟩, Option.map_some, Option.map_some, Entity.edit,
            h.2.1 hp]
          rfl
        · rfl

end Content

theorem id_eq {changes : EntityChanges} {now : Time} {next : VersionNumber → Script Publication}
    (h : (ask (.update changes now) next).Publishes r) :
    changes.id = r.id ∧ ∀ v, next v = Script.done (.ok (.published v)) := by
  cases h with
  | read hq _ => cases hq
  | write h => exact ⟨h.1, h.2.2⟩

end Publishes

end Script

namespace Hierarchy

open Script

theorem publishes_update (r : UpdateRequest) : (updateScript limits r).Publishes r := by
  refine (reads_check _).bind_publishes fun _ => (reads_check _).bind_publishes fun _ =>
    (reads_check _).bind_publishes fun name => (reads_check _).bind_publishes fun _ =>
      (reads_request rfl).bind_publishes fun current => ?_
  -- an update that leaves the parent alone asks nothing about a place
  have hwrite : ∀ place, (r.parentChanged = false → place = none) →
      Publishes r (do
        let changes : EntityChanges := ⟨r.id, name, r.content, place, r.user⟩
        if r.isDraft then
          let below ← request (.walk [r.id] 2 .childrenOnly)
          check (checkChildless r.id below)
          let now ← request .now
          request (.updateDraft changes now)
          return .draft
        else
          let now ← request .now
          return .published (← request (.update changes now))) := by
    intro place hplace
    cases hd : r.isDraft with
    | true =>
      exact (reads_request rfl).bind_publishes fun _ => (reads_check _).bind_publishes fun _ =>
        (reads_request rfl).bind_publishes fun _ => .write ⟨hd, fun _ => rfl⟩
    | false =>
      exact (reads_request rfl).bind_publishes fun _ => .write ⟨rfl, hplace, fun _ => rfl⟩
  cases hc : r.parentChanged with
  | true =>
    refine (reads_newParent r current).bind_publishes fun place => hwrite place fun h => ?_
    rw [hc] at h
    cases h
  | false =>
    have hnone : newParent limits r current = pure none := by
      rw [newParent, hc]
      rfl
    rw [hnone]
    exact hwrite none fun _ => rfl

end Hierarchy

/-! One step of a client -/

namespace Script

theorem Holds.step {d : Nat} {x : Script α} (h : x.Holds d (fun _ _ => True) sys.store)
    (hs : sys.store.IsForest d) (ctx : Context) : (x.step ctx sys).2.store.IsForest d ∧
      (x.step ctx sys).1.Holds d (fun _ _ => True) (x.step ctx sys).2.store := by
  cases x with
  | done result => exact ⟨hs, h⟩
  | ask q next =>
    obtain ⟨hforest, hnext⟩ := h ctx sys (.refl _)
    refine ⟨hforest, ?_⟩
    cases ha : (sys.answer ctx q).1 with
    | ok b => rw [step_of_ok ha]; exact hnext b ha
    | error e => rw [step_of_error ha]; exact trivial

theorem Mild.step {x : Script α} (h : x.Mild) (ctx : Context) (sys : System) :
    sys.store.Drifts (x.step ctx sys).2.store ∧ (x.step ctx sys).1.Mild := by
  cases h with
  | done result => exact ⟨.refl _, .done _⟩
  | @ask β q next hq h =>
    refine ⟨hq ctx sys, ?_⟩
    cases ha : (sys.answer ctx q).1 with
    | ok b => rw [step_of_ok ha]; exact h b
    | error e => rw [step_of_error ha]; exact .done _

theorem coherent_step (h : sys.store.Coherent) (ctx : Context) (x : Script α) :
    (x.step ctx sys).2.store.Coherent := by
  cases x with
  | done result => exact h
  | ask q next => exact h.answer ctx q

theorem continues_step (ctx : Context) (sys : System) (x : Script α) :
    sys.store.Continues (x.step ctx sys).2.store := by
  cases x with
  | done result => exact .refl _
  | ask q next => exact .answer sys ctx q

theorem step_of_not_running {x : Script α} (h : x.isRunning = false) :
    x.step ctx sys = (x, sys) := by
  cases x with
  | done result => rfl
  | ask q next => cases h

end Script

theorem Store.Continues.length_history {s s' : Store} (h : s.Continues s') (id : EntityId) :
    (s.history id).length ≤ (s'.history id).length :=
  (h.versions.sublist.filter _).length_le

theorem Script.Publishes.newest (h : x.Publishes r) (hs : sys.store.Coherent)
    (hx : (x.step ctx sys).1 = .done (.ok (.published v))) :
    v.value = (sys.store.history r.id).length + 1 ∧
      v.value = ((x.step ctx sys).2.store.history r.id).length := by
  obtain ⟨changes, now, hid, hu⟩ := h.published hx
  obtain ⟨-, hnext, e, he, -⟩ := Store.update_eq_ok.mp hu
  have hedit := Store.edited_of_update hu he
  have hrow := hedit.rows e.id
  rw [if_pos rfl, (Store.live?_eq_some.mp he).2.1, hid] at hrow
  exact ⟨hid ▸ hs.nextVersion hnext, ((coherent_step hs ctx x).published hrow rfl).1⟩

/-! What holds throughout -/

namespace Pool

variable {p : Pool}

def AtMostOne (P : Client → Prop) (clients : List Client) : Prop :=
  ∀ (i j : Nat) (c c' : Client), clients[i]? = some c → clients[j]? = some c' → P c → P c' → i = j

theorem AtMostOne.set {P : Client → Prop} {clients : List Client} {i : Nat} {a : Client}
    (h : AtMostOne P clients) (ha : P a → ∀ j c, j ≠ i → clients[j]? = some c → ¬P c) :
    AtMostOne P (clients.set i a) := by
  have hcases : ∀ j c, (clients.set i a)[j]? = some c →
      j = i ∧ c = a ∨ j ≠ i ∧ clients[j]? = some c := by
    intro j c hj
    rw [List.getElem?_set] at hj
    split at hj
    · next hij =>
      split at hj
      · cases hj
        exact .inl ⟨hij.symm, rfl⟩
      · cases hj
    · next hij => exact .inr ⟨Ne.symm hij, hj⟩
  intro j k c c' hj hk hc hc'
  rcases hcases j c hj with ⟨rfl, rfl⟩ | ⟨hji, hold⟩
  · rcases hcases k c' hk with ⟨rfl, rfl⟩ | ⟨hki, hold⟩
    · rfl
    · exact absurd hc' (ha hc k c' hki hold)
  · rcases hcases k c' hk with ⟨rfl, rfl⟩ | ⟨hki, hold'⟩
    · exact absurd hc (ha hc' j c hji hold)
    · exact h j k c c' hold hold' hc hc'

theorem AtMostOne.append {P : Client → Prop} {clients : List Client} {a : Client}
    (h : AtMostOne P clients) (ha : P a → ∀ c ∈ clients, ¬P c) :
    AtMostOne P (clients ++ [a]) := by
  have hcases : ∀ j c, (clients ++ [a])[j]? = some c →
      j = clients.length ∧ c = a ∨ clients[j]? = some c := by
    intro j c hj
    rw [List.getElem?_append] at hj
    split at hj
    · exact .inr hj
    · next hlen =>
      rw [List.getElem?_singleton] at hj
      split at hj
      · cases hj
        exact .inl ⟨by omega, rfl⟩
      · cases hj
  intro j k c c' hj hk hc hc'
  rcases hcases j c hj with ⟨rfl, rfl⟩ | hold
  · rcases hcases k c' hk with ⟨rfl, rfl⟩ | hold
    · rfl
    · exact absurd hc' (ha hc c' (List.mem_of_getElem? hold))
  · rcases hcases k c' hk with ⟨rfl, rfl⟩ | hold'
    · exact absurd hc (ha hc' c (List.mem_of_getElem? hold))
    · exact h j k c c' hold hold' hc hc'

end Pool

def Mutation.Follows : Mutation α → Script α → Prop
  | update r, x => x.isRunning = true → x.Publishes r
  | create _, _ => True
  | delete _, _ => True

/-- A client that holds the lock keeps the shape of the tree while it drifts, and one that takes no
lock only lets it drift. -/
structure Client.Sound (limits : Limits) (s : Store) (c : Client) : Prop where
  locked : c.mutation.isStructural = true → c.rest.Holds limits.maxDepth (fun _ _ => True) s
  mild : c.mutation.isStructural = false → c.rest.Mild
  follows : c.mutation.Follows c.rest

theorem Client.sound_start (m : Mutation α) (hs : s.IsForest limits.maxDepth) :
    Client.Sound limits s ⟨m, m.script limits⟩ := by
  cases m with
  | create r =>
    refine ⟨fun _ => Hierarchy.holds_create r hs, fun h => ?_, trivial⟩
    exact Hierarchy.mild_createRoot (Option.isSome_eq_false_iff.mp h |> Option.isNone_iff_eq_none.mp)
  | update r =>
    refine ⟨fun _ => Hierarchy.holds_update r hs, fun h => ?_,
      fun _ => Hierarchy.publishes_update r⟩
    obtain ⟨hp, hd⟩ := Bool.or_eq_false_iff.mp h
    exact (Hierarchy.publishes_update r).mild hd hp
  | delete id =>
    exact ⟨fun _ => Hierarchy.holds_delete id hs, fun h => (by cases h), trivial⟩

theorem Script.holds_of_not_running {d : Nat} {x : Script α} (h : x.isRunning = false) :
    x.Holds d (fun _ _ => True) s := by
  cases x with
  | done result => cases result <;> exact trivial
  | ask q next => cases h

namespace Client.Sound

variable {c : Client}

theorem keep {s' : Store} (h : c.Sound limits s) (hd : c.holdsLock = true → s.Drifts s') :
    c.Sound limits s' := by
  refine ⟨fun hlock => ?_, h.mild, h.follows⟩
  cases hrun : c.rest.isRunning with
  | true => exact (h.locked hlock).drift (hd (by rw [holdsLock, hlock, hrun]; rfl))
  | false => exact Script.holds_of_not_running hrun

variable (h : c.Sound limits sys.store) (hrun : c.rest.isRunning = true)

include h hrun

theorem follows_step : c.mutation.Follows (c.rest.step ctx sys).1 := by
  obtain ⟨m, x⟩ := c
  cases m with
  | create r => trivial
  | update r => exact fun hr => (h.follows hrun).step hr
  | delete id => trivial

theorem step (hs : sys.store.IsForest limits.maxDepth) (ctx : Context) :
    (c.rest.step ctx sys).2.store.IsForest limits.maxDepth ∧
      Client.Sound limits (c.rest.step ctx sys).2.store ⟨c.mutation, (c.rest.step ctx sys).1⟩ := by
  cases hlock : c.mutation.isStructural with
  | true =>
    obtain ⟨hforest, hholds⟩ := (h.locked hlock).step hs ctx
    refine ⟨hforest, fun _ => hholds, fun hmild => ?_, h.follows_step hrun⟩
    cases hlock.symm.trans hmild
  | false =>
    obtain ⟨hdrift, hmild⟩ := (h.mild hlock).step ctx sys
    refine ⟨hdrift.isForest hs, fun hheld => ?_, fun _ => hmild, h.follows_step hrun⟩
    cases hlock.symm.trans hheld

theorem newest (hs : sys.store.Coherent) {id : EntityId}
    (hp : Client.published? ⟨c.mutation, (c.rest.step ctx sys).1⟩ = some (id, v)) :
    v.value = (sys.store.history id).length + 1 ∧
      v.value = ((c.rest.step ctx sys).2.store.history id).length := by
  obtain ⟨m, x⟩ := c
  cases m with
  | create r => cases hp
  | delete id => cases hp
  | update r =>
    obtain ⟨w, hw, heq⟩ := Option.map_eq_some_iff.mp hp
    cases heq
    exact (h.follows hrun).newest hs (Script.version?_eq_some.mp hw)

end Client.Sound

theorem Client.published?_start (limits : Limits) (m : Mutation α) (id : EntityId)
    (v : VersionNumber) :
    Client.published? ⟨m, m.script limits⟩ ≠ some (id, v) := by
  cases m with
  | create r => simp [published?]
  | delete id => simp [published?]
  | update r =>
    intro h
    obtain ⟨_, hv, -⟩ := Option.map_eq_some_iff.mp h
    have hpub : ((Mutation.update r).script limits).Publishes r := Hierarchy.publishes_update r
    rw [Script.version?_eq_some.mp hv] at hpub
    exact hpub.not_published

namespace Pool

variable {p : Pool}

structure Sound (limits : Limits) (p : Pool) : Prop where
  forest : p.store.IsForest limits.maxDepth
  coherent : p.store.Coherent
  exclusive : AtMostOne (fun c => c.holdsLock = true) p.clients
  sound : ∀ c ∈ p.clients, c.Sound limits p.store
  distinct : ∀ publication, AtMostOne (fun c => c.published? = some publication) p.clients
  known : ∀ c ∈ p.clients, ∀ id v, c.published? = some (id, v) →
    v.value ≤ (p.store.history id).length

theorem sound_empty (hf : s.IsForest limits.maxDepth) (hc : s.Coherent) :
    Sound limits ⟨s, []⟩ where
  forest := hf
  coherent := hc
  exclusive _ _ _ _ h := by cases h
  sound _ h := by cases h
  distinct _ _ _ _ _ h := by cases h
  known _ h := by cases h

theorem Sound.start (h : p.Sound limits) (m : Mutation α) :
    (p.move limits (.start m)).Sound limits := by
  rw [move]
  split
  · exact h
  · next hlock =>
    have hnew := Client.published?_start limits m
    have hmem : ∀ c ∈ p.clients ++ [⟨m, m.script limits⟩], c ∈ p.clients ∨
        c = ⟨m, m.script limits⟩ := by
      intro c hc
      rwa [List.mem_append, List.mem_singleton] at hc
    refine ⟨h.forest, h.coherent, h.exclusive.append fun hm c hc hheld => hlock ?_, fun c hc => ?_,
      fun ⟨id, v⟩ => (h.distinct (id, v)).append fun hm => absurd hm (hnew id v),
      fun c hc id v hpub => ?_⟩
    · rw [Bool.and_eq_true, List.any_eq_true]
      exact ⟨(Bool.and_eq_true_iff.mp hm).1, c, hc, hheld⟩
    · rcases hmem c hc with hc | rfl
      · exact h.sound c hc
      · exact Client.sound_start m h.forest
    · rcases hmem c hc with hc | rfl
      · exact h.known c hc id v hpub
      · exact absurd hpub (hnew id v)

theorem Sound.step {clients : List Client} {i : Nat} {c : Client}
    (h : Sound limits ⟨sys.store, clients⟩) (hi : clients[i]? = some c)
    (hrun : c.rest.isRunning = true) : Sound limits ⟨(c.rest.step ctx sys).2.store,
      clients.set i ⟨c.mutation, (c.rest.step ctx sys).1⟩⟩ := by
  have hc : c.Sound limits sys.store := h.sound c (List.mem_of_getElem? hi)
  have hcoherent : sys.store.Coherent := h.coherent
  have hcontinues := Script.continues_step ctx sys c.rest
  obtain ⟨hforest, hstep⟩ := hc.step hrun h.forest ctx
  have hothers : ∀ d ∈ clients.set i ⟨c.mutation, (c.rest.step ctx sys).1⟩,
      d = ⟨c.mutation, (c.rest.step ctx sys).1⟩ ∨
        ∃ j, j ≠ i ∧ clients[j]? = some d := by
    intro d hd
    obtain ⟨j, hj⟩ := List.mem_iff_getElem?.mp hd
    rw [List.getElem?_set] at hj
    split at hj
    · split at hj
      · cases hj; exact .inl rfl
      · cases hj
    · next hne => exact .inr ⟨j, Ne.symm hne, hj⟩
  refine ⟨hforest, Script.coherent_step hcoherent ctx c.rest,
    h.exclusive.set fun hheld j d hj hd hheld' => ?_,
    fun d hd => ?_, fun ⟨id, v⟩ => (h.distinct (id, v)).set fun hp j d hj hd hp' => ?_,
    fun d hd id v hp => ?_⟩
  · -- only a client that held the lock before the step holds it after
    have hbefore : c.holdsLock = true := by
      rw [Client.holdsLock, hrun, Bool.and_true]
      exact (Bool.and_eq_true_iff.mp hheld).1
    exact hj (h.exclusive j i d c hd hi hheld' hbefore)
  · rcases hothers d hd with rfl | ⟨j, hj, hd⟩
    · exact hstep
    · refine (h.sound d (List.mem_of_getElem? hd)).keep fun hheld => ?_
      cases hlock : c.mutation.isStructural with
      | false => exact ((hc.mild hlock).step ctx sys).1
      | true =>
        have hbefore : c.holdsLock = true := by rw [Client.holdsLock, hlock, hrun]; rfl
        exact absurd (h.exclusive j i d c hd hi hheld hbefore) hj
  · have hnew := (hc.newest hrun hcoherent hp).1
    have hold : v.value ≤ (sys.store.history id).length :=
      h.known d (List.mem_of_getElem? hd) id v hp'
    omega
  · rcases hothers d hd with rfl | ⟨j, -, hd⟩
    · exact Nat.le_of_eq (hc.newest hrun hcoherent hp).2
    · have hknown := h.known d (List.mem_of_getElem? hd) id v hp
      exact Nat.le_trans hknown (hcontinues.length_history id)

theorem move_advance {i : Nat} {c : Client} (hi : p.clients[i]? = some c) (ctx : Context)
    (clock : Clock) (ids : IdSource) : p.move limits (.advance i ctx clock ids) =
      ⟨(c.rest.step ctx ⟨p.store, clock, ids⟩).2.store,
        p.clients.set i ⟨c.mutation, (c.rest.step ctx ⟨p.store, clock, ids⟩).1⟩⟩ := by
  rw [move, hi]

theorem Sound.advance (h : p.Sound limits) (i : Nat) (ctx : Context) (clock : Clock)
    (ids : IdSource) : (p.move limits (.advance i ctx clock ids)).Sound limits := by
  cases hi : p.clients[i]? with
  | none => rw [move, hi]; exact h
  | some c =>
    rw [move_advance hi]
    cases hrun : c.rest.isRunning with
    | true =>
      have h : Sound limits ⟨(⟨p.store, clock, ids⟩ : System).store, p.clients⟩ := h
      exact h.step hi hrun
    | false =>
      rw [Script.step_of_not_running hrun]
      obtain ⟨hlen, rfl⟩ := List.getElem?_eq_some_iff.mp hi
      rw [List.set_getElem_self]
      exact h

theorem Sound.move (h : p.Sound limits) (m : Move) : (p.move limits m).Sound limits := by
  cases m with
  | start m => exact h.start m
  | advance i ctx clock ids => exact h.advance i ctx clock ids

theorem Sound.run (h : p.Sound limits) (moves : List Move) : (p.run limits moves).Sound limits := by
  induction moves generalizing p with
  | nil => exact h
  | cons m moves ih => exact ih (h.move m)

theorem Sound.overtaken {i : Nat} {changes : EntityChanges} {now : Time}
    {next : VersionNumber → Script Publication} (h : p.Sound limits)
    (hi : p.clients[i]? = some ⟨.update r, .ask (.update changes now) next⟩)
    (hdead : p.store.live? r.id = none) (hc : ctx.isDone = false) (clock : Clock)
    (ids : IdSource) : p.move limits (.advance i ctx clock ids) =
      ⟨p.store, p.clients.set i ⟨.update r, .done (.error (
        if (p.store.history r.id).length + 1 < 4294967296 then .entityNotFound r.id
        else .store "update"
          s!"Integer {(p.store.history r.id).length + 1} out of range at index 0"))⟩⟩ := by
  have hclient := h.sound _ (List.mem_of_getElem? hi)
  obtain ⟨hid, -⟩ := (hclient.follows rfl).id_eq
  rw [← hid] at hdead ⊢
  have herror := h.coherent.update_missing hdead hc now
  rw [move_advance hi, Script.step, System.answer, herror]
  rfl

end Pool

/-- After any number of moves of any number of clients the tree has its shape and the version record
tells what the rows do. No two publications of an entity got the same number, an update of the
content alone never moves anything, and one whose entity is gone by the time it writes fails and
changes nothing. -/
theorem interleaved_mutations (hf : s.IsForest limits.maxDepth) (hc : s.Coherent)
    (moves : List Move) :
    let p := Pool.run limits moves ⟨s, []⟩
    p.store.IsForest limits.maxDepth ∧ p.store.Coherent ∧
    (∀ (i j : Nat) (c c' : Client) publication, p.clients[i]? = some c → p.clients[j]? = some c' →
      c.published? = some publication → c'.published? = some publication → i = j) ∧
    (∀ (i : Nat) r rest, p.clients[i]? = some ⟨.update r, rest⟩ → r.parentChanged = false →
      r.isDraft = false → ∀ ctx clock ids id,
        ((p.move limits (.advance i ctx clock ids)).store.row? id).map Entity.parent =
          (p.store.row? id).map Entity.parent) ∧
    ∀ (i : Nat) r changes now next, p.clients[i]? = some ⟨.update r, .ask (.update changes now) next⟩ →
      p.store.live? r.id = none → ∀ ctx clock ids, ctx.isDone = false →
        p.move limits (.advance i ctx clock ids) = ⟨p.store, p.clients.set i ⟨.update r,
          .done (.error (if (p.store.history r.id).length + 1 < 4294967296 then .entityNotFound r.id
            else .store "update"
              s!"Integer {(p.store.history r.id).length + 1} out of range at index 0"))⟩⟩ := by
  intro p
  have hp : p.Sound limits := (Pool.sound_empty hf hc).run moves
  refine ⟨hp.forest, hp.coherent, fun i j c c' publication hi hj hpub hpub' =>
    hp.distinct publication i j c c' hi hj hpub hpub', fun i r rest hi hmove hd ctx clock ids b => ?_,
    fun i r changes now next hi hdead ctx clock ids hctx => ?_⟩
  · have hclient := hp.sound _ (List.mem_of_getElem? hi)
    rw [Pool.move_advance hi]
    cases hrun : rest.isRunning with
    | false => rw [Script.step_of_not_running hrun]
    | true => exact (hclient.follows hrun).keeps_parents hd hmove b
  · exact hp.overtaken hi hdead hctx clock ids

namespace Sample

def retitling : UpdateRequest := { id := library.id, name := "Archive", user := author }

/-- What is left of the update when only its write is still to come. -/
def lateWrite : Script Publication :=
  .ask (.update ⟨library.id, "Archive", "", none, author⟩ ⟨0, 0⟩) fun v => .done (.ok (.published v))

def overtaken : List Move :=
  let go (client : Nat) : Move := .advance client .background {} {}
  [.start (.create { entityType := .department, name := "Library", user := author }),
    go 0, go 0, go 0, .start (.update retitling), go 1, go 1, .start (.delete library.id),
    go 2, go 2, go 2]

theorem overtaken_clients : (Pool.run {} overtaken ⟨.empty, []⟩).clients[1]? =
    some ⟨.update retitling, lateWrite⟩ := by
  cbv

end Sample

theorem interleaved_mutations_overtaken :
    let p := Pool.run {} Sample.overtaken ⟨.empty, []⟩
    Store.empty.IsForest ({} : Limits).maxDepth ∧ Store.empty.Coherent ∧
    p.store.IsForest ({} : Limits).maxDepth ∧ p.store.live? Sample.library.id = none ∧
    p.move {} (.advance 1 .background {} {}) = ⟨p.store, p.clients.set 1 ⟨.update Sample.retitling,
      .done (.error (.entityNotFound Sample.library.id))⟩⟩ := by
  intro p
  have hdead : p.store.live? Sample.library.id = none := by decide +kernel
  have hfree : (p.store.history Sample.retitling.id).length + 1 < 4294967296 := by decide +kernel
  obtain ⟨hforest, -, -, -, hovertaken⟩ :=
    interleaved_mutations Store.isForest_empty Store.coherent_empty Sample.overtaken
  refine ⟨Store.isForest_empty, Store.coherent_empty, hforest, hdead, ?_⟩
  have h := hovertaken 1 _ _ _ _ Sample.overtaken_clients hdead .background {} {} rfl
  rwa [if_pos hfree] at h

namespace Sample

theorem isForest_reissued (n : Nat) : (reissued n).IsForest limits.maxDepth := by
  have hdrift : Store.empty.Drifts (reissued n) := by
    induction n with
    | zero => exact Request.isMild_create false _ _ rfl rfl .background ⟨.empty, {}, {}⟩
    | succ n ih => exact ih.trans (Request.isMild_update _ rfl .background ⟨reissued n, {}, {}⟩)
  exact hdrift.isForest Store.isForest_empty

def late : List Move :=
  let go (client : Nat) : Move := .advance client .background {} {}
  [.start (.update retitling), go 0, go 0, .start (.delete library.id), go 1, go 1, go 1]

theorem run_late {n : Nat} {v : VersionNumber} (he : (reissued n).entities = [libraryAt v]) :
    Pool.run {} late ⟨reissued n, []⟩ = ⟨withdrawn n,
      [⟨.update retitling, lateWrite⟩, ⟨.delete library.id, .done (.ok [library.id])⟩]⟩ := by
  rw [withdrawn]
  generalize reissued n = s at he
  obtain ⟨entities, versions, roles, grants, nodup⟩ := s
  subst he
  cbv

theorem move_late (n : Nat) (hn : n + 1 < 4294967296) :
    let p := Pool.run {} late ⟨reissued n, []⟩
    p.store.live? library.id = none ∧ p.clients[0]? = some ⟨.update retitling, lateWrite⟩ ∧
    p.move {} (.advance 0 .background {} {}) = ⟨p.store, p.clients.set 0 ⟨.update retitling,
      .done (.error (if n + 1 + 1 < 4294967296 then .entityNotFound library.id
        else .store "update" s!"Integer {n + 1 + 1} out of range at index 0"))⟩⟩ := by
  intro p
  have he := entities_reissued n hn
  have hrun : p = ⟨withdrawn n, _⟩ := run_late he
  have hp : p.Sound {} :=
    (Pool.sound_empty (isForest_reissued n) (reachable_reissued n).coherent).run late
  have hdead : p.store.live? library.id = none := by
    rw [hrun]
    exact (deleted_withdrawn he).live?
  have hclient : p.clients[0]? = some ⟨.update retitling, lateWrite⟩ := by rw [hrun]; rfl
  have hlength : (p.store.history retitling.id).length = n + 1 := by
    rw [hrun]
    exact history_withdrawn he
  have hmove := hp.overtaken hclient hdead (rfl : Context.background.isDone = false) {} {}
  rw [hlength] at hmove
  exact ⟨hdead, hclient, hmove⟩

end Sample

/-- An update whose entity was deleted before its write is not answered that the entity is missing
if the version numbers of the entity are used up. -/
theorem interleaved_mutations_used_up :
    let p := Pool.run {} Sample.late ⟨Sample.reissued 4294967294, []⟩
    (Sample.reissued 4294967294).IsForest ({} : Limits).maxDepth ∧
    (Sample.reissued 4294967294).Coherent ∧ p.store.live? Sample.library.id = none ∧
    p.clients[0]? = some ⟨.update Sample.retitling, Sample.lateWrite⟩ ∧
    p.move {} (.advance 0 .background {} {}) = ⟨p.store, p.clients.set 0 ⟨.update Sample.retitling,
      .done (.error (.store "update" "Integer 4294967296 out of range at index 0"))⟩⟩ := by
  intro p
  obtain ⟨hdead, hclient, hmove⟩ := Sample.move_late 4294967294 (by decide)
  rw [if_neg (by decide)] at hmove
  exact ⟨Sample.isForest_reissued 4294967294, (Sample.reachable_reissued 4294967294).coherent,
    hdead, hclient, hmove⟩

end KnowledgeTree
