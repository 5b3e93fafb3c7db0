import KnowledgeTree.Proofs.Run
import Mathlib.Data.List.Induction
import Mathlib.Logic.Relation

/-!
Whom a cancellation reaches. Contexts cloned from one another, over any number of clones, hold one
flag, and those of different origin hold different ones. So a context is done just if its original
has run out of time, or one with the same original was cancelled.
-/

namespace KnowledgeTree.ContextPool

variable {p q r : ContextPool} {s : Step} {steps before before' : List Step}
  {ref ref' : ContextRef} {i j o o' g f : Nat} {isExpired isExpired' : Bool}

/-! What the steps say about the contexts -/

structure Tally where
  contexts : Nat := 0
  guards : Nat := 0

def Tally.step (t : Tally) : Step → Tally
  | .background | .timeout _ => { t with contexts := t.contexts + 1 }
  | .clone of => if of < t.contexts then { t with contexts := t.contexts + 1 } else t
  | .guard of => if of < t.contexts then { t with guards := t.guards + 1 } else t
  | .cancel _ | .release _ => t

def tally (steps : List Step) : Tally := steps.foldl Tally.step {}

def Made (steps : List Step) (i : Nat) (s : Step) : Prop :=
  ∃ before, before ++ [s] <+: steps ∧ (tally before).contexts = i ∧
    i < (tally (before ++ [s])).contexts

def Taken (steps : List Step) (g i : Nat) : Prop :=
  ∃ before, before ++ [.guard i] <+: steps ∧ (tally before).guards = g ∧
    g < (tally (before ++ [.guard i])).guards

def ClonedFrom (steps : List Step) (i j : Nat) : Prop := Made steps i (.clone j)

def MadeAnew (steps : List Step) (o : Nat) : Prop :=
  Made steps o .background ∨ ∃ isZero, Made steps o (.timeout isZero)

/-- Context `i` is `o` or was cloned from it, over any number of clones. -/
def Original (steps : List Step) (i o : Nat) : Prop :=
  Relation.ReflTransGen (ClonedFrom steps) i o ∧ MadeAnew steps o

inductive Stopped (steps : List Step) (i : Nat) : Prop
  | cancelled (before : List Step) (h : before ++ [.cancel i] <+: steps)
      (hi : i < (tally before).contexts)
  | released (before : List Step) (g : Nat) (h : before ++ [.release g] <+: steps)
      (hg : Taken before g i)

theorem tally_concat : tally (steps ++ [s]) = (tally steps).step s := by
  rw [tally, List.foldl_append]
  rfl

theorem Made.mono (h : before <+: steps) (hm : Made before i s) : Made steps i s := by
  obtain ⟨earlier, hb, hi, hlt⟩ := hm
  exact ⟨earlier, hb.trans h, hi, hlt⟩

theorem Taken.mono (h : before <+: steps) (ht : Taken before g i) : Taken steps g i := by
  obtain ⟨earlier, hb, hg, hlt⟩ := ht
  exact ⟨earlier, hb.trans h, hg, hlt⟩

theorem MadeAnew.mono (h : before <+: steps) (hm : MadeAnew before o) : MadeAnew steps o := by
  rcases hm with hm | ⟨isZero, hm⟩
  · exact .inl (hm.mono h)
  · exact .inr ⟨isZero, hm.mono h⟩

theorem Stopped.mono (h : before <+: steps) (hs : Stopped before i) : Stopped steps i := by
  cases hs with
  | cancelled earlier hb hi => exact .cancelled earlier (hb.trans h) hi
  | released earlier g hb hg => exact .released earlier g (hb.trans h) hg

theorem Tally.step_cases {t : Tally} (h : i < (t.step s).contexts) (hold : ¬i < t.contexts) :
    t.contexts = i ∧ (s = .background ∨ (∃ isZero, s = .timeout isZero) ∨
      ∃ j, j < i ∧ s = .clone j) := by
  have hnext (hle : i < t.contexts + 1) : t.contexts = i := by omega
  cases s with
  | background => exact ⟨hnext h, .inl rfl⟩
  | timeout isZero => exact ⟨hnext h, .inr (.inl ⟨isZero, rfl⟩)⟩
  | clone j =>
    rw [Tally.step] at h
    split at h
    · next hj => exact ⟨hnext h, .inr (.inr ⟨j, hnext h ▸ hj, rfl⟩)⟩
    · exact absurd h hold
  | guard j =>
    rw [Tally.step] at h
    split at h <;> exact absurd h hold
  | cancel j => exact absurd h hold
  | release g => exact absurd h hold

theorem made_cases (h : i < (tally steps).contexts) :
    MadeAnew steps i ∨ ∃ j, j < i ∧ ClonedFrom steps i j := by
  induction steps using List.reverseRecOn with
  | nil => cases h
  | append_singleton steps s ih =>
    have hmono : steps <+: steps ++ [s] := List.prefix_append _ _
    by_cases hold : i < (tally steps).contexts
    · rcases ih hold with hm | ⟨j, hj, hm⟩
      · exact .inl (hm.mono hmono)
      · exact .inr ⟨j, hj, hm.mono hmono⟩
    · obtain ⟨hi, hs⟩ := Tally.step_cases (tally_concat ▸ h) hold
      have hm : Made (steps ++ [s]) i s := ⟨steps, List.prefix_rfl, hi, h⟩
      rcases hs with rfl | ⟨isZero, rfl⟩ | ⟨j, hj, rfl⟩
      · exact .inl (.inl hm)
      · exact .inl (.inr ⟨isZero, hm⟩)
      · exact .inr ⟨j, hj, hm⟩

theorem exists_original (h : i < (tally steps).contexts) : ∃ o, Original steps i o := by
  -- a clone comes after the context it was cloned from
  induction i using Nat.strongRecOn with
  | ind i ih =>
    rcases made_cases h with hm | ⟨j, hj, hm⟩
    · exact ⟨i, .refl, hm⟩
    · obtain ⟨o, hpath, ho⟩ := ih j hj (Nat.lt_trans hj h)
      exact ⟨o, .head hm hpath, ho⟩

/-! What there is in a pool -/

def run (steps : List Step) : ContextPool := steps.foldl step {}

theorem run_concat : run (steps ++ [s]) = (run steps).step s := by
  rw [run, List.foldl_append]
  rfl

theorem tally_step : Tally.step ⟨p.contexts.length, p.guards.length⟩ s =
    ⟨(p.step s).contexts.length, (p.step s).guards.length⟩ := by
  cases s with
  | background => simp [Tally.step, step, add]
  | timeout => simp [Tally.step, step, add]
  | clone of => by_cases h : of < p.contexts.length <;> simp [Tally.step, step, h]
  | guard of => by_cases h : of < p.contexts.length <;> simp [Tally.step, step, h]
  | cancel of => cases h : p.contexts[of]? <;> simp [Tally.step, step, finish, h]
  | release guard => cases h : p.guards[guard]? <;> simp [Tally.step, step, finish, h]

theorem tally_run : tally steps = ⟨(run steps).contexts.length, (run steps).guards.length⟩ := by
  induction steps using List.reverseRecOn with
  | nil => rfl
  | append_singleton steps s ih =>
    rw [tally_concat, ih, tally_step, run_concat]

theorem Made.pool (h : Made steps i s) : ∃ before, before ++ [s] <+: steps ∧
    (run before).contexts.length = i ∧ i < (run (before ++ [s])).contexts.length := by
  simpa only [Made, tally_run] using h

theorem Taken.pool (h : Taken steps g i) : ∃ before, before ++ [.guard i] <+: steps ∧
    (run before).guards.length = g ∧ g < (run (before ++ [.guard i])).guards.length := by
  simpa only [Taken, tally_run] using h

theorem lt_tally_iff : i < (tally steps).contexts ↔ ∃ ref, (run steps).contexts[i]? = some ref := by
  rw [tally_run]
  constructor
  · intro h
    exact ⟨_, List.getElem?_eq_getElem h⟩
  · rintro ⟨ref, h⟩
    exact (List.getElem?_eq_some_iff.mp h).1

/-! What a step can do -/

/-- A step takes one pool to the next; what names a context or a guard that is not there does
nothing. -/
inductive Does (p : ContextPool) : Step → ContextPool → Prop
  | nothing (s : Step) : Does p s p
  | background : Does p .background (p.add false)
  | timeout (isZero : Bool) : Does p (.timeout isZero) (p.add isZero)
  | clone (of : Nat) (ref : ContextRef) (h : p.contexts[of]? = some ref) :
      Does p (.clone of) { p with contexts := p.contexts ++ [ref] }
  | cancel (of : Nat) (ref : ContextRef) (h : p.contexts[of]? = some ref) :
      Does p (.cancel of) (p.finish (some ref))
  | guard (of : Nat) (ref : ContextRef) (h : p.contexts[of]? = some ref) :
      Does p (.guard of) { p with guards := p.guards ++ [ref] }
  | release (guard : Nat) (ref : ContextRef) (h : p.guards[guard]? = some ref) :
      Does p (.release guard) (p.finish (some ref))

theorem does_step (p : ContextPool) (s : Step) : Does p s (p.step s) := by
  cases s with
  | background => exact .background
  | timeout isZero => exact .timeout isZero
  | clone of =>
    cases h : p.contexts[of]? with
    | none => simpa only [step, h] using .nothing _
    | some ref => simpa only [step, h] using .clone of ref h
  | cancel of =>
    cases h : p.contexts[of]? with
    | none => simpa only [step, h] using .nothing _
    | some ref => simpa only [step, h] using .cancel of ref h
  | guard of =>
    cases h : p.contexts[of]? with
    | none => simpa only [step, h] using .nothing _
    | some ref => simpa only [step, h] using .guard of ref h
  | release guard =>
    cases h : p.guards[guard]? with
    | none => simpa only [step, h] using .nothing _
    | some ref => simpa only [step, h] using .release guard ref h

theorem does_run : Does (run steps) s (run (steps ++ [s])) := by
  rw [run_concat]
  exact does_step _ _

theorem Does.clone_context (d : Does p (.clone j) q)
    (h : p.contexts.length < q.contexts.length) :
    ∃ ref, p.contexts[j]? = some ref ∧ q.contexts[p.contexts.length]? = some ref := by
  cases d with
  | nothing => exact absurd h (Nat.lt_irrefl _)
  | clone _ ref hj => exact ⟨ref, hj, List.getElem?_concat_length⟩

theorem Does.guard_context (d : Does p (.guard i) q) (h : p.guards.length < q.guards.length) :
    ∃ ref, p.contexts[i]? = some ref ∧ q.guards[p.guards.length]? = some ref := by
  cases d with
  | nothing => exact absurd h (Nat.lt_irrefl _)
  | guard _ ref hi => exact ⟨ref, hi, List.getElem?_concat_length⟩

theorem getElem?_concat_eq_some {α : Type} {l : List α} {a b : α} :
    (l ++ [b])[i]? = some a ↔ l[i]? = some a ∨ l.length = i ∧ b = a := by
  rw [List.getElem?_append]
  split
  · next hi => simp [Nat.ne_of_gt hi]
  · next hi =>
    have hlast : i - l.length = 0 ↔ l.length = i := by omega
    rw [List.getElem?_singleton, List.getElem?_eq_none (Nat.le_of_not_lt hi)]
    simp [hlast]

theorem Does.guards_cases (d : Does p s q) (h : q.guards[g]? = some ref) :
    p.guards[g]? = some ref ∨ ∃ i, s = .guard i ∧ p.contexts[i]? = some ref ∧
      p.guards.length = g ∧ g < q.guards.length := by
  cases d with
  | guard i ref' hi =>
    rcases getElem?_concat_eq_some.mp h with hold | ⟨hg, rfl⟩
    · exact .inl hold
    · exact .inr ⟨i, rfl, hi, hg, (List.getElem?_eq_some_iff.mp h).1⟩
  | _ => exact .inl h

theorem finish_cases (h : (p.finish (some ref)).flags[f]? = some true) :
    p.flags[f]? = some true ∨ ref.flag = f := by
  by_cases hf : ref.flag = f
  · exact .inr hf
  · exact .inl (by rwa [finish, List.getElem?_set_ne hf] at h)

theorem Does.flags_cases (d : Does p s q) (h : q.flags[f]? = some true) :
    p.flags[f]? = some true ∨ ∃ ref, ref.flag = f ∧
      ((∃ i, s = .cancel i ∧ p.contexts[i]? = some ref) ∨
        ∃ g, s = .release g ∧ p.guards[g]? = some ref) := by
  cases d with
  | background => exact .inl ((getElem?_concat_eq_some.mp h).resolve_right (by simp))
  | timeout => exact .inl ((getElem?_concat_eq_some.mp h).resolve_right (by simp))
  | cancel i ref hi =>
    rcases finish_cases h with hold | hf
    · exact .inl hold
    · exact .inr ⟨ref, hf, .inl ⟨i, rfl, hi⟩⟩
  | release g ref hg =>
    rcases finish_cases h with hold | hf
    · exact .inl hold
    · exact .inr ⟨ref, hf, .inr ⟨g, rfl, hg⟩⟩
  | _ => exact .inl h

/-! What stays -/

structure Grows (p q : ContextPool) : Prop where
  contexts : p.contexts <+: q.contexts
  guards : p.guards <+: q.guards
  flags : p.flags.length ≤ q.flags.length
  up : ∀ f : Nat, p.flags[f]? = some true → q.flags[f]? = some true

theorem getElem?_stays {α : Type} {l m : List α} {a : α} (h : l <+: m) (ha : l[i]? = some a) :
    m[i]? = some a := by
  obtain ⟨hi, rfl⟩ := List.getElem?_eq_some_iff.mp ha
  exact List.prefix_iff_getElem?.mp h i hi

namespace Grows

theorem refl (p : ContextPool) : Grows p p :=
  ⟨List.prefix_rfl, List.prefix_rfl, Nat.le_refl _, fun _ h => h⟩

theorem trans (h : Grows p q) (h' : Grows q r) : Grows p r :=
  ⟨h.contexts.trans h'.contexts, h.guards.trans h'.guards, Nat.le_trans h.flags h'.flags,
    fun f hf => h'.up f (h.up f hf)⟩

theorem add : Grows p (p.add isExpired) where
  contexts := List.prefix_append _ _
  guards := List.prefix_rfl
  flags := by simp [ContextPool.add]
  up _ := getElem?_stays (List.prefix_append _ _)

theorem finish : Grows p (p.finish (some ref)) where
  contexts := List.prefix_rfl
  guards := List.prefix_rfl
  flags := by simp [ContextPool.finish]
  up f h := by
    obtain ⟨hf, -⟩ := List.getElem?_eq_some_iff.mp h
    rw [ContextPool.finish, List.getElem?_set]
    split
    · next heq => simp [heq, hf]
    · exact h

end Grows

theorem Does.grows (d : Does p s q) : Grows p q := by
  cases d with
  | nothing => exact .refl p
  | background => exact .add
  | timeout => exact .add
  | clone => exact { Grows.refl p with contexts := List.prefix_append _ _ }
  | cancel => exact .finish
  | guard => exact { Grows.refl p with guards := List.prefix_append _ _ }
  | release => exact .finish

theorem grows_run (h : before <+: steps) : Grows (run before) (run steps) := by
  obtain ⟨later, rfl⟩ := h
  induction later using List.reverseRecOn with
  | nil =>
    rw [List.append_nil]
    exact .refl _
  | append_singleton later s ih =>
    rw [← List.append_assoc]
    exact ih.trans does_run.grows

def Flagged (p : ContextPool) : Prop := ∀ ref ∈ p.contexts, ref.flag < p.flags.length

theorem Flagged.add (h : p.Flagged) : (p.add isExpired).Flagged := by
  intro ref hm
  rcases List.mem_append.mp hm with hm | hm
  · exact Nat.lt_of_lt_of_le (h ref hm) Grows.add.flags
  · rw [List.mem_singleton.mp hm]
    simp [ContextPool.add]

theorem Does.flagged (d : Does p s q) (h : p.Flagged) : q.Flagged := by
  cases d with
  | background => exact h.add
  | timeout => exact h.add
  | clone j ref hj =>
    intro ref' hm
    rcases List.mem_append.mp hm with hm | hm
    · exact h ref' hm
    · rw [List.mem_singleton.mp hm]
      exact h ref (List.mem_of_getElem? hj)
  | cancel => exact fun ref hm => Nat.lt_of_lt_of_le (h ref hm) Grows.finish.flags
  | release => exact fun ref hm => Nat.lt_of_lt_of_le (h ref hm) Grows.finish.flags
  | _ => exact h

theorem flagged_run : (run steps).Flagged := by
  induction steps using List.reverseRecOn with
  | nil => exact fun _ hm => absurd hm List.not_mem_nil
  | append_singleton steps s ih => exact does_run.flagged ih

/-! Where a context gets its flag -/

/-- Context `o` got a flag of its own by the step after `before`. -/
def Begins (steps before : List Step) (o : Nat) (isExpired : Bool) : Prop :=
  ∃ s, before ++ [s] <+: steps ∧ (run before).contexts.length = o ∧
    run (before ++ [s]) = (run before).add isExpired

theorem Begins.context (h : Begins steps before o isExpired) :
    (run steps).contexts[o]? = some ⟨(run before).flags.length, isExpired⟩ := by
  obtain ⟨s, hb, rfl, hadd⟩ := h
  have hnew : (run (before ++ [s])).contexts[(run before).contexts.length]? =
      some ⟨(run before).flags.length, isExpired⟩ := by
    rw [hadd]
    exact List.getElem?_concat_length
  exact getElem?_stays (grows_run hb).contexts hnew

theorem Begins.flag_lt (h : Begins steps before o isExpired)
    (h' : Begins steps before' o' isExpired') (hlt : before.length < before'.length) :
    (run before).flags.length < (run before').flags.length := by
  obtain ⟨s, hb, -, hadd⟩ := h
  obtain ⟨s', hb', -, -⟩ := h'
  have hmid : before ++ [s] <+: before' := by
    apply List.prefix_of_prefix_length_le hb ((List.prefix_append _ _).trans hb')
    simp only [List.length_append, List.length_singleton]
    omega
  have hle := (grows_run hmid).flags
  rw [hadd] at hle
  simpa [add, Nat.succ_le_iff] using hle

theorem Begins.eq_of_flag (h : Begins steps before o isExpired)
    (h' : Begins steps before' o' isExpired')
    (hf : (run before).flags.length = (run before').flags.length) : o = o' := by
  rcases Nat.lt_trichotomy before.length before'.length with hlt | heq | hgt
  · exact absurd hf (Nat.ne_of_lt (h.flag_lt h' hlt))
  · obtain ⟨s, hb, rfl, -⟩ := h
    obtain ⟨s', hb', rfl, -⟩ := h'
    have hsame : before <+: before' := List.prefix_of_prefix_length_le
      ((List.prefix_append _ _).trans hb) ((List.prefix_append _ _).trans hb') (Nat.le_of_eq heq)
    rw [hsame.eq_of_length heq]
  · exact absurd hf (Nat.ne_of_gt (h'.flag_lt h hgt))

theorem Made.background (h : Made steps o .background) : ∃ before, Begins steps before o false := by
  obtain ⟨before, hb, ho, -⟩ := h.pool
  exact ⟨before, .background, hb, ho, run_concat⟩

theorem Made.timeout (h : Made steps o (.timeout isExpired)) :
    ∃ before, Begins steps before o isExpired := by
  obtain ⟨before, hb, ho, -⟩ := h.pool
  exact ⟨before, .timeout isExpired, hb, ho, run_concat⟩

theorem MadeAnew.begins (h : MadeAnew steps o) :
    ∃ before isExpired, Begins steps before o isExpired := by
  rcases h with h | ⟨isZero, h⟩
  · obtain ⟨before, hb⟩ := h.background
    exact ⟨before, false, hb⟩
  · obtain ⟨before, hb⟩ := h.timeout
    exact ⟨before, isZero, hb⟩

theorem MadeAnew.eq_of_flag (h : MadeAnew steps o) (h' : MadeAnew steps o')
    (hr : (run steps).contexts[o]? = some ref) (hr' : (run steps).contexts[o']? = some ref')
    (hf : ref.flag = ref'.flag) : o = o' := by
  obtain ⟨before, x, hb⟩ := h.begins
  obtain ⟨before', x', hb'⟩ := h'.begins
  cases hb.context.symm.trans hr
  cases hb'.context.symm.trans hr'
  exact hb.eq_of_flag hb' hf

theorem MadeAnew.isExpired_iff (h : MadeAnew steps o)
    (hr : (run steps).contexts[o]? = some ref) :
    ref.isExpired = true ↔ Made steps o (.timeout true) := by
  constructor
  · intro hexp
    rcases h with h | ⟨isZero, h⟩
    · obtain ⟨before, hb⟩ := h.background
      cases hb.context.symm.trans hr
      cases hexp
    · obtain ⟨before, hb⟩ := h.timeout
      cases hb.context.symm.trans hr
      cases hexp
      exact h
  · intro hm
    obtain ⟨before, hb⟩ := hm.timeout
    cases hb.context.symm.trans hr
    rfl

/-! The original of a context -/

theorem ClonedFrom.context (h : ClonedFrom steps i j) :
    (run steps).contexts[i]? = (run steps).contexts[j]? := by
  obtain ⟨before, hb, rfl, hlt⟩ := h.pool
  obtain ⟨ref, hj, hnew⟩ := does_run.clone_context hlt
  rw [getElem?_stays (grows_run hb).contexts hnew,
    getElem?_stays (does_run.grows.trans (grows_run hb)).contexts hj]

theorem Original.context (h : Original steps i o) :
    (run steps).contexts[i]? = (run steps).contexts[o]? := by
  obtain ⟨hpath, -⟩ := h
  induction hpath with
  | refl => rfl
  | tail _ hm ih => exact ih.trans hm.context

theorem Original.of_flag (h : Original steps i o) (hi : (run steps).contexts[i]? = some ref)
    (hj : (run steps).contexts[j]? = some ref') (hf : ref'.flag = ref.flag) :
    Original steps j o := by
  obtain ⟨o', h'⟩ := exists_original (lt_tally_iff.mpr ⟨ref', hj⟩)
  have hoi := h.context.symm.trans hi
  have hoj := h'.context.symm.trans hj
  rwa [h'.2.eq_of_flag h.2 hoj hoi hf] at h'

theorem Original.unique (h : Original steps i o) (h' : Original steps i o')
    (hi : (run steps).contexts[i]? = some ref) : o' = o :=
  h'.2.eq_of_flag h.2 (h'.context.symm.trans hi) (h.context.symm.trans hi) rfl

/-! Whose flag is up -/

theorem exists_taken (h : (run steps).guards[g]? = some ref) :
    ∃ i, Taken steps g i ∧ (run steps).contexts[i]? = some ref := by
  induction steps using List.reverseRecOn with
  | nil => cases h
  | append_singleton steps s ih =>
    have hmono : steps <+: steps ++ [s] := List.prefix_append _ _
    have hgrows := (grows_run hmono).contexts
    rcases does_run.guards_cases h with hold | ⟨i, rfl, hi, hg, hlt⟩
    · obtain ⟨i, ht, hi⟩ := ih hold
      exact ⟨i, ht.mono hmono, getElem?_stays hgrows hi⟩
    · have ht : Taken (steps ++ [.guard i]) g i :=
        ⟨steps, List.prefix_rfl, by rw [tally_run, hg], by rwa [tally_run]⟩
      exact ⟨i, ht, getElem?_stays hgrows hi⟩

theorem Taken.context (h : Taken steps g i) :
    ∃ ref, (run steps).contexts[i]? = some ref ∧ (run steps).guards[g]? = some ref := by
  obtain ⟨before, hb, rfl, hlt⟩ := h.pool
  obtain ⟨ref, hi, hnew⟩ := does_run.guard_context hlt
  exact ⟨ref, getElem?_stays (does_run.grows.trans (grows_run hb)).contexts hi,
    getElem?_stays (grows_run hb).guards hnew⟩

theorem up_of_finish (hb : before ++ [s] <+: steps) (hm : ref ∈ (run before).contexts)
    (hs : (run before).step s = (run before).finish (some ref)) :
    (run steps).flags[ref.flag]? = some true := by
  apply (grows_run hb).up
  rw [run_concat, hs]
  exact List.getElem?_set_self (flagged_run ref hm)

theorem Stopped.up (h : Stopped steps i) (hi : (run steps).contexts[i]? = some ref) :
    (run steps).flags[ref.flag]? = some true := by
  -- what context `i` holds now it held when it was cancelled
  have hsame {before : List Step} {s : Step} {ref' : ContextRef} (hb : before ++ [s] <+: steps)
      (h : (run before).contexts[i]? = some ref') : ref' = ref := by
    have hnow := getElem?_stays (grows_run ((List.prefix_append _ _).trans hb)).contexts h
    exact Option.some.inj (hnow.symm.trans hi)
  cases h with
  | cancelled before hb hlt =>
    obtain ⟨ref', href⟩ := lt_tally_iff.mp hlt
    obtain rfl := hsame hb href
    refine up_of_finish hb (List.mem_of_getElem? href) ?_
    rw [step, href]
  | released before g hb ht =>
    obtain ⟨ref', href, hguard⟩ := ht.context
    obtain rfl := hsame hb href
    refine up_of_finish hb (List.mem_of_getElem? href) ?_
    rw [step, hguard]

theorem up_iff : (run steps).flags[f]? = some true ↔
    ∃ i ref, (run steps).contexts[i]? = some ref ∧ ref.flag = f ∧ Stopped steps i := by
  constructor
  · intro h
    induction steps using List.reverseRecOn with
    | nil => cases h
    | append_singleton steps s ih =>
      have hmono : steps <+: steps ++ [s] := List.prefix_append _ _
      have hgrows := (grows_run hmono).contexts
      rcases does_run.flags_cases h with hold | ⟨ref, hf, ⟨i, rfl, hi⟩ | ⟨g, rfl, hg⟩⟩
      · obtain ⟨i, ref, hi, hf, hs⟩ := ih hold
        exact ⟨i, ref, getElem?_stays hgrows hi, hf, hs.mono hmono⟩
      · exact ⟨i, ref, getElem?_stays hgrows hi, hf,
          .cancelled steps List.prefix_rfl (lt_tally_iff.mpr ⟨ref, hi⟩)⟩
      · obtain ⟨i, ht, hi⟩ := exists_taken hg
        exact ⟨i, ref, getElem?_stays hgrows hi, hf, .released steps g List.prefix_rfl ht⟩
  · rintro ⟨i, ref, hi, rfl, hs⟩
    exact hs.up hi

/-! What a context reports -/

theorem isDone_look : (p.look ref).isDone = true ↔
    p.flags[ref.flag]? = some true ∨ ref.isExpired = true := by
  rw [look, Bool.or_eq_true]
  cases p.flags[ref.flag]? <;> simp

theorem Grows.look (h : Grows p q) (hd : (p.look ref).isDone = true) : q.look ref = p.look ref := by
  have hd' : (q.look ref).isDone = true :=
    isDone_look.mpr ((isDone_look.mp hd).imp_left (h.up _))
  exact congrArg Context.mk (hd'.trans hd.symm)

theorem view_eq_some {c : Context} : p.view[i]? = some c ↔
    ∃ ref, p.contexts[i]? = some ref ∧ p.look ref = c := by
  rw [view, List.getElem?_map, Option.map_eq_some_iff]

/-- What context `i` is right to report after the steps. -/
structure Reports (steps : List Step) (i : Nat) (c : Context) : Prop where
  original : ∃! o, Original steps i o
  done : c.isDone = true ↔ ∃ o, Original steps i o ∧
    (Made steps o (.timeout true) ∨ ∃ j, Original steps j o ∧ Stopped steps j)
  check : c.check = .error .cancelled ↔ c.isDone = true
  lasts : c.isDone = true → ∀ later, (run (steps ++ later)).view[i]? = some c

/-- A cancellation reaches the contexts with the same original, and no others. -/
theorem cancellation_reaches_family (steps : List Step) :
    (run steps).view.length = (tally steps).contexts ∧
      ∀ i c, (run steps).view[i]? = some c → Reports steps i c := by
  refine ⟨by rw [view, List.length_map, tally_run], fun i c hc => ?_⟩
  obtain ⟨ref, hi, rfl⟩ := view_eq_some.mp hc
  obtain ⟨o, ho⟩ := exists_original (lt_tally_iff.mpr ⟨ref, hi⟩)
  have hoi := ho.context.symm.trans hi
  have hunique : ∀ o', Original steps i o' → o' = o := fun o' ho' => ho.unique ho' hi
  refine ⟨⟨o, ho, hunique⟩, ?_, ?_, ?_⟩
  · rw [isDone_look, up_iff, ho.2.isExpired_iff hoi]
    constructor
    · rintro (⟨j, ref', hj, hf, hs⟩ | hexp)
      · exact ⟨o, ho, .inr ⟨j, ho.of_flag hi hj hf, hs⟩⟩
      · exact ⟨o, ho, .inl hexp⟩
    · rintro ⟨o', ho', hended⟩
      obtain rfl := hunique o' ho'
      rcases hended with hexp | ⟨j, hj, hs⟩
      · exact .inr hexp
      · exact .inl ⟨j, ref, hj.context.trans hoi, rfl, hs⟩
  · cases hd : ((run steps).look ref).isDone with
    | true => simp [Context.check_done hd]
    | false => simp [Context.check_live hd]
  · intro hd later
    have hgrows := grows_run (List.prefix_append steps later)
    exact view_eq_some.mpr ⟨ref, getElem?_stays hgrows.contexts hi, hgrows.look hd⟩

def releases : List Step :=
  [.background, .clone 0, .background, .clone 1, .guard 3, .guard 2, .release 0, .timeout true,
    .clone 4, .release 0]

theorem cancellation_reaches_family_releases :
    ((run releases).view[0]? = some ⟨true⟩ ∧ Reports releases 0 ⟨true⟩) ∧
      ((run releases).view[2]? = some ⟨false⟩ ∧ Reports releases 2 ⟨false⟩) ∧
      (run releases).view[5]? = some ⟨true⟩ ∧ Reports releases 5 ⟨true⟩ :=
  ⟨⟨rfl, (cancellation_reaches_family releases).2 0 _ rfl⟩,
    ⟨rfl, (cancellation_reaches_family releases).2 2 _ rfl⟩,
    rfl, (cancellation_reaches_family releases).2 5 _ rfl⟩

end KnowledgeTree.ContextPool
