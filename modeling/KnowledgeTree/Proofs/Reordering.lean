import KnowledgeTree.Json.Decode
import Mathlib

/-!
Records do not depend on the order of their fields. A value with the fields of some of its objects
in another order decodes to the same, or fails as well.
-/

namespace KnowledgeTree.Json

variable {α β γ δ σ : Type} {decode : Json → Except Fault α} {j j' : Json} {key : Option String}
  {closed : Bool}

/-- One object somewhere within the value has its fields, whose keys differ, in another order. -/
inductive Shuffle : Json → Json → Prop
  | fields {fs fs' : List (Option String × Json)} {closed : Bool} (h : fs.Perm fs')
      (hn : (fs.map Prod.fst).Nodup) : Shuffle (obj fs closed) (obj fs' closed)
  | value {before after : List (Option String × Json)} {key : Option String} {j j' : Json}
      {closed : Bool} (h : Shuffle j j') :
      Shuffle (obj (before ++ (key, j) :: after) closed) (obj (before ++ (key, j') :: after) closed)
  | item {before after : List Json} {j j' : Json} {closed : Bool} (h : Shuffle j j') :
      Shuffle (arr (before ++ j :: after) closed) (arr (before ++ j' :: after) closed)

def Reordered : Json → Json → Prop := Relation.ReflTransGen Shuffle

inductive Agree (R : α → β → Prop) : Except Fault α → Except Fault β → Prop
  | ok {a : α} {b : β} (h : R a b) : Agree R (.ok a) (.ok b)
  | error (e e' : Fault) : Agree R (.error e) (.error e')

namespace Agree

variable {R : α → β → Prop} {S : γ → δ → Prop}

theorem bind {x : Except Fault α} {y : Except Fault β} {f : α → Except Fault γ}
    {g : β → Except Fault δ} (h : Agree R x y) (hf : ∀ a b, R a b → Agree S (f a) (g b)) :
    Agree S (x >>= f) (y >>= g) := by
  cases h with
  | ok h => exact hf _ _ h
  | error e e' => exact .error e e'

theorem refl (x : Except Fault α) : Agree Eq x x := by
  cases x with
  | ok a => exact .ok rfl
  | error e => exact .error e e

theorem symm {x y : Except Fault α} (h : Agree Eq x y) : Agree Eq y x := by
  cases h with
  | ok h => exact .ok h.symm
  | error e e' => exact .error e' e

theorem trans {x y z : Except Fault α} (h : Agree Eq x y) (h' : Agree Eq y z) : Agree Eq x z := by
  cases h with
  | ok h => exact h ▸ h'
  | error e e' =>
    cases h' with
    | error _ e'' => exact .error e e''

theorem mono {R S : α → β → Prop} {x : Except Fault α} {y : Except Fault β} (h : Agree R x y)
    (hRS : ∀ a b, R a b → S a b) : Agree S x y := by
  cases h with
  | ok h => exact .ok (hRS _ _ h)
  | error e e' => exact .error e e'

theorem of_errors {x : Except Fault α} {y : Except Fault β} (hx : ∃ e, x = .error e)
    (hy : ∃ e, y = .error e) : Agree R x y := by
  obtain ⟨e, rfl⟩ := hx
  obtain ⟨e', rfl⟩ := hy
  exact .error e e'

theorem bind_left (x : Except Fault α) {f : α → Except Fault γ} {g : α → Except Fault δ}
    (hf : ∀ a, Agree S (f a) (g a)) : Agree S (x >>= f) (x >>= g) := by
  apply (refl x).bind
  rintro a _ rfl
  exact hf a

theorem map {x y : Except Fault α} (h : Agree Eq x y) (f : α → β) :
    Agree Eq (x.map f) (y.map f) := by
  cases h with
  | ok h => exact .ok (congrArg f h)
  | error e e' => exact .error e e'

theorem once {x y : Except Fault α} (h : Agree Eq x y) (old : Option α) :
    Agree Eq (Json.once old x) (Json.once old y) := by
  unfold Json.once
  split
  · exact .refl _
  · exact h.map some

theorem iff {x y : Except Fault α} (h : Agree Eq x y) (a : α) : x = .ok a ↔ y = .ok a := by
  cases h with
  | ok h => rw [h]
  | error e e' => simp

end Agree

theorem Shuffle.symm (h : Shuffle j j') : Shuffle j' j := by
  induction h with
  | fields h hn => exact .fields h.symm ((h.map Prod.fst).nodup_iff.mp hn)
  | value _ ih => exact .value ih
  | item _ ih => exact .item ih

def isCompound : Json → Bool
  | arr _ _ | obj _ _ => true
  | _ => false

theorem Shuffle.isCompound (h : Shuffle j j') : j.isCompound = true := by
  cases h <;> rfl

/-! Decoders -/

def Stable (decode : Json → Except Fault α) : Prop :=
  ∀ j j', Shuffle j j' → Agree Eq (decode j) (decode j')

theorem Stable.reordered (h : Stable decode) (hj : Reordered j j') (a : α) :
    decode j = .ok a ↔ decode j' = .ok a := by
  induction hj with
  | refl => exact Iff.rfl
  | tail _ hj ih => exact ih.trans ((h _ _ hj).iff a)

def Flat (decode : Json → Except Fault α) : Prop :=
  ∀ j, j.isCompound = true → ∃ e, decode j = .error e

theorem Flat.stable (h : Flat decode) : Stable decode := by
  intro j j' hj
  exact .of_errors (h j hj.isCompound) (h j' hj.symm.isCompound)

theorem Flat.bind {β : Type} (h : Flat decode) (f : α → Except Fault β) :
    Flat fun j => decode j >>= f := by
  intro j hj
  obtain ⟨e, he⟩ := h j hj
  exact ⟨e, congrArg (· >>= f) he⟩

theorem flat_text : Flat text := by
  intro j hj
  cases j with
  | arr | obj => exact ⟨_, rfl⟩
  | null | bool | int | decimal | str | unreadable | torn => cases hj

theorem flat_flag : Flat flag := by
  intro j hj
  cases j with
  | arr | obj => exact ⟨_, rfl⟩
  | null | bool | int | decimal | str | unreadable | torn => cases hj

theorem flat_natural (bound : Nat) : Flat (natural bound) := by
  intro j hj
  cases j with
  | arr | obj => exact ⟨_, rfl⟩
  | null | bool | int | decimal | str | unreadable | torn => cases hj

theorem flat_reading (read : String → Option α) : Flat (reading read) := flat_text.bind _

theorem Stable.nullable (h : Stable decode) : Stable (nullable decode) := by
  have hmap (j : Json) (hj : j.isCompound = true) :
      Json.nullable decode j = (decode j).map some := by
    cases j with
    | arr | obj => rfl
    | null | bool | int | decimal | str | unreadable | torn => cases hj
  intro j j' hj
  rw [hmap j hj.isCompound, hmap j' hj.symm.isCompound]
  exact (h j j' hj).map some

theorem word_eq (read : String → Option α) (h : j.isCompound = true) :
    (∃ key, j = obj [(some key, null)] true ∧ word read j = reading read (str key)) ∨
      (∀ key, j ≠ obj [(some key, null)] true) ∧ ∃ e, word read j = .error e := by
  unfold word
  split
  · exact .inl ⟨_, rfl, rfl⟩
  · next hne => exact .inr ⟨fun key hj => hne key hj, flat_reading read j h⟩

def Rigid (j : Json) : Prop := ∀ j', Shuffle j j' → j' = j

theorem rigid_null : Rigid null := by
  rintro j' ⟨⟩

theorem rigid_empty : Rigid (obj [] closed) := by
  intro j' h
  generalize hi : obj [] closed = i at h
  cases h with
  | fields h hn =>
    cases hi
    rw [List.nil_perm.mp h]
  | value h => simp at hi
  | item h => cases hi

theorem Rigid.single (hj : Rigid j) {key : Option String} : Rigid (obj [(key, j)] closed) := by
  intro j' h
  generalize hi : obj [(key, j)] closed = i at h
  cases h with
  | fields h hn =>
    cases hi
    rw [List.singleton_perm.mp h]
  | @value before after k v v' c h =>
    simp only [obj.injEq, List.singleton_eq_append_iff] at hi
    obtain ⟨⟨rfl, heq⟩ | ⟨-, heq⟩, rfl⟩ := hi
    · cases heq
      rw [hj v' h]
    · cases heq
  | item h => cases hi

theorem stable_word (read : String → Option α) : Stable (word read) := by
  intro j j' hj
  rcases word_eq read hj.isCompound with ⟨key, rfl, -⟩ | ⟨hne, he⟩
  · rw [rigid_null.single _ hj]
    exact .refl _
  · rcases word_eq read hj.symm.isCompound with ⟨key, rfl, -⟩ | ⟨-, he'⟩
    · exact absurd (rigid_null.single _ hj.symm) (hne key)
    · exact .of_errors he he'

/-! Records -/

section Record

variable {R : σ → σ → Prop} {step : σ → String → Json → Except Fault σ} {a b init : σ}
  {before after fs fs' : List (Option String × Json)} {names : List String} {required : Nat}

theorem addFields_some {name : String} : addFields step a ((some name, j) :: fs) =
    step a name j >>= fun a => addFields step a fs := rfl

theorem addFields_none : addFields step a ((none, j) :: fs) = .error .torn := rfl

/-- A step for which the order of fields is of no account, at any depth. -/
structure Steady (R : σ → σ → Prop) (step : σ → String → Json → Except Fault σ) : Prop where
  refl : ∀ a, R a a
  same : ∀ a b name j, R a b → Agree R (step a name j) (step b name j)
  value : ∀ a name j j', Shuffle j j' → Agree R (step a name j) (step a name j')
  swap : ∀ a name name' j j', name ≠ name' →
    Agree Eq (step a name j >>= fun b => step b name' j')
      (step a name' j' >>= fun b => step b name j)

theorem addFields_same (hsame : ∀ a b name j, R a b → Agree R (step a name j) (step b name j))
    (h : R a b) : Agree R (addFields step a fs) (addFields step b fs) := by
  induction fs generalizing a b with
  | nil => exact .ok h
  | cons f fs ih =>
    rcases f with ⟨_ | name, j⟩
    · exact .error _ _
    · exact (hsame _ _ _ _ h).bind fun _ _ => ih

theorem addFields_value (hsame : ∀ a b name j, R a b → Agree R (step a name j) (step b name j))
    (hv : ∀ a name, key = some name → Agree R (step a name j) (step a name j')) :
    Agree R (addFields step a (before ++ (key, j) :: after))
      (addFields step a (before ++ (key, j') :: after)) := by
  induction before generalizing a with
  | nil =>
    cases key with
    | none => exact .error _ _
    | some name => exact (hv a name rfl).bind fun _ _ => addFields_same hsame
  | cons f before ih =>
    rcases f with ⟨_ | name, i⟩
    · exact .error _ _
    · exact .bind_left _ fun _ => ih

theorem addFields_perm (hswap : ∀ a name name' j j', name ≠ name' →
      Agree Eq (step a name j >>= fun b => step b name' j')
        (step a name' j' >>= fun b => step b name j))
    (h : fs.Perm fs') (hn : (fs.map Prod.fst).Nodup) :
    Agree Eq (addFields step a fs) (addFields step a fs') := by
  induction h generalizing a with
  | nil => exact .refl _
  | @cons f l l' _ ih =>
    rw [List.map_cons, List.nodup_cons] at hn
    rcases f with ⟨_ | name, j⟩
    · exact .error _ _
    · exact .bind_left _ fun _ => ih hn.2
  | swap f g l =>
    rcases f with ⟨_ | name, j⟩
    · rcases g with ⟨_ | name', j'⟩
      · exact .error _ _
      · rw [addFields_some, addFields_none]
        cases step a name' j' <;> exact .error _ _
    · rcases g with ⟨_ | name', j'⟩
      · rw [addFields_some, addFields_none]
        cases step a name j <;> exact .error _ _
      · have hne : name' ≠ name := by
          rintro rfl
          simp at hn
        have hassoc {x y : String} {i k : Json} :
            addFields step a ((some x, i) :: (some y, k) :: l) =
              (step a x i >>= fun b => step b y k) >>= fun b => addFields step b l := by
          rw [addFields_some, bind_assoc]
          rfl
        rw [hassoc, hassoc]
        apply (hswap _ _ _ _ _ hne).bind
        rintro b _ rfl
        exact .refl _
  | trans h _ ih ih' => exact (ih hn).trans (ih' ((h.map Prod.fst).nodup_iff.mp hn))

theorem addItems_same {items : List Json}
    (hsame : ∀ a b name j, R a b → Agree R (step a name j) (step b name j)) (h : R a b) :
    Agree R (addItems step closed a names items) (addItems step closed b names items) := by
  induction items generalizing a b names with
  | nil =>
    cases closed with
    | true => cases names <;> exact .ok h
    | false => cases names <;> exact .error _ _
  | cons i items ih =>
    cases names with
    | nil => exact .error _ _
    | cons name names => exact (hsame _ _ _ _ h).bind fun _ _ => ih

theorem Steady.addItems (hs : Steady R step) (hj : Shuffle j j') {before after : List Json} :
    Agree R (addItems step closed a names (before ++ j :: after))
      (addItems step closed a names (before ++ j' :: after)) := by
  induction before generalizing a names with
  | nil =>
    cases names with
    | nil => exact .error _ _
    | cons name names => exact (hs.value _ _ _ _ hj).bind fun _ _ => addItems_same hs.same
  | cons i before ih =>
    cases names with
    | nil => exact .error _ _
    | cons name names => exact .bind_left _ fun _ => ih

theorem Steady.fields (hs : Steady R step) (hj : Shuffle j j') :
    Agree R (fields step init names required j) (fields step init names required j') := by
  have hclose {closed : Bool} (a b : σ) (h : R a b) :
      Agree R (if closed then pure a else throw Fault.torn)
        (if closed then pure b else throw Fault.torn) := by
    cases closed
    · exact .error _ _
    · exact .ok h
  cases hj with
  | fields h hn =>
    exact ((addFields_perm hs.swap h hn).mono fun a b hab => hab ▸ hs.refl a).bind hclose
  | value h => exact (addFields_value hs.same fun _ _ _ => hs.value _ _ _ _ h).bind hclose
  | @item before after i i' closed h =>
    apply (hs.addItems h).bind
    intro a b hab
    have hlen : (before ++ i :: after).length = (before ++ i' :: after).length := by simp
    rw [hlen]
    split
    · exact .error _ _
    · exact .ok hab

theorem Stable.record {step : σ → String → Json → Except Fault σ} {init : σ} {names : List String}
    {required : Nat} (h : Steady Eq step) (finish : σ → Except Fault α) :
    Stable fun j => fields step init names required j >>= finish := by
  intro j j' hj
  apply (h.fields hj).bind
  rintro a _ rfl
  exact .refl _

end Record

/-! Slots -/

structure Slot (σ : Type) where
  name : String
  type : Type
  get : σ → Option type
  set : σ → Option type → σ
  decode : Json → Except Fault type

namespace Slot

def read (s : Slot σ) (a : σ) (j : Json) : Except Fault σ := do
  return s.set a (← once (s.get a) (s.decode j))

theorem read_agree {s : Slot σ} (h : Agree Eq (s.decode j) (s.decode j')) (a : σ) :
    Agree Eq (s.read a j) (s.read a j') := by
  apply (h.once (s.get a)).bind
  rintro x _ rfl
  exact .refl _

@[mk_iff]
structure Apart (s t : Slot σ) : Prop where
  left : ∀ a y, s.get (t.set a y) = s.get a
  right : ∀ a x, t.get (s.set a x) = t.get a
  set : ∀ a x y, t.set (s.set a x) y = s.set (t.set a y) x

instance : Std.Symm (@Apart σ) where
  symm _ _ h := ⟨h.right, h.left, fun a x y => (h.set a y x).symm⟩

theorem Apart.swap {s t : Slot σ} (h : s.Apart t) (a : σ) (j j' : Json) :
    Agree Eq (s.read a j >>= fun b => t.read b j') (t.read a j' >>= fun b => s.read b j) := by
  have hread {r : Slot σ} (b : σ) (i : Json) : r.read b i =
      once (r.get b) (r.decode i) >>= fun x => pure (r.set b x) := rfl
  simp only [hread, bind_assoc, pure_bind, h.left, h.right]
  cases once (s.get a) (s.decode j) with
  | error e =>
    cases once (t.get a) (t.decode j') with
    | error e' => exact .error _ _
    | ok y => exact .error _ _
  | ok x =>
    cases once (t.get a) (t.decode j') with
    | error e' => exact .error _ _
    | ok y => exact .ok (h.set a x y)

end Slot

def fill (strict : Bool) : List (Slot σ) → σ → String → Json → Except Fault σ
  | [], a, _, _ => if strict then .error .shape else .ok a
  | s :: slots, a, name, j => if name = s.name then s.read a j else fill strict slots a name j

structure Fills (slots : List (Slot σ)) (strict : Bool)
    (step : σ → String → Json → Except Fault σ) : Prop where
  eq_fill : ∀ a name j, step a name j = fill strict slots a name j
  names : (slots.map Slot.name).Nodup
  apart : slots.Pairwise Slot.Apart

namespace Fills

variable {slots : List (Slot σ)} {strict : Bool} {step : σ → String → Json → Except Fault σ}

theorem cases (slots : List (Slot σ)) (name : String) :
    (∃ s ∈ slots, s.name = name) ∨ ∀ s ∈ slots, s.name ≠ name := by
  by_cases hn : ∃ s ∈ slots, s.name = name
  · exact .inl hn
  · exact .inr fun s hs hname => hn ⟨s, hs, hname⟩

theorem known (h : Fills slots strict step) {s : Slot σ} (hs : s ∈ slots) (a : σ) (j : Json) :
    step a s.name j = s.read a j := by
  rw [h.eq_fill]
  have hn := h.names
  clear h
  induction slots with
  | nil => cases hs
  | cons t slots ih =>
    rw [List.map_cons, List.nodup_cons] at hn
    rw [fill]
    by_cases hst : s.name = t.name
    · rcases List.mem_cons.mp hs with rfl | hs
      · rw [if_pos rfl]
      · exact absurd (hst ▸ List.mem_map_of_mem hs) hn.1
    · have hne : s ≠ t := fun h => hst (h ▸ rfl)
      rw [if_neg hst]
      exact ih (List.mem_of_ne_of_mem hne hs) hn.2

theorem unknown (h : Fills slots strict step) {name : String} (hn : ∀ s ∈ slots, s.name ≠ name)
    (a : σ) (j : Json) : step a name j = if strict then .error .shape else .ok a := by
  rw [h.eq_fill]
  clear h
  induction slots with
  | nil => rfl
  | cons s slots ih =>
    rw [List.forall_mem_cons] at hn
    rw [fill, if_neg hn.1.symm]
    exact ih hn.2

theorem value (h : Fills slots strict step)
    (hj : ∀ s ∈ slots, Agree Eq (s.decode j) (s.decode j')) (a : σ) (name : String) :
    Agree Eq (step a name j) (step a name j') := by
  rcases cases slots name with ⟨s, hs, rfl⟩ | hn
  · rw [h.known hs, h.known hs]
    exact Slot.read_agree (hj s hs) a
  · rw [h.unknown hn, h.unknown hn]
    exact .refl _

theorem swap (h : Fills slots strict step) (a : σ) (name name' : String) (j j' : Json)
    (hne : name ≠ name') : Agree Eq (step a name j >>= fun b => step b name' j')
      (step a name' j' >>= fun b => step b name j) := by
  -- a field without a slot leaves the others to themselves
  have hdrop {name : String} (hn : ∀ s ∈ slots, s.name ≠ name) (name' : String) (j j' : Json) :
      Agree Eq (step a name j >>= fun b => step b name' j')
        (step a name' j' >>= fun b => step b name j) := by
    simp only [h.unknown hn]
    cases strict with
    | true => cases step a name' j' <;> exact .error _ _
    | false =>
      change Agree Eq (step a name' j') (step a name' j' >>= pure)
      rw [bind_pure]
      exact .refl _
  rcases cases slots name with ⟨s, hs, rfl⟩ | hn
  · rcases cases slots name' with ⟨t, ht, rfl⟩ | hn'
    · have hst : s ≠ t := fun hst => hne (hst ▸ rfl)
      simp only [h.known hs, h.known ht]
      exact (h.apart.forall hs ht hst).swap a j j'
    · exact (hdrop hn' s.name j' j).symm
  · exact hdrop hn name' j j'

theorem steady (h : Fills slots strict step) (hs : ∀ s ∈ slots, Stable s.decode) :
    Steady Eq step where
  refl _ := rfl
  same _ _ _ _ hab := hab ▸ .refl _
  value a name j j' hj := h.value (fun s hm => hs s hm j j' hj) a name
  swap := h.swap

end Fills

end KnowledgeTree.Json
