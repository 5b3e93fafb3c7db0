import KnowledgeTree.Proofs.Requests
import KnowledgeTree.Proofs.RoundTrip

/-!
What clients are told of errors. The body of a refusal says all there is to say of its cause: no two
causes share kind and details, in whatever order the details come. Of an internal error it says the
kind and nothing else.
-/

namespace KnowledgeTree

/-! Values of objects whose fields come in another order -/

namespace Json

variable {j j' a b : Json} {key : String} {fs fs' : List (Option String × Json)}

theorem Reordered.eq_of_scalar (h : Reordered j j') (hj : j.isCompound = false) : j' = j := by
  induction h with
  | refl => rfl
  | tail _ hs ih =>
    subst ih
    rw [hs.isCompound] at hj
    cases hj

theorem find?_reverse_of_nodup (hn : (fs.map Prod.fst).Nodup) {f : Option String × Json} :
    fs.reverse.find? (·.1 == some key) = some f ↔ f ∈ fs ∧ f.1 = some key := by
  constructor
  · intro h
    exact ⟨List.mem_reverse.mp (List.mem_of_find?_eq_some h), by simpa using List.find?_some h⟩
  · rintro ⟨hf, hkey⟩
    cases hr : fs.reverse.find? (·.1 == some key) with
    | none => exact absurd hkey (by simpa using List.find?_eq_none.mp hr f (List.mem_reverse.mpr hf))
    | some g =>
      have hg : g ∈ fs := List.mem_reverse.mp (List.mem_of_find?_eq_some hr)
      have hgkey : g.1 = some key := by simpa using List.find?_some hr
      rw [List.inj_on_of_nodup_map hn hg hf (hgkey.trans hkey.symm)]

theorem get?_of_perm {closed : Bool} (h : fs.Perm fs') (hn : (fs.map Prod.fst).Nodup) :
    (obj fs closed).get? key = (obj fs' closed).get? key := by
  have hn' : (fs'.map Prod.fst).Nodup := (h.map Prod.fst).nodup_iff.mp hn
  have hfind : fs.reverse.find? (·.1 == some key) = fs'.reverse.find? (·.1 == some key) := by
    ext f
    rw [find?_reverse_of_nodup hn, find?_reverse_of_nodup hn', h.mem_iff]
  simp only [get?, hfind]

theorem Shuffle.get? (h : Shuffle j j') (key : String) :
    Option.Rel Reordered (j.get? key) (j'.get? key) := by
  have hsame {i : Option Json} : Option.Rel Reordered i i := by
    cases i with
    | none => exact .none
    | some i => exact .some .refl
  cases h with
  | fields h hn =>
    rw [get?_of_perm h hn]
    exact hsame
  | @value before after k v v' _ hv =>
    simp only [Json.get?, List.reverse_append, List.reverse_cons, List.find?_append,
      List.append_assoc, List.singleton_append, List.find?_cons]
    cases after.reverse.find? (·.1 == some key) with
    | some f => exact hsame
    | none =>
      cases k == some key with
      | true => exact .some (.single hv)
      | false => exact hsame
  | item => exact .none

theorem Reordered.get? (h : Reordered j j') (key : String) (ha : j.get? key = some a)
    (hb : j'.get? key = some b) : Reordered a b := by
  induction h generalizing b with
  | refl => rw [Option.some.inj (ha.symm.trans hb)]; exact .refl
  | tail _ hs ih =>
    have hrel := hs.get? key
    rw [hb] at hrel
    generalize hi : Json.get? _ key = i at hrel
    cases hrel with
    | some hab => exact (ih hi).trans hab

theorem Reordered.scalar (h : Reordered j j') (key : String) (ha : j.get? key = some a)
    (hb : j'.get? key = some b) (hs : a.isCompound = false) : a = b :=
  ((h.get? key ha hb).eq_of_scalar hs).symm

end Json

/-! Causes -/

theorem Json.injective_of_read {α : Type} {encode : α → Json} {decode : Json → Except Fault α}
    (h : ∀ a, decode (encode a) = .ok a) : Function.Injective encode := by
  intro a b heq
  exact Except.ok.inj (by rw [← h a, heq, h b])

theorem EntityId.toJson_injective : Function.Injective EntityId.toJson :=
  Json.injective_of_read ofJson_toJson

theorem EntityType.toJson_injective : Function.Injective EntityType.toJson :=
  Json.injective_of_read ofJson_toJson

theorem Capability.toJson_injective : Function.Injective Capability.toJson :=
  Json.injective_of_read ofJson_toJson

theorem Rule.name_of_tag {r r' : Rule} (h : snakeCase r.name = snakeCase r'.name) :
    r.name = r'.name := by
  cases r <;> cases r' <;> simp only [name] at h ⊢ <;> exact absurd h (by decide +kernel)

theorem Rule.eq_of_reordered {r r' : Rule} (h : Json.Reordered r.toJson r'.toJson) : r = r' := by
  have hname : r.name = r'.name := by
    have htag (r : Rule) : r.toJson.get? "rule" = some (.str (snakeCase r.name)) := by
      cases r <;> rfl
    exact name_of_tag (Json.str.inj (h.scalar "rule" (htag r) (htag r') rfl))
  cases r with
  | required =>
    cases r' with
    | required => rfl
    | _ => simp [name] at hname
  | tooLong max =>
    cases r' with
    | tooLong max' => rw [Int.ofNat.inj (Json.int.inj (h.scalar "max" rfl rfl rfl))]
    | _ => simp [name] at hname
  | unknownValue value =>
    cases r' with
    | unknownValue value' => rw [Json.str.inj (h.scalar "value" rfl rfl rfl)]
    | _ => simp [name] at hname
  | nilIdentifier =>
    cases r' with
    | nilIdentifier => rfl
    | _ => simp [name] at hname
  | invalidVersion value =>
    cases r' with
    | invalidVersion value' => rw [Json.int.inj (h.scalar "value" rfl rfl rfl)]
    | _ => simp [name] at hname

namespace Error

variable {e e' : Error}

inductive SameCause : Error → Error → Prop
  | validationFailed (field field' : String) (rule rule' : Rule) :
      SameCause (validationFailed field rule) (validationFailed field' rule')
  | entityNotFound (id id' : EntityId) : SameCause (entityNotFound id) (entityNotFound id')
  | parentNotFound (id id' : EntityId) : SameCause (parentNotFound id) (parentNotFound id')
  | parentRequired (t t' : EntityType) : SameCause (parentRequired t) (parentRequired t')
  | incompatibleParentType (parent parent' child child' : EntityType) :
      SameCause (incompatibleParentType parent child) (incompatibleParentType parent' child')
  | parentCycle (entity entity' parent parent' : EntityId) :
      SameCause (parentCycle entity parent) (parentCycle entity' parent')
  | maxHierarchyDepthExceeded (n n' : Nat) :
      SameCause (maxHierarchyDepthExceeded n) (maxHierarchyDepthExceeded n')
  | cannotDraftEntityWithChildren (id id' : EntityId) :
      SameCause (cannotDraftEntityWithChildren id) (cannotDraftEntityWithChildren id')
  | forbidden (c c' : Capability) (entity entity' : EntityId) :
      SameCause (forbidden c entity) (forbidden c' entity')
  | adminRequired (c c' : Capability) : SameCause (adminRequired c) (adminRequired c')
  | unauthorized : SameCause unauthorized unauthorized
  | cancelled : SameCause cancelled cancelled
  | store (operation operation' message message' : String) :
      SameCause (store operation message) (store operation' message')
  | idGeneration (message message' : String) :
      SameCause (idGeneration message) (idGeneration message')
  | config (message message' : String) : SameCause (config message) (config message')

theorem sameCause_of_kind (h : e.kind = e'.kind) : SameCause e e' := by
  cases e <;> cases e' <;> first | constructor | simp [kind] at h

theorem snakeCase_name (e : Error) : snakeCase e.name = e.kind := by
  cases e <;> simp only [name, kind] <;> decide +kernel

theorem get?_kind (e : Error) : e.toJson.get? "kind" = some (.str e.kind) := by
  rw [← snakeCase_name]
  cases e <;> rfl

theorem toJson_without (e : Error) : e.toJson.without "kind" = .record e.details := by
  cases e <;> rfl

theorem SameCause.eq_of_details (hc : SameCause e e')
    (h : Json.Reordered (.record e.details) (.record e'.details)) : e = e' := by
  cases hc with
  | validationFailed field field' rule rule' =>
    have hrule : rule = rule' := Rule.eq_of_reordered (h.get? "rule" rfl rfl)
    rw [Json.str.inj (h.scalar "field" rfl rfl rfl), hrule]
  | entityNotFound | parentNotFound | cannotDraftEntityWithChildren =>
    rw [EntityId.toJson_injective (h.scalar "id" rfl rfl rfl)]
  | parentRequired => rw [EntityType.toJson_injective (h.scalar "entity_type" rfl rfl rfl)]
  | incompatibleParentType =>
    rw [EntityType.toJson_injective (h.scalar "parent_type" rfl rfl rfl),
      EntityType.toJson_injective (h.scalar "child_type" rfl rfl rfl)]
  | parentCycle =>
    rw [EntityId.toJson_injective (h.scalar "entity" rfl rfl rfl),
      EntityId.toJson_injective (h.scalar "parent" rfl rfl rfl)]
  | maxHierarchyDepthExceeded =>
    rw [Int.ofNat.inj (Json.int.inj (h.scalar "max_depth" rfl rfl rfl))]
  | forbidden =>
    rw [Capability.toJson_injective (h.scalar "capability" rfl rfl rfl),
      EntityId.toJson_injective (h.scalar "entity" rfl rfl rfl)]
  | adminRequired => rw [Capability.toJson_injective (h.scalar "capability" rfl rfl rfl)]
  | unauthorized | cancelled => rfl
  | store =>
    rw [Json.str.inj (h.scalar "operation" rfl rfl rfl),
      Json.str.inj (h.scalar "message" rfl rfl rfl)]
  | idGeneration | config => rw [Json.str.inj (h.scalar "message" rfl rfl rfl)]

end Error

namespace Http

open Json

variable {e e' : Error}

theorem statusOf_eq_422_iff : statusOf e = 422 ↔ e.isStructural = true := by
  cases e <;> simp [statusOf, Error.isStructural]

namespace Failure

def told? (f : Failure) (key : String) : Option Json := (f.body.get? "error").bind (·.get? key)

theorem ofError_of_internal (hc : Error.SameCause e e') (h : statusOf e = 500) :
    ofError e' = ofError e := by
  cases hc with
  | store | idGeneration | config => rfl
  | _ => simp [statusOf, Error.isStructural] at h

theorem details_ofError (h : statusOf e ≠ 500) : (ofError e).details = .record e.details := by
  rw [ofError, if_neg h]
  exact e.toJson_without

structure Tells (e : Error) : Prop where
  response : (ofError e).response = .json (statusOf e) (ofError e).body
  kind : (ofError e).told? "kind" = some (.str e.kind) ∧
    e.toJson.get? "kind" = some (.str e.kind)
  -- an internal error keeps to itself what it carries
  internal : statusOf e = 500 → ∀ e', Error.SameCause e e' →
    (ofError e').response = (ofError e).response
  -- any other error is told as a whole
  details : statusOf e ≠ 500 → (ofError e).told? "message" = some (.str e.message) ∧
    (ofError e).told? "details" = some (e.toJson.without "kind")
  lossless : ∀ e' d d', statusOf e ≠ 500 → statusOf e' ≠ 500 → e ≠ e' →
    (ofError e).told? "details" = some d → (ofError e').told? "details" = some d' →
      ¬((ofError e).told? "kind" = (ofError e').told? "kind" ∧ Reordered d d')
  structural : statusOf e = 422 ↔ e.isStructural = true

theorem kind_ofError (e : Error) : (ofError e).kind = e.kind := by
  rw [ofError]
  split <;> rfl

/-- Clients are told the kind of every error, and of errors that are not internal everything. -/
theorem error_bodies (e : Error) : Tells e where
  response := congrArg (Response.json · (ofError e).body) (response_status e)
  kind := ⟨congrArg (fun k => some (Json.str k)) (kind_ofError e), e.get?_kind⟩
  internal h e' hc := by rw [ofError_of_internal hc h]
  details h := by
    rw [Error.toJson_without]
    constructor
    · rw [ofError, if_neg h]; rfl
    · exact congrArg some (details_ofError h)
  lossless e' d d' h h' hne hd hd' := by
    rintro ⟨hkind, hsame⟩
    have hcause : Error.SameCause e e' := by
      apply Error.sameCause_of_kind
      rw [← kind_ofError, ← kind_ofError]
      exact Json.str.inj (Option.some.inj hkind)
    obtain rfl : .record e.details = d := Option.some.inj ((details_ofError h) ▸ hd)
    obtain rfl : .record e'.details = d' := Option.some.inj ((details_ofError h') ▸ hd')
    exact hne (hcause.eq_of_details hsame)
  structural := statusOf_eq_422_iff

end Failure

end Http

end KnowledgeTree
