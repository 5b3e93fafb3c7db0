import KnowledgeTree.Proofs.FieldOrder
import KnowledgeTree.Proofs.Instants
import KnowledgeTree.Proofs.Run

/-!
The JSON form of a value reads back to the value, whatever the order of its fields.
-/

namespace KnowledgeTree

open Json (Fault Slot Fills)

namespace Json

@[simp] theorem once_none {α : Type} (a : α) : once none (.ok a) = .ok (some a) := rfl

@[simp] theorem need_some {α : Type} (a : α) : need (some a) = .ok a := rfl

theorem need_eq_ok {α : Type} {x : Option α} {a : α} : need x = .ok a ↔ x = some a := by
  cases x <;> simp [need]

@[simp] theorem ok_bind {α β : Type} (a : α) (f : α → Except Fault β) :
    ((.ok a : Except Fault α) >>= f) = f a := rfl

@[simp] theorem pure_eq_ok {α : Type} (a : α) : (pure a : Except Fault α) = .ok a := rfl

@[simp] theorem text_str (s : String) : text (.str s) = .ok s := rfl

@[simp] theorem flag_bool (b : Bool) : flag (.bool b) = .ok b := rfl

@[simp] theorem fields_record {σ : Type} (step : σ → String → Json → Except Fault σ) (init : σ)
    (names : List String) (required : Nat) (fs : List (String × Json)) :
    fields step init names required (record fs) = fs.foldlM (fun a f => step a f.1 f.2) init := by
  have hfold (a : σ) : addFields step a (fs.map fun f => (some f.1, f.2)) =
      fs.foldlM (fun a f => step a f.1 f.2) a := by
    induction fs generalizing a with
    | nil => rfl
    | cons f fs ih =>
      rw [List.map_cons, addFields_some, List.foldlM_cons]
      exact congrArg (step a f.1 f.2 >>= ·) (funext ih)
  have hrecord : record fs = obj (fs.map fun f => (some f.1, f.2)) true := rfl
  rw [hrecord, fields, hfold]
  exact bind_pure _

theorem natural_int {bound n : Nat} (h : n < bound) : natural bound (.int n) = .ok n := by
  have hcast : (0 : Int) ≤ n ∧ (n : Int) < bound := by omega
  simp only [natural, hcast, and_self, if_true, Int.toNat_natCast]

theorem lt_of_natural {bound n : Nat} {j : Json} (h : natural bound j = .ok n) : n < bound := by
  unfold natural at h
  split at h
  · split at h
    · cases h
      omega
    · cases h
  · cases h

theorem reading_str {α : Type} {read : String → Option α} {s : String} {a : α}
    (h : read s = some a) : reading read (.str s) = .ok a := by
  rw [reading, text_str, ok_bind, h]
  rfl

theorem nullable_option {α : Type} {encode : α → Json} {decode : Json → Except Fault α}
    {x : Option α} (h : ∀ a, x = some a → decode (encode a) = .ok a) (hn : ∀ a, encode a ≠ .null) :
    nullable decode (option encode x) = .ok x := by
  cases x with
  | none => rfl
  | some a =>
    rw [option, nullable]
    · rw [h a rfl]
      rfl
    · exact hn a

theorem of_nullable {α : Type} {decode : Json → Except Fault α} {j : Json} {a : α}
    (h : nullable decode j = .ok (some a)) : decode j = .ok a := by
  unfold nullable at h
  split at h
  · cases h
  · cases hd : decode j with
    | error e =>
      rw [hd] at h
      cases h
    | ok b =>
      rw [hd] at h
      cases h
      rfl

/-! What is read keeps what every field keeps -/

section Keeps

variable {σ : Type} {P : σ → Prop} {step : σ → String → Json → Except Fault σ} {a b : σ}

theorem addFields_keeps (hstep : ∀ a name j b, P a → step a name j = .ok b → P b)
    {fs : List (Option String × Json)} (ha : P a) (h : addFields step a fs = .ok b) : P b := by
  induction fs generalizing a with
  | nil =>
    cases h
    exact ha
  | cons f fs ih =>
    rcases f with ⟨_ | name, j⟩
    · cases h
    · obtain ⟨c, hc, h⟩ := Except.bind_eq_ok.mp h
      exact ih (hstep a name j c ha hc) h

theorem addItems_keeps (hstep : ∀ a name j b, P a → step a name j = .ok b → P b) {closed : Bool}
    {names : List String} {items : List Json} (ha : P a)
    (h : addItems step closed a names items = .ok b) : P b := by
  induction items generalizing a names with
  | nil =>
    have hab : (if closed then .ok a else .error Fault.torn) = Except.ok b := by
      cases names <;> exact h
    cases closed with
    | true =>
      cases hab
      exact ha
    | false => cases hab
  | cons i items ih =>
    cases names with
    | nil => cases h
    | cons name names =>
      obtain ⟨c, hc, h⟩ := Except.bind_eq_ok.mp h
      exact ih (hstep a name i c ha hc) h

theorem fields_keeps (hstep : ∀ a name j b, P a → step a name j = .ok b → P b) {init : σ}
    {names : List String} {required : Nat} {j : Json} (hinit : P init)
    (h : fields step init names required j = .ok a) : P a := by
  cases j with
  | obj fs closed =>
    obtain ⟨b, hb, h⟩ := Except.bind_eq_ok.mp h
    cases closed with
    | true =>
      cases h
      exact addFields_keeps hstep hinit hb
    | false => cases h
  | arr items closed =>
    obtain ⟨b, hb, h⟩ := Except.bind_eq_ok.mp h
    split at h
    · cases h
    · cases h
      exact addItems_keeps hstep hinit hb
  | null | bool | int | decimal | str | unreadable | torn => cases h

theorem Fills.fields_keeps {slots : List (Slot σ)} {strict : Bool}
    (hfills : Fills slots strict step)
    (hset : ∀ s ∈ slots, ∀ a j x, P a → s.decode j = .ok x → P (s.set a (some x))) {init : σ}
    {names : List String} {required : Nat} {j : Json} (hinit : P init)
    (h : fields step init names required j = .ok a) : P a := by
  apply Json.fields_keeps _ hinit h
  intro a name j b ha hb
  rcases Fills.cases slots name with ⟨s, hs, rfl⟩ | hn
  · rw [hfills.known hs] at hb
    obtain ⟨y, hy, hb⟩ := Except.bind_eq_ok.mp hb
    cases hb
    unfold once at hy
    split at hy
    · cases hy
    · cases hx : s.decode j with
      | error e =>
        rw [hx] at hy
        cases hy
      | ok x =>
        rw [hx] at hy
        cases hy
        exact hset s hs a j x ha hx
  · rw [hfills.unknown hn] at hb
    cases strict with
    | true => cases hb
    | false =>
      cases hb
      exact ha

end Keeps

/-- Values that fit read back from their JSON form, the order of fields does not matter, and what
was read reads the same again from its own form. -/
structure RoundTrips {α : Type} (encode : α → Json) (decode : Json → Except Fault α)
    (Fits : α → Prop) : Prop where
  readsBack : ∀ a, Fits a → decode (encode a) = .ok a
  unordered : ∀ j j', Reordered j j' → ∀ a, decode j = .ok a ↔ decode j' = .ok a
  normal : ∀ j a, decode j = .ok a → decode (encode a) = .ok a

theorem Stable.roundTrips {α : Type} {encode : α → Json} {decode : Json → Except Fault α}
    {Fits : α → Prop} (hs : Stable decode) (hback : ∀ a, Fits a → decode (encode a) = .ok a)
    (hfits : ∀ j a, decode j = .ok a → Fits a) : RoundTrips encode decode Fits where
  readsBack := hback
  unordered _ _ hj := hs.reordered hj
  normal j a h := hback a (hfits j a h)

theorem Stable.roundTrips_total {α : Type} {encode : α → Json} {decode : Json → Except Fault α}
    (hs : Stable decode) (hback : ∀ a, decode (encode a) = .ok a) :
    RoundTrips encode decode (fun _ => True) :=
  hs.roundTrips (fun a _ => hback a) fun _ _ _ => trivial

end Json

@[simp] theorem EntityId.ofJson_toJson (id : EntityId) : ofJson id.toJson = .ok id := by
  apply Json.reading_str
  rw [text, Uuid.ofText?_text, Option.map_some]

@[simp] theorem UserId.ofJson_toJson (id : UserId) : ofJson id.toJson = .ok id := by
  apply Json.reading_str
  rw [text, Uuid.ofText?_text, Option.map_some]

@[simp] theorem nullable_entityId (id : Option EntityId) :
    Json.nullable EntityId.ofJson (.option EntityId.toJson id) = .ok id :=
  Json.nullable_option (fun a _ => a.ofJson_toJson) (by rintro _ ⟨⟩)

@[simp] theorem EntityType.ofJson_toJson (t : EntityType) : ofJson t.toJson = .ok t := by
  cases t <;> rfl

@[simp] theorem Capability.ofJson_toJson (c : Capability) : ofJson c.toJson = .ok c := by
  cases c <;> rfl

@[simp] theorem Direction.ofJson_toJson (d : Direction) : ofJson d.toJson = .ok d := by
  cases d <;> rfl

theorem VersionNumber.natural_toJson (v : VersionNumber) :
    Json.natural 4294967296 v.toJson = .ok v.value :=
  Json.natural_int v.lt

theorem VersionNumber.ofNat?_value (v : VersionNumber) : ofNat? v.value = some v := by
  unfold ofNat?
  rw [dif_pos ⟨v.pos, v.lt⟩]

@[simp] theorem VersionNumber.ofJson_toJson (v : VersionNumber) : ofJson v.toJson = .ok v := by
  have hn := v.natural_toJson
  rw [ofJson, Except.bind_of_ok hn, ofNat?_value, Json.need]

theorem Publication.Parts.finish_published (j : Json) : (⟨some .published, some j⟩ : Parts).finish =
    VersionNumber.ofJson j >>= fun v => pure (.published v) := rfl

@[simp] theorem Publication.ofJson_toJson (p : Publication) : ofJson p.toJson = .ok p := by
  cases p with
  | draft => rfl
  | published v =>
    have hstate : Json.word State.ofText? (.str "published") = .ok .published :=
      Json.reading_str rfl
    have hparts (j : Json) : Json.fields Parts.step {} ["state", "version"] 2
        (.record [("state", .str "published"), ("version", j)]) =
          .ok ⟨some .published, some j⟩ := by
      simp [Parts.step, hstate]
    rw [ofJson, toJson, Except.bind_of_ok (hparts _), Parts.finish_published,
      Except.bind_of_ok v.ofJson_toJson]
    rfl

theorem Time.ofJson_toJson {t : Time} (h : t.Valid) : ofJson t.toJson = .ok t :=
  Json.reading_str (ofText?_text h)

theorem Time.valid_of_ofJson {j : Json} {t : Time} (h : ofJson j = .ok t) : t.Valid := by
  obtain ⟨s, -, h⟩ := Except.bind_eq_ok.mp h
  split at h
  · next hread =>
    cases h
    exact valid_of_ofText? hread
  · cases h

theorem ListItem.ofJson_toJson (i : ListItem) : ofJson i.toJson = .ok i := by
  simp [ofJson, toJson, jsonFields, Parts.step, Parts.finish]

namespace Entity

structure Timely (e : Entity) : Prop where
  created : e.createdAt.Valid
  updated : e.updatedAt.Valid
  deleted : ∀ t ∈ e.deletedAt, t.Valid

theorem ofJson_toJson (e : Entity) (h : e.Timely) : ofJson e.toJson = .ok e := by
  have hcreated := Time.ofJson_toJson h.created
  have hupdated := Time.ofJson_toJson h.updated
  have hdeleted : Json.nullable Time.ofJson (.option Time.toJson e.deletedAt) = .ok e.deletedAt :=
    Json.nullable_option (fun t ht => Time.ofJson_toJson (h.deleted t ht)) (by rintro _ ⟨⟩)
  simp [ofJson, toJson, Parts.step, Parts.finish, hcreated, hupdated, hdeleted]

structure Parts.Timely (p : Parts) : Prop where
  created : ∀ t ∈ p.createdAt, t.Valid
  updated : ∀ t ∈ p.updatedAt, t.Valid
  deleted : ∀ t ∈ p.deletedAt.join, t.Valid

theorem Parts.timely_of_fields {names : List String} {required : Nat} {j : Json} {p : Parts}
    (h : Json.fields step {} names required j = .ok p) : p.Timely := by
  apply fills.fields_keeps _ ⟨by simp, by simp, by simp⟩ h
  simp only [slots, List.forall_mem_cons, List.not_mem_nil, false_imp_iff, implies_true, and_true]
  refine ⟨?_, ?_, ?_, ?_, ?_, ?_, ?_, ?_, ?created, ?updated, ?deleted⟩
  case created =>
    intro p j t hp ht
    refine ⟨?_, hp.updated, hp.deleted⟩
    rintro _ ⟨⟩
    exact Time.valid_of_ofJson ht
  case updated =>
    intro p j t hp ht
    refine ⟨hp.created, ?_, hp.deleted⟩
    rintro _ ⟨⟩
    exact Time.valid_of_ofJson ht
  case deleted =>
    intro p j t hp ht
    refine ⟨hp.created, hp.updated, ?_⟩
    rintro t' ht'
    cases ht'
    exact Time.valid_of_ofJson (Json.of_nullable ht)
  all_goals exact fun p j x hp _ => ⟨hp.created, hp.updated, hp.deleted⟩

theorem timely_of_ofJson {j : Json} {e : Entity} (h : ofJson j = .ok e) : e.Timely := by
  obtain ⟨p, hp, h⟩ := Except.bind_eq_ok.mp h
  obtain ⟨hcreated, hupdated, hdeleted⟩ := Parts.timely_of_fields hp
  obtain ⟨id, -, h⟩ := Except.bind_eq_ok.mp h
  obtain ⟨entityType, -, h⟩ := Except.bind_eq_ok.mp h
  obtain ⟨name, -, h⟩ := Except.bind_eq_ok.mp h
  obtain ⟨content, -, h⟩ := Except.bind_eq_ok.mp h
  obtain ⟨createdBy, -, h⟩ := Except.bind_eq_ok.mp h
  obtain ⟨updatedBy, -, h⟩ := Except.bind_eq_ok.mp h
  obtain ⟨publication, -, h⟩ := Except.bind_eq_ok.mp h
  obtain ⟨createdAt, hc, h⟩ := Except.bind_eq_ok.mp h
  obtain ⟨updatedAt, hu, h⟩ := Except.bind_eq_ok.mp h
  cases h
  exact ⟨hcreated _ (Json.need_eq_ok.mp hc), hupdated _ (Json.need_eq_ok.mp hu), hdeleted⟩

end Entity

theorem CreateBody.ofJson_toJson (b : CreateBody) : ofJson b.toJson = .ok b := by
  simp [ofJson, toJson, Parts.step, Parts.finish]

theorem UpdateBody.ofJson_toJson (b : UpdateBody) : ofJson b.toJson = .ok b := by
  simp [ofJson, toJson, Parts.step, Parts.finish]

namespace Limits

structure Fit (l : Limits) : Prop where
  depth : l.maxDepth < 4294967296
  nameLength : l.maxNameLength < 18446744073709551616

theorem ofJson_toJson (l : Limits) (h : l.Fit) : ofJson l.toJson = .ok l := by
  have hdepth := Json.natural_int h.depth
  have hname := Json.natural_int h.nameLength
  simp [ofJson, toJson, Parts.step, Parts.finish, hdepth, hname]

structure Parts.Fit (p : Parts) : Prop where
  depth : ∀ n ∈ p.maxDepth, n < 4294967296
  nameLength : ∀ n ∈ p.maxNameLength, n < 18446744073709551616

theorem Parts.fit_of_fields {names : List String} {required : Nat} {j : Json} {p : Parts}
    (h : Json.fields step {} names required j = .ok p) : p.Fit := by
  apply fills.fields_keeps _ ⟨by simp, by simp⟩ h
  simp only [slots, List.forall_mem_cons, List.not_mem_nil, false_imp_iff, implies_true, and_true]
  constructor
  · intro p j n hp hn
    refine ⟨?_, hp.nameLength⟩
    rintro _ ⟨⟩
    exact Json.lt_of_natural hn
  · intro p j n hp hn
    refine ⟨hp.depth, ?_⟩
    rintro _ ⟨⟩
    exact Json.lt_of_natural hn

theorem fit_of_ofJson {j : Json} {l : Limits} (h : ofJson j = .ok l) : l.Fit := by
  obtain ⟨p, hp, h⟩ := Except.bind_eq_ok.mp h
  cases h
  have hp := Parts.fit_of_fields hp
  constructor
  · rw [Parts.finish]
    cases hd : p.maxDepth with
    | none => exact (by decide : ({} : Limits).maxDepth < 4294967296)
    | some n => exact hp.depth n hd
  · rw [Parts.finish]
    cases hn : p.maxNameLength with
    | none => exact (by decide : ({} : Limits).maxNameLength < 18446744073709551616)
    | some n => exact hp.nameLength n hn

end Limits

namespace TreeNode

mutual

theorem ofJson_toJson : ∀ t : TreeNode, ofJson t.toJson = .ok t
  | node item children => by
    have h := ofJsons_toJsons children
    have htype : typeOf item.entityType.toJson = item.entityType.toJson := by
      cases item.entityType <;> rfl
    simp [toJson, Json.record, ListItem.jsonFields, Json.list, ofJson, addFields, stepItem,
      ListItem.Parts.step, htype, h, Parts.finish, ListItem.Parts.finish]

theorem ofJsons_toJsons : ∀ ts : List TreeNode, ofJsons (toJsons ts) = .ok ts
  | [] => by rw [toJsons, ofJsons]
  | t :: ts => by
    have ht := ofJson_toJson t
    have hts := ofJsons_toJsons ts
    rw [toJsons, ofJsons, ht, hts]
    rfl

end

end TreeNode

theorem wire_forms_round_trip :
    Json.RoundTrips Entity.toJson Entity.ofJson Entity.Timely ∧
    Json.RoundTrips ListItem.toJson ListItem.ofJson (fun _ => True) ∧
    Json.RoundTrips TreeNode.toJson TreeNode.ofJson (fun _ => True) ∧
    Json.RoundTrips Publication.toJson Publication.ofJson (fun _ => True) ∧
    Json.RoundTrips VersionNumber.toJson VersionNumber.ofJson (fun _ => True) ∧
    Json.RoundTrips EntityType.toJson EntityType.ofJson (fun _ => True) ∧
    Json.RoundTrips Capability.toJson Capability.ofJson (fun _ => True) ∧
    Json.RoundTrips Direction.toJson Direction.ofJson (fun _ => True) ∧
    Json.RoundTrips Limits.toJson Limits.ofJson Limits.Fit ∧
    Json.RoundTrips CreateBody.toJson CreateBody.ofJson (fun _ => True) ∧
    Json.RoundTrips UpdateBody.toJson UpdateBody.ofJson (fun _ => True) := by
  refine ⟨?_, ?_, ?_, ?_, ?_, ?_, ?_, ?_, ?_, ?_, ?_⟩
  · exact Entity.stable_ofJson.roundTrips Entity.ofJson_toJson fun _ _ => Entity.timely_of_ofJson
  · exact ListItem.stable_ofJson.roundTrips_total ListItem.ofJson_toJson
  · exact TreeNode.stable_ofJson.roundTrips_total TreeNode.ofJson_toJson
  · exact Publication.stable_ofJson.roundTrips_total Publication.ofJson_toJson
  · exact VersionNumber.flat_ofJson.stable.roundTrips_total VersionNumber.ofJson_toJson
  · exact (Json.stable_word _).roundTrips_total EntityType.ofJson_toJson
  · exact (Json.stable_word _).roundTrips_total Capability.ofJson_toJson
  · exact (Json.stable_word _).roundTrips_total Direction.ofJson_toJson
  · exact Limits.stable_ofJson.roundTrips Limits.ofJson_toJson fun _ _ => Limits.fit_of_ofJson
  · exact CreateBody.stable_ofJson.roundTrips_total CreateBody.ofJson_toJson
  · exact UpdateBody.stable_ofJson.roundTrips_total UpdateBody.ofJson_toJson

namespace Sample

def relic : Entity where
  id := ⟨Uuid.ofNat 1⟩
  entityType := .department
  name := "Relics"
  content := ""
  parent := none
  createdBy := ⟨Uuid.ofNat 2⟩
  updatedBy := ⟨Uuid.ofNat 3⟩
  publication := .published .first
  createdAt := ⟨-62167219201, 1500000000⟩
  updatedAt := ⟨0, 0⟩
  deletedAt := some ⟨253402300800, 1⟩

end Sample

theorem wire_forms_round_trip_relic : Sample.relic.Timely ∧
    Entity.ofJson Sample.relic.toJson = .ok Sample.relic ∧
    Publication.ofJson (.obj [(some "version", VersionNumber.first.toJson),
      (some "state", .str "published")] true) = .ok (.published .first) := by
  obtain ⟨hentity, -, -, hpublication, -⟩ := wire_forms_round_trip
  have htimely : Sample.relic.Timely := by
    refine ⟨⟨by decide, by decide, by decide +kernel⟩,
      ⟨by decide, by decide, by decide +kernel⟩, ?_⟩
    rintro t ⟨⟩
    exact ⟨by decide, by decide, by decide +kernel⟩
  refine ⟨htimely, hentity.readsBack _ htimely, ?_⟩
  have hswap : Json.Reordered (Publication.published .first).toJson
      (.obj [(some "version", VersionNumber.first.toJson),
        (some "state", .str "published")] true) :=
    .single (.fields (.swap _ _ _) (by decide))
  exact (hpublication.unordered _ _ hswap _).mp (hpublication.readsBack _ trivial)

end KnowledgeTree
