import KnowledgeTree.Proofs.Reordering
import KnowledgeTree.Wire.Entity
import KnowledgeTree.Wire.Request
import KnowledgeTree.Wire.Tree

/-!
The JSON forms of values decode to the same in any order of the fields.
-/

namespace KnowledgeTree

open Json (Fault Agree Shuffle Slot Fills Stable)

theorem EntityId.stable_ofJson : Stable EntityId.ofJson := (Json.flat_reading _).stable

theorem UserId.stable_ofJson : Stable UserId.ofJson := (Json.flat_reading _).stable

theorem Time.stable_ofJson : Stable Time.ofJson := (Json.flat_reading _).stable

theorem VersionNumber.flat_ofJson : Json.Flat VersionNumber.ofJson :=
  (Json.flat_natural _).bind _

namespace Publication.Parts

inductive Alike : Parts → Parts → Prop
  | same (p : Parts) : Alike p p
  | compound {state : Option State} {j j' : Json} (h : j.isCompound = true)
      (h' : j'.isCompound = true) : Alike ⟨state, some j⟩ ⟨state, some j'⟩

def slots : List (Slot Parts) := [
  ⟨"state", State, state, fun p x => { p with state := x }, Json.word State.ofText?⟩,
  ⟨"version", Json, version, fun p x => { p with version := x }, .ok⟩]

theorem fills : Fills slots false step where
  eq_fill p name j := by
    unfold step
    split <;> simp_all [slots, Json.fill, Slot.read]
  names := by decide
  apart := by simp [slots, Slot.apart_iff]

theorem steady : Json.Steady Alike step where
  refl := .same
  same a b name j h := by
    cases h with
    | same p => exact (Agree.refl _).mono fun _ _ heq => heq ▸ .same _
    | compound h h' =>
      unfold step
      split
      · apply (Agree.refl _).bind
        rintro state _ rfl
        exact .ok (.compound h h')
      · exact .error _ _
      · exact .ok (.compound h h')
  value a name j j' h := by
    unfold step
    split
    · apply ((Json.stable_word _ j j' h).once _).bind
      rintro state _ rfl
      exact .ok (.same _)
    · rcases a with ⟨state, _ | version⟩
      · exact .ok (.compound h.isCompound h.symm.isCompound)
      · exact .error _ _
    · exact .ok (.same _)
  swap := fills.swap

theorem finish_alike {p q : Parts} (h : Alike p q) : Agree Eq p.finish q.finish := by
  cases h with
  | same p => exact .refl _
  | @compound state j j' h h' =>
    have hfail (j : Json) (h : j.isCompound = true) :
        ∃ e, (⟨state, some j⟩ : Parts).finish = .error e := by
      rcases state with _ | _ | _
      · exact ⟨_, rfl⟩
      · cases j with
        | arr | obj => exact ⟨_, rfl⟩
        | null | bool | int | decimal | str | unreadable | torn => cases h
      · obtain ⟨e, he⟩ := VersionNumber.flat_ofJson j h
        exact ⟨e, congrArg (· >>= fun v => pure (Publication.published v)) he⟩
    exact .of_errors (hfail j h) (hfail j' h')

end Publication.Parts

theorem Publication.stable_ofJson : Stable Publication.ofJson := fun _ _ hj =>
  (Parts.steady.fields hj).bind fun _ _ => Parts.finish_alike

namespace Entity

def Parts.slots : List (Slot Parts) := [
  ⟨"id", _, id, fun p x => { p with id := x }, EntityId.ofJson⟩,
  ⟨"entity_type", _, entityType, fun p x => { p with entityType := x }, EntityType.ofJson⟩,
  ⟨"name", _, name, fun p x => { p with name := x }, Json.text⟩,
  ⟨"content", _, content, fun p x => { p with content := x }, Json.text⟩,
  ⟨"parent_id", _, parent, fun p x => { p with parent := x }, Json.nullable EntityId.ofJson⟩,
  ⟨"created_by", _, createdBy, fun p x => { p with createdBy := x }, UserId.ofJson⟩,
  ⟨"updated_by", _, updatedBy, fun p x => { p with updatedBy := x }, UserId.ofJson⟩,
  ⟨"publication", _, publication, fun p x => { p with publication := x }, Publication.ofJson⟩,
  ⟨"created_at", _, createdAt, fun p x => { p with createdAt := x }, Time.ofJson⟩,
  ⟨"updated_at", _, updatedAt, fun p x => { p with updatedAt := x }, Time.ofJson⟩,
  ⟨"deleted_at", _, deletedAt, fun p x => { p with deletedAt := x }, Json.nullable Time.ofJson⟩]

theorem Parts.fills : Fills slots false step where
  eq_fill p name j := by
    unfold step
    split <;> simp_all [slots, Json.fill, Slot.read]
  names := by decide
  apart := by simp [slots, Slot.apart_iff]

theorem stable_ofJson : Stable ofJson := by
  apply Stable.record (Parts.fills.steady _)
  simp only [Parts.slots, List.forall_mem_cons, List.not_mem_nil, false_imp_iff, implies_true,
    and_true]
  exact ⟨EntityId.stable_ofJson, Json.stable_word _, Json.flat_text.stable, Json.flat_text.stable,
    EntityId.stable_ofJson.nullable, UserId.stable_ofJson, UserId.stable_ofJson,
    Publication.stable_ofJson, Time.stable_ofJson, Time.stable_ofJson, Time.stable_ofJson.nullable⟩

end Entity

namespace ListItem

def Parts.slots : List (Slot Parts) := [
  ⟨"id", _, id, fun p x => { p with id := x }, EntityId.ofJson⟩,
  ⟨"entity_type", _, entityType, fun p x => { p with entityType := x }, EntityType.ofJson⟩,
  ⟨"name", _, name, fun p x => { p with name := x }, Json.text⟩,
  ⟨"parent_id", _, parent, fun p x => { p with parent := x }, Json.nullable EntityId.ofJson⟩]

theorem Parts.fills : Fills slots false step where
  eq_fill p name j := by
    unfold step
    split <;> simp_all [slots, Json.fill, Slot.read]
  names := by decide
  apart := by simp [slots, Slot.apart_iff]

theorem stable_ofJson : Stable ofJson := by
  apply Stable.record (Parts.fills.steady _)
  simp only [Parts.slots, List.forall_mem_cons, List.not_mem_nil, false_imp_iff, implies_true,
    and_true]
  exact ⟨EntityId.stable_ofJson, Json.stable_word _, Json.flat_text.stable,
    EntityId.stable_ofJson.nullable⟩

end ListItem

namespace Limits

def Parts.slots : List (Slot Parts) := [
  ⟨"max_depth", _, maxDepth, fun p x => { p with maxDepth := x }, Json.natural 4294967296⟩,
  ⟨"max_name_length", _, maxNameLength, fun p x => { p with maxNameLength := x },
    Json.natural 18446744073709551616⟩]

theorem Parts.fills : Fills slots true step where
  eq_fill p name j := by
    unfold step
    split <;> simp_all [slots, Json.fill, Slot.read]
  names := by decide
  apart := by simp [slots, Slot.apart_iff]

theorem stable_ofJson : Stable ofJson := by
  apply Stable.record (Parts.fills.steady _)
  simp only [Parts.slots, List.forall_mem_cons, List.not_mem_nil, false_imp_iff, implies_true,
    and_true]
  exact ⟨(Json.flat_natural _).stable, (Json.flat_natural _).stable⟩

end Limits

namespace CreateBody

def Parts.slots : List (Slot Parts) := [
  ⟨"entity_type", _, entityType, fun p x => { p with entityType := x }, Json.text⟩,
  ⟨"name", _, name, fun p x => { p with name := x }, Json.text⟩,
  ⟨"content", _, content, fun p x => { p with content := x }, Json.text⟩,
  ⟨"parent_id", _, parent, fun p x => { p with parent := x }, Json.nullable EntityId.ofJson⟩,
  ⟨"is_draft", _, isDraft, fun p x => { p with isDraft := x }, Json.flag⟩]

theorem Parts.fills : Fills slots false step where
  eq_fill p name j := by
    unfold step
    split <;> simp_all [slots, Json.fill, Slot.read]
  names := by decide
  apart := by simp [slots, Slot.apart_iff]

theorem stable_ofJson : Stable ofJson := by
  apply Stable.record (Parts.fills.steady _)
  simp only [Parts.slots, List.forall_mem_cons, List.not_mem_nil, false_imp_iff, implies_true,
    and_true]
  exact ⟨Json.flat_text.stable, Json.flat_text.stable, Json.flat_text.stable,
    EntityId.stable_ofJson.nullable, Json.flat_flag.stable⟩

end CreateBody

namespace UpdateBody

def Parts.slots : List (Slot Parts) := [
  ⟨"name", _, name, fun p x => { p with name := x }, Json.text⟩,
  ⟨"content", _, content, fun p x => { p with content := x }, Json.text⟩,
  ⟨"parent_changed", _, parentChanged, fun p x => { p with parentChanged := x }, Json.flag⟩,
  ⟨"parent_id", _, parent, fun p x => { p with parent := x }, Json.nullable EntityId.ofJson⟩,
  ⟨"is_draft", _, isDraft, fun p x => { p with isDraft := x }, Json.flag⟩]

theorem Parts.fills : Fills slots false step where
  eq_fill p name j := by
    unfold step
    split <;> simp_all [slots, Json.fill, Slot.read]
  names := by decide
  apart := by simp [slots, Slot.apart_iff]

theorem stable_ofJson : Stable ofJson := by
  apply Stable.record (Parts.fills.steady _)
  simp only [Parts.slots, List.forall_mem_cons, List.not_mem_nil, false_imp_iff, implies_true,
    and_true]
  exact ⟨Json.flat_text.stable, Json.flat_text.stable, Json.flat_flag.stable,
    EntityId.stable_ofJson.nullable, Json.flat_flag.stable⟩

end UpdateBody

namespace TreeNode

def childrenOf : Json → Except Fault (List TreeNode)
  | .arr items closed => do
    let children ← ofJsons items
    if closed then return children else throw .torn
  | j => .error j.fault

def Parts.slots : List (Slot Parts) := [
  ⟨"id", _, fun p => p.item.id, fun p x => { p with item := { p.item with id := x } },
    EntityId.ofJson⟩,
  ⟨"entity_type", _, fun p => p.item.entityType,
    fun p x => { p with item := { p.item with entityType := x } },
    fun j => EntityType.ofJson (typeOf j)⟩,
  ⟨"name", _, fun p => p.item.name, fun p x => { p with item := { p.item with name := x } },
    Json.text⟩,
  ⟨"parent_id", _, fun p => p.item.parent,
    fun p x => { p with item := { p.item with parent := x } }, Json.nullable EntityId.ofJson⟩,
  ⟨"children", _, children, fun p x => { p with children := x }, childrenOf⟩]

def Parts.step (p : Parts) (key : String) (j : Json) : Except Fault Parts :=
  match key with
  | "children" => return { p with children := ← Json.once p.children (childrenOf j) }
  | _ => return { p with item := ← stepItem p.item key j }

theorem Parts.fills : Fills slots false step where
  eq_fill p name j := by
    unfold step
    split
    · simp [slots, Json.fill, Slot.read]
    · unfold stepItem ListItem.Parts.step
      split <;> simp_all [slots, Json.fill, Slot.read]
  names := by decide
  apart := by simp [slots, Slot.apart_iff]

theorem addFields_agree (p : Parts) (fs : List (Option String × Json)) :
    Agree Eq (addFields p fs) (Json.addFields Parts.step p fs) := by
  induction fs generalizing p with
  | nil => rw [addFields]; exact .refl _
  | cons f fs ih =>
    rcases f with ⟨_ | name, j⟩
    · rw [addFields]; exact .error _ _
    · by_cases hname : name = "children"
      · subst hname
        cases j with
        | arr items closed =>
          rw [addFields, Json.addFields_some]
          rcases p with ⟨item, _ | ts⟩
          · simp only [Parts.step, childrenOf, Option.isSome_none, Bool.false_eq_true, if_false]
            cases ofJsons items with
            | error e => exact .error e e
            | ok children =>
              cases closed with
              | true => exact ih ⟨item, some children⟩
              | false => exact .error _ _
          · exact .error _ _
        | obj | null | bool | int | decimal | str | unreadable | torn =>
          apply Agree.of_errors
          · exact ⟨_, by rw [addFields]; rintro _ _ ⟨⟩⟩
          · rcases hc : p.children with _ | ts
            · exact ⟨_, by simp only [Json.addFields_some, Parts.step, hc]; rfl⟩
            · exact ⟨_, by simp only [Json.addFields_some, Parts.step, hc]; rfl⟩
      · have hstep : p.step name j =
            stepItem p.item name j >>= fun i => pure { p with item := i } := by
          unfold Parts.step
          split
          · exact absurd rfl hname
          · rfl
        rw [addFields, Json.addFields_some, hstep, bind_assoc]
        · exact .bind_left _ fun i => ih { p with item := i }
        · exact fun _ _ _ => hname
        · exact hname

section Order

variable {j j' : Json}

theorem ofJson_arr (items : List Json) (closed : Bool) :
    ofJson (.arr items closed) = .error .shape := by
  rw [ofJson]
  · rfl
  · rintro fields closed ⟨⟩

theorem typeOf_cases (j : Json) :
    (∃ key, j = .obj [(some key, .obj [] true)] true) ∨ typeOf j = j := by
  unfold typeOf
  split
  · exact .inl ⟨_, rfl⟩
  · exact .inr rfl

theorem stable_typeOf : Stable fun j => EntityType.ofJson (typeOf j) := by
  intro j j' h
  have hrigid (key : String) : Json.Rigid (.obj [(some key, .obj [] true)] true) :=
    Json.rigid_empty.single
  rcases typeOf_cases j with ⟨key, rfl⟩ | hj
  · rw [hrigid key _ h]
    exact .refl _
  · rcases typeOf_cases j' with ⟨key, rfl⟩ | hj'
    · rw [hrigid key _ h.symm]
      exact .refl _
    · simp only [hj, hj']
      exact Json.stable_word _ _ _ h

theorem ofJsons_item {before after : List Json}
    (h : Agree Eq (ofJson j) (ofJson j')) :
    Agree Eq (ofJsons (before ++ j :: after)) (ofJsons (before ++ j' :: after)) := by
  induction before with
  | nil =>
    rw [List.nil_append, List.nil_append, ofJsons, ofJsons]
    apply h.bind
    rintro t _ rfl
    exact .refl _
  | cons i before ih =>
    rw [List.cons_append, List.cons_append, ofJsons, ofJsons]
    apply Agree.bind_left
    intro t
    apply ih.bind
    rintro ts _ rfl
    exact .refl _

theorem shuffle (h : Shuffle j j') :
    Agree Eq (ofJson j) (ofJson j') ∧ Agree Eq (childrenOf j) (childrenOf j') := by
  have hclose {closed : Bool} {fs fs' : List (Option String × Json)}
      (h : Agree Eq (Json.addFields Parts.step {} fs) (Json.addFields Parts.step {} fs')) :
      Agree Eq (ofJson (.obj fs closed)) (ofJson (.obj fs' closed)) := by
    rw [ofJson, ofJson]
    apply (((addFields_agree {} fs).trans h).trans (addFields_agree {} fs').symm).bind
    rintro p _ rfl
    exact .refl _
  induction h with
  | fields h hn =>
    exact ⟨hclose (Json.addFields_perm Parts.fills.swap h hn), .error _ _⟩
  | value h ih =>
    refine ⟨hclose (Json.addFields_value ?_ fun a name _ => ?_), .error _ _⟩
    · rintro a _ name j rfl
      exact .refl _
    · apply Parts.fills.value
      simp only [Parts.slots, List.forall_mem_cons, List.not_mem_nil, false_imp_iff, implies_true,
        and_true]
      exact ⟨EntityId.stable_ofJson _ _ h, stable_typeOf _ _ h, Json.flat_text.stable _ _ h,
        EntityId.stable_ofJson.nullable _ _ h, ih.2⟩
  | item h ih =>
    refine ⟨by rw [ofJson_arr, ofJson_arr]; exact .error _ _, ?_⟩
    apply (ofJsons_item ih.1).bind
    rintro ts _ rfl
    exact .refl _

theorem stable_ofJson : Stable ofJson := fun _ _ h => (shuffle h).1

end Order

end TreeNode

end KnowledgeTree
