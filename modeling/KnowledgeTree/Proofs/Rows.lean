import KnowledgeTree.Proofs.Run
import KnowledgeTree.Store.Read

/-!
Rows looked up by id, and what each primitive change does to the rows, the versions and the grants.
-/

namespace KnowledgeTree

namespace Store

variable {s s' : Store} {ctx : Context} {id : EntityId} {e : Entity}

def seen (s : Store) (viewer : Option UserId) (id : EntityId) : Option Entity :=
  (s.row? id).filter (Entity.isVisibleTo viewer)

theorem eq_of_id_eq {a b : Entity} (ha : a ∈ s.entities) (hb : b ∈ s.entities) (h : a.id = b.id) :
    a = b := by
  have hn : s.entities.Pairwise (fun x y => x.id ≠ y.id) := List.pairwise_map.mp s.nodup
  obtain ⟨i, hi, rfl⟩ := List.mem_iff_getElem.mp ha
  obtain ⟨j, hj, rfl⟩ := List.mem_iff_getElem.mp hb
  rcases Nat.lt_trichotomy i j with hij | rfl | hij
  · exact absurd h (List.pairwise_iff_getElem.mp hn i j hi hj hij)
  · rfl
  · exact absurd h.symm (List.pairwise_iff_getElem.mp hn j i hj hi hij)

theorem row?_eq_some : s.row? id = some e ↔ e ∈ s.entities ∧ e.id = id := by
  constructor
  · intro h
    exact ⟨List.mem_of_find?_eq_some h, by simpa using List.find?_some h⟩
  · rintro ⟨hm, rfl⟩
    obtain ⟨f, hf⟩ : ∃ f, s.row? e.id = some f := by
      rw [← Option.isSome_iff_exists, row?, List.find?_isSome]
      exact ⟨e, hm, by simp⟩
    have hid : f.id = e.id := by simpa using List.find?_some hf
    rw [hf, eq_of_id_eq (List.mem_of_find?_eq_some hf) hm hid]

theorem row?_eq_none : s.row? id = none ↔ id ∉ s.ids := by
  simp [row?, ids, List.find?_eq_none]

theorem seen_eq_some {viewer : Option UserId} :
    s.seen viewer id = some e ↔ e ∈ s.entities ∧ e.id = id ∧ e.isVisibleTo viewer := by
  rw [seen, Option.filter_eq_some_iff, row?_eq_some, and_assoc]

theorem seen_none : s.seen none id = s.live? id := by
  have h : Entity.isVisibleTo none = Entity.isLive := by
    funext e; simp [Entity.isVisibleTo]
  rw [seen, h, live?]

theorem live?_eq_some : s.live? id = some e ↔ e ∈ s.entities ∧ e.id = id ∧ e.isLive := by
  rw [live?, Option.filter_eq_some_iff, row?_eq_some, and_assoc]

theorem not_visible_of_dead {viewer : Option UserId} (h : e.isLive = false) :
    e.isVisibleTo viewer = false := by
  unfold Entity.isVisibleTo
  rw [h, Bool.false_and]

theorem live?_of_seen {viewer : Option UserId} (h : s.seen viewer id = some e) :
    s.live? id = some e := by
  obtain ⟨hm, hid, hv⟩ := seen_eq_some.mp h
  have hl : e.isLive = true := by
    cases hl : e.isLive with
    | true => rfl
    | false => rw [not_visible_of_dead hl] at hv; cases hv
  exact live?_eq_some.mpr ⟨hm, hid, hl⟩

theorem mem_live : e ∈ s.live ↔ s.live? e.id = some e := by
  simp [live, live?_eq_some]

theorem find_eq_ok : s.find id = .ok e ↔ s.live? id = some e := by
  unfold find
  split
  · next f hf => simp [hf]
  · next hf => simp [hf]

/-! Inserting -/

theorem insert_eq_ok {operation : String} :
    s.insert operation e = .ok s' ↔ e.id ∉ s.ids ∧ (∀ p, e.parent = some p → p = e.id ∨ p ∈ s.ids) ∧
      s'.entities = s.entities ++ [e] ∧ s'.versions = s.versions ∧ s'.roles = s.roles ∧
      s'.grants = s.grants := by
  have hp : (e.parent.all fun p => p == e.id || s.ids.contains p) = true ↔
      ∀ p, e.parent = some p → p = e.id ∨ p ∈ s.ids := by
    simp [Option.all_eq_true]
  unfold insert
  split
  · next h => simp [h]
  · next h =>
    split
    · next hall =>
      have hall := hp.mp hall
      constructor
      · intro heq; cases heq; exact ⟨h, hall, rfl, rfl, rfl, rfl⟩
      · rintro ⟨-, -, he, hv, hr, hg⟩
        rcases s' with ⟨entities, versions, roles, grants, nodup⟩
        cases he; cases hv; cases hr; cases hg; rfl
    · next hall => simp only [hp] at hall; simp [hall]

theorem insert_of_fresh {operation : String} (hf : e.id ∉ s.ids)
    (hp : ∀ p, e.parent = some p → p = e.id ∨ p ∈ s.ids) :
    ∃ s', s.insert operation e = .ok s' := by
  have hall : (e.parent.all fun p => p == e.id || s.ids.contains p) = true := by
    simpa [Option.all_eq_true] using hp
  rw [insert, dif_neg hf, if_pos hall]
  exact ⟨_, rfl⟩

theorem row?_append (h : s'.entities = s.entities ++ [e]) (hf : e.id ∉ s.ids) :
    s'.row? id = if id = e.id then some e else s.row? id := by
  have hr : s'.row? id = (s.row? id).or (if id = e.id then some e else none) := by
    simp only [row?, h, List.find?_append, List.find?_singleton, beq_iff_eq, eq_comm (a := id)]
  rw [hr]
  split
  · next hid =>
    subst hid
    rw [row?_eq_none.mpr hf]; rfl
  · simp

theorem seen_append {viewer : Option UserId} (h : s'.entities = s.entities ++ [e])
    (hf : e.id ∉ s.ids) : s'.seen viewer id =
      if id = e.id then (if e.isVisibleTo viewer then some e else none) else s.seen viewer id := by
  rw [seen, row?_append h hf]
  split
  · rw [Option.filter_some]
  · rfl

/-! Adjusting -/

theorem adjusted_of_pos {p : Entity → Bool} {f : Entity → Entity} (hl : e.isLive = true)
    (hp : p e = true) : adjusted p f e = { f e with id := e.id } := by
  unfold adjusted
  rw [if_pos (by rw [hl, hp]; rfl)]

theorem adjusted_of_neg {p : Entity → Bool} {f : Entity → Entity} (hp : p e = false) :
    adjusted p f e = e := by
  unfold adjusted
  rw [if_neg (by rw [hp, Bool.and_false]; simp)]

theorem adjusted_of_dead {p : Entity → Bool} {f : Entity → Entity} (hl : e.isLive = false) :
    adjusted p f e = e := by
  unfold adjusted
  rw [if_neg (by rw [hl, Bool.false_and]; simp)]

theorem row?_adjust (p : Entity → Bool) (f : Entity → Entity) :
    (s.adjust p f).row? id = (s.row? id).map (adjusted p f) := by
  have hc : ((·.id == id) ∘ adjusted p f) = ((·.id == id) : Entity → Bool) := by
    funext e; simp [id_adjusted]
  simp only [row?, adjust, List.find?_map, hc]

theorem row?_adjust_id {x : EntityId} (f : Entity → Entity) (h : s.live? x = some e) :
    (s.adjust (·.id == x) f).row? id =
      if id = x then some { f e with id := e.id } else s.row? id := by
  obtain ⟨hm, hid, hl⟩ := live?_eq_some.mp h
  rw [row?_adjust]
  split
  · next heq =>
    subst heq
    rw [row?_eq_some.mpr ⟨hm, hid⟩, Option.map_some, adjusted_of_pos hl (by simpa using hid)]
  · next hne =>
    cases hr : s.row? id with
    | none => rfl
    | some f =>
      obtain ⟨-, rfl⟩ := row?_eq_some.mp hr
      rw [Option.map_some, adjusted_of_neg (by simpa using hne)]

theorem row?_edit {changes : EntityChanges} {publication : Publication} {now : Time}
    (h : s.live? changes.id = some e) :
    (s.adjust (·.id == changes.id) (Entity.edit changes publication now)).row? id =
      if id = changes.id then some (e.edit changes publication now) else s.row? id :=
  row?_adjust_id _ h

theorem seen_delete {viewer : Option UserId} {targets : List EntityId} {now : Time} :
    (s.adjust (fun e => targets.contains e.id) fun e => { e with deletedAt := some now }).seen viewer
      id = if id ∈ targets then none else s.seen viewer id := by
  rw [seen, row?_adjust, seen]
  cases hr : s.row? id with
  | none => simp
  | some e =>
    obtain ⟨-, rfl⟩ := row?_eq_some.mp hr
    rw [Option.map_some]
    split
    · next ht =>
      rw [Option.filter_eq_none_iff]
      intro f hf
      cases hf
      rw [not_visible_of_dead]
      · simp
      · cases hl : e.isLive with
        | true => rw [adjusted_of_pos hl (by simpa using ht)]; rfl
        | false => rw [adjusted_of_dead hl]; exact hl
    · next ht => rw [adjusted_of_neg (by simpa using ht)]

/-! The primitive changes -/

theorem create_eq_ok {new : NewEntity} {now : Time} :
    s.create ctx new id now = .ok s' ↔ ctx.isDone = false ∧
      ∃ t, s.insert "create" (Entity.make new id (.published .first) now) = .ok t ∧
        s' = t.record ((Entity.make new id (.published .first) now).record .first) := by
  simp only [create, Except.bind_eq_ok, Context.check_eq_ok, pure, Except.pure, Except.ok.injEq,
    exists_const, eq_comm (a := s')]

theorem createDraft_eq_ok {new : NewEntity} {now : Time} :
    s.createDraft ctx new id now = .ok s' ↔ ctx.isDone = false ∧
      s.insert "create_draft" (Entity.make new id .draft now) = .ok s' := by
  simp only [createDraft, Except.bind_eq_ok, Context.check_eq_ok, exists_const]

theorem edit_eq_ok {operation : String} {changes : EntityChanges} {publication : Publication}
    {now : Time} {after : Entity} :
    s.edit operation changes publication now = .ok (s', after) ↔
      ∃ e, s.live? changes.id = some e ∧ s.hasNewParent changes = true ∧
        s' = s.adjust (·.id == changes.id) (Entity.edit changes publication now) ∧
        after = e.edit changes publication now := by
  unfold edit
  split
  · next h => simp [h]
  · next e h =>
    split
    · next hp => simp [h, hp, eq_comm (a := s'), eq_comm (a := after)]
    · next hp => simp [hp]

theorem update_eq_ok {changes : EntityChanges} {now : Time} {v : VersionNumber} :
    s.update ctx changes now = .ok (v, s') ↔ ctx.isDone = false ∧ s.nextVersion changes.id = .ok v ∧
      ∃ e, s.live? changes.id = some e ∧ s.hasNewParent changes = true ∧
        s' = (s.adjust (·.id == changes.id) (Entity.edit changes (.published v) now)).record
          ((e.edit changes (.published v) now).record v) := by
  simp only [update, Except.bind_eq_ok, Context.check_eq_ok, exists_const]
  apply and_congr_right'
  constructor
  · rintro ⟨next, hn, ⟨t, after⟩, he, h⟩
    obtain ⟨e, hl, hp, rfl, rfl⟩ := edit_eq_ok.mp he
    cases h
    exact ⟨hn, e, hl, hp, rfl⟩
  · rintro ⟨hn, e, hl, hp, rfl⟩
    exact ⟨v, hn, (_, _), edit_eq_ok.mpr ⟨e, hl, hp, rfl, rfl⟩, rfl⟩

theorem updateDraft_eq_ok {changes : EntityChanges} {now : Time} :
    s.updateDraft ctx changes now = .ok s' ↔ ctx.isDone = false ∧
      ∃ e, s.live? changes.id = some e ∧ s.hasNewParent changes = true ∧
        s' = s.adjust (·.id == changes.id) (Entity.edit changes .draft now) := by
  simp only [updateDraft, Except.bind_eq_ok, Context.check_eq_ok, exists_const]
  apply and_congr_right'
  constructor
  · rintro ⟨⟨t, after⟩, he, h⟩
    obtain ⟨e, hl, hp, rfl, rfl⟩ := edit_eq_ok.mp he
    cases h
    exact ⟨e, hl, hp, rfl⟩
  · rintro ⟨e, hl, hp, rfl⟩
    exact ⟨(_, _), edit_eq_ok.mpr ⟨e, hl, hp, rfl, rfl⟩, rfl⟩

theorem delete_eq_ok {targets : List EntityId} {now : Time} :
    s.delete ctx targets now = .ok s' ↔ ctx.isDone = false ∧
      (∃ e ∈ s.live, e.id ∈ targets) ∧
      s' = s.adjust (fun e => targets.contains e.id) fun e => { e with deletedAt := some now } := by
  cases targets with
  | nil => simp [delete]
  | cons first rest =>
    simp only [delete, Except.bind_eq_ok, Context.check_eq_ok, exists_const]
    apply and_congr_right'
    split
    · next h =>
      have h : ∃ e ∈ s.live, e.id ∈ first :: rest := by simpa using h
      constructor
      · intro heq; cases heq; exact ⟨h, rfl⟩
      · rintro ⟨-, rfl⟩; rfl
    · next h =>
      have h : ¬∃ e ∈ s.live, e.id ∈ first :: rest := by simpa using h
      constructor
      · intro heq; cases heq
      · rintro ⟨hex, -⟩; exact absurd hex h

/-! What the primitive changes leave -/

structure Added (s s' : Store) (e : Entity) : Prop where
  fresh : e.id ∉ s.ids
  parent : ∀ p, e.parent = some p → p = e.id ∨ p ∈ s.ids
  entities : s'.entities = s.entities ++ [e]
  versions : s'.versions = s.versions ++ (e.publication.version?.map e.record).toList
  roles : s'.roles = s.roles
  grants : s'.grants = s.grants

theorem added_of_create {new : NewEntity} {now : Time} (h : s.create ctx new id now = .ok s') :
    Added s s' (Entity.make new id (.published .first) now) := by
  obtain ⟨-, t, ht, rfl⟩ := create_eq_ok.mp h
  obtain ⟨hf, hp, he, hv, hr, hg⟩ := insert_eq_ok.mp ht
  exact ⟨hf, hp, he, by rw [record, hv]; rfl, hr, hg⟩

theorem added_of_createDraft {new : NewEntity} {now : Time}
    (h : s.createDraft ctx new id now = .ok s') : Added s s' (Entity.make new id .draft now) := by
  obtain ⟨-, ht⟩ := createDraft_eq_ok.mp h
  obtain ⟨hf, hp, he, hv, hr, hg⟩ := insert_eq_ok.mp ht
  exact ⟨hf, hp, he, by rw [hv]; exact (List.append_nil _).symm, hr, hg⟩

structure Edited (s s' : Store) (e f : Entity) : Prop where
  live : s.live? e.id = some e
  rows : ∀ b, s'.row? b = if b = e.id then some f else s.row? b
  versions : s'.versions = s.versions ++ (f.publication.version?.map f.record).toList
  roles : s'.roles = s.roles
  grants : s'.grants = s.grants

theorem edited_of_update {changes : EntityChanges} {now : Time} {v : VersionNumber}
    (h : s.update ctx changes now = .ok (v, s')) (he : s.live? changes.id = some e) :
    Edited s s' e (e.edit changes (.published v) now) := by
  obtain ⟨-, -, f, hf, -, rfl⟩ := update_eq_ok.mp h
  rw [he] at hf; cases hf
  have hid := (live?_eq_some.mp he).2.1
  refine ⟨by rw [hid, he], fun b => ?_, rfl, rfl, rfl⟩
  rw [hid]
  exact row?_edit he

theorem edited_of_updateDraft {changes : EntityChanges} {now : Time}
    (h : s.updateDraft ctx changes now = .ok s') (he : s.live? changes.id = some e) :
    Edited s s' e (e.edit changes .draft now) := by
  obtain ⟨-, f, hf, -, rfl⟩ := updateDraft_eq_ok.mp h
  rw [he] at hf; cases hf
  have hid := (live?_eq_some.mp he).2.1
  refine ⟨by rw [hid, he], fun b => ?_, (List.append_nil _).symm, rfl, rfl⟩
  rw [hid]
  exact row?_edit he

theorem Edited.seen {f : Entity} {viewer : Option UserId} (h : Edited s s' e f) (b : EntityId) :
    s'.seen viewer b =
      if b = e.id then (if f.isVisibleTo viewer then some f else none) else s.seen viewer b := by
  rw [Store.seen, h.rows]
  split
  · rw [Option.filter_some]
  · rfl

inductive Answered (s : Store) : Store → Prop
  | same : Answered s s
  | added {s' : Store} {new : NewEntity} {id : EntityId} {publication : Publication} {now : Time}
      (h : Added s s' (Entity.make new id publication now))
      (hfirst : ∀ n, publication = .published n → n = .first) : Answered s s'
  | edited {s' : Store} {e : Entity} {changes : EntityChanges} {publication : Publication}
      {now : Time} (h : Edited s s' e (e.edit changes publication now))
      (hnext : ∀ n, publication = .published n → s.nextVersion e.id = .ok n) : Answered s s'
  | deleted (targets : List EntityId) (now : Time) :
      Answered s (s.adjust (fun e => targets.contains e.id) fun e => { e with deletedAt := some now })

end Store

namespace System

variable (sys : System) (ctx : Context)

theorem answer_create_cases (isDraft : Bool) (new : NewEntity) (id : EntityId) (now : Time) :
    let r : Request Unit := if isDraft then .createDraft new id now else .create new id now
    (sys.answer ctx r).2.store = sys.store ∨ ∃ publication,
      (∀ n, publication = .published n → n = .first) ∧
      sys.store.Added (sys.answer ctx r).2.store (Entity.make new id publication now) := by
  cases isDraft with
  | true =>
    cases hr : sys.store.createDraft ctx new id now with
    | error e => left; simp only [if_true, answer, hr]; rfl
    | ok s =>
      right
      simp only [if_true, answer, hr]
      exact ⟨.draft, by rintro n ⟨⟩, Store.added_of_createDraft hr⟩
  | false =>
    cases hr : sys.store.create ctx new id now with
    | error e => left; simp only [Bool.false_eq_true, if_false, answer, hr]; rfl
    | ok s =>
      right
      simp only [Bool.false_eq_true, if_false, answer, hr]
      exact ⟨.published .first, by rintro n ⟨⟩; rfl, Store.added_of_create hr⟩

theorem answer_update_cases (changes : EntityChanges) (now : Time) :
    (sys.answer ctx (.update changes now)).2.store = sys.store ∨ ∃ e v, e.id = changes.id ∧
      sys.store.nextVersion e.id = .ok v ∧
      sys.store.Edited (sys.answer ctx (.update changes now)).2.store e
        (e.edit changes (.published v) now) := by
  cases hr : sys.store.update ctx changes now with
  | error e => left; rw [answer, hr]; rfl
  | ok p =>
    obtain ⟨v, s⟩ := p
    obtain ⟨-, hnext, e, he, -⟩ := Store.update_eq_ok.mp hr
    have hid := (Store.live?_eq_some.mp he).2.1
    right
    rw [answer, hr]
    exact ⟨e, v, hid, hid ▸ hnext, Store.edited_of_update hr he⟩

theorem answer_updateDraft_cases (changes : EntityChanges) (now : Time) :
    (sys.answer ctx (.updateDraft changes now)).2.store = sys.store ∨ ∃ e, e.id = changes.id ∧
      sys.store.Edited (sys.answer ctx (.updateDraft changes now)).2.store e
        (e.edit changes .draft now) := by
  cases hr : sys.store.updateDraft ctx changes now with
  | error e => left; rw [answer, hr]; rfl
  | ok s =>
    obtain ⟨-, e, he, -⟩ := Store.updateDraft_eq_ok.mp hr
    right
    rw [answer, hr]
    exact ⟨e, (Store.live?_eq_some.mp he).2.1, Store.edited_of_updateDraft hr he⟩

theorem answer_delete_cases (targets : List EntityId) (now : Time) :
    (sys.answer ctx (.delete targets now)).2.store = sys.store ∨
      (sys.answer ctx (.delete targets now)).2.store = sys.store.adjust
        (fun e => targets.contains e.id) fun e => { e with deletedAt := some now } := by
  cases hr : sys.store.delete ctx targets now with
  | error e => left; rw [answer, hr]; rfl
  | ok s =>
    obtain ⟨-, -, rfl⟩ := Store.delete_eq_ok.mp hr
    right
    rw [answer, hr]
    rfl

theorem answered {α : Type} (r : Request α) : sys.store.Answered (sys.answer ctx r).2.store := by
  cases r with
  | walk | listItem | newId | now => exact .same
  | create new id now =>
    rcases sys.answer_create_cases ctx false new id now with heq | ⟨publication, hfirst, hadd⟩
    · exact heq ▸ .same
    · exact .added hadd hfirst
  | createDraft new id now =>
    rcases sys.answer_create_cases ctx true new id now with heq | ⟨publication, hfirst, hadd⟩
    · exact heq ▸ .same
    · exact .added hadd hfirst
  | update changes now =>
    rcases sys.answer_update_cases ctx changes now with heq | ⟨e, v, -, hnext, hedit⟩
    · exact heq ▸ .same
    · exact .edited hedit fun n hn => by cases hn; exact hnext
  | updateDraft changes now =>
    rcases sys.answer_updateDraft_cases ctx changes now with heq | ⟨e, -, hedit⟩
    · exact heq ▸ .same
    · exact .edited hedit fun n hn => by cases hn
  | delete targets now =>
    rcases sys.answer_delete_cases ctx targets now with heq | heq
    · exact heq ▸ .same
    · exact heq ▸ .deleted targets now

end System

end KnowledgeTree
