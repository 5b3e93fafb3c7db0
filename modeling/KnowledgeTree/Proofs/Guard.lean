import KnowledgeTree.Proofs.Acceptance
import KnowledgeTree.Proofs.Distance

/-!
What the depth guard refuses under a live department, in tables whose rows may be linked in any way.
-/

namespace KnowledgeTree

variable {limits : Limits} {ctx : Context} {sys : System} {p : EntityId} {q : Entity}

structure CreateRequest.Proper (r : CreateRequest) (limits : Limits) : Prop where
  user : r.user.isNil = false
  name : Text.trim r.name ≠ ""
  length : (Text.trim r.name).length ≤ limits.maxNameLength

structure UpdateRequest.Movable (r : UpdateRequest) (limits : Limits) (s : Store)
    (p : EntityId) : Prop where
  id : r.id.isNil = false
  user : r.user.isNil = false
  name : Text.trim r.name ≠ ""
  length : (Text.trim r.name).length ≤ limits.maxNameLength
  live : ∃ e, s.live? r.id = some e
  apart : ¬s.Over r.id p
  room : s.Room limits.maxDepth p r.id
  version : r.isDraft = false → s.lastVersion r.id + 1 < 4294967296
  leaf : r.isDraft = true → ∀ b f, s.live? b = some f → f.parent = some r.id → b = r.id

namespace Hierarchy

section Parent

variable (hp : sys.store.live? p = some q) (hq : q.entityType = .department)

include hp hq

theorem create_under {r : CreateRequest} (hr : r.parent = some p) :
    (∃ id sys', create limits ctx r sys = (.ok id, sys')) ↔ ctx.isDone = false ∧
      p.isNil = false ∧ r.Proper limits ∧ ¬sys.store.Deep limits.maxDepth p ∧
      ∃ id, sys.ids.take.1 = .ok id ∧ id ∉ sys.store.ids := by
  rw [create_succeeds, hr, checkPlace_takes]
  constructor
  · rintro ⟨hc, huser, hne, hlen, ⟨-, hplace, -, hdeep⟩, id, hid, hfresh, -⟩
    exact ⟨hc, (hplace p rfl).1, ⟨huser, hne, hlen⟩, hdeep, id, hid, hfresh⟩
  · rintro ⟨hc, hnil, ⟨huser, hne, hlen⟩, hdeep, id, hid, hfresh⟩
    refine ⟨hc, huser, hne, hlen, ⟨rfl, ?_, ⟨q, hp, hq⟩, hdeep⟩, id, hid, hfresh, ?_⟩
    · rintro _ ⟨⟩
      exact ⟨hnil, hc⟩
    · rintro _ ⟨⟩
      exact .inr (Store.mem_ids_of_live hp)

theorem update_under {r : UpdateRequest} (hm : r.parentChanged = true) (hr : r.parent = some p) :
    (∃ publication sys', update limits ctx r sys = (.ok publication, sys')) ↔
      ctx.isDone = false ∧ p.isNil = false ∧ r.Movable limits sys.store p := by
  rw [update_succeeds]
  constructor
  · rintro ⟨hc, hid, huser, hne, hlen, -, hv, e, he, hparent, -, hleaf⟩
    have heid : e.id = r.id := (Store.live?_eq_some.mp he).2.1
    rw [← heid] at he
    obtain ⟨-, -, hplace⟩ := (newParent_takes he).mp hparent
    obtain ⟨hnil, htakes⟩ := hplace hm
    rw [hr, heid] at htakes
    rw [heid] at he
    obtain ⟨-, hover, hroom⟩ := htakes
    exact ⟨hc, (hnil p hr).1, hid, huser, hne, hlen, ⟨e, he⟩, hover, hroom, hv,
      fun hd => (checkChildless_alone he).mp (hleaf hd)⟩
  · rintro ⟨hc, hnil, hid, huser, hne, hlen, ⟨e, he⟩, hover, hroom, hv, hleaf⟩
    have heid : e.id = r.id := (Store.live?_eq_some.mp he).2.1
    have he' : sys.store.live? e.id = some e := by rwa [heid]
    have hself : checkNotSelf r = .ok () := by
      refine checkNotSelf_eq_ok.mpr fun _ hx => hover ?_
      obtain rfl : p = r.id := Option.some.inj (hr.symm.trans hx)
      exact ⟨0, .here (Store.seen_none.trans hp)⟩
    have hnew : sys.store.hasNewParent (changes r (Text.trim r.name)) = true := by
      simp [Store.hasNewParent, changes, hm, hr, Store.mem_ids_of_live hp]
    have hparent : (newParent limits r e.listItem).run ctx sys =
        (.ok (changes r (Text.trim r.name)).parent, sys) := by
      refine (newParent_takes he').mpr ⟨rfl, rfl, fun _ => ⟨fun p' hp' => ?_, ?_⟩⟩
      · obtain rfl : p = p' := Option.some.inj (hr.symm.trans hp')
        exact ⟨hnil, hc⟩
      · rw [hr, heid]
        exact ⟨⟨q, hp, hq⟩, hover, hroom⟩
    exact ⟨hc, hid, huser, hne, hlen, hself, hv, e, he, hparent, hnew,
      fun hd => (checkChildless_alone he).mpr (hleaf hd)⟩

end Parent

/-- A place under a live department is refused if the way up from it meets more rows than the limit,
each counted once. Coming back to a row is no reason: then all else decides, as in a tree. -/
theorem guard_counts_rows (hp : sys.store.live? p = some q) (hq : q.entityType = .department) :
    (∀ a, sys.store.Path none limits.maxDepth a p →
      sys.store.Deep limits.maxDepth p ∨ sys.store.Returns p) ∧
    (sys.store.Deep limits.maxDepth p →
      (∀ r : CreateRequest, r.parent = some p →
        ∀ id sys', create limits ctx r sys ≠ (.ok id, sys')) ∧
      ∀ r : UpdateRequest, r.parentChanged = true → r.parent = some p →
        ∀ publication sys', update limits ctx r sys ≠ (.ok publication, sys')) ∧
    (ctx.isDone = false → p.isNil = false →
      (∀ r : CreateRequest, r.parent = some p →
        ((∃ id sys', create limits ctx r sys = (.ok id, sys')) ↔ r.Proper limits ∧
          ¬sys.store.Deep limits.maxDepth p ∧
          ∃ id, sys.ids.take.1 = .ok id ∧ id ∉ sys.store.ids)) ∧
      ∀ r : UpdateRequest, r.parentChanged = true → r.parent = some p →
        ((∃ publication sys', update limits ctx r sys = (.ok publication, sys')) ↔
          r.Movable limits sys.store p)) := by
  refine ⟨fun a => Store.deep_or_returns, fun hdeep => ⟨?_, ?_⟩, fun hc hnil => ⟨?_, ?_⟩⟩
  · intro r hr id sys' hcreate
    obtain ⟨-, -, -, hshallow, -⟩ := (create_under hp hq hr).mp ⟨id, sys', hcreate⟩
    exact hshallow hdeep
  · intro r hm hr publication sys' hupdate
    obtain ⟨-, -, hmovable⟩ := (update_under hp hq hm hr).mp ⟨publication, sys', hupdate⟩
    obtain ⟨e, he⟩ := hmovable.live
    exact hmovable.room.not_deep he hdeep
  · intro r hr
    rw [create_under hp hq hr]
    simp only [hc, hnil, true_and]
  · intro r hm hr
    rw [update_under hp hq hm hr]
    simp only [hc, hnil, true_and]

end Hierarchy

namespace Sample

def nest : CreateRequest where
  entityType := .department
  name := "Below"
  parent := some lone.id
  user := author

def hook : UpdateRequest where
  id := first.id
  name := "First"
  parentChanged := true
  parent := some lone.id
  user := author

theorem seen_rings {b : EntityId} {e : Entity} (h : rings.seen none b = some e) :
    b = e.id ∧ (e = first ∨ e = second ∨ e = lone) := by
  obtain ⟨hm, hid, -⟩ := Store.seen_eq_some.mp h
  exact ⟨hid.symm, by simpa [rings] using hm⟩

theorem over_lone {a : EntityId} (h : rings.Over a lone.id) : a = lone.id := by
  obtain ⟨k, hk⟩ := h
  induction k generalizing a with
  | zero => exact hk.eq_of_zero
  | succ k ih =>
    obtain ⟨b, e, hb, hl, hbp⟩ := hk.step_down
    obtain rfl := ih hbp
    obtain ⟨hid, rfl | rfl | rfl⟩ := seen_rings hb
    · exact absurd hid (by decide)
    · exact absurd hid (by decide)
    · exact (Option.some.inj hl).symm

theorem not_deep_lone {d : Nat} (hd : 1 ≤ d) : ¬rings.Deep d lone.id := by
  rintro ⟨ids, hnodup, hlen, hids⟩
  have hle : ids.length ≤ [lone.id].length := hnodup.length_le_of_subset fun a ha =>
    List.mem_singleton.mpr (over_lone (hids a ha))
  simp only [List.length_singleton] at hle
  omega

theorem live_lone : rings.live? lone.id = some lone := by decide +kernel

theorem live_first : rings.live? first.id = some first := by decide +kernel

theorem live_second : rings.live? second.id = some second := by decide +kernel

theorem returns_lone : rings.Returns lone.id := by
  have hlone : rings.seen none lone.id = some lone := Store.seen_none.trans live_lone
  exact ⟨lone.id, 0, ⟨0, .here hlone⟩, .child (.here hlone) hlone rfl⟩

theorem proper_nest : nest.Proper {} := ⟨by decide, by decide +kernel, by decide +kernel⟩

theorem room_hook : rings.Room 10 lone.id first.id := by
  have hfirst : rings.seen none first.id = some first := Store.seen_none.trans live_first
  have hsecond : rings.seen none second.id = some second := Store.seen_none.trans live_second
  have hbelow {k : Nat} {b : EntityId} (h : rings.Path none k first.id b) :
      b = first.id ∨ b = second.id := by
    induction k generalizing b with
    | zero => exact .inl h.eq_of_zero.symm
    | succ k ih =>
      cases h with
      | child h hb hl =>
        obtain ⟨rfl, rfl | rfl | rfl⟩ := seen_rings hb
        · exact .inl rfl
        · exact .inr rfl
        · obtain rfl := Option.some.inj hl
          exact absurd (ih h) (by decide)
  intro k b hb
  obtain ⟨hp, hmin⟩ := hb
  have hk : k ≤ 1 := by
    by_contra hlong
    rcases hbelow hp with rfl | rfl
    · exact hmin 0 (by omega) (.here hfirst)
    · exact hmin 1 (by omega) (.child (.here hfirst) hsecond rfl)
  exact ⟨by omega, not_deep_lone (by omega)⟩

theorem movable_hook : hook.Movable {} rings lone.id where
  id := by decide
  user := by decide
  name := by decide +kernel
  length := by decide +kernel
  live := ⟨first, live_first⟩
  apart := fun h => absurd (over_lone h) (by decide)
  room := room_hook
  version := fun _ => by decide +kernel
  leaf := by rintro ⟨⟩

theorem deep_shelf : tables.Deep 1 shelf.id := by
  have hlibrary : tables.seen none library.id = some library := by decide +kernel
  have hshelf : tables.seen none shelf.id = some shelf := by decide +kernel
  refine ⟨[library.id, shelf.id], by decide, by decide, fun a ha => ?_⟩
  have ha' : a = library.id ∨ a = shelf.id := by simpa using ha
  rcases ha' with rfl | rfl
  · exact ⟨1, .child (.here hlibrary) hshelf rfl⟩
  · exact ⟨0, .here hshelf⟩

end Sample

namespace Hierarchy

theorem guard_counts_rows_lone :
    Sample.rings.live? Sample.lone.id = some Sample.lone ∧ Sample.lone.entityType = .department ∧
    (∃ id sys', create {} .background Sample.nest ⟨Sample.rings, {}, ⟨3, 0⟩⟩ = (.ok id, sys')) ∧
    (∃ publication sys', update {} .background Sample.hook ⟨Sample.rings, {}, ⟨3, 0⟩⟩ =
      (.ok publication, sys')) ∧
    ∀ r : CreateRequest, r.parent = some Sample.shelf.id → ∀ id sys',
      create ⟨1, 255⟩ .background r ⟨Sample.tables, {}, ⟨3, 0⟩⟩ ≠ (.ok id, sys') := by
  have hlone : (⟨Sample.rings, {}, ⟨3, 0⟩⟩ : System).store.live? Sample.lone.id =
      some Sample.lone := Sample.live_lone
  have hshelf : (⟨Sample.tables, {}, ⟨3, 0⟩⟩ : System).store.live? Sample.shelf.id =
      some Sample.shelf := by decide +kernel
  obtain ⟨-, -, hplace⟩ := @guard_counts_rows {} .background _ _ _ hlone rfl
  obtain ⟨-, hrefuse, -⟩ := @guard_counts_rows ⟨1, 255⟩ .background _ _ _ hshelf rfl
  obtain ⟨hcreate, hupdate⟩ := hplace rfl (by decide)
  refine ⟨Sample.live_lone, rfl, (hcreate Sample.nest rfl).mpr ⟨Sample.proper_nest, ?_, ?_⟩,
    (hupdate Sample.hook rfl rfl).mpr Sample.movable_hook, (hrefuse Sample.deep_shelf).1⟩
  · exact Sample.not_deep_lone (by decide)
  · exact ⟨⟨Uuid.ofNat 4⟩, by decide +kernel, by decide +kernel⟩

/-- A department that is its own parent takes what is created or moved under it. -/
theorem lone_takes_more : ¬∀ (limits : Limits) (ctx : Context) (sys : System) (p : EntityId)
    (q : Entity), limits.validate = .ok () → sys.store.live? p = some q →
    q.entityType = .department → sys.store.Deep limits.maxDepth p ∨ sys.store.Returns p →
    (∀ r : CreateRequest, r.parent = some p →
      ∀ id sys', create limits ctx r sys ≠ (.ok id, sys')) ∧
    ∀ r : UpdateRequest, r.parentChanged = true → r.parent = some p →
      ∀ publication sys', update limits ctx r sys ≠ (.ok publication, sys') := by
  intro h
  have hlone : (⟨Sample.rings, {}, ⟨3, 0⟩⟩ : System).store.live? Sample.lone.id =
      some Sample.lone := Sample.live_lone
  obtain ⟨hcreate, -⟩ := h {} .background ⟨Sample.rings, {}, ⟨3, 0⟩⟩ Sample.lone.id Sample.lone
    rfl hlone rfl (.inr Sample.returns_lone)
  have hnest : Sample.nest.parent = some Sample.lone.id := rfl
  obtain ⟨id, sys', hok⟩ := (create_under hlone rfl hnest).mpr
    ⟨rfl, by decide, Sample.proper_nest, Sample.not_deep_lone (by decide), ⟨Uuid.ofNat 4⟩,
      by decide +kernel, by decide +kernel⟩
  exact hcreate Sample.nest rfl id sys' hok

end Hierarchy

end KnowledgeTree
