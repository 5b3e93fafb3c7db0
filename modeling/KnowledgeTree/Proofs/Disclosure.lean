import KnowledgeTree.Http.Action
import KnowledgeTree.Proofs.Deletion
import KnowledgeTree.Proofs.Drafts

/-!
What a deletion tells its caller. The permission is worked out on what the caller sees, but the
subtree is deleted and answered as a whole, with the drafts of other users in it.
-/

namespace KnowledgeTree

variable {limits : Limits} {ctx : Context} {sys sys' : System} {s : Store} {caller : Caller}
  {role : String} {user : UserId} {capability : Capability} {n : Nat} {a b id : EntityId}
  {ids : List EntityId} {e : Entity}

namespace Store

def Hides (s : Store) (user : UserId) (d : EntityId) : Prop :=
  ∃ e, s.live? d = some e ∧ ¬e.ShownTo user

theorem not_hides_of_seen (h : s.seen (some user) a = some e) : ¬s.Hides user a := by
  rintro ⟨f, hf, hs⟩
  cases (live?_of_seen h).symm.trans hf
  exact hs (row?_of_seen h).2

theorem Path.seen_or_hidden (user : UserId) (h : s.Path none n a b) : s.Path (some user) n a b ∨
    ∃ d i j, s.Path none i a d ∧ s.Path none j d b ∧ s.Hides user d := by
  induction h with
  | @here a e ha =>
    by_cases hs : e.ShownTo user
    · exact .inl (.here (seen_of_live (seen_none.symm.trans ha) hs))
    · exact .inr ⟨a, 0, 0, .here ha, .here ha, e, seen_none.symm.trans ha, hs⟩
  | @child n a p b e hp hb hl ih =>
    rcases ih with ih | ⟨d, i, j, hi, hj, hd⟩
    · by_cases hs : e.ShownTo user
      · exact .inl (ih.child (seen_of_live (seen_none.symm.trans hb) hs) hl)
      · exact .inr ⟨b, n + 1, 0, hp.child hb hl, .here hb, e, seen_none.symm.trans hb, hs⟩
    · exact .inr ⟨d, i, j + 1, hi, hj.child hb hl, hd⟩

theorem Under.path (h : s.Under role user capability a) (hp : s.Path (some user) n a b) :
    s.Under role user capability b := by
  obtain ⟨g, m, hg, hpath⟩ := h
  exact ⟨g, m + n, hg, hpath.trans hp⟩

theorem not_hides_of_inScope (h : s.InScope role user capability a) : ¬s.Hides user a := by
  rcases h with ⟨g, n, -, hp⟩ | ⟨-, g, n, -, hp⟩
  · obtain ⟨e, he⟩ := hp.bottom
    exact not_hides_of_seen he
  · obtain ⟨e, he⟩ := hp.top
    exact not_hides_of_seen he

end Store

namespace Service

/-- In all reachable tables, a caller who is not an administrator and deletes an entity is told all
live entities at and below it. Each of them is one that the caller could write or it lies at or
below a draft of another user that is named as well; so the answer keeps to what the caller could
write just if there is no such draft. -/
theorem delete_discloses (h : CoreReachable limits sys.store)
    (hn : ∀ r, sys.store.role? (Text.trim caller.role) = some r → r.isAdmin = false)
    (hd : delete limits ctx caller id sys = (.ok ids, sys')) :
    ∃ writable, Access.effectivePermissions limits ctx caller .write sys.store =
        .ok (.only writable) ∧ id ∈ writable ∧
      (Http.Action.delete caller id).perform limits ctx sys =
        (.json 200 (.record [("deleted", Http.idsForm ids)]), sys') ∧
      (∀ a, a ∈ ids ↔ ∃ k, sys.store.Path none k id a) ∧
      (∀ a ∈ ids, a ∈ writable ∨
        ∃ d ∈ ids, sys.store.Hides caller.user d ∧ ∃ k, sys.store.Path none k d a) ∧
      ((∀ a ∈ ids, a ∈ writable) ↔ ∀ a ∈ ids, ¬sys.store.Hides caller.user a) := by
  obtain ⟨hpermit, hdelete⟩ := guarded_eq_ok.mp hd
  obtain ⟨hp, hin⟩ := permitDelete_cases hn hpermit
  have hf := h.isForest
  have hmem (a : EntityId) : a ∈ ids ↔ ∃ k, sys.store.Path none k id a :=
    Hierarchy.mem_deleted hf hdelete
  have hbelow : ∀ a ∈ ids,
      a ∈ sys.store.scope limits (Text.trim caller.role) caller.user .write ∨
        ∃ d ∈ ids, sys.store.Hides caller.user d ∧ ∃ k, sys.store.Path none k d a := by
    intro a ha
    obtain ⟨k, hk⟩ := (hmem a).mp ha
    rcases hk.seen_or_hidden caller.user with hseen | ⟨d, i, j, hi, hj, hd⟩
    · rw [hf.mem_scope, Store.under_write] at hin ⊢
      exact .inl (hin.path hseen)
    · exact .inr ⟨d, (hmem d).mpr ⟨i, hi⟩, hd, j, hj⟩
  refine ⟨_, hp, hin, ?_, hmem, hbelow, fun hall a ha => ?_, fun hall a ha => ?_⟩
  · rw [Http.Action.perform, hd]
    rfl
  · exact Store.not_hides_of_inScope (hf.mem_scope.mp (hall a ha))
  · refine (hbelow a ha).resolve_right ?_
    rintro ⟨d, hd, hhidden, -⟩
    exact hall d hd hhidden

end Service

namespace Sample

theorem colleague_not_admin :
    ∀ r, tables.role? (Text.trim colleague.role) = some r → r.isAdmin = false := by
  intro r hr
  rw [show Text.trim colleague.role = "editor" from trim_editor, editors] at hr
  cases hr
  rfl

theorem path_notes : tables.Path none 1 shelf.id notes.id := by
  have hshelf : tables.seen none shelf.id = some shelf := rfl
  have hnotes : tables.seen none notes.id = some notes := rfl
  exact .child (.here hshelf) hnotes rfl

theorem hides_notes : tables.Hides colleague.user notes.id :=
  ⟨notes, live_notes, notes.not_shown rfl notes_not_of_colleague⟩

theorem exists_delete_shelf : ∃ ids sys', Service.delete {} .background colleague shelf.id
    { store := tables } = (.ok ids, sys') := by
  have hid : shelf.id.isNil = false := by decide +kernel
  have hu : colleague.user.isNil = false := by decide +kernel
  have hs : CoreReachable {} ({ store := tables } : System).store := reachable_tables
  have hp : Access.effectivePermissions {} .background colleague .write
      ({ store := tables } : System).store = .ok _ := effectivePermissions_editors hu .write
  obtain ⟨ids, hd⟩ := (Service.exists_delete hs.isForest hp hid).mpr
    (shelf_in_scope colleague.user .write)
  exact ⟨ids, _, Prod.ext hd rfl⟩

end Sample

namespace Service

open Sample

theorem delete_discloses_shelf : CoreReachable {} tables ∧
    (∀ r, tables.role? (Text.trim colleague.role) = some r → r.isAdmin = false) ∧
    ∃ ids sys', delete {} .background colleague shelf.id { store := tables } = (.ok ids, sys') ∧
      ∃ writable, Access.effectivePermissions {} .background colleague .write tables =
          .ok (.only writable) ∧ shelf.id ∈ writable ∧ ¬∀ a ∈ ids, a ∈ writable := by
  obtain ⟨ids, sys', hd⟩ := exists_delete_shelf
  have hs : CoreReachable {} ({ store := tables } : System).store := reachable_tables
  obtain ⟨writable, hp, hin, -, hmem, -, hiff⟩ := delete_discloses hs colleague_not_admin hd
  refine ⟨reachable_tables, colleague_not_admin, ids, sys', hd, writable, hp, hin, fun hall => ?_⟩
  exact hiff.mp hall notes.id ((hmem _).mpr ⟨1, path_notes⟩) hides_notes

/-- A colleague who deletes the shelf is told of the notes on it. -/
theorem shelf_names_notes : CoreReachable {} tables ∧
    (∀ r, tables.role? (Text.trim colleague.role) = some r → r.isAdmin = false) ∧
    tables.live? notes.id = some notes ∧ notes.publication = .draft ∧
    notes.createdBy ≠ colleague.user ∧
    ∃ ids sys', delete {} .background colleague shelf.id { store := tables } = (.ok ids, sys') ∧
      notes.id ∈ ids ∧ ∃ writable,
        Access.effectivePermissions {} .background colleague .write tables =
          .ok (.only writable) ∧ notes.id ∉ writable := by
  obtain ⟨ids, sys', hd⟩ := exists_delete_shelf
  have hf := reachable_tables.isForest
  obtain ⟨-, hdelete⟩ := guarded_eq_ok.mp hd
  have hnamed : notes.id ∈ ids := (Hierarchy.mem_deleted hf hdelete).mpr ⟨1, path_notes⟩
  have hu : colleague.user.isNil = false := by decide +kernel
  have hp := effectivePermissions_editors hu .write
  refine ⟨reachable_tables, colleague_not_admin, live_notes, rfl, notes_not_of_colleague, ids, sys',
    hd, hnamed, _, hp, fun hin => ?_⟩
  exact Store.not_hides_of_inScope (hf.mem_scope.mp hin) hides_notes

end Service

end KnowledgeTree
