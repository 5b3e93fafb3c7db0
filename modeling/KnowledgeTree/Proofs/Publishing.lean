import KnowledgeTree.Proofs.Drafts

/-!
What publishing a draft would bring into a caller's permissions, against what the refusal to a
caller who does not see it goes by: where the parent of the draft stands.
-/

namespace KnowledgeTree

variable {limits : Limits} {ctx : Context} {sys : System} {s s' : Store} {caller : Caller}
  {role : String} {user : UserId} {capability : Capability} {v : VersionNumber} {d n : Nat}
  {a b p x id : EntityId} {e f : Entity}

def Entity.publish (v : VersionNumber) (e : Entity) : Entity :=
  { e with publication := .published v }

namespace Store

def Overlooks (s : Store) (role : String) (user : UserId) (x : EntityId) : Prop :=
  ∃ g n, s.Granted role .read g ∧ s.Path (some user) n x g

/-- The role has a grant on the entity itself or, for reading, on one below it that the user sees
all the way from a child of the entity. -/
def Claimed (s : Store) (role : String) (user : UserId) (capability : Capability)
    (x : EntityId) : Prop :=
  s.Granted role capability x ∨ capability = .read ∧
    ∃ b f, s.seen (some user) b = some f ∧ f.parent = some x ∧ s.Overlooks role user b

structure Revealed (s s' : Store) (d : Nat) (user : UserId) (x : EntityId) (f : Entity) : Prop where
  isForest : s'.IsForest d
  hidden : s.seen (some user) x = none
  shown : s'.seen (some user) x = some f
  rest : ∀ b, b ≠ x → s'.seen (some user) b = s.seen (some user) b
  grants : s'.grants = s.grants

namespace Revealed

variable (h : s.Revealed s' d user x f)

include h

theorem granted : s'.Granted role capability a ↔ s.Granted role capability a := by
  rw [Granted, Granted, h.grants]

theorem seen (hb : s.seen (some user) b = some e) : s'.seen (some user) b = some e := by
  have hne : b ≠ x := by
    rintro rfl
    rw [h.hidden] at hb
    cases hb
  rw [h.rest b hne, hb]

theorem path (hp : s.Path (some user) n a b) : s'.Path (some user) n a b := by
  induction hp with
  | here ha => exact .here (h.seen ha)
  | child _ hb hl ih => exact .child ih (h.seen hb) hl

theorem path_cases (hp : s'.Path (some user) n a b) : s.Path (some user) n a b ∨
    ∃ i j, s'.Path (some user) i a x ∧ s'.Path (some user) j x b := by
  induction hp with
  | @here a e ha =>
    by_cases heq : a = x
    · subst heq
      exact .inr ⟨0, 0, .here ha, .here ha⟩
    · rw [h.rest a heq] at ha
      exact .inl (.here ha)
  | @child n a p b e hp hb hl ih =>
    by_cases heq : b = x
    · subst heq
      exact .inr ⟨n + 1, 0, hp.child hb hl, .here hb⟩
    · rcases ih with ih | ⟨i, j, hi, hj⟩
      · rw [h.rest b heq] at hb
        exact .inl (ih.child hb hl)
      · exact .inr ⟨i, j + 1, hi, hj.child hb hl⟩

theorem not_cycle : ¬s'.Path (some user) (n + 1) x x := by
  obtain ⟨m, -, hr⟩ := h.isForest.rooted (live?_of_seen h.shown)
  exact fun hp => hr.not_cycle hp.live

theorem under_iff : s'.Under role user capability x ↔ s.Granted role capability x ∨
    ∃ p, f.parent = some p ∧ s.Under role user capability p := by
  constructor
  · rintro ⟨g, n, hg, hp⟩
    cases hp with
    | here _ => exact .inl (h.granted.mp hg)
    | @child n _ p _ e hp hx hl =>
      cases h.shown.symm.trans hx
      refine .inr ⟨p, hl, g, n, h.granted.mp hg, (h.path_cases hp).resolve_right ?_⟩
      rintro ⟨i, j, -, hj⟩
      exact h.not_cycle (hj.child hx hl)
  · rintro (hg | ⟨p, hl, g, n, hg, hp⟩)
    · exact ⟨x, 0, h.granted.mpr hg, .here h.shown⟩
    · exact ⟨g, n + 1, h.granted.mpr hg, (h.path hp).child h.shown hl⟩

theorem overlooks_iff : s'.Overlooks role user x ↔ s.Granted role .read x ∨
    ∃ b e, s.seen (some user) b = some e ∧ e.parent = some x ∧ s.Overlooks role user b := by
  constructor
  · rintro ⟨g, n, hg, hp⟩
    cases n with
    | zero =>
      obtain rfl := hp.eq_of_zero
      exact .inl (h.granted.mp hg)
    | succ n =>
      obtain ⟨b, e, hb, hl, hp⟩ := hp.step_down
      have hstep : s'.Path (some user) (0 + 1) x b := .child (.here h.shown) hb hl
      have hne : b ≠ x := by
        rintro rfl
        exact h.not_cycle hstep
      have hold : s.Path (some user) n b g := by
        refine (h.path_cases hp).resolve_right ?_
        rintro ⟨i, j, hi, -⟩
        exact h.not_cycle (hi.prepend h.shown hb hl)
      rw [h.rest b hne] at hb
      exact .inr ⟨b, e, hb, hl, g, n, h.granted.mp hg, hold⟩
  · rintro (hg | ⟨b, e, hb, hl, g, n, hg, hp⟩)
    · exact ⟨x, 0, h.granted.mpr hg, .here h.shown⟩
    · exact ⟨g, n + 1, h.granted.mpr hg, (h.path hp).prepend h.shown (h.seen hb) hl⟩

theorem inScope_iff : s'.InScope role user capability x ↔ s.Claimed role user capability x ∨
    ∃ p, f.parent = some p ∧ s.Under role user capability p := by
  have hscope : s'.InScope role user capability x ↔
      s'.Under role user capability x ∨ capability = .read ∧ s'.Overlooks role user x := Iff.rfl
  rw [hscope, h.under_iff, h.overlooks_iff, Claimed]
  constructor
  · rintro ((hg | hup) | ⟨rfl, hg | hdown⟩)
    · exact .inl (.inl hg)
    · exact .inr hup
    · exact .inl (.inl hg)
    · exact .inl (.inr ⟨rfl, hdown⟩)
  · rintro ((hg | ⟨rfl, hdown⟩) | hup)
    · exact .inl (.inl hg)
    · exact .inr ⟨rfl, .inr hdown⟩
    · exact .inl (.inr hup)

end Revealed

/-! Publishing -/

def publish (s : Store) (id : EntityId) (v : VersionNumber) : Store :=
  s.adjust (·.id == id) (Entity.publish v)

theorem row?_publish (hx : s.live? x = some e) :
    (s.publish x v).row? b = if b = x then some (e.publish v) else s.row? b :=
  row?_adjust_id (Entity.publish v) hx

theorem IsForest.publish (h : s.IsForest d) (hx : s.live? x = some e) :
    (s.publish x v).IsForest d := by
  obtain ⟨-, -, hl⟩ := live?_eq_some.mp hx
  refine h.edit_same (f := e.publish v) hx (fun b => ?_) rfl rfl
  rw [live?, row?_publish hx]
  split
  · rw [Option.filter_some, if_pos (show (e.publish v).isLive = true from hl)]
  · rfl

theorem IsForest.revealed (h : s.IsForest d) (hx : s.live? x = some e) (hs : ¬e.ShownTo user) :
    s.Revealed (s.publish x v) d user x (e.publish v) := by
  obtain ⟨hm, hid, hl⟩ := live?_eq_some.mp hx
  refine ⟨h.publish hx, seen_of_hidden (row?_eq_some.mpr ⟨hm, hid⟩) hs, ?_, fun b hb => ?_, rfl⟩
  · have hv : (e.publish v).isVisibleTo (some user) = true :=
      Entity.isVisibleTo_iff.mpr ⟨hl, .inl nofun⟩
    rw [Store.seen, row?_publish hx, if_pos rfl, Option.filter_some, if_pos hv]
  · rw [Store.seen, row?_publish hx, if_neg hb, Store.seen]

end Store

section Permissions

variable {ids : List EntityId} (h : s.IsForest limits.maxDepth)
  (hp : Access.effectivePermissions limits ctx caller capability s = .ok (.only ids))

include h hp

theorem Access.parent_contained_iff : e.parent.any ids.contains = true ↔
    (∃ p, e.parent = some p ∧ s.Under (Text.trim caller.role) caller.user capability p) ∨
      capability = .read ∧
        ∃ p, e.parent = some p ∧ s.Overlooks (Text.trim caller.role) caller.user p := by
  rw [Access.eq_scope hp]
  simp only [Option.any_eq_true, List.contains_iff_mem, h.mem_scope]
  constructor
  · rintro ⟨p, hl, hup | ⟨hread, hdown⟩⟩
    · exact .inl ⟨p, hl, hup⟩
    · exact .inr ⟨hread, p, hl, hdown⟩
  · rintro (⟨p, hl, hup⟩ | ⟨hread, p, hl, hdown⟩)
    · exact ⟨p, hl, .inl hup⟩
    · exact ⟨p, hl, .inr ⟨hread, hdown⟩⟩

theorem Access.effectivePermissions_publish (he : s.live? id = some e)
    (hs : ¬e.ShownTo caller.user) :
    ∃ would, Access.effectivePermissions limits ctx caller capability (s.publish id v) =
        .ok (.only would) ∧
      (id ∈ would ↔ s.Claimed (Text.trim caller.role) caller.user capability id ∨
        ∃ p, e.parent = some p ∧ s.Under (Text.trim caller.role) caller.user capability p) := by
  refine ⟨_, Access.effectivePermissions_of_roles hp rfl, ?_⟩
  rw [(h.publish he).mem_scope]
  exact (h.revealed he hs).inScope_iff

end Permissions

namespace Service

/-- In all reachable tables, what a caller who is not an administrator asks about a draft of another
user is answered by the parent of the draft alone: the draft is missing if the caller's permissions
extend to the parent, and forbidden otherwise. Going by the permissions that the caller would have
if the draft were published gives the same answer just where grants come down to the parent, or else
where a grant on the draft or below it and one below the parent are both there or both not. -/
theorem hidden_reply_by_parent (h : CoreReachable limits sys.store) (c : EntityCall)
    {ids : List EntityId}
    (hp : Access.effectivePermissions limits ctx caller c.needs sys.store = .ok (.only ids))
    (he : sys.store.live? id = some e) (hd : e.publication = .draft)
    (hu : e.createdBy ≠ caller.user) (v : VersionNumber) :
    let role := Text.trim caller.role
    let reachesParent := ∃ p, e.parent = some p ∧ sys.store.Under role caller.user c.needs p
    ∃ would, Access.effectivePermissions limits ctx caller c.needs (sys.store.publish id v) =
        .ok (.only would) ∧
      (id ∈ would ↔ sys.store.Claimed role caller.user c.needs id ∨ reachesParent) ∧
      c.reply limits ctx caller id sys = .error
        (if e.parent.any ids.contains then .entityNotFound id else .forbidden c.needs id) ∧
      (c.reply limits ctx caller id sys = .error
          (if id ∈ would then .entityNotFound id else .forbidden c.needs id) ↔
        reachesParent ∨ (sys.store.Claimed role caller.user c.needs id ↔
          c.needs = .read ∧ ∃ p, e.parent = some p ∧ sys.store.Overlooks role caller.user p)) := by
  intro role reachesParent
  have hf := h.isForest
  have hreply := reply_of_hidden h hp he hd hu
  have hparent : e.parent.any ids.contains = true ↔ reachesParent ∨
      c.needs = .read ∧ ∃ p, e.parent = some p ∧ sys.store.Overlooks role caller.user p :=
    Access.parent_contained_iff hf hp
  obtain ⟨would, hwould, hmem⟩ : ∃ would, _ ∧
      (id ∈ would ↔ sys.store.Claimed role caller.user c.needs id ∨ reachesParent) :=
    Access.effectivePermissions_publish hf hp he (e.not_shown hd hu)
  have hsame : c.reply limits ctx caller id sys = .error
      (if id ∈ would then .entityNotFound id else .forbidden c.needs id) ↔
        (e.parent.any ids.contains = true ↔ id ∈ would) := by
    rw [hreply]
    by_cases hin : id ∈ would <;> cases e.parent.any ids.contains <;> simp [hin]
  refine ⟨would, hwould, hmem, hreply, ?_⟩
  rw [hsame, hparent, hmem]
  -- where grants come down to the parent, the draft is in reach and its parent is in scope
  by_cases hup : reachesParent
  · simp only [hup, true_or, or_true]
  · simp only [hup, false_or, or_false]
    exact iff_comm

end Service

namespace Sample

def outline : Entity := Entity.make ⟨.department, "Outline", "", none, author⟩ ⟨Uuid.ofNat 1⟩ .draft
  ⟨0, 0⟩

def outlined : Store where
  entities := [outline]
  nodup := by decide

def drawer : Store :=
  { outlined with roles := [⟨"editor", false⟩], grants := [⟨"editor", outline.id, .write⟩] }

theorem reachable_drawer : CoreReachable {} drawer := by
  have hdraft : (CoreCall.run {} .background { store := .empty }
      (.create { entityType := .department, name := "Outline", isDraft := true,
                 user := author })).store = outlined := by cbv
  have hgrant : (CoreCall.runAll {} .background
      [.upsertRole "editor" false, .grant "editor" outline.id .write]
      { store := outlined }).store = drawer := by decide +kernel
  have h : CoreReachable {} outlined := hdraft ▸ CoreReachable.call (.empty rfl) _ _
  rw [← hgrant]
  exact CoreReachable.runAll h _ _

end Sample

namespace Service

open Sample

theorem hidden_reply_by_parent_notes : CoreReachable {} tables ∧
    tables.live? notes.id = some notes ∧ notes.publication = .draft ∧
    notes.createdBy ≠ colleague.user ∧
    (∃ ids, Access.effectivePermissions {} .background colleague .write tables = .ok (.only ids)) ∧
    ∃ would, Access.effectivePermissions {} .background colleague .write
        (tables.publish notes.id .first) = .ok (.only would) ∧ notes.id ∈ would ∧
      EntityCall.delete.reply {} .background colleague notes.id { store := tables } =
        .error (.entityNotFound notes.id) := by
  have hs : CoreReachable {} ({ store := tables } : System).store := reachable_tables
  have hu : colleague.user.isNil = false := by decide +kernel
  have hp := effectivePermissions_editors hu .write
  have hgrant : ⟨"editor", shelf.id, .write⟩ ∈ tables.grants := by decide +kernel
  have hup : ∃ p, notes.parent = some p ∧ tables.Under "editor" colleague.user .write p :=
    ⟨shelf.id, rfl, shelf.id, 0, Store.granted_write.mpr hgrant, .here rfl⟩
  rw [← trim_editor] at hup
  obtain ⟨would, hwould, hmem, -, hsame⟩ :=
    hidden_reply_by_parent hs .delete hp live_notes rfl notes_not_of_colleague .first
  have hin : notes.id ∈ would := hmem.mpr (.inr hup)
  have hreply := hsame.mpr (.inl hup)
  rw [if_pos hin] at hreply
  exact ⟨reachable_tables, live_notes, rfl, notes_not_of_colleague, ⟨_, hp⟩, would, hwould, hin,
    hreply⟩

/-- A grant on a draft reaches it, and yet the draft is forbidden to the role and not missing. -/
theorem outline_forbidden : CoreReachable {} drawer ∧ drawer.live? outline.id = some outline ∧
    outline.publication = .draft ∧ outline.createdBy ≠ colleague.user ∧
    (∃ ids, Access.effectivePermissions {} .background colleague .write drawer = .ok (.only ids)) ∧
    ∃ would, Access.effectivePermissions {} .background colleague .write
        (drawer.publish outline.id .first) = .ok (.only would) ∧ outline.id ∈ would ∧
      EntityCall.delete.reply {} .background colleague outline.id { store := drawer } ≠
        .error (.entityNotFound outline.id) := by
  have hs : CoreReachable {} ({ store := drawer } : System).store := reachable_drawer
  have hlive : drawer.live? outline.id = some outline := rfl
  have hother : outline.createdBy ≠ colleague.user := by decide +kernel
  have hr : drawer.role? (Text.trim colleague.role) = some ⟨"editor", false⟩ := by decide +kernel
  have hp : Access.effectivePermissions {} .background colleague .write drawer = .ok _ :=
    reachable_drawer.effectivePermissions_eq rfl (by decide +kernel) hr
  have hgrant : ⟨"editor", outline.id, .write⟩ ∈ drawer.grants := by decide +kernel
  obtain ⟨would, hwould, hmem⟩ := Access.effectivePermissions_publish (v := .first)
    reachable_drawer.isForest hp hlive (outline.not_shown rfl hother)
  have hclaimed : drawer.Claimed (Text.trim colleague.role) colleague.user .write outline.id := by
    rw [(Store.role?_name hr).2.symm]
    exact .inl (Store.granted_write.mpr hgrant)
  have hreply : EntityCall.delete.reply {} .background colleague outline.id { store := drawer } =
      .error (.forbidden .write outline.id) :=
    reply_of_hidden (c := .delete) hs hp hlive rfl hother
  have hin : outline.id ∈ would := hmem.mpr (.inl hclaimed)
  refine ⟨reachable_drawer, hlive, rfl, hother, ⟨_, hp⟩, would, hwould, hin, ?_⟩
  rw [hreply]
  simp

end Service

end KnowledgeTree
