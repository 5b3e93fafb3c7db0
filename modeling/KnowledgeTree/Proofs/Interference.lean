import KnowledgeTree.Proofs.Failure

/-!
Mutations between whose requests other clients act. Those that do not restructure the tree only add
roots and rewrite what entities say about themselves. What a restructuring mutation has checked
survives that, so its own write still keeps the shape of the tree.
-/

namespace KnowledgeTree

variable {α β : Type} {limits : Limits} {s s' t : Store} {d k n : Nat} {a p x : EntityId}
  {e f : Entity}

namespace Store

/-! Changes that do not restructure the tree -/

/-- Live entities stay live where they are, and what becomes live is a root department. -/
structure Drifts (s s' : Store) : Prop where
  kept : ∀ {a e}, s.live? a = some e →
    ∃ e', s'.live? a = some e' ∧ e'.entityType = e.entityType ∧ e'.parent = e.parent
  origin : ∀ {a e'}, s'.live? a = some e' → e'.entityType = .department ∧ e'.parent = none ∨
    ∃ e, s.live? a = some e ∧ e'.entityType = e.entityType ∧ e'.parent = e.parent

namespace Drifts

theorem refl (s : Store) : s.Drifts s :=
  ⟨fun {_ e} h => ⟨e, h, rfl, rfl⟩, fun {_ e} h => .inr ⟨e, h, rfl, rfl⟩⟩

theorem trans (h : s.Drifts s') (h' : s'.Drifts t) : s.Drifts t := by
  refine ⟨fun he => ?_, fun he => ?_⟩
  · obtain ⟨e', he', ht, hp⟩ := h.kept he
    obtain ⟨e'', he'', ht', hp'⟩ := h'.kept he'
    exact ⟨e'', he'', ht'.trans ht, hp'.trans hp⟩
  · rcases h'.origin he with hroot | ⟨e', he', ht', hp'⟩
    · exact .inl hroot
    · rcases h.origin he' with ⟨ht, hp⟩ | ⟨e'', he'', ht, hp⟩
      · exact .inl ⟨ht'.trans ht, hp'.trans hp⟩
      · exact .inr ⟨e'', he'', ht'.trans ht, hp'.trans hp⟩

theorem of_live (hl : ∀ b, s'.live? b = if b = a then some f else s.live? b)
    (hnew : s.live? a = none → f.entityType = .department ∧ f.parent = none)
    (hold : ∀ e, s.live? a = some e → f.entityType = e.entityType ∧ f.parent = e.parent) :
    s.Drifts s' := by
  refine ⟨fun {b e} he => ?_, fun {b e'} he => ?_⟩
  · by_cases hb : b = a
    · subst hb
      exact ⟨f, by rw [hl, if_pos rfl], hold e he⟩
    · exact ⟨e, by rw [hl, if_neg hb, he], rfl, rfl⟩
  · rw [hl] at he
    split at he
    · next hb =>
      subst hb
      cases he
      cases hs : s.live? b with
      | none => exact .inl (hnew hs)
      | some e => exact .inr ⟨e, rfl, hold e hs⟩
    · exact .inr ⟨e', he, rfl, rfl⟩

variable (h : s.Drifts s')

include h

theorem rooted (hr : s.Rooted n a) : s'.Rooted n a := by
  refine hr.transfer (K := fun _ => True) (fun a e ha _ => ?_) (fun _ _ _ _ _ _ => trivial) trivial
  obtain ⟨e', he, -, hp⟩ := h.kept ha
  exact ⟨e', he, hp⟩

theorem path (hx : s.live? x = some e) : s'.Path none k x a ↔ s.Path none k x a := by
  constructor
  · intro hp
    generalize hy : x = y at hp
    induction hp with
    | here _ => subst hy; exact .here (seen_none.trans hx)
    | child _ hb hp ih =>
      rcases h.origin (seen_none.symm.trans hb) with ⟨-, hroot⟩ | ⟨f, hf, -, hpf⟩
      · rw [hp] at hroot
        cases hroot
      · exact .child (ih hy) (seen_none.trans hf) (hpf.symm.trans hp)
  · intro hp
    induction hp with
    | here ha =>
      obtain ⟨e', he, -, -⟩ := h.kept (seen_none.symm.trans ha)
      exact .here (seen_none.trans he)
    | child _ hb hp ih =>
      obtain ⟨e', he, -, hpe⟩ := h.kept (seen_none.symm.trans hb)
      exact .child (ih hx) (seen_none.trans he) (hpe.trans hp)

theorem isForest (hs : s.IsForest d) : s'.IsForest d := by
  refine ⟨fun ha hp => ?_, fun ha ht hp => ?_, fun ha => ?_⟩
  · rcases h.origin ha with ⟨-, hroot⟩ | ⟨f, hf, -, hpf⟩
    · rw [hp] at hroot
      cases hroot
    · obtain ⟨q, hq, hd⟩ := hs.parent_department hf (hpf.symm.trans hp)
      obtain ⟨q', hq', ht, -⟩ := h.kept hq
      exact ⟨q', hq', ht.trans hd⟩
  · rcases h.origin ha with ⟨hd, -⟩ | ⟨f, hf, htf, hpf⟩
    · rw [ht] at hd
      cases hd
    · exact hs.article_has_parent hf (htf.symm.trans ht) (hpf.symm.trans hp)
  · rcases h.origin ha with ⟨-, hroot⟩ | ⟨f, hf, -, -⟩
    · exact ⟨0, Nat.zero_le d, .root ha hroot⟩
    · obtain ⟨n, hn, hr⟩ := hs.rooted hf
      exact ⟨n, hn, h.rooted hr⟩

theorem open_ {ty : EntityType} {parent : Option EntityId} (ho : s.Open d ty parent) :
    s'.Open d ty parent := by
  cases parent with
  | none => exact ho
  | some p =>
    obtain ⟨q, n, hq, hd, hr, hn⟩ := ho
    obtain ⟨q', hq', ht, -⟩ := h.kept hq
    exact ⟨q', n, hq', ht.trans hd, h.rooted hr, hn⟩

end Drifts

def Fits (s : Store) (d : Nat) (x : EntityId) (place : Option (Option EntityId)) : Prop :=
  ∀ parent, place = some parent → ∃ e, s.live? x = some e ∧ s.OpenTo d x e.entityType parent

theorem Drifts.fits {place : Option (Option EntityId)} (h : s.Drifts s') (hf : s.Fits d x place) :
    s'.Fits d x place := by
  intro parent hplace
  obtain ⟨e, he, ho⟩ := hf parent hplace
  obtain ⟨e', he', ht, -⟩ := h.kept he
  refine ⟨e', he', ?_⟩
  rw [ht]
  cases parent with
  | none => exact ho
  | some p =>
    obtain ⟨q, n, hq, hd, hr, hcycle, hroom⟩ := ho
    obtain ⟨q', hq', htq, -⟩ := h.kept hq
    refine ⟨q', n, hq', htq.trans hd, h.rooted hr, fun k hk => ?_, fun k a hk => ?_⟩
    · exact hcycle k ((h.path he).mp hk)
    · exact hroom k a ((h.path he).mp hk)

/-! Single changes -/

theorem Added.live? (h : Added s s' e) (hl : e.isLive = true) (b : EntityId) :
    s'.live? b = if b = e.id then some e else s.live? b := by
  have hv : e.isVisibleTo none = true := by rw [Entity.isVisibleTo, hl]; rfl
  rw [← seen_none, ← seen_none, seen_append h.entities h.fresh, if_pos hv]

theorem Added.isForest (h : Added s s' e) (hl : e.isLive = true) (hs : s.IsForest d)
    (ho : s.Open d e.entityType e.parent) : s'.IsForest d :=
  hs.insert h.fresh (h.live? hl) ho

theorem Added.drifts (h : Added s s' e) (hl : e.isLive = true) (ht : e.entityType = .department)
    (hp : e.parent = none) : s.Drifts s' := by
  refine Drifts.of_live (h.live? hl) (fun _ => ⟨ht, hp⟩) fun f hf => ?_
  obtain ⟨hm, hid, -⟩ := live?_eq_some.mp hf
  exact absurd (hid ▸ List.mem_map_of_mem hm) h.fresh

theorem Edited.live? (h : Edited s s' e f) (hl : f.isLive = true) (b : EntityId) :
    s'.live? b = if b = e.id then some f else s.live? b := by
  have hv : f.isVisibleTo none = true := by rw [Entity.isVisibleTo, hl]; rfl
  rw [← seen_none, h.seen, if_pos hv, seen_none]

theorem Edited.isForest {changes : EntityChanges} {publication : Publication} {now : Time}
    (h : Edited s s' e (e.edit changes publication now)) (hs : s.IsForest d)
    (hf : s.Fits d e.id changes.parent) : s'.IsForest d := by
  have hl : (e.edit changes publication now).isLive = true := (live?_eq_some.mp h.live).2.2
  cases hp : changes.parent with
  | none => exact hs.edit_same h.live (h.live? hl) rfl (by rw [Entity.edit, hp]; rfl)
  | some parent =>
    obtain ⟨e', he', ho⟩ := hf parent hp
    cases h.live.symm.trans he'
    refine hs.move h.live (h.live? hl) rfl ?_
    rw [Entity.edit, hp]
    exact ho

theorem Edited.drifts {changes : EntityChanges} {publication : Publication} {now : Time}
    (h : Edited s s' e (e.edit changes publication now)) (hp : changes.parent = none) :
    s.Drifts s' := by
  have hl : (e.edit changes publication now).isLive = true := (live?_eq_some.mp h.live).2.2
  refine Drifts.of_live (h.live? hl) (fun hn => ?_) fun f hf => ?_
  · cases h.live.symm.trans hn
  · cases h.live.symm.trans hf
    exact ⟨rfl, by rw [Entity.edit, hp]; rfl⟩

end Store

namespace Script

variable {P : α → Store → Prop} {Q : β → Store → Prop}

/-! What a client relies on -/

/-- Each request keeps the shape of the tree, whatever drifting goes on before it, and what comes out
in the end has a property in the tables that the last request left. -/
def Holds (d : Nat) (P : α → Store → Prop) : Script α → Store → Prop
  | done (.ok a), s => P a s
  | done (.error _), _ => True
  | ask r next, s => ∀ (ctx : Context) (sys : System), s.Drifts sys.store →
    (sys.answer ctx r).2.store.IsForest d ∧
      ∀ b, (sys.answer ctx r).1 = .ok b → (next b).Holds d P (sys.answer ctx r).2.store

theorem Holds.drift {x : Script α} (h : x.Holds d (fun _ _ => True) s) (hd : s.Drifts s') :
    x.Holds d (fun _ _ => True) s' := by
  cases x with
  | done result => cases result <;> exact trivial
  | ask r next => exact fun ctx sys hd' => h ctx sys (hd.trans hd')

theorem Holds.bind {x : Script α} {f : α → Script β} (hx : x.Holds d P s)
    (hf : ∀ a t, P a t → (f a).Holds d Q t) : (x >>= f).Holds d Q s := by
  change (x.bind f).Holds d Q s
  induction x generalizing s with
  | done result =>
    cases result with
    | ok a => exact hf a s hx
    | error e => exact trivial
  | ask r next ih =>
    intro ctx sys hd
    obtain ⟨hforest, hnext⟩ := hx ctx sys hd
    exact ⟨hforest, fun b hb => ih b (hnext b hb)⟩

theorem holds_check {result : Except Error α} (h : ∀ a, result = .ok a → P a s) :
    (check result).Holds d P s := by
  cases result with
  | ok a => exact h a rfl
  | error e => exact trivial

theorem holds_check_bind {result : Except Error α} {f : α → Script β}
    (h : ∀ a, result = .ok a → (f a).Holds d Q s) : (check result >>= f).Holds d Q s :=
  (holds_check (P := fun a t => t = s ∧ result = .ok a) fun _ ha => ⟨rfl, ha⟩).bind
    fun a _ ⟨ht, ha⟩ => ht ▸ h a ha

theorem holds_read_bind {r : Request α} {f : α → Script β} (hr : r.isReading = true)
    (hs : s.IsForest d) (h : ∀ (ctx : Context) (sys : System) a, s.Drifts sys.store →
      (sys.answer ctx r).1 = .ok a → (f a).Holds d Q sys.store) :
    (request r >>= f).Holds d Q s := by
  intro ctx sys hd
  rw [System.answer_reading hr]
  exact ⟨hd.isForest hs, fun a ha => h ctx sys a hd ha⟩

theorem holds_write {r : Request α} (f : α → β) (h : ∀ (ctx : Context) (sys : System),
      s.Drifts sys.store → (sys.answer ctx r).2.store.IsForest d) :
    (request r >>= fun a => pure (f a)).Holds d (fun _ _ => True) s :=
  fun ctx sys hd => ⟨h ctx sys hd, fun _ _ => trivial⟩

end Script

namespace Hierarchy

open Script

variable {ctx : Context} {sys : System}

theorem answer_walk_ok {seeds : List EntityId} {bound : Nat} {direction : Direction}
    {items : List HierarchyItem}
    (h : (sys.answer ctx (.walk seeds bound direction)).1 = .ok items) :
    items = sys.store.walk seeds bound none direction :=
  (System.answer_walk_eq_ok.mp (Prod.ext h rfl)).2.2

/-! Checks of a place, made while the tree drifts -/

theorem holds_parentChain (hs : s.IsForest limits.maxDepth) :
    (parentChain limits p).Holds limits.maxDepth (fun chain t => s.Drifts t ∧
      chain = t.walk [p] limits.probeDepth none .parentsOnly ∧
        ∃ q n, t.live? p = some q ∧ t.Rooted n p ∧ n ≤ limits.maxDepth) s := by
  refine holds_read_bind rfl hs fun ctx sys chain hd hchain => ?_
  obtain rfl := answer_walk_ok hchain
  exact holds_check_bind fun _ hne =>
    ⟨hd, rfl, (walk_parent (hd.isForest hs)).mp (checkChain_eq_ok.mp hne)⟩

theorem holds_checkPlace {ty : EntityType} {parent : Option EntityId}
    (hs : s.IsForest limits.maxDepth) : (checkPlace limits ty parent).Holds limits.maxDepth
      (fun _ t => t.IsForest limits.maxDepth ∧ t.Open limits.maxDepth ty parent) s := by
  cases parent with
  | none => exact holds_check fun _ hroot => ⟨hs, checkRoot_eq_ok.mp hroot⟩
  | some p =>
    refine holds_check_bind fun _ _ => (holds_parentChain hs).bind fun chain t hchain => ?_
    obtain ⟨hd, rfl, q, n, -, hr, hn⟩ := hchain
    refine holds_check_bind fun _ hroom => holds_check fun _ htype => ⟨hd.isForest hs, ?_⟩
    obtain ⟨q, hq, hdep⟩ := (Store.checkParentType_eq_ok limits.probeDepth_pos).mp htype
    rw [checkRoom_eq_ok, Store.length_chain hr (limits.lt_probeDepth hn)] at hroom
    exact ⟨q, n, hq, hdep, hr, hroom⟩

theorem holds_checkMove {item : ListItem} (hs : s.IsForest limits.maxDepth)
    (he : s.live? item.id = some e) : (checkMove limits item p).Holds limits.maxDepth
      (fun _ t => t.IsForest limits.maxDepth ∧ ∃ e', t.live? item.id = some e' ∧
        t.OpenTo limits.maxDepth item.id e'.entityType (some p)) s := by
  refine (holds_parentChain hs).bind fun chain t hchain => ?_
  obtain ⟨hd, rfl, q, n, -, hr, hn⟩ := hchain
  have ht := hd.isForest hs
  have hb := limits.lt_probeDepth hn
  refine holds_check_bind fun _ _ => holds_check_bind fun _ htype =>
    holds_read_bind rfl ht fun ctx sys subtree hd' hsubtree => ?_
  obtain rfl := answer_walk_ok hsubtree
  refine holds_check_bind fun _ hcycle => holds_check fun _ hheight => ?_
  have hs' := hd'.isForest ht
  have hdepth := limits.lt_probeDepth (Nat.le_refl limits.maxDepth)
  obtain ⟨q, hq, hdep⟩ := (Store.checkParentType_eq_ok limits.probeDepth_pos).mp htype
  obtain ⟨q', hq', htq, -⟩ := hd'.kept hq
  obtain ⟨e', he', -, -⟩ := (hd.trans hd').kept he
  rw [checkNotWithin_eq_ok, hs'.mem_subtree hdepth] at hcycle
  rw [checkHeight_eq_ok, Store.length_chain hr hb] at hheight
  have hroom := (hs'.height_le hdepth he').mp (Nat.le_refl _)
  refine ⟨hs', e', he', q', n, hq', htq.trans hdep, hd'.rooted hr, not_exists.mp hcycle,
    fun k a hk => ?_⟩
  have := hroom k a hk
  omega

theorem holds_newParent {r : UpdateRequest} {item : ListItem} (hs : s.IsForest limits.maxDepth)
    (he : s.live? item.id = some e) (ht : e.entityType = item.entityType) :
    (newParent limits r item).Holds limits.maxDepth
      (fun place t => t.IsForest limits.maxDepth ∧ t.Fits limits.maxDepth item.id place) s := by
  unfold newParent
  split
  · cases r.parent with
    | none =>
      refine holds_check_bind fun _ hroot => ⟨hs, ?_⟩
      rintro parent ⟨⟩
      exact ⟨e, he, ht.trans (checkRoot_eq_ok.mp hroot)⟩
    | some p =>
      refine holds_check_bind fun _ _ => (holds_checkMove hs he).bind fun _ t hmove => ?_
      obtain ⟨hforest, hopen⟩ := hmove
      refine ⟨hforest, ?_⟩
      rintro parent ⟨⟩
      exact hopen
  · refine ⟨hs, ?_⟩
    rintro parent ⟨⟩

/-! Mutations while the tree drifts -/

theorem holds_create (r : CreateRequest) (hs : s.IsForest limits.maxDepth) :
    (createScript limits r).Holds limits.maxDepth (fun _ _ => True) s := by
  unfold createScript
  -- what becomes of the name plays no part
  generalize limits.nameRule.clean r.name = cleaned
  refine holds_check_bind fun _ _ => holds_check_bind fun name _ =>
    (holds_checkPlace hs).bind fun _ t ⟨ht, ho⟩ =>
      holds_read_bind rfl ht fun _ sys id hd _ =>
        holds_read_bind rfl (hd.isForest ht) fun _ sys' now hd' _ =>
          holds_write _ fun ctx sys'' hd'' => ?_
  have hdrift := (hd.trans hd').trans hd''
  have hforest := hdrift.isForest ht
  rcases System.answer_create_cases sys'' ctx r.isDraft (newEntity r name) id now
    with heq | ⟨publication, -, hadd⟩
  · exact heq ▸ hforest
  · exact hadd.isForest rfl hforest (hdrift.open_ ho)

theorem holds_update (r : UpdateRequest) (hs : s.IsForest limits.maxDepth) :
    (updateScript limits r).Holds limits.maxDepth (fun _ _ => True) s := by
  unfold updateScript
  generalize limits.nameRule.clean r.name = cleaned
  refine holds_check_bind fun _ _ => holds_check_bind fun _ _ => holds_check_bind fun name _ =>
    holds_check_bind fun _ _ => holds_read_bind rfl hs fun ctx sys item hd hitem => ?_
  obtain ⟨-, -, e, he, rfl⟩ := System.answer_listItem_eq_ok.mp (Prod.ext hitem rfl)
  have hid := (Store.live?_eq_some.mp he).2.1
  rw [← hid] at he
  refine (holds_newParent (hd.isForest hs) he rfl).bind fun place t ⟨ht, hf⟩ => ?_
  split
  · refine holds_read_bind rfl ht fun _ sys below hd _ => holds_check_bind fun _ _ =>
      holds_read_bind rfl (hd.isForest ht) fun _ sys' now hd' _ =>
        holds_write _ fun ctx sys'' hd'' => ?_
    have hdrift := (hd.trans hd').trans hd''
    rcases System.answer_updateDraft_cases sys'' ctx ⟨r.id, name, r.content, place, r.user⟩ now
      with heq | ⟨e', hid', hedit⟩
    · exact heq ▸ hdrift.isForest ht
    · refine hedit.isForest (hdrift.isForest ht) ?_
      rw [hid', ← hid]
      exact hdrift.fits hf
  · refine holds_read_bind rfl ht fun _ sys now hd _ => holds_write _ fun ctx sys' hd' => ?_
    have hdrift := hd.trans hd'
    rcases System.answer_update_cases sys' ctx ⟨r.id, name, r.content, place, r.user⟩ now
      with heq | ⟨e', v, hid', -, hedit⟩
    · exact heq ▸ hdrift.isForest ht
    · refine hedit.isForest (hdrift.isForest ht) ?_
      rw [hid', ← hid]
      exact hdrift.fits hf

theorem ne_nil_of_checkSubtree {id : EntityId} {items : List HierarchyItem} {u : Unit}
    (h : checkSubtree limits id items = .ok u) : items ≠ [] := by
  rintro rfl
  cases h

theorem holds_delete (id : EntityId) (hs : s.IsForest limits.maxDepth) :
    (deleteScript limits id).Holds limits.maxDepth (fun _ _ => True) s := by
  refine holds_check_bind fun _ _ => holds_read_bind rfl hs fun ctx sys subtree hd hsubtree =>
    holds_check_bind fun _ hsub => ?_
  obtain rfl := answer_walk_ok hsubtree
  have ht := hd.isForest hs
  refine holds_read_bind rfl ht fun _ sys' now hd' _ => holds_write _ fun ctx sys'' hd'' => ?_
  have hdrift := hd'.trans hd''
  have hdepth := limits.lt_probeDepth (Nat.le_refl limits.maxDepth)
  have hlive : ∃ e, sys.store.live? id = some e := by
    obtain ⟨i, hi⟩ := List.exists_mem_of_ne_nil _ (ne_nil_of_checkSubtree hsub)
    obtain ⟨k, hk⟩ := (ht.mem_subtree hdepth).mp (List.mem_map_of_mem hi)
    obtain ⟨e, he⟩ := hk.top
    exact ⟨e, Store.seen_none.symm.trans he⟩
  obtain ⟨e, he⟩ := hlive
  rcases System.answer_delete_cases sys'' ctx _ now with heq | heq
  · exact heq ▸ hdrift.isForest ht
  · apply (hdrift.isForest ht).delete (x := id)
    case hl =>
      intro b
      rw [heq, ← Store.seen_none, ← Store.seen_none]
      exact Store.seen_delete
    case hx =>
      intro a
      rw [ht.mem_subtree hdepth]
      exact exists_congr fun k => (hdrift.path he).symm

end Hierarchy

/-! Scripts that do not restructure the tree -/

def Request.IsMild (r : Request α) : Prop :=
  ∀ (ctx : Context) (sys : System), sys.store.Drifts (sys.answer ctx r).2.store

theorem Request.isMild_reading {r : Request α} (hr : r.isReading = true) : r.IsMild := by
  intro ctx sys
  rw [System.answer_reading hr]
  exact .refl _

theorem Request.isMild_create (isDraft : Bool) {new : NewEntity} (id : EntityId) (now : Time)
    (ht : new.entityType = .department) (hp : new.parent = none) :
    (if isDraft then createDraft new id now else create new id now).IsMild := by
  intro ctx sys
  rcases System.answer_create_cases sys ctx isDraft new id now with
    heq | ⟨publication, -, hadd⟩
  · rw [heq]
    exact .refl _
  · exact hadd.drifts rfl ht hp

theorem Request.isMild_update {changes : EntityChanges} (now : Time) (hp : changes.parent = none) :
    (update changes now).IsMild := by
  intro ctx sys
  rcases System.answer_update_cases sys ctx changes now with
    heq | ⟨e, v, -, -, hedit⟩
  · rw [heq]
    exact .refl _
  · exact hedit.drifts hp

namespace Script

inductive Mild : Script α → Prop
  | done (result : Except Error α) : Mild (done result)
  | ask {β : Type} {r : Request β} {next : β → Script α} (hr : r.IsMild) (h : ∀ b, Mild (next b)) :
      Mild (ask r next)

theorem mild_check_bind {result : Except Error α} {f : α → Script β}
    (h : ∀ a, result = .ok a → Mild (f a)) : Mild (check result >>= f) := by
  cases result with
  | ok a => exact h a rfl
  | error e => exact .done _

end Script

theorem Hierarchy.mild_createRoot {r : CreateRequest} (hp : r.parent = none) :
    (createScript limits r).Mild := by
  refine Script.mild_check_bind fun _ _ => Script.mild_check_bind fun name _ => ?_
  rw [hp]
  refine Script.mild_check_bind fun _ hroot => .ask (Request.isMild_reading rfl) fun id =>
    .ask (Request.isMild_reading rfl) fun now => .ask ?_ fun _ => .done _
  exact Request.isMild_create _ id now (checkRoot_eq_ok.mp hroot) rfl

end KnowledgeTree
