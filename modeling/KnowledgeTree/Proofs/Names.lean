import KnowledgeTree.Proofs.Acceptance

/-!
Names in the tables. A trimmed text is the one text without blanks at its ends that the given text is
but for blanks around it. What the check of a name gives passes the check again as it is, and mutations
write no other names, so that reachable tables hold clean names only.
-/

namespace KnowledgeTree

namespace Text

variable {cs front back : List Char} {s t : String}

def Trimmed (s : String) : Prop :=
  ∀ c, s.toList.head? = some c ∨ s.toList.getLast? = some c → isBlank c = false

def PadsTo (t s : String) : Prop :=
  ∃ front back, s.toList = front ++ t.toList ++ back ∧ (∀ c ∈ front, isBlank c = true) ∧
    ∀ c ∈ back, isBlank c = true

theorem trimStart_append (h : ∀ c ∈ front, isBlank c = true) :
    trimStart (front ++ cs) = trimStart cs :=
  List.dropWhile_append_of_pos h

theorem trimStart_of_head (h : ∀ c, cs.head? = some c → isBlank c = false) : trimStart cs = cs := by
  cases cs with
  | nil => rfl
  | cons c cs => exact List.dropWhile_cons_of_neg (by simp [h c rfl])

theorem trimEnd_append (h : ∀ c ∈ back, isBlank c = true) : trimEnd (cs ++ back) = trimEnd cs := by
  have hrev : ∀ c ∈ back.reverse, isBlank c = true := fun c hc => h c (List.mem_reverse.mp hc)
  rw [trimEnd, List.reverse_append, List.dropWhile_append_of_pos hrev, trimEnd]

theorem trimEnd_of_last (h : ∀ c, cs.getLast? = some c → isBlank c = false) : trimEnd cs = cs := by
  have hhead : ∀ c, cs.reverse.head? = some c → isBlank c = false := by
    intro c hc
    rw [List.head?_reverse] at hc
    exact h c hc
  have hrev := trimStart_of_head hhead
  rw [trimStart] at hrev
  rw [trimEnd, hrev, List.reverse_reverse]

theorem exists_trimStart (cs : List Char) :
    ∃ front, cs = front ++ trimStart cs ∧ ∀ c ∈ front, isBlank c = true :=
  ⟨cs.takeWhile isBlank, List.takeWhile_append_dropWhile.symm, fun _ => List.mem_takeWhile_imp⟩

theorem exists_trimEnd (cs : List Char) :
    ∃ back, cs = trimEnd cs ++ back ∧ ∀ c ∈ back, isBlank c = true := by
  obtain ⟨front, hcs, hfront⟩ := exists_trimStart cs.reverse
  refine ⟨front.reverse, ?_, fun c hc => hfront c (List.mem_reverse.mp hc)⟩
  rw [trimEnd, ← List.reverse_append, ← trimStart, ← hcs, List.reverse_reverse]

theorem head_trimStart {c : Char} (h : (trimStart cs).head? = some c) : isBlank c = false := by
  have hnot := List.head?_dropWhile_not isBlank cs
  rw [← trimStart, h] at hnot
  exact hnot

theorem last_trimEnd {c : Char} (h : (trimEnd cs).getLast? = some c) : isBlank c = false := by
  rw [trimEnd, List.getLast?_reverse] at h
  exact head_trimStart h

theorem trimmed_trim (s : String) : Trimmed (trim s) := by
  rw [Trimmed, trim, String.toList_ofList, trimChars]
  rintro c (hhead | hlast)
  · -- the characters that are left start where those before the end was trimmed do
    obtain ⟨back, hback, -⟩ := exists_trimEnd (trimStart s.toList)
    have hstart : (trimStart s.toList).head? = some c := by
      rw [hback, List.head?_append, hhead]
      rfl
    exact head_trimStart hstart
  · exact last_trimEnd hlast

theorem padsTo_trim (s : String) : PadsTo (trim s) s := by
  obtain ⟨front, hfront, hf⟩ := exists_trimStart s.toList
  obtain ⟨back, hback, hb⟩ := exists_trimEnd (trimStart s.toList)
  refine ⟨front, back, ?_, hf, hb⟩
  rw [trim, String.toList_ofList, trimChars, List.append_assoc, ← hback, ← hfront]

theorem trimChars_pad (hf : ∀ c ∈ front, isBlank c = true) (hb : ∀ c ∈ back, isBlank c = true)
    (hhead : ∀ c, cs.head? = some c → isBlank c = false)
    (hlast : ∀ c, cs.getLast? = some c → isBlank c = false) :
    trimChars (front ++ cs ++ back) = cs := by
  rw [trimChars, List.append_assoc, trimStart_append hf]
  by_cases hnil : cs = []
  · have hall : trimStart back = [] := List.dropWhile_eq_nil_iff.mpr hb
    rw [hnil, List.nil_append, hall]
    rfl
  · have hstart : trimStart (cs ++ back) = cs ++ back := by
      apply trimStart_of_head
      intro c hc
      rw [List.head?_append_of_ne_nil cs hnil] at hc
      exact hhead c hc
    rw [hstart, trimEnd_append hb, trimEnd_of_last hlast]

theorem trim_eq_iff : trim s = t ↔ Trimmed t ∧ PadsTo t s := by
  constructor
  · rintro rfl
    exact ⟨trimmed_trim s, padsTo_trim s⟩
  · rintro ⟨ht, front, back, hs, hf, hb⟩
    rw [trim, hs, trimChars_pad hf hb (fun c hc => ht c (.inl hc)) fun c hc => ht c (.inr hc),
      String.ofList_toList]

theorem trim_eq_self_iff : trim s = s ↔ Trimmed s := by
  rw [trim_eq_iff]
  refine and_iff_left ⟨[], [], ?_, ?_, ?_⟩ <;> simp

end Text

namespace NameRule

variable {rule : NameRule} {name given : String}

structure Clean (rule : NameRule) (name : String) : Prop where
  not_empty : name ≠ ""
  trimmed : Text.Trimmed name
  length_le : name.length ≤ rule.maxLength

theorem clean_eq_ok_iff : rule.clean given = .ok name ↔ rule.Clean name ∧ Text.PadsTo name given := by
  rw [clean_eq_ok]
  constructor
  · rintro ⟨hne, hlen, rfl⟩
    exact ⟨⟨hne, Text.trimmed_trim given, hlen⟩, Text.padsTo_trim given⟩
  · rintro ⟨⟨hne, ht, hlen⟩, hpad⟩
    obtain rfl := Text.trim_eq_iff.mpr ⟨ht, hpad⟩
    exact ⟨hne, hlen, rfl⟩

theorem clean_self_iff : rule.clean name = .ok name ↔ rule.Clean name := by
  rw [clean_eq_ok]
  constructor
  · rintro ⟨hne, hlen, heq⟩
    rw [← heq] at hne hlen
    exact ⟨hne, Text.trim_eq_self_iff.mp heq.symm, hlen⟩
  · rintro ⟨hne, ht, hlen⟩
    have heq := Text.trim_eq_self_iff.mpr ht
    rw [heq]
    exact ⟨hne, hlen, rfl⟩

theorem exists_clean_iff : (∃ name, rule.clean given = .ok name) ↔
    1 ≤ (Text.trim given).length ∧ (Text.trim given).length ≤ rule.maxLength := by
  have hpos : 1 ≤ (Text.trim given).length ↔ Text.trim given ≠ "" := by
    rw [Nat.one_le_iff_ne_zero, Ne, String.length_eq_zero_iff]
  simp only [clean_eq_ok, hpos]
  constructor
  · rintro ⟨name, hne, hlen, -⟩
    exact ⟨hne, hlen⟩
  · rintro ⟨hne, hlen⟩
    exact ⟨_, hne, hlen, rfl⟩

end NameRule

variable {limits : Limits} {s s' : Store} {e f : Entity} {name : String}

namespace Store

def names (s : Store) : List String := s.entities.map Entity.name ++ s.versions.map Version.name

theorem mem_names : name ∈ s.names ↔
    (∃ e ∈ s.entities, e.name = name) ∨ ∃ v ∈ s.versions, v.name = name := by
  simp only [names, List.mem_append, List.mem_map]

theorem names_write (hr : ∀ e ∈ s'.entities, e ∈ s.entities ∨ e = f)
    (hv : s'.versions = s.versions ++ (f.publication.version?.map f.record).toList)
    (h : name ∈ s'.names) : name ∈ s.names ∨ name = f.name := by
  rcases mem_names.mp h with ⟨e, he, rfl⟩ | ⟨v, hmem, rfl⟩
  · rcases hr e he with hold | rfl
    · exact .inl (mem_names.mpr (.inl ⟨e, hold, rfl⟩))
    · exact .inr rfl
  · rw [hv, List.mem_append] at hmem
    rcases hmem with hold | hnew
    · exact .inl (mem_names.mpr (.inr ⟨v, hold, rfl⟩))
    · obtain ⟨n, -, rfl⟩ := Option.map_eq_some_iff.mp (Option.mem_toList.mp hnew)
      exact .inr rfl

theorem Added.names (ha : Added s s' e) (h : name ∈ s'.names) :
    name ∈ s.names ∨ name = e.name := by
  refine names_write (fun a hm => ?_) ha.versions h
  rw [ha.entities, List.mem_append, List.mem_singleton] at hm
  exact hm

theorem Edited.names (he : Edited s s' e f) (h : name ∈ s'.names) :
    name ∈ s.names ∨ name = f.name := by
  refine names_write (fun a hm => ?_) he.versions h
  have hrow := row?_eq_some.mpr ⟨hm, rfl⟩
  rw [he.rows] at hrow
  split at hrow
  · exact .inr (Option.some.inj hrow).symm
  · exact .inl (row?_eq_some.mp hrow).1

theorem names_adjust {p : Entity → Bool} {g : Entity → Entity} (hg : ∀ e, (g e).name = e.name) :
    (s.adjust p g).names = s.names := by
  have heq : Entity.name ∘ adjusted p g = Entity.name := by
    funext e
    simp only [Function.comp_apply, adjusted]
    split
    · exact hg e
    · rfl
  simp only [names, adjust, List.map_map, heq]

end Store

namespace Hierarchy

variable {ctx : Context} {sys sys' : System}

theorem names_of_create {r : CreateRequest} {id : EntityId}
    (hc : create limits ctx r sys = (.ok id, sys')) (h : name ∈ sys'.store.names) :
    name ∈ sys.store.names ∨ limits.nameRule.clean r.name = .ok name := by
  obtain ⟨given, hname, -⟩ := create_cases hc
  obtain ⟨-, -, rfl⟩ := NameRule.clean_eq_ok.mp hname
  rcases (added_row hc).names h with hold | rfl
  · exact .inl hold
  · exact .inr hname

theorem names_of_update {r : UpdateRequest} {publication : Publication}
    (hu : update limits ctx r sys = (.ok publication, sys')) (h : name ∈ sys'.store.names) :
    name ∈ sys.store.names ∨ limits.nameRule.clean r.name = .ok name := by
  obtain ⟨given, _, hname, -⟩ := update_cases hu
  obtain ⟨-, -, rfl⟩ := NameRule.clean_eq_ok.mp hname
  obtain ⟨e, -, -, hedit⟩ := edited_row hu
  rcases hedit.names h with hold | rfl
  · exact .inl hold
  · exact .inr hname

end Hierarchy

theorem CoreChange.names (hc : CoreChange limits s s') (h : name ∈ s'.names) :
    name ∈ s.names ∨ limits.nameRule.Clean name := by
  cases hc with
  | create hr =>
    exact (Hierarchy.names_of_create hr h).imp_right fun hn => (NameRule.clean_eq_ok_iff.mp hn).1
  | update hr =>
    exact (Hierarchy.names_of_update hr h).imp_right fun hn => (NameRule.clean_eq_ok_iff.mp hn).1
  | @delete _ _ _ sys sys' hr =>
    obtain ⟨-, -, -, hw⟩ := Hierarchy.delete_cases hr
    obtain ⟨-, -, hs⟩ := Store.delete_eq_ok.mp hw
    have hsame : sys'.store.names = sys.store.names := by
      rw [hs]
      exact Store.names_adjust fun _ => rfl
    exact .inl (hsame ▸ h)
  | upsertRole hr =>
    obtain ⟨-, -, rfl⟩ := Store.upsertRole_eq_ok.mp hr
    exact .inl h
  | grant hr =>
    obtain ⟨-, -, -, rfl⟩ := Store.grant_eq_ok.mp hr
    left
    split at h
    · exact h
    · exact h
  | revoke hr =>
    obtain ⟨-, -, rfl⟩ := Store.revoke_eq_ok.mp hr
    exact .inl h

/-- In reachable tables the names of all rows, deleted ones included, and of all versions are clean,
which is to say that the check leaves them as they are. It accepts a text just if trimming leaves some
of it and not too much, and then accepts its own result. -/
theorem Store.names_clean (limits : Limits) :
    (∀ s, CoreReachable limits s → (∀ e ∈ s.entities, limits.nameRule.Clean e.name) ∧
      ∀ v ∈ s.versions, limits.nameRule.Clean v.name) ∧
    (∀ name, limits.nameRule.Clean name ↔ limits.nameRule.clean name = .ok name) ∧
    ∀ given, ((∃ name, limits.nameRule.clean given = .ok name) ↔
        1 ≤ (Text.trim given).length ∧ (Text.trim given).length ≤ limits.maxNameLength) ∧
      ∀ name, limits.nameRule.clean given = .ok name → limits.nameRule.clean name = .ok name := by
  have hall (s : Store) (h : CoreReachable limits s) :
      ∀ name ∈ s.names, limits.nameRule.Clean name := by
    refine h.invariant (P := fun s => ∀ name ∈ s.names, limits.nameRule.Clean name) ?_
      fun s s' hs hc name hn => ?_
    · intro name hn
      cases hn
    · rcases hc.names hn with hold | hnew
      · exact hs name hold
      · exact hnew
  refine ⟨fun s h => ⟨fun e he => ?_, fun v hv => ?_⟩, fun name => NameRule.clean_self_iff.symm,
    fun given => ⟨NameRule.exists_clean_iff, fun name hn => ?_⟩⟩
  · exact hall s h _ (mem_names.mpr (.inl ⟨e, he, rfl⟩))
  · exact hall s h _ (mem_names.mpr (.inr ⟨v, hv, rfl⟩))
  · exact NameRule.clean_self_iff.mpr (NameRule.clean_eq_ok_iff.mp hn).1

theorem Store.names_clean_tables : CoreReachable {} Sample.tables ∧
    (∀ e ∈ Sample.tables.entities, ({} : Limits).nameRule.Clean e.name) ∧
    (∀ v ∈ Sample.tables.versions, ({} : Limits).nameRule.Clean v.name) ∧
    ({} : Limits).nameRule.clean "\u3000Book Shelf \u00a0" = .ok "Book Shelf" ∧
    ({} : Limits).nameRule.clean "Book Shelf" = .ok "Book Shelf" := by
  obtain ⟨hnames, -, hclean⟩ := names_clean {}
  obtain ⟨hrows, hversions⟩ := hnames Sample.tables Sample.reachable_tables
  have hgiven : ({} : Limits).nameRule.clean "\u3000Book Shelf \u00a0" = .ok "Book Shelf" := by
    decide +kernel
  exact ⟨Sample.reachable_tables, hrows, hversions, hgiven, (hclean _).2 _ hgiven⟩

end KnowledgeTree
