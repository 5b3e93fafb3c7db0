import KnowledgeTree.Database.Opening

/-!
What the changes to files leave at each path, and what the opening of a database leaves of its
tables.
-/

namespace KnowledgeTree

variable {files files' : Files} {path other : String} {place : Place} {tables : Store} {e : Error}

namespace Files

theorem look_put (files : Files) (path other : String) (place : Place) :
    (files.put path place).look other = if other = path then place else files.look other := by
  unfold put
  split
  · next h =>
    split
    · next heq => rw [heq, h]
    · rfl
  · by_cases heq : other = path
    · simp [look, heq]
    · simp [look, heq, Ne.symm heq]

theorem look_put_self : (files.put path place).look path = place := by
  rw [look_put, if_pos rfl]

theorem look_put_of_ne (h : other ≠ path) :
    (files.put path place).look other = files.look other := by
  rw [look_put, if_neg h]

def Holds (files : Files) (path : String) (tables : Store) : Prop :=
  ∃ logged, files.look path = .file (.database tables logged)

theorem Holds.congr (h : files.Holds path tables) (heq : files'.look path = files.look path) :
    files'.Holds path tables := by
  obtain ⟨logged, h⟩ := h
  exact ⟨logged, heq.trans h⟩

def Cleared (files files' : Files) : Prop :=
  ∀ path, files'.look path = files.look path ∨ files'.look path = .vacant

theorem Cleared.refl : Cleared files files := fun _ => .inl rfl

theorem Cleared.put : Cleared files (files.put path .vacant) := by
  intro other
  rw [look_put]
  split
  · exact .inr rfl
  · exact .inl rfl

theorem Cleared.trans {files'' : Files} (h : Cleared files files') (h' : Cleared files' files'') :
    Cleared files files'' := by
  intro path
  rcases h' path with heq | hvacant
  · rw [heq]
    exact h path
  · exact .inr hvacant

theorem Cleared.ne (h : Cleared files files') (hne : files.look path ≠ place)
    (hvacant : place ≠ .vacant) : files'.look path ≠ place := by
  rcases h path with heq | heq
  · rwa [heq]
  · rw [heq]
    exact hvacant.symm

theorem remove_cases (h : files.remove path = .ok files') :
    files' = files ∨ files' = files.put (Path.simplify path) .vacant := by
  unfold remove at h
  split at h
  · cases h
  · cases h
    exact .inr rfl
  · cases h
    exact .inl rfl

theorem remove_cleared (h : files.remove path = .ok files') : Cleared files files' := by
  rcases remove_cases h with rfl | rfl
  · exact .refl
  · exact .put

theorem remove_error (h : files.remove path = .error e) : files.found path = .directory := by
  unfold remove at h
  split at h
  · assumption
  · cases h
  · cases h

theorem removeAll_cleared (files : Files) (paths : List String) :
    Cleared files (files.removeAll paths).2 := by
  induction paths generalizing files with
  | nil => exact .refl
  | cons path rest ih =>
    simp only [removeAll]
    split
    · exact .refl
    · next files' hremove => exact (remove_cleared hremove).trans (ih files')

theorem found_put : (files.put path place).found = files.found := by
  unfold put
  split <;> rfl

theorem found_remove (h : files.remove path = .ok files') : files'.found = files.found := by
  rcases remove_cases h with rfl | rfl
  · rfl
  · exact found_put

theorem removeAll_ok {paths : List String} (h : ∀ path ∈ paths, files.found path ≠ .directory) :
    (files.removeAll paths).1 = .ok () := by
  induction paths generalizing files with
  | nil => rfl
  | cons path rest ih =>
    simp only [removeAll]
    split
    · next hremove => exact absurd (remove_error hremove) (h path List.mem_cons_self)
    · next files' hremove =>
      apply ih
      rw [found_remove hremove]
      exact fun path hp => h path (List.mem_cons_of_mem _ hp)

theorem removeAll_cons {rest : List String} (h : files.remove path = .ok files') :
    files.removeAll (path :: rest) = files'.removeAll rest := by
  rw [removeAll, h]

theorem removeAll_error {rest : List String} (h : ∀ p ∈ rest, files.found p ≠ .directory)
    (he : (files.removeAll (path :: rest)).1 = .error e) :
    (files.removeAll (path :: rest)).2 = files := by
  simp only [removeAll] at he ⊢
  cases hremove : files.remove path with
  | error _ => rfl
  | ok after =>
    have hrest : (after.removeAll rest).1 = .ok () := by
      apply removeAll_ok
      rwa [found_remove hremove]
    simp only [hremove, hrest] at he
    cases he

end Files

namespace Database

variable {l : Location} {given home : String} {logged : Bool}

theorem append_ne {suffix : String} (h : suffix ≠ "") : path ≠ path ++ suffix := by
  intro heq
  apply h
  have hlength := congrArg String.length heq
  rw [String.length_append] at hlength
  exact String.length_eq_zero_iff.mp (by omega)

theorem ne_journal : path ≠ journal path := append_ne (by decide)

theorem ne_log : path ≠ log path := append_ne (by decide)

theorem ne_index : path ≠ index path := append_ne (by decide)

theorem look_closeLog : (closeLog l path files).look path = files.look path := by
  simp only [closeLog]
  split
  · rw [Files.look_put_of_ne ne_index]
    split
    · exact Files.look_put_of_ne ne_log
    · rfl
  · rw [Files.look_put_of_ne ne_index, Files.look_put_of_ne ne_log]

structure Opens (home : String) (tables : Store) (outcome : Except Error Handle × Files) :
    Prop where
  holds : outcome.2.Holds home tables
  tables : ∀ db, outcome.1 = .ok db → db.tables = tables
  home : ∀ db, outcome.1 = .ok db → db.writable = true → db.home = some home

theorem Opens.error (h : files.Holds home tables) : Opens home tables (.error e, files) where
  holds := h
  tables := by rintro db ⟨⟩
  home := by rintro db ⟨⟩

theorem opens_filled (h : files.look path = .file (.database tables logged)) :
    Opens path tables (openFilled l path (.database tables logged) files) := by
  simp only [openFilled]
  split
  · exact .error ⟨logged, h⟩
  generalize hbeside : (if isHot (files.look (journal path)) = true then
    files.put (journal path) .vacant else files) = beside
  have hhome : beside.look path = .file (.database tables logged) := by
    rw [← hbeside]
    split
    · exact (Files.look_put_of_ne ne_journal).trans h
    · exact h
  generalize isLogged (beside.look (log path)) (.database tables logged) = inLog
  split
  · exact .error ⟨logged, hhome⟩
  generalize hclosed : (if inLog = true then closeLog l path beside else beside) = closed
  have hkept : closed.look path = .file (.database tables logged) := by
    rw [← hclosed]
    split
    · exact look_closeLog.trans hhome
    · exact hhome
  split
  · exact ⟨⟨logged, hkept⟩, by rintro db ⟨⟩; rfl, by rintro db ⟨⟩ -; rfl⟩
  split
  · exact .error ⟨logged, hkept⟩
  · exact ⟨⟨true, Files.look_put_self⟩, by rintro db ⟨⟩; rfl, by rintro db ⟨⟩ -; rfl⟩

theorem opens_frozen (h : files.look path = .file (.database tables logged)) :
    Opens path tables (openFrozen (.database tables logged), files) where
  holds := ⟨logged, h⟩
  tables := by rintro db ⟨⟩; rfl
  home := by rintro db ⟨⟩ ⟨⟩

theorem opens_of_holds (hl : Location.ofPath given = .ok l) (hlasting : l.isTransient = false)
    (h : files.Holds (Path.simplify l.path) tables) :
    Opens (Path.simplify l.path) tables (openTables given files) := by
  obtain ⟨logged, hlook⟩ := h
  simp only [openTables, hl, Location.openTables, hlasting]
  rw [if_neg (by decide)]
  split
  · exact .error ⟨logged, hlook⟩
  rw [hlook]
  simp only [openFile]
  split
  · exact opens_frozen hlook
  · rw [if_neg (by simp)]
    exact opens_filled hlook

structure Room (given : String) (l : Location) (files : Files) : Prop where
  log : files.found (Database.log given) ≠ .directory
  index : files.found (Database.index given) ≠ .directory
  journal : files.look (Database.journal (Path.simplify l.path)) ≠ .tooLong
  way : isBlocked files l.path = false

theorem isBlocked_cleared (h : files.Cleared files') (hway : isBlocked files path = false) :
    isBlocked files' path = false := by
  rw [isBlocked, List.any_eq_false] at hway ⊢
  intro waypoint hmem
  have := hway waypoint hmem
  rcases h waypoint with heq | heq
  · rwa [heq]
  · rw [heq]
    simp

theorem opens_empty (hmode : l.mode = .create) (hjournal : files.look (journal path) ≠ .tooLong) :
    Opens path .empty (openEmpty l path files) ∧
      ∃ db, (openEmpty l path files).1 = .ok db ∧ db.writable = true := by
  have hne : ¬ l.mode = .readOnly := by rw [hmode]; decide
  simp only [openEmpty, if_neg hne]
  generalize hcut : (if isFilled (files.look (log path)) = true then
    files.put (log path) .vacant else files) = cut
  have hcleared : files.Cleared cut := by
    rw [← hcut]
    split
    · exact .put
    · exact .refl
  rw [if_neg (hcleared.ne hjournal (by decide))]
  exact ⟨⟨⟨l.allowsLog, Files.look_put_self⟩, by rintro db ⟨⟩; rfl, by rintro db ⟨⟩ -; rfl⟩,
    _, rfl, rfl⟩

theorem opens_vacant (hl : Location.ofPath given = .ok l) (hlasting : l.isTransient = false)
    (hmode : l.mode = .create) (hfrozen : l.isFrozen = false)
    (hway : isBlocked files l.path = false)
    (hjournal : files.look (journal (Path.simplify l.path)) ≠ .tooLong)
    (h : files.look (Path.simplify l.path) = .vacant) :
    Opens (Path.simplify l.path) .empty (openTables given files) ∧
      ∃ db, (openTables given files).1 = .ok db ∧ db.writable = true := by
  have heq : openTables given files = openEmpty l (Path.simplify l.path)
      (files.put (Path.simplify l.path) (.file (.text ""))) := by
    simp [openTables, hl, Location.openTables, hlasting, hway, h, hmode, openFile, hfrozen]
  rw [heq]
  apply opens_empty hmode
  rwa [Files.look_put_of_ne ne_journal.symm]

end Database

end KnowledgeTree
