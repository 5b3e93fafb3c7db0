import KnowledgeTree.Cli.Run
import KnowledgeTree.Proofs.Failure
import KnowledgeTree.Proofs.Opening

/-!
What commands that fail leave of the database they were to work on: its tables as they were. The one
way to lose them is to make the database anew, which takes the old one away before the rest of the
command can fail.
-/

namespace KnowledgeTree

variable {α β : Type} {ctx : Context} {sys : System} {files : Files} {path : String}
  {tables : Store} {e : Error} {outcome : Except Error α × System}

theorem Except.map_eq_error {ε : Type} {x : Except ε α} {f : α → β} {e : ε} :
    x.map f = .error e ↔ x = .error e := by
  cases x <;> simp [Except.map]

namespace Cli

open Database

variable {config : Config} {home : String} {writes : Option String}
  {work : System → Except Error α × System}

theorem withTables_holds (hopen : Opens home tables (openTables path files))
    (hwork : ∀ sys e, (work sys).1 = .error e → (work sys).2.store = sys.store)
    (he : (withTables path writes files sys work).result = .error e) :
    (withTables path writes files sys work).files.Holds home tables := by
  unfold withTables at he ⊢
  rcases hout : openTables path files with ⟨result, after⟩
  rw [hout] at hopen he
  cases result with
  | error _ => exact hopen.holds
  | ok db =>
    simp only at he ⊢
    split
    · next hwritable =>
      rw [if_pos hwritable] at he
      have hstore : (work { sys with store := db.tables }).2.store = tables :=
        (hwork _ e he).trans (hopen.tables db rfl)
      refine ⟨db.logged, ?_⟩
      simp only [Handle.save, hopen.home db rfl hwritable, hstore]
      exact Files.look_put_self
    · split
      · exact hopen.holds
      · exact hopen.holds

theorem withTables_result {db : Handle} (hdb : (openTables path files).1 = .ok db)
    (hwritable : db.writable = true) : (withTables path writes files sys work).result =
      (work { sys with store := db.tables }).1 := by
  unfold withTables
  rcases hout : openTables path files with ⟨result, after⟩
  rw [hout] at hdb
  cases hdb
  simp only [if_pos hwritable]

end Cli

theorem Unharmed.error (h : Unharmed ctx sys outcome) (he : outcome.1 = .error e) :
    outcome.2.store = sys.store := by
  rcases h with heq | ⟨-, a, ha⟩
  · exact heq
  · rw [he] at ha
    cases ha

theorem Unharmed.map (h : Unharmed ctx sys outcome) (f : α → β) :
    Unharmed ctx sys (outcome.1.map f, outcome.2) := by
  rcases h with heq | ⟨hlive, a, ha⟩
  · exact .inl heq
  · refine .inr ⟨hlive, f a, ?_⟩
    rw [ha]
    rfl

namespace Cli

open Database

variable {command : Command} {config : Config}

theorem Command.unharmed_work (config : Config) (sys : System) (command : Command) :
    Unharmed .background sys (command.work config sys) := by
  have hop : ∀ {β : Type} (op : Operation β),
      Unharmed .background sys (op.run config.limits .background sys) := fun op => op.unharmed
  have hrole : ∀ name admin, Unharmed .background sys (saveRole name admin sys) :=
    fun name admin => hop (.upsertRole name admin)
  cases command with
  | server | tree | history => exact .inl rfl
  | init force admin =>
    cases admin with
    | none => exact .inl rfl
    | some role =>
      have h := hrole role true
      simp only [work]
      generalize saveRole role true sys = outcome at h ⊢
      exact h.map _
  | role name admin =>
    have h := hrole name admin
    simp only [work]
    generalize saveRole name admin sys = outcome at h ⊢
    exact h.map _
  | grant name entity capability =>
    have h := hop (.grant name entity capability)
    simp only [work, Operation.run] at h ⊢
    generalize sys.commitUnit _ = outcome at h ⊢
    exact h.map _
  | revoke name entity capability =>
    have h := hop (.revoke name entity capability)
    simp only [work, Operation.run] at h ⊢
    generalize sys.commit _ = outcome at h ⊢
    exact h.map _
  | create caller entityType name content parent draft =>
    simp only [work]
    split
    · exact .inl rfl
    · next entityType _ =>
      have h := hop (.create caller ⟨entityType, name, content, parent, draft⟩)
      simp only [Operation.run] at h
      generalize Service.create config.limits .background caller _ sys = outcome at h ⊢
      exact h.map _

theorem Command.init_error {force : Bool} {admin : Option String} :
    ((Command.init force admin).work config sys).1 = .error e ↔
      ∃ role, admin = some role ∧ (Text.trim role).isEmpty = true ∧
        e = .validationFailed "role" .required := by
  cases admin with
  | none => simp [work]
  | some role =>
    have hsave : (saveRole role true sys).1 = .error e ↔ (Text.trim role).isEmpty = true ∧
        e = .validationFailed "role" .required := by
      simp only [saveRole, Store.upsertRole]
      split
      · next hblank => simp [hblank, System.commitUnit, System.commit, Except.map, eq_comm]
      · next hblank =>
        simp [hblank, System.commitUnit, System.commit, Except.map, Context.check_live,
          Context.background, bind, Except.bind, pure, Except.pure]
    simp only [work, Option.some.injEq, exists_eq_left', ← hsave]
    generalize saveRole role true sys = outcome
    exact Except.map_eq_error

theorem Command.clear_cases (given : String) (files : Files) (command : Command) :
    (command.clear given files).2 = files ∨ (∃ admin, command = .init true admin) ∧
      files.Cleared (command.clear given files).2 := by
  cases command with
  | init force admin =>
    simp only [clear]
    split
    · exact .inl rfl
    · split
      · next hforce => exact .inr ⟨⟨admin, by rw [hforce]⟩, files.removeAll_cleared _⟩
      · exact .inl rfl
  | _ => exact .inl rfl

theorem Command.clear_error {given : String} {l : Location}
    (hroom : ∀ admin, command = .init true admin → Room given l files)
    (h : (command.clear given files).1 = .error e) : (command.clear given files).2 = files := by
  cases command with
  | init force admin =>
    simp only [clear] at h ⊢
    cases htaken : !(files.found given).isTaken with
    | true => rfl
    | false =>
      cases force with
      | false => rfl
      | true =>
        simp only [htaken, if_true, Bool.false_eq_true, if_false] at h ⊢
        have room := hroom admin rfl
        apply Files.removeAll_error _ h
        simp [room.log, room.index]
  | _ => cases h

theorem Command.configure_eq (h : ∀ host port, command ≠ .server host port) :
    command.configure config = .ok config := by
  cases command with
  | server host port => exact absurd rfl (h host port)
  | _ => rfl

theorem Command.withTables_holds {home : String}
    (hopens : Opens home tables (openTables path files))
    (he : (withTables path command.writes? files sys (command.work config)).result = .error e) :
    (withTables path command.writes? files sys (command.work config)).files.Holds home tables :=
  Cli.withTables_holds hopens
    (fun sys _ herror => (command.unharmed_work config sys).error herror) he

theorem blank_role_empties (config : Config) (sys : System) {l : Location} {role : String}
    {content : Content} (hl : Location.ofPath config.database = .ok l)
    (hlasting : l.isTransient = false)
    (hmode : l.mode = .create) (hfrozen : l.isFrozen = false) (room : Room config.database l files)
    (hpath : Path.simplify config.database = Path.simplify l.path)
    (hfound : files.found config.database = .file content)
    (hblank : (Text.trim role).isEmpty = true) :
    let outcome := Command.run config (.init true (some role)) files sys
    outcome.result = .error (.validationFailed "role" .required) ∧
      outcome.files.Holds (Path.simplify l.path) .empty := by
  obtain ⟨hlog, hindex, hjournal, hway⟩ := room
  have htaken : (files.found config.database).isTaken = true := by rw [hfound]; rfl
  generalize haway : files.put (Path.simplify config.database) .vacant = away
  have hremove : files.remove config.database = .ok away := by
    rw [Files.remove, hfound, haway]
  generalize hrest : away.removeAll [log config.database, index config.database] = rest
  have hclear : Command.clear config.database files (.init true (some role)) =
      (.ok (), rest.2) := by
    have hok : rest.1 = .ok () := by
      rw [← hrest]
      apply Files.removeAll_ok
      simp [Files.found_remove hremove, hlog, hindex]
    simp only [Command.clear, htaken, Files.removeAll_cons hremove, hrest]
    exact Prod.ext hok rfl
  have hbeside : away.Cleared rest.2 := hrest ▸ away.removeAll_cleared _
  have hcleared : files.Cleared rest.2 := (Files.remove_cleared hremove).trans hbeside
  have hvacant : rest.2.look (Path.simplify l.path) = .vacant := by
    have haway : away.look (Path.simplify l.path) = .vacant := by
      rw [← haway, hpath]
      exact Files.look_put_self
    rcases hbeside (Path.simplify l.path) with heq | heq
    · exact heq.trans haway
    · exact heq
  obtain ⟨hopens, db, hdb, hwritable⟩ := opens_vacant hl hlasting hmode hfrozen
    (isBlocked_cleared hcleared hway) (hcleared.ne hjournal (by decide)) hvacant
  simp only [Command.run, Command.configure, hclear]
  have hresult : (withTables config.database (Command.init true (some role)).writes? rest.2 sys
      ((Command.init true (some role)).work config)).result =
      .error (.validationFailed "role" .required) := by
    rw [withTables_result hdb hwritable]
    exact Command.init_error.mpr ⟨role, rfl, hblank, rfl⟩
  exact ⟨hresult, Command.withTables_holds hopens hresult⟩

end Cli

namespace Sample

def shelved : Files where
  found path := if path = "canopy.db" then .file (.database Sample.tables true) else .vacant

theorem look_shelved (path : String) :
    shelved.look path = .file (.database Sample.tables true) ∨ shelved.look path = .vacant := by
  change (if _ then _ else _) = _ ∨ (if _ then _ else _) = _
  split
  · exact .inl rfl
  · exact .inr rfl

theorem split_canopy : "canopy.db".splitOn "/" = ["canopy.db"] := by
  rw [String.splitOn, if_neg (by decide)]
  iterate 9 rw [String.splitOnAux, if_neg (by decide +kernel), if_neg (by decide +kernel)]
  rw [String.splitOnAux, if_pos (by decide +kernel)]
  decide +kernel

theorem simplify_canopy : Path.simplify "canopy.db" = "canopy.db" := by
  rw [Path.simplify, split_canopy]
  decide +kernel

theorem holds_shelved : shelved.Holds "canopy.db" Sample.tables := ⟨true, rfl⟩

theorem room_shelved : Database.Room "canopy.db" { path := "canopy.db" } shelved where
  log := by decide
  index := by decide
  journal := by
    rcases look_shelved (Database.journal (Path.simplify "canopy.db")) with h | h
    · rw [h]
      simp
    · rw [h]
      simp
  way := by
    rw [Database.isBlocked, List.any_eq_false]
    intro waypoint _
    rcases look_shelved waypoint with h | h
    · rw [h]
      simp
    · rw [h]
      simp

end Sample

namespace Cli

open Database

variable {config : Config}

/-- A command that fails leaves the tables as they were, unless it is to make the database anew: the
role of the administrator, and what the options of a URI allow, are looked at only after the old
database is away. -/
theorem failed_command_holds (inv : Invocation) (config : Config) (files : Files) (sys : System)
    {l : Location} {tables : Store} {e : Error}
    (hcommand : ∀ host port, inv.command ≠ some (.server host port))
    (hl : Location.ofPath config.database = .ok l) (hlasting : l.isTransient = false)
    (hroom : ∀ admin, inv.command = some (.init true admin) → Room config.database l files)
    (h : files.Holds (Path.simplify l.path) tables)
    (he : (inv.run config files sys).result = .error e) :
    (inv.run config files sys).files.Holds (Path.simplify l.path) tables ∨
      ∃ admin, inv.command = some (.init true admin) ∧
        ((∃ role, admin = some role ∧ (Text.trim role).isEmpty = true ∧
            e = .validationFailed "role" .required ∧
            (inv.run config files sys).files.Holds (Path.simplify l.path) .empty) ∨
          l.mode ≠ .create ∨ l.isFrozen = true) := by
  rcases inv with ⟨configPath, database, asJson, _ | command⟩
  · cases he
  have hserver : ∀ host port, command ≠ .server host port :=
    fun host port heq => hcommand host port (congrArg some heq)
  simp only [Invocation.run, Command.run, Command.configure_eq hserver, Option.some.injEq]
    at he hroom ⊢
  rcases hclear : command.clear config.database files with ⟨result, after⟩
  rw [hclear] at he
  have hcases := command.clear_cases config.database files
  rw [hclear] at hcases
  cases result with
  | error e' =>
    have hsame : after = files := by
      have := Command.clear_error hroom (by rw [hclear])
      rwa [hclear] at this
    left
    simp only [hsame]
    exact h
  | ok _ =>
    simp only at he ⊢
    rcases hcases with rfl | ⟨⟨admin, hinit⟩, hcleared⟩
    · exact .inl (Command.withTables_holds (opens_of_holds hl hlasting h) he)
    rcases hcleared (Path.simplify l.path) with hsame | hvacant
    · exact .inl (Command.withTables_holds (opens_of_holds hl hlasting (h.congr hsame)) he)
    -- the old database is away
    right
    refine ⟨admin, hinit, ?_⟩
    by_cases hmode : l.mode = .create
    · cases hfrozen : l.isFrozen with
      | true => exact .inr (.inr rfl)
      | false =>
        obtain ⟨-, -, hjournal, hway⟩ := hroom admin hinit
        obtain ⟨hopens, db, hdb, hwritable⟩ := opens_vacant hl hlasting hmode hfrozen
          (isBlocked_cleared hcleared hway) (hcleared.ne hjournal (by decide)) hvacant
        have herror := (withTables_result hdb hwritable).symm.trans he
        rw [hinit] at herror
        obtain ⟨role, hrole, hblank, rfl⟩ := Command.init_error.mp herror
        exact .inl ⟨role, hrole, hblank, rfl, Command.withTables_holds hopens he⟩
    · exact .inr (.inl hmode)

theorem failed_command_holds_shelved :
    let refused := Invocation.run { command := some (.init false none) } {} Sample.shelved
      { store := .empty }
    let forced := Invocation.run { command := some (.init true (some " ")) } {} Sample.shelved
      { store := .empty }
    refused.result = .error (.config "Database already exists. Use --force to overwrite.") ∧
      refused.files.Holds "canopy.db" Sample.tables ∧
      forced.result = .error (.validationFailed "role" .required) ∧
      (forced.files.Holds "canopy.db" Sample.tables ∨ forced.files.Holds "canopy.db" .empty) := by
  have hlocation : Location.ofPath "canopy.db" = .ok { path := "canopy.db" } := by rfl
  have hholds : Sample.shelved.Holds (Path.simplify "canopy.db") Sample.tables := by
    rw [Sample.simplify_canopy]
    exact Sample.holds_shelved
  have hforced := (blank_role_empties {} { store := .empty } hlocation (by decide) rfl (by decide)
    Sample.room_shelved rfl rfl (by decide : (Text.trim " ").isEmpty = true)).1
  have hrefused := failed_command_holds { command := some (.init false none) } {} Sample.shelved
    { store := .empty } (by simp) hlocation (by decide) (by simp) hholds rfl
  have hkept := failed_command_holds { command := some (.init true (some " ")) } {} Sample.shelved
    { store := .empty } (by simp) hlocation (by decide) (fun _ _ => Sample.room_shelved) hholds
    hforced
  simp only [Sample.simplify_canopy] at hrefused hkept
  refine ⟨rfl, ?_, hforced, ?_⟩
  · rcases hrefused with h | ⟨admin, hinit, -⟩
    · exact h
    · cases hinit
  · rcases hkept with h | ⟨admin, -, ⟨role, -, -, -, h⟩ | hmode | hfrozen⟩
    · exact .inl h
    · exact .inr h
    · exact absurd rfl hmode
    · cases hfrozen

/-- The database is lost although the command fails. -/
theorem failed_command_loses :
    let outcome := Invocation.run { command := some (.init true (some " ")) } {} Sample.shelved
      { store := .empty }
    Sample.shelved.Holds "canopy.db" Sample.tables ∧
      outcome.result = .error (.validationFailed "role" .required) ∧
      ¬outcome.files.Holds "canopy.db" Sample.tables := by
  have hempty := blank_role_empties {} { store := .empty } (by rfl) (by decide) (by rfl) (by decide)
    Sample.room_shelved rfl rfl (by decide : (Text.trim " ").isEmpty = true)
  simp only [Sample.simplify_canopy] at hempty
  obtain ⟨hresult, logged, hlook⟩ := hempty
  simp only [Invocation.run]
  refine ⟨Sample.holds_shelved, hresult, ?_⟩
  rintro ⟨logged', hlook'⟩
  have hplace := hlook.symm.trans hlook'
  have htables : Store.empty = Sample.tables := by injection hplace with h; injection h
  exact absurd htables (by decide)

end Cli

end KnowledgeTree
