import KnowledgeTree.Cli.Command
import KnowledgeTree.Cli.Report
import KnowledgeTree.Database.Opening

/-!
Carrying out commands. A command reads a configuration, opens a database, does its work on the
tables and leaves files as its only trace.
-/

namespace KnowledgeTree.Cli

structure Outcome (α : Type) where
  result : Except Error α
  files : Files
  sys : System

/-- Works on the tables of a database and keeps them, also if the work fails. Work that comes to the
operation `writes` is refused there if the database may not be written. -/
def withTables {α : Type} (path : String) (writes : Option String) (files : Files) (sys : System)
    (work : System → Except Error α × System) : Outcome α :=
  match Database.openTables path files with
  | (.error e, files) => ⟨.error e, files, sys⟩
  | (.ok db, files) =>
    let (result, after) := work { sys with store := db.tables }
    if db.writable then ⟨result, db.save after.store files, after⟩
    else match result, writes with
      | .ok _, some operation => ⟨.error (Database.readOnly operation), files, sys⟩
      | result, _ => ⟨result, files, sys⟩

namespace Command

def saveRole (name : String) (admin : Bool) (sys : System) : Except Error Unit × System :=
  sys.commitUnit (sys.store.upsertRole .background name admin)

def work (config : Config) (command : Command) (sys : System) : Except Error Report × System :=
  match command with
  | server _ _ => (.ok .ready, sys)
  | init _ none => (.ok (.initialized config.database none), sys)
  | init _ (some adminRole) =>
    let (result, sys) := saveRole adminRole true sys
    (result.map fun _ => .initialized config.database (some adminRole), sys)
  | role name admin =>
    let (result, sys) := saveRole name admin sys
    (result.map fun _ => .roleSaved (Text.trim name) admin, sys)
  | grant name entity capability =>
    let (result, sys) := sys.commitUnit (sys.store.grant .background name entity capability)
    (result.map fun _ => .granted name entity capability, sys)
  | revoke name entity capability =>
    let (result, sys) := sys.commit (sys.store.revoke .background name entity capability)
    (result.map (.revoked name entity capability), sys)
  | tree caller =>
    ((Service.getTree config.limits .background caller sys.store).map (.forest caller.role), sys)
  | create caller entityType name content parent draft =>
    match EntityType.parse entityType with
    | .error e => (.error e, sys)
    | .ok entityType =>
      let (result, sys) := Service.create config.limits .background caller
        ⟨entityType, name, content, parent, draft⟩ sys
      (result.map (.created · entityType draft), sys)
  | history caller entity =>
    ((Service.getVersionsList config.limits .background caller entity sys.store).map
      (.history entity), sys)

def writes? : Command → Option String
  | init _ (some _) | role .. => some "upsert_role"
  | grant .. => some "grant"
  | revoke .. => some "revoke"
  | create _ _ _ _ _ draft => some (if draft then "create_draft" else "create")
  | server .. | init _ none | tree _ | history .. => none

def configure (config : Config) : Command → Except Error Config
  | server host port => do
    let server := { config.server with
      host := host.getD config.server.host
      port := port.getD config.server.port }
    let config := { config with server }
    config.validate
    return config
  | _ => .ok config

def clear (path : String) (files : Files) : Command → Except Error Unit × Files
  | init force _ =>
    if !(files.found path).isTaken then (.ok (), files)
    else if force then files.removeAll [path, Database.log path, Database.index path]
    else (.error (.config "Database already exists. Use --force to overwrite."), files)
  | _ => (.ok (), files)

def run (config : Config) (command : Command) (files : Files) (sys : System) : Outcome Report :=
  match command.configure config with
  | .error e => ⟨.error e, files, sys⟩
  | .ok config =>
    match command.clear config.database files with
    | (.error e, files) => ⟨.error e, files, sys⟩
    | (.ok (), files) =>
      withTables config.database command.writes? files sys (command.work config)

end Command

namespace Invocation

def load (look : String → Place) : Option String → Except Error Config
  | none => .ok {}
  | some path =>
    let content := if path.toList.contains '\x00' then
      .error "file name contained an unexpected NUL byte" else (look path).readText
    match content with
    | .ok s => Config.ofText s
    | .error reason => .error (.config s!"Cannot read config '{path}': {reason}")

def configure (inv : Invocation) (look : String → Place) : Except Error Config := do
  let config ← load look inv.config
  return { config with database := inv.database.getD config.database }

def run (inv : Invocation) (config : Config) (files : Files) (sys : System) : Outcome Report :=
  match inv.command with
  | none => ⟨.ok (.configuration config), files, sys⟩
  | some command => command.run config files sys

end Invocation

end KnowledgeTree.Cli
