import KnowledgeTree.Database.Location
import KnowledgeTree.Files.Basic

/-!
Opening a database. Beside its file there may be three others: a journal, from which a change that
was broken off is undone, a log with the changes since the file was last brought up to date, and an
index of that log. A database that is closed leaves none of them, and when it is opened it takes
those it finds for its own, whatever they hold.
-/

namespace KnowledgeTree.Database

structure Handle where
  tables : Store
  /-- The path that the tables are kept at; without one they are forgotten. -/
  home : Option String := none
  writable : Bool := true
  logged : Bool := true

def Handle.save (db : Handle) (tables : Store) (files : Files) : Files :=
  match db.home with
  | some path => files.put path (.file (.database tables db.logged))
  | none => files

def cannotOpen (given : String) : Error :=
  .store "open" s!"unable to open database file: {given}"

def cannotOpenBeside : Error := .store "open" "unable to open database file"

def notDatabase : Error := .store "open" "file is not a database"

def readOnly (operation : String) : Error :=
  .store operation "attempt to write a readonly database"

def journal (path : String) : String := path ++ "-journal"

def log (path : String) : String := path ++ "-wal"

def index (path : String) : String := path ++ "-shm"

def isFilled : Place → Bool
  | .file content => content ≠ .text ""
  | _ => false

/-- A journal counts unless it is empty or its first byte is zero. -/
def isHot : Place → Bool
  | .file (.text s) => s.toList.head?.any (· != '\x00')
  | .file _ => true
  | _ => false

/-- The log and its index when the database is closed: all changes are in the file then, and both are
taken away. Without leave to write the file they are made and stay. -/
def closeLog (l : Location) (path : String) (files : Files) : Files :=
  if l.mode = .readOnly then
    let files := if files.look (log path) = .vacant then files.put (log path) (.file (.text ""))
      else files
    files.put (index path) (.file .other)
  else (files.put (log path) .vacant).put (index path) .vacant

def openEmpty (l : Location) (path : String) (files : Files) : Except Error Handle × Files :=
  let files := if isFilled (files.look (log path)) then files.put (log path) .vacant else files
  if l.mode = .readOnly then
    (.error (readOnly (if l.allowsLog then "open" else "init_schema")), files)
  else if files.look (journal path) = .tooLong then (.error cannotOpenBeside, files)
  else
    let files := files.put (journal path) .vacant
    let files := if l.allowsLog then closeLog l path files else files
    let db : Handle := { tables := .empty, home := some path, logged := l.allowsLog }
    (.ok db, db.save .empty files)

def isLogged (beside : Place) : Content → Bool
  | .database _ true => true
  | _ => isFilled beside

def openFilled (l : Location) (path : String) (content : Content) (files : Files) :
    Except Error Handle × Files :=
  let hot := isHot (files.look (journal path))
  if hot && l.mode = .readOnly then (.error (readOnly "open"), files)
  else
    let files := if hot then files.put (journal path) .vacant else files
    let inLog := isLogged (files.look (log path)) content
    if inLog && !l.allowsLog then (.error cannotOpenBeside, files)
    else
      let files := if inLog then closeLog l path files else files
      match content with
      | .database tables logged =>
        let db : Handle := { tables, home := some path, writable := l.mode ≠ .readOnly, logged }
        if logged || !l.allowsLog then (.ok db, files)
        else if !db.writable then (.error (readOnly "open"), files)
        else
          let db := { db with logged := true }
          (.ok db, db.save tables (closeLog l path (files.put (journal path) .vacant)))
      | _ => (.error notDatabase, files)

def openFrozen : Content → Except Error Handle
  | .database tables _ => .ok { tables, writable := false }
  | .text "" => .error (readOnly "init_schema")
  | _ => .error notDatabase

def openFile (l : Location) (path : String) (content : Content) (files : Files) :
    Except Error Handle × Files :=
  if l.isFrozen then (openFrozen content, files)
  else if content = .text "" then openEmpty l path files
  else openFilled l path content files

/-- On the way to a file there may be directories that are missing, if the path leads back out of
them, but no files. -/
def isBlocked (files : Files) (path : String) : Bool :=
  (Path.waypoints path).any fun waypoint =>
    match files.look waypoint with
    | .belowFile | .tooLong => true
    | _ => false

def Location.openTables (l : Location) (given : String) (files : Files) :
    Except Error Handle × Files :=
  let path := Path.simplify l.path
  if l.isTransient then
    (if l.mode = .readOnly then .error (readOnly "init_schema") else .ok { tables := .empty }, files)
  else if isBlocked files l.path then (.error (cannotOpen given), files)
  else match files.look path with
    | .file content => openFile l path content files
    | .vacant =>
      if l.mode = .create then openFile l path (.text "") (files.put path (.file (.text "")))
      else (.error (cannotOpen given), files)
    | .directory =>
      (.error (if l.mode = .readOnly then .store "open" "disk I/O error" else cannotOpen given), files)
    | .unreachable | .belowFile | .tooLong => (.error (cannotOpen given), files)

def openTables (given : String) (files : Files) : Except Error Handle × Files :=
  match Location.ofPath given with
  | .error fault => (.error (.store "open" fault.message), files)
  | .ok l => l.openTables given files

def paths (given : String) : List String :=
  let ways := match Location.ofPath given with
    | .error _ => []
    | .ok l => Path.waypoints l.path ++
      [journal, log, index].map fun beside => beside (Path.simplify l.path)
  [given, log given, index given] ++ ways

end KnowledgeTree.Database
