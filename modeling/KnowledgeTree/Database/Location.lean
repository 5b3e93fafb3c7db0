import KnowledgeTree.Text.Percent
import KnowledgeTree.Text.Utf8

/-!
How the path of a database is understood: as a path, or as a URI with options.
-/

namespace KnowledgeTree.Database

inductive Mode
  | readOnly
  | existing
  | create
  | memory
deriving DecidableEq, Repr

inductive Fault
  | nul (position : Nat)
  | authority (host : String)
  | unknownMode (kind mode : String)
  /-- A mode after another one that allows less. -/
  | refusedMode (mode : String)
  | unknownDriver (name : String)
deriving DecidableEq, Repr

def Fault.message : Fault → String
  | nul position => s!"nul byte found in provided data at position: {position}"
  | authority host => s!"invalid uri authority: {host}"
  | unknownMode kind mode => s!"no such {kind} mode: {mode}"
  | refusedMode mode => s!"access mode not allowed: {mode}"
  | unknownDriver name => s!"no such vfs: {name}"

namespace Mode

def ofText? : String → Option Mode
  | "ro" => some readOnly
  | "rw" => some existing
  | "rwc" => some create
  | "memory" => some memory
  | _ => none

def rank : Mode → Nat
  | readOnly => 0
  | existing => 1
  | create => 2
  | memory => 3

def change (mode : Mode) (value : String) : Except Fault Mode :=
  match ofText? value with
  | none => .error (.unknownMode "access" value)
  | some new =>
    if new = memory ∨ new.rank ≤ mode.rank then .ok new else .error (.refusedMode value)

end Mode

structure Location where
  path : String
  mode : Mode := .create
  driver : String := "unix"
  options : List (String × String) := []
deriving DecidableEq, Repr

namespace Location

/-- The text of a piece of a URI; a zero byte ends it. -/
def decodePiece (cs : List Char) : String :=
  Text.ofUtf8Lossy ((Text.percentDecode (Text.utf8 (String.ofList cs))).takeWhile (· != 0))

def cutAt (mark : Char) (cs : List Char) : List Char × List Char :=
  (cs.takeWhile (· != mark), (cs.dropWhile (· != mark)).drop 1)

def optionsOf (query : List Char) : List (String × String) :=
  let pairs := ((String.ofList query).splitOn "&").map fun piece =>
    let (name, value) := cutAt '=' piece.toList
    (decodePiece name, decodePiece value)
  pairs.filter (! ·.1.isEmpty)

def apply (l : Location) (name value : String) : Except Fault Location :=
  match name with
  | "vfs" => .ok { l with driver := value }
  | "mode" => return { l with mode := ← l.mode.change value }
  | "cache" =>
    if ["shared", "private"].contains value then .ok l else .error (.unknownMode "cache" value)
  | _ => .ok l

def drivers : List String := ["unix", "unix-none", "unix-dotfile", "unix-excl", "memdb"]

def dropAuthority : List Char → Except Fault (List Char)
  | '/' :: '/' :: cs =>
    let host := String.ofList (cs.takeWhile (· != '/'))
    if ["", "localhost"].contains host then .ok (cs.dropWhile (· != '/'))
    else .error (.authority host)
  | cs => .ok cs

def ofUri (cs : List Char) : Except Fault Location := do
  let cs := (← dropAuthority cs).takeWhile (· != '#')
  let (path, query) := cutAt '?' cs
  let options := optionsOf query
  let start : Location := { path := decodePiece path, options }
  let l ← options.foldlM (fun l (name, value) => l.apply name value) start
  if drivers.contains l.driver then return l else throw (.unknownDriver l.driver)

def ofPath (given : String) : Except Fault Location :=
  let cs := given.toList
  if cs.contains '\x00' then
    .error (.nul (String.ofList (cs.takeWhile (· != '\x00'))).utf8ByteSize)
  else if "file:".toList.isPrefixOf cs then ofUri (cs.drop 5)
  else .ok { path := given }

def isSet (l : Location) (name : String) : Bool :=
  match l.options.find? (·.1 == name) with
  | none => false
  | some (_, value) =>
    let digits := value.toList.takeWhile Char.isDigit
    if digits.isEmpty then ["on", "yes", "true"].contains value.toLower
    else digits.any (· != '0')

def isTransient (l : Location) : Bool :=
  l.mode = .memory || l.driver == "memdb" || l.path.isEmpty || l.path == ":memory:"

def allowsLog (l : Location) : Bool :=
  ["unix", "unix-excl"].contains l.driver && !l.isSet "nolock"

def isFrozen (l : Location) : Bool := l.isSet "immutable"

end Location

end KnowledgeTree.Database
