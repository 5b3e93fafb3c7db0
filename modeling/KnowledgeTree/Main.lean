import KnowledgeTree.Cli.Run
import KnowledgeTree.Wire.Tables
import Std.Time.DateTime.Timestamp

/-!
The program: reads the files that a command line names, carries the command out, and writes the
database back.
-/

namespace KnowledgeTree.Program

open Cli

def contentOf (bytes : ByteArray) : Content :=
  match String.fromUTF8? bytes with
  | none => .other
  | some s => match Store.ofText? s with
    | some tables => .database tables true
    | none => .text s

def probe (path : String) : IO Place := do
  match ← (IO.FS.Handle.mk path .writeNew).toBaseIO with
  | .ok _ =>
    IO.FS.removeFile path
    return .vacant
  | .error _ => return .unreachable

def placeOf (path : String) : IO Place := do
  match ← (IO.FS.readBinFile path).toBaseIO with
  | .ok bytes => return .file (contentOf bytes)
  | .error (.inappropriateType none ..) => return .directory
  | .error (.inappropriateType ..) => return .belowFile
  | .error (.noFileOrDirectory ..) => probe path
  | .error _ => return .unreachable

def survey (paths : List String) : IO Files := do
  let places ← paths.mapM fun path => return (path, ← placeOf path)
  return { found := fun path => (places.lookup path).getD .unreachable }

def write (path : String) : Place → IO Unit
  | .file (.database tables _) => IO.FS.writeFile path tables.toText
  | .file (.text s) => IO.FS.writeFile path s
  | .vacant => do
    if let .error e ← (IO.FS.removeFile path).toBaseIO then
      if !(e matches .noFileOrDirectory ..) then throw e
  | _ => return

def newSystem : IO System := do
  let now := (← Std.Time.Timestamp.now).val
  let block := (← IO.getRandomBytes 8).toUInt64LE!
  return {
    store := .empty
    clock := { now := .ofNanos (now.second.val * 1000000000 + now.nano.val) }
    ids := { block } }

def fail (e : Error) : IO UInt32 := do
  IO.eprintln s!"Error: {e.message}"
  return 1

def run (inv : Invocation) : IO UInt32 := do
  let place ← match inv.config with
    | some path => placeOf path
    | none => pure .vacant
  match inv.configure fun _ => place with
  | .error e => fail e
  | .ok config =>
    let files ← survey (Database.paths config.database)
    let outcome := inv.run config files (← newSystem)
    for (path, change) in outcome.files.changes.reverse do
      write path change
    match outcome.result with
    | .error e => fail e
    | .ok report =>
      if inv.asJson then IO.println report.toJson.pretty else IO.print report.text
      return 0

def usageText : Usage → String
  | .help => "Usage: canopy [OPTIONS] [COMMAND]"
  | .version => "canopy 0.4.2"
  | .unknownArgument => "error: unexpected argument found"
  | .unknownCommand => "error: unrecognized subcommand"
  | .missingArgument => "error: required arguments were not provided"
  | .missingValue => "error: a value is required"
  | .badValue => "error: invalid value"
  | .unwantedValue => "error: unexpected value"
  | .repeatedArgument => "error: an argument cannot be used multiple times"

end KnowledgeTree.Program

open KnowledgeTree in
def main (args : List String) : IO UInt32 := do
  match Cli.Invocation.ofWords args with
  | .ok inv => Program.run inv
  | .error usage =>
    let text := Program.usageText usage
    if usage = .help ∨ usage = .version then
      IO.println text
      return 0
    else
      IO.eprintln text
      return 2
