import KnowledgeTree.Cli.Argument

/-!
Going through the words of one level of a command line. An argument is taken in two steps: it waits
until its value is known and the next word has been looked at, and only then its value is checked.
So a word that fits nowhere is reported before a bad value right in front of it.
-/

namespace KnowledgeTree.Cli

inductive Word
  | plain
  | divider
  | long (name : String) (value : Option String)
  | short (letters : List Char)
deriving DecidableEq, Repr

namespace Word

def splitValue (cs : List Char) : String × Option String :=
  let name := cs.takeWhile (· != '=')
  let value := match cs.dropWhile (· != '=') with
    | [] => none
    | _ :: value => some (String.ofList value)
  (String.ofList name, value)

def ofText (w : String) : Word :=
  match w.toList with
  | ['-', '-'] => divider
  | '-' :: '-' :: cs => let (name, value) := splitValue cs; long name value
  | '-' :: c :: cs => short (c :: cs)
  | _ => plain

end Word

abbrev Values := List (Argument × String)

structure Scan where
  taken : Values := []
  pending : Option (Argument × Option String) := none
  places : List Argument := []
  divided : Bool := false
deriving DecidableEq, Repr

namespace Scan

def awaitsValue (s : Scan) : Bool := s.pending.any (·.2.isNone)

def take (s : Scan) (a : Argument) (v : String) : Except Usage Scan := do
  if s.taken.any (·.1 == a) then throw .repeatedArgument
  a.form.check v
  return { s with taken := s.taken ++ [(a, v)] }

def settle (s : Scan) : Except Usage Scan :=
  match s.pending with
  | none => .ok s
  | some (_, none) => .error .missingValue
  | some (a, some v) => { s with pending := none }.take a v

def flag (s : Scan) (a : Argument) : Except Usage Scan := do
  let s ← s.settle
  match a with
  | .help => throw .help
  | .version => throw .version
  | a => s.take a ""

def valued (s : Scan) (a : Argument) : Option String → Except Usage Scan
  | some v => do (← s.settle).take a v
  | none => do return { (← s.settle) with pending := some (a, none) }

def long (l : Level) (s : Scan) (name : String) (value : Option String) : Except Usage Scan :=
  match l.ofWord? name with
  | none => .error .unknownArgument
  | some a =>
    if a.form = .flag then if value.isSome then .error .unwantedValue else s.flag a
    else s.valued a value

def attached : List Char → Option String
  | [] => none
  | '=' :: cs => some (String.ofList cs)
  | cs => some (String.ofList cs)

def short (l : Level) : Scan → List Char → Except Usage Scan
  | s, [] => .ok s
  | s, c :: cs =>
    match l.ofLetter? c with
    | none => .error .unknownArgument
    | some a => if a.form = .flag then s.flag a >>= (short l · cs) else s.valued a (attached cs)

def surplus (l : Level) (s : Scan) (w : String) : Usage :=
  if l.commands.isEmpty ∨ (s.divided ∧ l.commands.contains w) then .unknownArgument
  else .unknownCommand

def place (l : Level) (s : Scan) (w : String) : Except Usage Scan :=
  match s.places with
  | [] => .error (s.surplus l w)
  | a :: places => do return { (← s.settle) with pending := some (a, some w), places }

def supply (s : Scan) (w : String) : Scan :=
  { s with pending := s.pending.map fun (a, _) => (a, some w) }

def step (l : Level) (s : Scan) (w : String) : Except Usage Scan :=
  if s.divided then s.place l w
  else match Word.ofText w with
    | .divider => .ok { s with divided := true }
    | .long name value => s.long l name value
    | .short letters => s.short l letters
    | .plain => if s.awaitsValue then .ok (s.supply w) else s.place l w

/-- Up to the end of the words or the name of a command, which is returned with what follows it. The
last argument may still wait. -/
def run (l : Level) : Scan → List String → Except Usage (Scan × Option (String × List String))
  | s, [] => .ok (s, none)
  | s, w :: ws =>
    if !s.divided && !s.awaitsValue && l.commands.contains w then .ok (s, some (w, ws))
    else s.step l w >>= (run l · ws)

end Scan

def Level.scan (l : Level) (words : List String) :
    Except Usage (Scan × Option (String × List String)) :=
  Scan.run l { places := l.positionals } words

end KnowledgeTree.Cli
