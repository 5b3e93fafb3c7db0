import KnowledgeTree.Json.Reader

/-!
Taking JSON values apart. A decoder goes through a value in the order of the text and reports the
first thing that is wrong: the text stops being JSON, or a part has the wrong shape.
-/

namespace KnowledgeTree.Json

inductive Fault
  | torn
  | shape
deriving DecidableEq, Repr

/-- What is wrong with a value that is not of the type asked for. A scalar is read to its end before
its type counts. -/
def fault : Json → Fault
  | .torn | .unreadable => .torn
  | _ => .shape

def text : Json → Except Fault String
  | str s => .ok s
  | j => .error j.fault

def flag : Json → Except Fault Bool
  | bool b => .ok b
  | j => .error j.fault

def natural (bound : Nat) : Json → Except Fault Nat
  | int n => if 0 ≤ n ∧ n < bound then .ok n.toNat else .error .shape
  | j => .error j.fault

def nullable {α : Type} (decode : Json → Except Fault α) : Json → Except Fault (Option α)
  | null => .ok none
  | j => (decode j).map some

def reading {α : Type} (read : String → Option α) (j : Json) : Except Fault α := do
  match read (← j.text) with
  | some a => return a
  | none => throw .shape

/-- A word of a vocabulary, alone or as the only key of an object that holds null. -/
def word {α : Type} (read : String → Option α) : Json → Except Fault α
  | obj [(some key, null)] true => reading read (str key)
  | j => reading read j

def once {α : Type} (old : Option α) (value : Except Fault α) : Except Fault (Option α) :=
  if old.isSome then .error .shape else value.map some

section Record

variable {σ : Type} (step : σ → String → Json → Except Fault σ)

def addFields : σ → List (Option String × Json) → Except Fault σ
  | acc, [] => .ok acc
  | acc, (some key, value) :: fields => do addFields (← step acc key value) fields
  | _, (none, _) :: _ => .error .torn

def addItems (closed : Bool) : σ → (names : List String) → List Json → Except Fault σ
  | acc, [], [] | acc, _ :: _, [] => if closed then .ok acc else .error .torn
  | acc, name :: names, item :: items => do addItems closed (← step acc name item) names items
  | _, [], _ :: _ => .error .torn

/-- A record as an object, or as an array of its fields in order, of which `required` must be
there. -/
def fields (init : σ) (names : List String) (required : Nat) : Json → Except Fault σ
  | obj fields closed => do
    let acc ← addFields step init fields
    if closed then return acc else throw .torn
  | arr items closed => do
    let acc ← addItems step closed init names items
    if items.length < required then throw .shape else return acc
  | j => .error j.fault

end Record

def need {α : Type} : Option α → Except Fault α
  | some a => .ok a
  | none => .error .shape

def Document.decode {α : Type} (d : Document) (decode : Json → Except Fault α) : Except Fault α := do
  let a ← decode d.root
  if d.ended then return a else throw .torn

end KnowledgeTree.Json
