/-!
TOML documents as tables of tables, with what it takes to know how each table came about: a table
is defined once, by a header, by dotted keys, or in one piece.
-/

namespace KnowledgeTree

inductive Toml.TableKind
  /-- Made by the header of a table inside it. -/
  | implicit
  | header
  | dotted
  | inline
deriving DecidableEq, Repr

inductive Toml
  | str (s : String)
  | int (n : Int)
  | bool (b : Bool)
  /-- A number or a date that stands for no integer. -/
  | other
  | arr (items : List Toml)
  | table (kind : Toml.TableKind) (fields : List (String × Toml))
  /-- An array of tables made by headers, the last first. -/
  | tables (items : List (List (String × Toml)))
deriving Repr, Inhabited

namespace Toml

abbrev Fields := List (String × Toml)

def Fields.get? (fields : Fields) (key : String) : Option Toml :=
  (fields.find? (·.1 == key)).map (·.2)

def Fields.set (fields : Fields) (key : String) (value : Toml) : Fields :=
  if (fields.get? key).isSome then
    fields.map fun field => if field.1 == key then (key, value) else field
  else fields ++ [(key, value)]

def Fields.add? (fields : Fields) (key : String) (value : Toml) : Option Fields :=
  if (fields.get? key).isSome then none else some (fields ++ [(key, value)])

/-- The tables that the keys of a header may go through. Dotted keys go through tables that dotted
keys made, and no others. -/
def TableKind.isOpen (dotted : Bool) : TableKind → Bool
  | TableKind.dotted => true
  | implicit | header => !dotted
  | inline => false

def within? (dotted : Bool) : List String → (Fields → Option Fields) → Fields → Option Fields
  | [], change, fields => change fields
  | key :: path, change, fields =>
    match fields.get? key with
    | none => do
      let inner ← within? dotted path change []
      return fields.set key (.table (if dotted then .dotted else .implicit) inner)
    | some (.table kind inner) => do
      guard (kind.isOpen dotted)
      return fields.set key (.table kind (← within? dotted path change inner))
    | some (.tables (last :: earlier)) => do
      guard (!dotted)
      return fields.set key (.tables ((← within? dotted path change last) :: earlier))
    | some _ => none

def define? (key : String) (fields : Fields) : Option Fields :=
  match fields.get? key with
  | none => some (fields.set key (.table .header []))
  | some (.table .implicit inner) => some (fields.set key (.table .header inner))
  | some _ => none

def append? (key : String) (fields : Fields) : Option Fields :=
  match fields.get? key with
  | none => some (fields.set key (.tables [[]]))
  | some (.tables items) => some (fields.set key (.tables ([] :: items)))
  | some _ => none

def assign? (key : List String) (value : Toml) (fields : Fields) : Option Fields :=
  match key.getLast? with
  | none => none
  | some last => within? true key.dropLast (·.add? last value) fields

end Toml

end KnowledgeTree
