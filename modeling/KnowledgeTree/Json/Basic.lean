/-!
JSON values with their fields in order, repeated keys included. A value read from a text also tells
where the text stops being JSON, so that a reader knows which comes first: the end of the JSON, or
a value of the wrong shape.
-/

namespace KnowledgeTree

inductive Json
  | null
  | bool (b : Bool)
  | int (n : Int)
  /-- A number written with a point or an exponent, or as negative zero. -/
  | decimal (literal : String)
  | str (s : String)
  /-- The items, and whether the closing bracket follows them. -/
  | arr (items : List Json) (closed : Bool)
  /-- The fields, and whether the closing brace follows them. A key that cannot be read is `none`. -/
  | obj (fields : List (Option String × Json)) (closed : Bool)
  /-- A scalar that can be skipped but not read: a string with half a surrogate pair, or a number
  beyond the range of doubles. -/
  | unreadable
  /-- Here the text is no JSON. -/
  | torn
deriving Repr, Inhabited, BEq

namespace Json

def list (items : List Json) : Json := arr items true

def record (fields : List (String × Json)) : Json := obj (fields.map fun (k, v) => (some k, v)) true

def option {α : Type} (f : α → Json) : Option α → Json
  | none => null
  | some a => f a

def get? (j : Json) (key : String) : Option Json :=
  match j with
  | obj fields _ => (fields.reverse.find? (·.1 == some key)).map (·.2)
  | _ => none

def without (key : String) : Json → Json
  | obj fields closed => obj (fields.filter (·.1 != some key)) closed
  | j => j

mutual

def isWithin (bound : Nat) : Json → Bool
  | arr items _ => 0 < bound && areWithin (bound - 1) items
  | obj fields _ => 0 < bound && areFieldsWithin (bound - 1) fields
  | _ => true

def areWithin (bound : Nat) : List Json → Bool
  | [] => true
  | j :: items => j.isWithin bound && areWithin bound items

def areFieldsWithin (bound : Nat) : List (Option String × Json) → Bool
  | [] => true
  | (_, j) :: fields => j.isWithin bound && areFieldsWithin bound fields

end

end Json

end KnowledgeTree
