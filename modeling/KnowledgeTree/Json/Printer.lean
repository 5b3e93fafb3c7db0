import KnowledgeTree.Json.Basic
import KnowledgeTree.Text.Numeral

/-!
JSON texts: compact, and laid out with one item or field a line.
-/

namespace KnowledgeTree.Json

def escape (c : Char) : String :=
  match c with
  | '"' => "\\\""
  | '\\' => "\\\\"
  | '\x08' => "\\b"
  | '\x0c' => "\\f"
  | '\n' => "\\n"
  | '\r' => "\\r"
  | '\t' => "\\t"
  | c => if c < ' ' then "\\u" ++ String.ofList (Text.digits 16 4 c.toNat) else c.toString

def quote (s : String) : String := "\"" ++ String.join (s.toList.map escape) ++ "\""

def scalarText : Json → String
  | bool b => if b then "true" else "false"
  | int n => toString n
  | decimal literal => literal
  | str s => quote s
  | _ => "null"

mutual

def compact : Json → String
  | arr items _ => "[" ++ ",".intercalate (compactItems items) ++ "]"
  | obj fields _ => "\x7b" ++ ",".intercalate (compactFields fields) ++ "\x7d"
  | j => j.scalarText

def compactItems : List Json → List String
  | [] => []
  | j :: items => j.compact :: compactItems items

def compactFields : List (Option String × Json) → List String
  | [] => []
  | (key, j) :: fields => (quote (key.getD "") ++ ":" ++ j.compact) :: compactFields fields

end

def margin (depth : Nat) : String := String.ofList (List.replicate (2 * depth) ' ')

def block (opening closing : String) (depth : Nat) (parts : List String) : String :=
  if parts.isEmpty then opening ++ closing
  else
    let inner := "\n" ++ margin (depth + 1)
    opening ++ inner ++ (("," ++ inner).intercalate parts) ++ "\n" ++ margin depth ++ closing

mutual

def prettyAt (depth : Nat) : Json → String
  | arr items _ => block "[" "]" depth (prettyItems (depth + 1) items)
  | obj fields _ => block "\x7b" "\x7d" depth (prettyFields (depth + 1) fields)
  | j => j.scalarText

def prettyItems (depth : Nat) : List Json → List String
  | [] => []
  | j :: items => j.prettyAt depth :: prettyItems depth items

def prettyFields (depth : Nat) : List (Option String × Json) → List String
  | [] => []
  | (key, j) :: fields => (quote (key.getD "") ++ ": " ++ j.prettyAt depth) :: prettyFields depth fields

end

def pretty (j : Json) : String := j.prettyAt 0

end KnowledgeTree.Json
