/-!
Media types, as far as it takes to know JSON.
-/

namespace KnowledgeTree.Http

def isTokenChar (c : Char) : Bool := c.isAlphanum || "!#$%&'*+-.^_`|~".toList.contains c

def takeToken? (cs : List Char) : Option (List Char × List Char) :=
  let token := cs.takeWhile isTokenChar
  if token.isEmpty then none else some (token, cs.dropWhile isTokenChar)

def afterQuoted? (cs : List Char) : Option (List Char) :=
  match cs.dropWhile (· == ' ') with
  | [] => some []
  | ';' :: rest => some rest
  | _ => none

/-- The rest after the first parameter. A quoted value holds one character at least, and its first
may be a quote; any other value may be missing at the end of the text. -/
def skipParameter? (cs : List Char) : Option (List Char) := do
  match ← takeToken? cs with
  | (_, '=' :: '"' :: first :: rest) =>
    let value := first :: rest.takeWhile (· != '"')
    match rest.dropWhile (· != '"') with
    | '"' :: rest =>
      if value.any fun c => c < ' ' || c == '\x7f' then none else afterQuoted? rest
    | _ => none
  | (_, ['=']) => some []
  | (_, '=' :: rest) =>
    match ← takeToken? rest with
    | (_, ';' :: rest) => some rest
    | (_, []) => some []
    | _ => none
  | _ => none

def areParameters : (bound : Nat) → List Char → Bool
  | 0, _ => false
  | bound + 1, cs =>
    let cs := cs.dropWhile (· == ' ')
    cs.isEmpty || (skipParameter? cs).any (areParameters bound)

def splitSuffix (subtype : List Char) : List Char × Option (List Char) :=
  let suffix := (subtype.reverse.takeWhile (· != '+')).reverse
  let stem := subtype.take (subtype.length - suffix.length - 1)
  if stem.isEmpty then (subtype, none) else (stem, some suffix)

def isJsonType (s : String) : Bool :=
  match takeToken? s.toLower.toList with
  | some (type, '/' :: rest) =>
    match takeToken? rest with
    | some (subtype, after) =>
      let (stem, suffix) := splitSuffix subtype
      let wellFormed := match after with
        | [] => true
        | ';' :: parameters => areParameters s.length parameters
        | _ => false
      wellFormed && type == "application".toList &&
        (stem == "json".toList || suffix == some "json".toList)
    | none => false
  | _ => false

end KnowledgeTree.Http
