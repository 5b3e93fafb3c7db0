import KnowledgeTree.Toml.Scalar

/-!
Reading TOML documents.
-/

namespace KnowledgeTree.Toml

def comment? : List Char → Option (List Char)
  | '#' :: cs => some (cs.dropWhile isPlain)
  | cs => some cs

def skipLines : (bound : Nat) → List Char → List Char
  | 0, cs => cs
  | bound + 1, cs =>
    let cs := cs.dropWhile isBlank
    match newline? ((comment? cs).getD cs) with
    | some rest => skipLines bound rest
    | none => cs

def skip (cs : List Char) : List Char := skipLines (cs.length + 1) cs

def endLine? (cs : List Char) : Option (List Char) :=
  match comment? (cs.dropWhile isBlank) with
  | some [] => some []
  | some rest => newline? rest
  | none => none

def isBareKeyChar (c : Char) : Bool := c.isAlphanum || c == '_' || c == '-'

def simpleKey? (cs : List Char) : Option (String × List Char) :=
  match lineString? cs with
  | some key => some key
  | none =>
    let key := cs.takeWhile isBareKeyChar
    if key.isEmpty then none else some (String.ofList key, cs.dropWhile isBareKeyChar)

def maxNesting : Nat := 80

def key? : (bound : Nat) → List Char → Option (List String × List Char)
  | 0, _ => none
  | bound + 1, cs => do
    let (key, rest) ← simpleKey? (cs.dropWhile isBlank)
    match rest.dropWhile isBlank with
    | '.' :: rest => do
      let (keys, rest) ← key? bound rest
      return (key :: keys, rest)
    | rest => return ([key], rest)

def keyAnd? (skip : List Char → List Char) (mark : List Char) (cs : List Char) :
    Option (List String × List Char) := do
  let (key, rest) ← key? maxNesting cs
  let rest := skip rest
  guard (mark.isPrefixOf rest)
  return (key, rest.drop mark.length)

def isWordChar (c : Char) : Bool := !"=,[]\x7b\x7d \t#\r\n".toList.contains c

/-- Such a word; between the day and the time of a date there may be a space. -/
def takeWord (cs : List Char) : List Char × List Char :=
  let word := cs.takeWhile isWordChar
  let rest := cs.dropWhile isWordChar
  match rest with
  | ' ' :: d :: more =>
    if isDay word && d.isDigit then
      (word ++ ' ' :: (d :: more).takeWhile isWordChar, (d :: more).dropWhile isWordChar)
    else (word, rest)
  | rest => (word, rest)

mutual

def value? : (bound room : Nat) → List Char → Option (Toml × List Char)
  | 0, _, _ => none
  | bound + 1, room, cs =>
    match cs, room with
    | '[' :: cs, room + 1 => (items? bound room [] (skip cs)).map fun (items, rest) => (.arr items, rest)
    | '{' :: cs, room + 1 =>
      (pairs? bound room [] (skip cs)).map fun (fields, rest) => (.table .inline fields, rest)
    | c :: cs, _ =>
      if c == '"' || c == '\'' then (string? (c :: cs)).map fun (s, rest) => (.str s, rest)
      else
        let (word, rest) := takeWord (c :: cs)
        (word? word).map (·, rest)
    | [], _ => none

def items? : (bound room : Nat) → (acc : List Toml) → List Char → Option (List Toml × List Char)
  | 0, _, _, _ => none
  | bound + 1, room, acc, cs =>
    match cs with
    | ']' :: rest => some (acc.reverse, rest)
    | cs =>
      match value? bound room cs with
      | none => none
      | some (item, rest) =>
        match skip rest with
        | ',' :: rest => items? bound room (item :: acc) (skip rest)
        | ']' :: rest => some ((item :: acc).reverse, rest)
        | _ => none

def pairs? : (bound room : Nat) → (acc : Fields) → List Char → Option (Fields × List Char)
  | 0, _, _, _ => none
  | bound + 1, room, acc, cs =>
    match cs with
    | '}' :: rest => some (acc, rest)
    | cs =>
      match keyAnd? skip ['='] cs with
      | none => none
      | some (key, rest) =>
        match value? bound room (skip rest) with
        | none => none
        | some (value, rest) =>
          match assign? key value acc, skip rest with
          | some acc, ',' :: rest => pairs? bound room acc (skip rest)
          | some acc, '}' :: rest => some (acc, rest)
          | _, _ => none

end

structure Draft where
  root : Fields := []
  current : List String := []

def Draft.header? (d : Draft) (path : List String) (change : String → Fields → Option Fields) :
    Option Draft := do
  let last ← path.getLast?
  return ⟨← within? false path.dropLast (change last) d.root, path⟩

def Draft.statement? (d : Draft) (cs : List Char) : Option (Draft × List Char) :=
  match cs with
  | '[' :: '[' :: cs => do
    let (path, rest) ← keyAnd? id [']', ']'] cs
    return (← d.header? path append?, ← endLine? rest)
  | '[' :: cs => do
    let (path, rest) ← keyAnd? id [']'] cs
    return (← d.header? path define?, ← endLine? rest)
  | cs => do
    let (key, rest) ← keyAnd? id ['='] cs
    let (value, rest) ← value? (rest.length + 1) maxNesting (rest.dropWhile isBlank)
    let root ← within? false d.current (assign? key value) d.root
    return ({ d with root }, ← endLine? rest)

def Draft.statements? : (bound : Nat) → Draft → List Char → Option Draft
  | 0, _, _ => none
  | bound + 1, d, cs =>
    match skip cs with
    | [] => some d
    | '#' :: cs => if (cs.dropWhile isPlain).isEmpty then some d else none
    | cs => do
      let (d, rest) ← d.statement? cs
      Draft.statements? bound d rest

def ofText? (s : String) : Option Fields :=
  let cs := match s.toList with
    | '\ufeff' :: cs => cs
    | cs => cs
  (Draft.statements? (cs.length + 1) {} cs).map Draft.root

end KnowledgeTree.Toml
