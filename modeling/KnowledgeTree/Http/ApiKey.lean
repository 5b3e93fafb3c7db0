import KnowledgeTree.Http.Message

/-!
The key that requests must carry when one is set.
-/

namespace KnowledgeTree.Http

def padTo (n : Nat) (bytes : List UInt8) : List UInt8 :=
  bytes ++ List.replicate (n - bytes.length) 0

/-- Compares two keys position by position, over the longer of them and to its end. -/
def keysMatch (provided expected : List UInt8) : Bool :=
  let n := max provided.length expected.length
  let pairs := (padTo n provided).zip (padTo n expected)
  let same := pairs.foldl (fun same (a, b) => (a == b) && same) true
  same && provided.length == expected.length

def providedKey (value : String) : List Char :=
  let bearer := "Bearer ".toList
  if bearer.isPrefixOf value.toList then value.toList.drop bearer.length else value.toList

/-- Health checks need no key. -/
def admits (key : Option String) (r : Request) : Bool :=
  match key with
  | none => true
  | some key =>
    r.target.path == "/health" ||
      (r.text? "authorization").any fun value =>
        keysMatch (Text.utf8 (String.ofList (providedKey value))) (Text.utf8 key)

end KnowledgeTree.Http
