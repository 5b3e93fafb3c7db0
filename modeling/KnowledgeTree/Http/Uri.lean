import KnowledgeTree.Text.Percent
import KnowledgeTree.Text.Utf8

/-!
Paths and query strings of requests.
-/

namespace KnowledgeTree.Http

def decodeSegment? (s : String) : Option String := Text.ofUtf8? (Text.percentDecode (Text.utf8 s))

def decodeQueryPart (s : String) : String :=
  let bytes := (Text.utf8 s).map fun b => if b == 0x2B then 0x20 else b
  Text.ofUtf8Lossy (Text.percentDecode bytes)

def splitPair (cs : List Char) : List Char × List Char :=
  (cs.takeWhile (· != '='), (cs.dropWhile (· != '=')).drop 1)

def queryPairs (query : String) : List (String × String) :=
  let parts := (query.splitOn "&").filter (! ·.isEmpty)
  parts.map fun part =>
    let (name, value) := splitPair part.toList
    (decodeQueryPart (String.ofList name), decodeQueryPart (String.ofList value))

structure Target where
  path : String
  query : Option String
deriving DecidableEq, Repr

/-- What follows a number sign is no part of a request. -/
def Target.ofText (s : String) : Target :=
  let cs := s.toList.takeWhile (· != '#')
  let path := String.ofList (cs.takeWhile (· != '?'))
  match cs.dropWhile (· != '?') with
  | [] => ⟨path, none⟩
  | _ :: query => ⟨path, some (String.ofList query)⟩

end KnowledgeTree.Http
