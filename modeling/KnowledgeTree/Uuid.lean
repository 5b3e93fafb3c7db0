import KnowledgeTree.Text.Numeral

/-!
Universally unique identifiers: 128-bit numbers, ordered as numbers, written in five groups of
lowercase hexadecimal digits.
-/

namespace KnowledgeTree

structure Uuid where
  bits : BitVec 128
deriving DecidableEq, Repr, Inhabited

namespace Uuid

def ofNat (n : Nat) : Uuid := ⟨BitVec.ofNat 128 n⟩

def toNat (u : Uuid) : Nat := u.bits.toNat

def nil : Uuid := ofNat 0

instance : LE Uuid := ⟨fun u v => u.toNat ≤ v.toNat⟩

instance (u v : Uuid) : Decidable (u ≤ v) := inferInstanceAs (Decidable (u.toNat ≤ v.toNat))

def hyphenate (ds : List Char) : List Char :=
  ds.take 8 ++ '-' :: (ds.drop 8).take 4 ++ '-' :: (ds.drop 12).take 4 ++
    '-' :: (ds.drop 16).take 4 ++ '-' :: ds.drop 20

def text (u : Uuid) : String := String.ofList (hyphenate (Text.digits 16 32 u.toNat))

def ofHex? (ds : List Char) : Option Uuid :=
  if ds.length = 32 then (Text.hexadecimal? ds).map ofNat else none

def unhyphenate? (cs : List Char) : Option (List Char) :=
  let ds := cs.filter (· != '-')
  if ds.length = 32 ∧ hyphenate ds = cs then some ds else none

def ofHyphenated? (cs : List Char) : Option Uuid := (unhyphenate? cs).bind ofHex?

def isUrnPrefix (cs : List Char) : Bool := cs.map Char.toLower == "urn:uuid:".toList

/-- Bare hexadecimal digits, or the hyphenated form alone, in braces or as a URN. -/
def ofChars? (cs : List Char) : Option Uuid :=
  if cs.length = 32 then ofHex? cs
  else if cs.length = 36 then ofHyphenated? cs
  else if cs.length = 38 then
    if cs.head? = some '{' ∧ cs.getLast? = some '}' then ofHyphenated? (cs.drop 1).dropLast else none
  else if cs.length = 45 then
    if isUrnPrefix (cs.take 9) then ofHyphenated? (cs.drop 9) else none
  else none

def ofText? (s : String) : Option Uuid := ofChars? s.toList

end Uuid

end KnowledgeTree
