/-!
Digits, and the numerals built from them.
-/

namespace KnowledgeTree.Text

def digit? (c : Char) : Option Nat :=
  if '0' ≤ c ∧ c ≤ '9' then some (c.toNat - '0'.toNat) else none

def hexDigit? (c : Char) : Option Nat :=
  if '0' ≤ c ∧ c ≤ '9' then some (c.toNat - '0'.toNat)
  else if 'a' ≤ c ∧ c ≤ 'f' then some (c.toNat - 'a'.toNat + 10)
  else if 'A' ≤ c ∧ c ≤ 'F' then some (c.toNat - 'A'.toNat + 10)
  else none

def ofDigits (base : Nat) (ds : List Nat) : Nat := ds.foldl (fun n d => base * n + d) 0

def natural? (cs : List Char) : Option Nat :=
  if cs.isEmpty then none else (cs.mapM digit?).map (ofDigits 10)

def hexadecimal? (cs : List Char) : Option Nat :=
  if cs.isEmpty then none else (cs.mapM hexDigit?).map (ofDigits 16)

def unsigned? (bound : Nat) : List Char → Option Nat
  | '+' :: cs => (natural? cs).filter (· < bound)
  | cs => (natural? cs).filter (· < bound)

def signed? (bound : Nat) : List Char → Option Int
  | '+' :: cs => (natural? cs).bind fun n => if n < bound then some n else none
  | '-' :: cs => (natural? cs).bind fun n => if n ≤ bound then some (-n) else none
  | cs => (natural? cs).bind fun n => if n < bound then some n else none

def digits (base : Nat) : (width n : Nat) → List Char
  | 0, _ => []
  | width + 1, n => digits base width (n / base) ++ [Nat.digitChar (n % base)]

def decimal (width n : Nat) : String := String.ofList (digits 10 width n)

def padLeft (width : Nat) (s : String) : String :=
  String.ofList (List.replicate (width - s.length) ' ') ++ s

end KnowledgeTree.Text
