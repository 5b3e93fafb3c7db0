/-!
Decoding UTF-8.
-/

namespace KnowledgeTree.Text

def inRange (low high : Nat) (b : UInt8) : Bool := low ≤ b.toNat && b.toNat ≤ high

/-- How many bytes a lead byte asks for beyond itself, its share of the code point, and the range of
the byte after it. -/
def leadByte (b : UInt8) : Option (Nat × Nat × Nat × Nat) :=
  let n := b.toNat
  if 0xC2 ≤ n ∧ n ≤ 0xDF then some (1, n - 0xC0, 0x80, 0xBF)
  else if n = 0xE0 then some (2, 0, 0xA0, 0xBF)
  else if n = 0xED then some (2, 0xD, 0x80, 0x9F)
  else if 0xE1 ≤ n ∧ n ≤ 0xEF then some (2, n - 0xE0, 0x80, 0xBF)
  else if n = 0xF0 then some (3, 0, 0x90, 0xBF)
  else if 0xF1 ≤ n ∧ n ≤ 0xF3 then some (3, n - 0xF0, 0x80, 0xBF)
  else if n = 0xF4 then some (3, 4, 0x80, 0x8F)
  else none

/-- Decodes bytes given what is pending of a code point: the bytes still to come, its bits so far
and the range of the next byte. `none` stands for bytes that begin no code point, or one that is not
continued. -/
def decodeUtf8From : Option (Nat × Nat × Nat × Nat) → List UInt8 → List (Option Char)
  | none, [] => []
  | some _, [] => [none]
  | some (more, bits, low, high), b :: bs =>
    if inRange low high b then
      let bits := bits * 64 + (b.toNat - 0x80)
      if more ≤ 1 then some (Char.ofNat bits) :: decodeUtf8From none bs
      else decodeUtf8From (some (more - 1, bits, 0x80, 0xBF)) bs
    else if b < 0x80 then none :: some (Char.ofNat b.toNat) :: decodeUtf8From none bs
    else match leadByte b with
      | some lead => none :: decodeUtf8From (some lead) bs
      | none => none :: none :: decodeUtf8From none bs
  | none, b :: bs =>
    if b < 0x80 then some (Char.ofNat b.toNat) :: decodeUtf8From none bs
    else match leadByte b with
      | some lead => decodeUtf8From (some lead) bs
      | none => none :: decodeUtf8From none bs

def ofUtf8? (bytes : List UInt8) : Option String :=
  (decodeUtf8From none bytes).mapM id |>.map String.ofList

def ofUtf8Lossy (bytes : List UInt8) : String :=
  String.ofList ((decodeUtf8From none bytes).map (·.getD '\ufffd'))

def utf8 (s : String) : List UInt8 := s.toUTF8.toList

end KnowledgeTree.Text
