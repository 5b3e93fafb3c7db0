import KnowledgeTree.Text.Numeral

/-!
Bytes written as percent signs with hexadecimal digits.
-/

namespace KnowledgeTree.Text

/-- Replaces each percent sign with two hexadecimal digits after it by the byte they name. A percent
sign without them stands for itself. -/
def percentDecode : List UInt8 → List UInt8
  | b :: h :: l :: rest =>
    if b == 0x25 then
      match hexDigit? (Char.ofNat h.toNat), hexDigit? (Char.ofNat l.toNat) with
      | some h, some l => UInt8.ofNat (16 * h + l) :: percentDecode rest
      | _, _ => b :: percentDecode (h :: l :: rest)
    else b :: percentDecode (h :: l :: rest)
  | bs => bs

end KnowledgeTree.Text
