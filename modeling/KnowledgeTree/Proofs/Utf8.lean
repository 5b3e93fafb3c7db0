import KnowledgeTree.Text.Utf8
import Mathlib.Data.String.Basic

/-!
Texts stand in the order of their UTF-8 bytes: where two characters differ, so do their bytes before
either ends, and the higher character has the higher byte there.
-/

namespace KnowledgeTree.Text

theorem toList_loop (bytes : ByteArray) (i : Nat) (read : List UInt8) :
    ByteArray.toList.loop bytes i read = read.reverse ++ bytes.data.toList.drop i := by
  fun_induction ByteArray.toList.loop bytes i read with
  | case1 i read hi ih =>
    have hlen : i < bytes.data.toList.length := by simpa using hi
    have hget : bytes.get! i = bytes.data.toList[i] := by
      have hi' : i < bytes.data.size := hi
      change bytes.data[i]! = _
      rw [getElem!_pos bytes.data i hi', Array.getElem_toList]
    rw [ih, List.drop_eq_getElem_cons hlen, List.reverse_cons, hget, List.append_assoc,
      List.singleton_append]
  | case2 i read hi =>
    have hlen : bytes.data.toList.length ≤ i := by simpa using hi
    rw [List.drop_eq_nil_of_le hlen, List.append_nil]

theorem utf8_eq (s : String) : utf8 s = s.toList.flatMap String.utf8EncodeChar := by
  have hs : s.toByteArray = (s.toList.flatMap String.utf8EncodeChar).toByteArray := by
    conv => lhs; rw [← String.ofList_toList (s := s), String.toByteArray_ofList]
    rfl
  rw [utf8, String.toUTF8_eq_toByteArray, ByteArray.toList, toList_loop, hs]
  simp

theorem digits_lt {m n : Nat} (h : m < n) : m / 262144 < n / 262144 ∨ m / 262144 = n / 262144 ∧
    (m / 4096 % 64 < n / 4096 % 64 ∨ m / 4096 % 64 = n / 4096 % 64 ∧
      (m / 64 % 64 < n / 64 % 64 ∨ m / 64 % 64 = n / 64 % 64 ∧ m % 64 < n % 64)) := by
  have hm := Nat.div_div_eq_div_mul m 64 64
  have hm' := Nat.div_div_eq_div_mul m 4096 64
  have hn := Nat.div_div_eq_div_mul n 64 64
  have hn' := Nat.div_div_eq_div_mul n 4096 64
  omega

theorem encode_lt {c d : Char} (h : c < d) (x y : List UInt8) :
    String.utf8EncodeChar c ++ x < String.utf8EncodeChar d ++ y := by
  have hlt : c.val.toNat < d.val.toNat := h
  have hmax : d.val.toNat < 0x110000 := by
    have hvalid : d.val.toNat < 0xd800 ∨ 0xdfff < d.val.toNat ∧ d.val.toNat < 0x110000 := d.valid
    omega
  have hdigits := digits_lt hlt
  have hlast (k : Nat) : (k % 64 + 128) % 256 = k % 64 + 128 := by omega
  have htwo (k : Nat) : (k % 32 + 192) % 256 = k % 32 + 192 := by omega
  have hthree (k : Nat) : (k % 16 + 224) % 256 = k % 16 + 224 := by omega
  simp only [String.utf8EncodeChar]
  generalize c.val.toNat = m at *
  generalize d.val.toNat = n at *
  have hm : (m / 262144 % 8 + 240) % 256 = m / 262144 + 240 := by omega
  have hn : (n / 262144 % 8 + 240) % 256 = n / 262144 + 240 := by omega
  split_ifs <;>
    simp only [List.cons_append, List.nil_append, List.cons_lt_cons_iff, UInt8.lt_iff_toNat_lt,
      ← UInt8.toNat_inj, UInt8.toNat_ofNat', Nat.reducePow, hlast, htwo, hthree, hm,
      hn] <;>
    omega

theorem encodeAll_lt {s t : List Char} (h : s < t) :
    s.flatMap String.utf8EncodeChar < t.flatMap String.utf8EncodeChar := by
  induction s generalizing t with
  | nil =>
    cases t with
    | nil => exact absurd h (lt_irrefl _)
    | cons d t =>
      cases hd : String.utf8EncodeChar d with
      | nil => exact absurd hd String.utf8EncodeChar_ne_nil
      | cons b bs => simp [hd]
  | cons c s ih =>
    cases t with
    | nil => cases h
    | cons d t =>
      simp only [List.flatMap_cons]
      rcases List.cons_lt_cons_iff.mp h with hcd | ⟨rfl, hst⟩
      · exact encode_lt hcd _ _
      · exact List.append_left_lt (ih hst)

theorem utf8_lt_iff {s t : String} : utf8 s < utf8 t ↔ s < t := by
  rw [utf8_eq, utf8_eq, String.lt_iff_toList_lt]
  constructor
  · intro h
    rcases lt_trichotomy s.toList t.toList with hlt | heq | hgt
    · exact hlt
    · rw [heq] at h
      exact absurd h (List.lt_irrefl _)
    · exact absurd h (List.lt_asymm (encodeAll_lt hgt))
  · exact encodeAll_lt

end KnowledgeTree.Text
