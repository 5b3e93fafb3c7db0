import KnowledgeTree.Uuid
import Mathlib

/-!
Numerals read back to the numbers they were written from, and so do identifiers.
-/

namespace KnowledgeTree

namespace Text

variable {base width n : Nat} {read : Char → Option Nat}

theorem ofDigits_concat (ds : List Nat) (d : Nat) :
    ofDigits base (ds ++ [d]) = base * ofDigits base ds + d := by
  simp [ofDigits]

theorem length_digits : (digits base width n).length = width := by
  induction width generalizing n with
  | zero => rfl
  | succ width ih => simp [digits, ih]

theorem mem_digits {c : Char} (hb : 0 < base) (h : c ∈ digits base width n) :
    ∃ d < base, c = Nat.digitChar d := by
  induction width generalizing n with
  | zero => cases h
  | succ width ih =>
    rcases List.mem_append.mp h with h | h
    · exact ih h
    · exact ⟨n % base, Nat.mod_lt n hb, List.mem_singleton.mp h⟩

theorem mapM_digits (hb : 0 < base) (hread : ∀ d < base, read (Nat.digitChar d) = some d) :
    ((digits base width n).mapM read).map (ofDigits base) = some (n % base ^ width) := by
  induction width generalizing n with
  | zero => simp [digits, ofDigits, Nat.mod_one]
  | succ width ih =>
    have hlast := hread (n % base) (Nat.mod_lt n hb)
    obtain ⟨ds, hds, hvalue⟩ := Option.map_eq_some_iff.mp (ih (n := n / base))
    have hmod : n % base ^ (width + 1) = base * (n / base % base ^ width) + n % base := by
      rw [Nat.pow_succ', Nat.mod_mul, Nat.add_comm]
    simp [digits, List.mapM_append, hds, hlast, ofDigits_concat, hvalue, hmod]

theorem digit?_digitChar : ∀ d < 10, digit? (Nat.digitChar d) = some d := by decide

theorem hexDigit?_digitChar : ∀ d < 16, hexDigit? (Nat.digitChar d) = some d := by decide

theorem digits_ne_nil (h : 0 < width) : digits base width n ≠ [] := by
  intro hnil
  have := congrArg List.length hnil
  rw [length_digits, List.length_nil] at this
  omega

theorem natural?_digits (hw : 0 < width) (hn : n < 10 ^ width) :
    natural? (digits 10 width n) = some n := by
  rw [natural?, if_neg (by simpa using digits_ne_nil hw),
    mapM_digits (by decide) digit?_digitChar, Nat.mod_eq_of_lt hn]

theorem hexadecimal?_digits (hw : 0 < width) (hn : n < 16 ^ width) :
    hexadecimal? (digits 16 width n) = some n := by
  rw [hexadecimal?, if_neg (by simpa using digits_ne_nil hw),
    mapM_digits (by decide) hexDigit?_digitChar, Nat.mod_eq_of_lt hn]

end Text

namespace Uuid

variable {ds : List Char}

theorem length_hyphenate (h : ds.length = 32) : (hyphenate ds).length = 36 := by
  simp [hyphenate, h]

theorem take_drop (m n : Nat) : (ds.drop m).take n ++ ds.drop (m + n) = ds.drop m := by
  rw [← List.drop_drop, List.take_append_drop]

theorem filter_hyphenate (h : ∀ c ∈ ds, c ≠ '-') : (hyphenate ds).filter (· != '-') = ds := by
  have hkeep {cs : List Char} (hcs : cs ⊆ ds) : cs.filter (· != '-') = cs :=
    List.filter_eq_self.mpr fun c hc => by simpa using h c (hcs hc)
  have hdrop (m : Nat) : (ds.drop m).filter (· != '-') = ds.drop m := hkeep (List.drop_subset m ds)
  have htake (m n : Nat) : ((ds.drop m).take n).filter (· != '-') = (ds.drop m).take n :=
    hkeep fun c hc => List.drop_subset m ds (List.take_subset n _ hc)
  have hparts : (hyphenate ds).filter (· != '-') = (ds.drop 0).take 8 ++ ((ds.drop 8).take 4 ++
      ((ds.drop 12).take 4 ++ ((ds.drop 16).take 4 ++ ds.drop 20))) := by
    rw [← htake 0, ← htake 8, ← htake 12, ← htake 16, ← hdrop 20]
    simp [hyphenate]
  rw [hparts, take_drop 16 4, take_drop 12 4, take_drop 8 4, take_drop 0 8, List.drop_zero]

theorem hyphen_not_digit : ∀ d < 16, Nat.digitChar d ≠ '-' := by decide

theorem ofText?_text (u : Uuid) : ofText? u.text = some u := by
  have hlen : (Text.digits 16 32 u.toNat).length = 32 := Text.length_digits
  have hfilter : (hyphenate (Text.digits 16 32 u.toNat)).filter (· != '-') =
      Text.digits 16 32 u.toNat := by
    apply filter_hyphenate
    intro c hc
    obtain ⟨d, hd, rfl⟩ := Text.mem_digits (by decide) hc
    exact hyphen_not_digit d hd
  have hvalue : Text.hexadecimal? (Text.digits 16 32 u.toNat) = some u.toNat :=
    Text.hexadecimal?_digits (by decide) u.bits.isLt
  have hof : ofNat u.toNat = u := by
    rw [ofNat, toNat, BitVec.ofNat_toNat, BitVec.setWidth_eq]
  rw [ofText?, text, String.toList_ofList, ofChars?, length_hyphenate hlen, if_neg (by decide),
    if_pos rfl, ofHyphenated?, unhyphenate?, hfilter]
  simp [hlen, ofHex?, hvalue, hof]

end Uuid

end KnowledgeTree
