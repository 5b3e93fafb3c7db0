import KnowledgeTree.Proofs.Gateway
import KnowledgeTree.Proofs.Utf8

/-!
Who gets past the key. Keys are compared filled up to one length, and match just if they are the same
bytes. A request is let in just if its first Authorization value gives the key, bare or after the word
Bearer, and is refused before it is looked at any further.
-/

namespace KnowledgeTree

theorem Text.utf8_inj {s t : String} : utf8 s = utf8 t ↔ s = t := by
  constructor
  · intro h
    rcases lt_trichotomy s t with hlt | heq | hgt
    · exact absurd (utf8_lt_iff.mpr hlt) (h ▸ List.lt_irrefl _)
    · exact heq
    · exact absurd (utf8_lt_iff.mpr hgt) (h ▸ List.lt_irrefl _)
  · rintro rfl
    rfl

namespace Http

variable {bytes provided expected : List UInt8} {setup : Setup} {r : Request} {key value : String}

theorem padTo_of_length_ge {n : Nat} (h : n ≤ bytes.length) : padTo n bytes = bytes := by
  rw [padTo, Nat.sub_eq_zero_of_le h, List.replicate_zero, List.append_nil]

theorem foldl_same_iff (pairs : List (UInt8 × UInt8)) (same : Bool) :
    pairs.foldl (fun same (a, b) => (a == b) && same) same = true ↔
      same = true ∧ ∀ p ∈ pairs, p.1 = p.2 := by
  induction pairs generalizing same with
  | nil => simp
  | cons p pairs ih =>
    rw [List.foldl_cons, ih]
    simp only [Bool.and_eq_true, beq_iff_eq, List.forall_mem_cons]
    tauto

theorem zip_same_iff (h : provided.length = expected.length) :
    (∀ p ∈ provided.zip expected, p.1 = p.2) ↔ provided = expected := by
  induction provided generalizing expected with
  | nil =>
    cases expected with
    | nil => simp
    | cons b expected => cases h
  | cons a provided ih =>
    cases expected with
    | nil => cases h
    | cons b expected =>
      simp only [List.zip_cons_cons, List.forall_mem_cons, List.cons.injEq,
        ih (Nat.succ.inj h)]

theorem keysMatch_iff : keysMatch provided expected = true ↔ provided = expected := by
  unfold keysMatch
  simp only [Bool.and_eq_true, beq_iff_eq, foldl_same_iff, true_and]
  constructor
  · rintro ⟨hsame, hlen⟩
    -- keys of one length are not filled up
    rw [padTo_of_length_ge (by omega), padTo_of_length_ge (by omega), zip_same_iff hlen] at hsame
    exact hsame
  · rintro rfl
    exact ⟨(zip_same_iff rfl).mpr rfl, rfl⟩

/-- A value that says what the key is. A value that starts with the word Bearer is never taken
bare. -/
def Gives (value key : String) : Prop :=
  value = "Bearer " ++ key ∨ value = key ∧ ¬"Bearer ".toList <+: key.toList

theorem providedKey_iff : providedKey value = key.toList ↔ Gives value key := by
  have hafter : value = "Bearer " ++ key ↔ value.toList = "Bearer ".toList ++ key.toList := by
    rw [← String.toList_append, String.toList_inj]
  have hbare : value = key ↔ value.toList = key.toList := String.toList_inj.symm
  rw [Gives, hafter, hbare]
  unfold providedKey
  simp only [List.isPrefixOf_iff_prefix]
  split
  · next hbearer =>
    obtain ⟨rest, hrest⟩ := hbearer
    rw [← hrest, List.drop_left, List.append_cancel_left_eq]
    refine ⟨.inl, ?_⟩
    rintro (heq | ⟨heq, hno⟩)
    · exact heq
    · exact absurd (heq ▸ List.prefix_append _ _) hno
  · next hno =>
    constructor
    · intro heq
      exact .inr ⟨heq, heq ▸ hno⟩
    · rintro (heq | ⟨heq, -⟩)
      · exact absurd (heq ▸ List.prefix_append _ _) hno
      · exact heq

/-- The first Authorization value is plain text, of visible ASCII characters, spaces and tabs, and
gives the key. -/
def Request.HoldsKey (r : Request) (key : String) : Prop :=
  ∃ value, r.header? "authorization" = some value ∧
    (∀ c ∈ value.toList, 0x20 ≤ c.toNat ∧ c.toNat ≤ 0x7E ∨ c.toNat = 0x9) ∧ Gives value key

theorem isVisible_iff {c : Char} :
    isVisible c = true ↔ 0x20 ≤ c.toNat ∧ c.toNat ≤ 0x7E ∨ c.toNat = 0x9 := by
  have htab : c = '\t' ↔ c.toNat = 0x9 := by
    rw [← Char.toNat_inj]
    rfl
  simp only [isVisible, Bool.or_eq_true, Bool.and_eq_true, decide_eq_true_eq, beq_iff_eq, htab]
  rfl

theorem text?_eq_some {name : String} : r.text? name = some value ↔
    r.header? name = some value ∧ ∀ c ∈ value.toList, isVisible c = true := by
  rw [Request.text?, Option.filter_eq_some_iff, List.all_eq_true]

theorem admits_iff (hpath : r.target.path ≠ "/health") :
    admits (some key) r = true ↔ r.HoldsKey key := by
  have hmatch (value : String) :
      keysMatch (Text.utf8 (String.ofList (providedKey value))) (Text.utf8 key) = true ↔
        Gives value key := by
    rw [keysMatch_iff, Text.utf8_inj, ← providedKey_iff, ← String.toList_inj, String.toList_ofList]
  simp only [admits, Bool.or_eq_true, beq_iff_eq, hpath, false_or, Option.any_eq_true, hmatch,
    text?_eq_some, isVisible_iff, and_assoc, Request.HoldsKey]

structure Guarded (setup : Setup) (key : String) (r : Request) (sys : System) : Prop where
  admitted : admits setup.apiKey r = true ↔ r.HoldsKey key
  -- whoever gets past the key is answered as if none were set
  passed : r.HoldsKey key → handle setup r sys = handle { setup with apiKey := none } r sys
  -- and for everyone else it makes no difference what the request asks for
  refused : ¬r.HoldsKey key → (handle setup r sys).2 = sys ∧
    (handle setup r sys).1.status = 401

theorem key_admits_holder (provided expected : List UInt8) (setup : Setup) (key : String)
    (r : Request) (sys : System) (hkey : key ≠ "")
    (hset : setup.apiKey = apiKeyOfSetting (some key)) (hmethod : r.method ≠ "OPTIONS")
    (hpath : r.target.path ≠ "/health") :
    (keysMatch provided expected = true ↔ provided = expected) ∧ Guarded setup key r sys := by
  have hsome : setup.apiKey = some key := by
    rw [hset, apiKeyOfSetting, Option.filter_some, if_pos]
    simpa using hkey
  have hadmits : admits setup.apiKey r = true ↔ r.HoldsKey key := by
    rw [hsome]
    exact admits_iff hpath
  refine ⟨keysMatch_iff, hadmits, fun hholds => ?_, fun hno => ?_⟩
  · rw [handle, handle, if_neg hmethod, if_neg hmethod, if_pos (hadmits.mpr hholds)]
    rfl
  · have hnot : admits setup.apiKey r = false := by
      rwa [← Bool.not_eq_true, hadmits]
    exact handle_stopped setup sys hmethod hnot

namespace Sample

def locked : Setup := { apiKey := some "Bearer key" }

def knock (value : String) : Request :=
  { method := "GET", target := ⟨"/tree", none⟩, headers := [("authorization", value)] }

theorem holdsKey_knock : (knock "Bearer Bearer key").HoldsKey "Bearer key" :=
  ⟨"Bearer Bearer key", by decide +kernel, by simp, .inl (by decide +kernel)⟩

theorem not_holdsKey_knock : ¬(knock "Bearer key").HoldsKey "Bearer key" := by
  rintro ⟨value, hvalue, -, hgives⟩
  obtain rfl : "Bearer key" = value := Option.some.inj hvalue
  rcases hgives with heq | ⟨-, hno⟩
  · exact absurd heq (by decide +kernel)
  · exact hno (by decide +kernel)

end Sample

theorem key_admits_holder_bearer :
    "Bearer key" ≠ "" ∧ Sample.locked.apiKey = apiKeyOfSetting (some "Bearer key") ∧
    (Sample.knock "Bearer Bearer key").method ≠ "OPTIONS" ∧
    (Sample.knock "Bearer key").target.path ≠ "/health" ∧
    keysMatch [0x6B, 0] [0x6B] = false ∧
    admits Sample.locked.apiKey (Sample.knock "Bearer Bearer key") = true ∧
    (handle Sample.locked (Sample.knock "Bearer key") {}).1.status = 401 := by
  have hkey : "Bearer key" ≠ "" := by decide
  have hset : Sample.locked.apiKey = apiKeyOfSetting (some "Bearer key") := by decide +kernel
  have hmethod : (Sample.knock "Bearer key").method ≠ "OPTIONS" := by decide
  have hpath : (Sample.knock "Bearer key").target.path ≠ "/health" := by decide
  obtain ⟨hmatch, hlet⟩ := key_admits_holder [0x6B, 0] [0x6B] Sample.locked "Bearer key"
    (Sample.knock "Bearer Bearer key") {} hkey hset hmethod hpath
  obtain ⟨-, hshut⟩ := key_admits_holder [] [] Sample.locked "Bearer key" (Sample.knock "Bearer key")
    {} hkey hset hmethod hpath
  refine ⟨hkey, hset, hmethod, hpath, ?_, hlet.admitted.mpr Sample.holdsKey_knock,
    (hshut.refused Sample.not_holdsKey_knock).2⟩
  rw [← Bool.not_eq_true, hmatch]
  decide

end Http

end KnowledgeTree
