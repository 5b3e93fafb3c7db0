import KnowledgeTree.Proofs.Calendar
import KnowledgeTree.Proofs.Digits
import KnowledgeTree.Time

/-!
The text of an instant reads back to it.
-/

namespace KnowledgeTree

namespace Text

variable {base width n : Nat} {c : Char} {cs : List Char}

theorem trimStart_cons (h : isBlank c = false) : trimStart (c :: cs) = c :: cs := by
  rw [trimStart, List.dropWhile_cons_of_neg (by simp [h])]

theorem isDigit_of_mem_digits (h : c ∈ digits 10 width n) : c.isDigit = true := by
  obtain ⟨d, hd, rfl⟩ := mem_digits (by decide) h
  rw [Nat.isDigit_digitChar, decide_eq_true hd]

theorem isBlank_of_isDigit (h : c.isDigit = true) : isBlank c = false := by
  have hc : 48 ≤ c.toNat ∧ c.toNat ≤ 57 := Char.isDigit_iff_toNat.mp h
  simp only [isBlank, Bool.or_eq_false_iff, Bool.and_eq_false_iff, decide_eq_false_iff_not]
  refine ⟨⟨.inr (by omega), .inl (by omega)⟩, ?_⟩
  have hother : ∀ n ∈ [0x20, 0x85, 0xA0, 0x1680, 0x2028, 0x2029, 0x202F, 0x205F, 0x3000],
      n < 48 ∨ 57 < n := by decide
  rw [List.contains_eq_mem, decide_eq_false_iff_not]
  intro hmem
  have := hother _ hmem
  omega

theorem trimStart_digits {rest : List Char} (h : ∀ c ∈ cs, c.isDigit = true) (hne : cs ≠ []) :
    trimStart (cs ++ rest) = cs ++ rest := by
  cases cs with
  | nil => exact absurd rfl hne
  | cons c cs => exact trimStart_cons (isBlank_of_isDigit (h c List.mem_cons_self))

theorem digits_mul (hb : 0 < base) (n k : Nat) : digits base (width + k) (n * base ^ k) =
    digits base width n ++ List.replicate k '0' := by
  induction k with
  | zero => simp
  | succ k ih =>
    rw [← Nat.add_assoc, digits, Nat.pow_succ, ← Nat.mul_assoc, Nat.mul_div_cancel _ hb, ih,
      Nat.mul_mod_left, List.append_assoc, List.replicate_succ']
    rfl

theorem digit?_of_isDigit (h : c.isDigit = true) : digit? c = some (c.toNat - '0'.toNat) := by
  have hc : '0' ≤ c ∧ c ≤ '9' := by simpa [Char.isDigit, Char.le_def] using h
  rw [digit?, if_pos hc]

theorem natural?_eq (hne : cs ≠ []) (h : ∀ c ∈ cs, c.isDigit = true) :
    natural? cs = some (Nat.ofDigitChars 10 cs 0) := by
  have hmap : cs.mapM digit? = some (cs.map fun c => c.toNat - '0'.toNat) := by
    clear hne
    induction cs with
    | nil => rfl
    | cons c cs ih =>
      rw [List.forall_mem_cons] at h
      rw [List.mapM_cons, digit?_of_isDigit h.1, ih h.2]
      rfl
  rw [natural?, if_neg (by simpa using hne), hmap, Option.map_some, ofDigits, List.foldl_map]
  rfl

theorem digit?_lt {d : Nat} (h : digit? c = some d) : d < 10 := by
  rw [digit?, Option.ite_none_right_eq_some] at h
  obtain ⟨⟨hlow, hhigh⟩, hd⟩ := h
  have hlow : 48 ≤ c.toNat := hlow
  have hhigh : c.toNat ≤ 57 := hhigh
  have hd : c.toNat - 48 = d := Option.some.inj hd
  omega

theorem ofDigits_lt {ds : List Nat} (h : ∀ d ∈ ds, d < base) :
    ofDigits base ds < base ^ ds.length := by
  induction ds using List.reverseRecOn with
  | nil => simp [ofDigits]
  | append_singleton ds d ih =>
    have hd : d < base := h d (by simp)
    have hds : ofDigits base ds + 1 ≤ base ^ ds.length :=
      ih fun x hx => h x (List.mem_append_left _ hx)
    rw [ofDigits_concat, List.length_append, List.length_singleton, Nat.pow_succ']
    calc base * ofDigits base ds + d < base * (ofDigits base ds + 1) := by rw [Nat.mul_succ]; omega
      _ ≤ base * base ^ ds.length := Nat.mul_le_mul_left base hds

theorem natural?_lt (h : natural? cs = some n) : n < 10 ^ cs.length := by
  rw [natural?, Option.ite_none_left_eq_some, Option.map_eq_some_iff] at h
  obtain ⟨-, ds, hds, rfl⟩ := h
  have hread : ds.length = cs.length ∧ ∀ d ∈ ds, d < 10 := by
    induction cs generalizing ds with
    | nil => cases hds; simp
    | cons c cs ih =>
      rw [List.mapM_cons] at hds
      obtain ⟨d, hd, hds⟩ := Option.bind_eq_some_iff.mp hds
      obtain ⟨ds', hds', hcons⟩ := Option.bind_eq_some_iff.mp hds
      cases hcons
      obtain ⟨hlen, hlt⟩ := ih ds' hds'
      exact ⟨by simp [hlen], List.forall_mem_cons.mpr ⟨digit?_lt hd, hlt⟩⟩
  rw [← hread.1]
  exact ofDigits_lt hread.2

end Text

namespace Time

variable {n width : Nat} {ds cs rest : List Char}

theorem takeDigits?_append (hd : ∀ c ∈ ds, c.isDigit = true) (hne : ds ≠ [])
    (hw : ds.length ≤ width)
    (hrest : ds.length = width ∨ ∀ c ∈ rest.head?, c.isDigit = false) :
    takeDigits? width (ds ++ rest) = some (ds, rest) := by
  have htake : ((ds ++ rest).take width).takeWhile Char.isDigit = ds := by
    rw [List.take_append, List.take_of_length_le hw, List.takeWhile_append_of_pos hd]
    have hstop : (rest.take (width - ds.length)).takeWhile Char.isDigit = [] := by
      rcases hrest with h | h
      · simp [h]
      · cases rest with
        | nil => simp
        | cons c rest =>
          cases width - ds.length with
          | zero => rfl
          | succ k => rw [List.take_succ_cons, List.takeWhile_cons_of_neg (by simp [h c rfl])]
    rw [hstop, List.append_nil]
  rw [takeDigits?, htake]
  simp [hne]

theorem readField?_digits (hn : n < 100) :
    readField? (Text.digits 10 2 n ++ rest) = some (n, rest) := by
  have hd : ∀ c ∈ Text.digits 10 2 n, c.isDigit = true := fun c => Text.isDigit_of_mem_digits
  have hne : Text.digits 10 2 n ≠ [] := Text.digits_ne_nil (by decide)
  have hlen : (Text.digits 10 2 n).length = 2 := Text.length_digits
  have htake : takeDigits? 2 (Text.digits 10 2 n ++ rest) = some (Text.digits 10 2 n, rest) :=
    takeDigits?_append hd hne (Nat.le_of_eq hlen) (.inl hlen)
  have hvalue : Text.natural? (Text.digits 10 2 n) = some n := Text.natural?_digits (by decide) hn
  have htrim : Text.trimStart (Text.digits 10 2 n ++ rest) = Text.digits 10 2 n ++ rest :=
    Text.trimStart_digits hd hne
  simp [readField?, htrim, htake, hvalue]

theorem skip?_cons {c : Char} (h : Text.isBlank c = false) : skip? c (c :: rest) = some rest := by
  rw [skip?, Text.trimStart_cons h]
  simp

theorem bind_eq_some {α β : Type} {x : Option α} {a : α} {f : α → Option β} {b : β}
    (hx : x = some a) (hf : f a = some b) : x >>= f = some b := by
  rw [hx]
  exact hf

theorem readYear?_minus (hd : ∀ c ∈ ds, c.isDigit = true) (hne : ds ≠ [])
    (hvalue : Text.natural? ds = some n) (hrest : ∀ c ∈ rest.head?, c.isDigit = false) :
    readYear? ('-' :: (ds ++ rest)) = some (-(n : Int), rest) := by
  have htake : takeDigits? (ds ++ rest).length (ds ++ rest) = some (ds, rest) :=
    takeDigits?_append hd hne (by simp) (.inr hrest)
  rw [readYear?, Text.trimStart_cons (by decide)]
  exact bind_eq_some htake (bind_eq_some hvalue rfl)

theorem readYear?_plus (hd : ∀ c ∈ ds, c.isDigit = true) (hne : ds ≠ [])
    (hvalue : Text.natural? ds = some n) (hrest : ∀ c ∈ rest.head?, c.isDigit = false) :
    readYear? ('+' :: (ds ++ rest)) = some ((n : Int), rest) := by
  have htake : takeDigits? (ds ++ rest).length (ds ++ rest) = some (ds, rest) :=
    takeDigits?_append hd hne (by simp) (.inr hrest)
  rw [readYear?, Text.trimStart_cons (by decide)]
  exact bind_eq_some htake (bind_eq_some hvalue rfl)

theorem readYear?_yearText {year : Int} (hrest : ∀ c ∈ rest.head?, c.isDigit = false) :
    readYear? ((yearText year).toList ++ rest) = some (year, rest) := by
  by_cases hplain : 0 ≤ year ∧ year ≤ 9999
  · have hd : ∀ c ∈ Text.digits 10 4 year.toNat, c.isDigit = true :=
      fun c => Text.isDigit_of_mem_digits
    have hne : Text.digits 10 4 year.toNat ≠ [] := Text.digits_ne_nil (by decide)
    have hlen : (Text.digits 10 4 year.toNat).length = 4 := Text.length_digits
    have hvalue : Text.natural? (Text.digits 10 4 year.toNat) = some year.toNat :=
      Text.natural?_digits (by decide) (by omega)
    have htext : (yearText year).toList = Text.digits 10 4 year.toNat := by
      rw [yearText, if_pos hplain, Text.decimal, String.toList_ofList]
    have htake : takeDigits? 4 (Text.digits 10 4 year.toNat ++ rest) =
        some (Text.digits 10 4 year.toNat, rest) :=
      takeDigits?_append hd hne (Nat.le_of_eq hlen) (.inl hlen)
    rw [htext, readYear?, Text.trimStart_digits hd hne]
    have hhead : ∀ c cs, Text.digits 10 4 year.toNat ++ rest = c :: cs → c.isDigit = true := by
      intro c cs hc
      cases hds : Text.digits 10 4 year.toNat with
      | nil => exact absurd hds hne
      | cons d ds =>
        rw [hds, List.cons_append, List.cons.injEq] at hc
        exact hc.1 ▸ hd d (hds ▸ List.mem_cons_self)
    split
    · next hminus => exact absurd (hhead _ _ hminus) (by decide)
    · next hplus => exact absurd (hhead _ _ hplus) (by decide)
    · simp [htake, hvalue, hplain.1]
  · let ds := List.replicate (4 - (toString year.natAbs).length) '0' ++ Nat.toDigits 10 year.natAbs
    have hd : ∀ c ∈ ds, c.isDigit = true := by
      intro c hc
      rcases List.mem_append.mp hc with hc | hc
      · rw [List.eq_of_mem_replicate hc]
        rfl
      · exact Nat.isDigit_of_mem_toDigits (by decide) (by decide) hc
    have hne : ds ≠ [] := List.append_ne_nil_of_right_ne_nil _ Nat.toDigits_ne_nil
    have hvalue : Text.natural? ds = some year.natAbs := by
      rw [Text.natural?_eq hne hd, Nat.ofDigitChars_append, Nat.ofDigitChars_replicate_zero,
        Nat.mul_zero, Nat.ofDigitChars_ten_toDigits]
    by_cases hneg : year < 0
    · have htext : (yearText year).toList = '-' :: ds := by
        rw [yearText, if_neg hplain, if_pos hneg]
        simp [ds]
      have hyear : -(year.natAbs : Int) = year := by omega
      rw [htext, ← hyear]
      exact readYear?_minus hd hne hvalue hrest
    · have htext : (yearText year).toList = '+' :: ds := by
        rw [yearText, if_neg hplain, if_neg hneg]
        simp [ds]
      have hyear : (year.natAbs : Int) = year := by omega
      rw [htext, ← hyear]
      exact readYear?_plus hd hne hvalue hrest

theorem readFraction?_digits (width n : Nat) (hw : 0 < width) (hle : width ≤ 9)
    (hn : n < 10 ^ width) (hrest : ∀ c ∈ rest.head?, c.isDigit = false) :
    readFraction? ('.' :: (Text.digits 10 width n ++ rest)) =
      some (n * 10 ^ (9 - width), rest) := by
  have htake : takeDigits? 9 (Text.digits 10 width n ++ rest) =
      some (Text.digits 10 width n, rest) :=
    takeDigits?_append (fun c => Text.isDigit_of_mem_digits) (Text.digits_ne_nil hw)
      (by rwa [Text.length_digits]) (.inr hrest)
  have hvalue : Text.natural? (Text.digits 10 width n ++ List.replicate (9 - width) '0') =
      some (n * 10 ^ (9 - width)) := by
    rw [← Text.digits_mul (by decide), Nat.add_sub_cancel' hle]
    apply Text.natural?_digits (by decide)
    have hpow : 10 ^ 9 = 10 ^ width * 10 ^ (9 - width) := by
      rw [← Nat.pow_add, Nat.add_sub_cancel' hle]
    rw [hpow]
    exact Nat.mul_lt_mul_of_pos_right hn (Nat.pow_pos (Nat.succ_pos 9))
  have hdrop : rest.dropWhile Char.isDigit = rest := by
    cases rest with
    | nil => rfl
    | cons c rest => exact List.dropWhile_cons_of_neg (by simp [hrest c rfl])
  simp [readFraction?, htake, Text.length_digits, hvalue, hdrop]

theorem readFraction?_fractionText {nanos : Nat} (h : nanos < 1000000000) :
    readFraction? ((fractionText nanos).toList ++ ['Z']) = some (nanos, ['Z']) := by
  have hrest : ∀ c ∈ ['Z'].head?, c.isDigit = false := by rintro c ⟨⟩; rfl
  unfold fractionText
  split
  · subst nanos
    rfl
  split
  · have hvalue : nanos / 1000000 * 10 ^ (9 - 3) = nanos := by omega
    have hread := readFraction?_digits 3 (nanos / 1000000) (by decide) (by decide) (by omega) hrest
    rw [hvalue] at hread
    simpa [Text.decimal] using hread
  split
  · have hvalue : nanos / 1000 * 10 ^ (9 - 6) = nanos := by omega
    have hread := readFraction?_digits 6 (nanos / 1000) (by decide) (by decide) (by omega) hrest
    rw [hvalue] at hread
    simpa [Text.decimal] using hread
  · have hread := readFraction?_digits 9 nanos (by decide) (by decide) h hrest
    simpa [Text.decimal] using hread

/-- What a reader can give: nanoseconds past a whole second only within a leap second, which ends a
minute, and a year that may be written. -/
structure Valid (t : Time) : Prop where
  nanos : t.nanos < 2000000000
  leap : 1000000000 ≤ t.nanos → t.seconds % 60 = 59
  range : inRange t.date = true

theorem isDate_bounds {d : Date} (h : d.isValid = true) : d.month < 100 ∧ d.day < 100 := by
  simp only [Date.isValid, Bool.and_eq_true] at h
  obtain ⟨⟨⟨-, hmonth⟩, -⟩, hday⟩ := h
  have hmonth : d.month ≤ 12 := of_decide_eq_true hmonth
  have hday : d.day ≤ Date.daysInMonth d.year d.month := of_decide_eq_true hday
  have hlong : Date.daysInMonth d.year d.month ≤ 31 := by
    unfold Date.daysInMonth
    repeat' split
    all_goals decide
  omega

theorem ofChars?_eq {date : Date} {hour minute second nanos : Nat} {time : Time}
    (hvalid : date.isValid = true) (hdate : inRange date = true) (hhour : hour < 24)
    (hminute : minute < 60) (hsecond : second ≤ 60) (hnanos : nanos < 1000000000)
    (htime : time = ⟨date.toDays * 86400 + hour * 3600 + minute * 60 + min second 59,
      if second = 60 then nanos + 1000000000 else nanos⟩) (hrange : inRange time.date = true) :
    ofChars? ((yearText date.year).toList ++ '-' :: (Text.digits 10 2 date.month ++
      '-' :: (Text.digits 10 2 date.day ++ 'T' :: (Text.digits 10 2 hour ++
      ':' :: (Text.digits 10 2 minute ++ ':' :: (Text.digits 10 2 second ++
      ((fractionText nanos).toList ++ ['Z']))))))) = some time := by
  obtain ⟨hmonth, hday⟩ := isDate_bounds hvalid
  have hdash (rest : List Char) : skip? '-' ('-' :: rest) = some rest := skip?_cons (by decide)
  have hcolon (rest : List Char) : skip? ':' (':' :: rest) = some rest := skip?_cons (by decide)
  have hyear (rest : List Char) : readYear? ((yearText date.year).toList ++ '-' :: rest) =
      some (date.year, '-' :: rest) := readYear?_yearText (by rintro c ⟨⟩; rfl)
  have hzulu : readOffset? (Text.trimStart ['Z']) = some (0, []) := by decide
  -- one step for each part of the text
  refine bind_eq_some (hyear _) ?_
  refine bind_eq_some (hdash _) ?_
  refine bind_eq_some (readField?_digits hmonth) ?_
  refine bind_eq_some (hdash _) ?_
  refine bind_eq_some (readField?_digits hday) ?_
  refine bind_eq_some rfl ?_
  refine bind_eq_some (readField?_digits (by omega)) ?_
  refine bind_eq_some (hcolon _) ?_
  refine bind_eq_some (readField?_digits (by omega)) ?_
  refine bind_eq_some (hcolon _) ?_
  refine bind_eq_some (readField?_digits (by omega)) ?_
  refine bind_eq_some (readFraction?_fractionText hnanos) ?_
  refine bind_eq_some hzulu ?_
  rw [htime] at hrange
  have hzero (n : Int) : n - 0 = n := Int.sub_zero n
  simp only [hzero]
  rw [if_pos ⟨hvalid, hdate, hhour, hminute, hsecond, by decide, hrange, rfl⟩, htime]

theorem ofText?_text {t : Time} (h : t.Valid) : ofText? t.text = some t := by
  obtain ⟨hnanos, hleap, hrange⟩ := h
  have hdays : t.date.toDays = t.seconds / 86400 := Date.toDays_ofDays _
  obtain ⟨s, hs⟩ : ∃ s, s = (t.seconds % 86400).toNat := ⟨_, rfl⟩
  have hchars : t.text.toList = (yearText t.date.year).toList ++ '-' ::
      (Text.digits 10 2 t.date.month ++ '-' :: (Text.digits 10 2 t.date.day ++ 'T' ::
      (Text.digits 10 2 (s / 3600) ++ ':' :: (Text.digits 10 2 (s / 60 % 60) ++ ':' ::
      (Text.digits 10 2 (s % 60 + t.nanos / 1000000000) ++
      ((fractionText (t.nanos % 1000000000)).toList ++ ['Z'])))))) := by
    simp [text, dateText, clockText, Text.decimal, hs]
  rw [ofText?, hchars]
  have hvalid : t.date.isValid = true := Date.isValid_ofDays _
  apply ofChars?_eq hvalid hrange (by omega) (by omega) (by omega) (by omega) _ hrange
  rw [hdays]
  cases t with
  | mk seconds nanos =>
    simp only at *
    rw [mk.injEq]
    constructor
    · omega
    · split <;> omega

theorem length_takeDigits? (h : takeDigits? width rest = some (ds, cs)) : ds.length ≤ width := by
  rw [takeDigits?, Option.ite_none_left_eq_some] at h
  cases h.2
  exact Nat.le_trans (List.takeWhile_prefix _).length_le (List.length_take_le _ _)

theorem readFraction?_lt (h : readFraction? cs = some (n, rest)) : n < 1000000000 := by
  unfold readFraction? at h
  split at h
  · obtain ⟨⟨ds, cs'⟩, hds, h⟩ := Option.bind_eq_some_iff.mp h
    obtain ⟨value, hvalue, h⟩ := Option.bind_eq_some_iff.mp h
    cases h
    have hlt := Text.natural?_lt hvalue
    rw [List.length_append, List.length_replicate,
      Nat.add_sub_cancel' (length_takeDigits? hds)] at hlt
    exact hlt
  · cases h
    decide

theorem readHoursMinutes?_dvd (h : readHoursMinutes? cs = some (n, rest)) : n % 60 = 0 := by
  unfold readHoursMinutes? at h
  split at h
  · obtain ⟨hours, -, h⟩ := Option.bind_eq_some_iff.mp h
    split at h
    · obtain ⟨minutes, -, h⟩ := Option.bind_eq_some_iff.mp h
      rw [Option.ite_none_right_eq_some] at h
      cases h.2
      omega
    · cases h
  · cases h

theorem readOffset?_dvd {offset : Int} (h : readOffset? cs = some (offset, rest)) :
    offset % 60 = 0 := by
  unfold readOffset? at h
  split at h
  · cases h
    rfl
  split at h
  · cases h
    rfl
  · cases h
    rfl
  case h_6 => cases h
  all_goals
    obtain ⟨⟨n, cs'⟩, hn, h⟩ := Option.map_eq_some_iff.mp h
    cases h
    have := readHoursMinutes?_dvd hn
    omega

theorem valid_of_ofText? {s : String} {t : Time} (h : ofText? s = some t) : t.Valid := by
  obtain ⟨⟨year, cs⟩, -, h⟩ := Option.bind_eq_some_iff.mp h
  obtain ⟨cs, -, h⟩ := Option.bind_eq_some_iff.mp h
  obtain ⟨⟨month, cs⟩, -, h⟩ := Option.bind_eq_some_iff.mp h
  obtain ⟨cs, -, h⟩ := Option.bind_eq_some_iff.mp h
  obtain ⟨⟨day, cs⟩, -, h⟩ := Option.bind_eq_some_iff.mp h
  simp only at h
  split at h
  case h_2 => cases h
  split at h
  case isFalse => cases h
  obtain ⟨cs, -, h⟩ := Option.bind_eq_some_iff.mp h
  obtain ⟨⟨hour, cs⟩, -, h⟩ := Option.bind_eq_some_iff.mp h
  obtain ⟨cs, -, h⟩ := Option.bind_eq_some_iff.mp h
  obtain ⟨⟨minute, cs⟩, -, h⟩ := Option.bind_eq_some_iff.mp h
  obtain ⟨cs, -, h⟩ := Option.bind_eq_some_iff.mp h
  obtain ⟨⟨second, cs⟩, -, h⟩ := Option.bind_eq_some_iff.mp h
  obtain ⟨⟨nanos, cs⟩, hnanos, h⟩ := Option.bind_eq_some_iff.mp h
  obtain ⟨⟨offset, cs⟩, hoffset, h⟩ := Option.bind_eq_some_iff.mp h
  have hlt := readFraction?_lt hnanos
  have hdvd := readOffset?_dvd hoffset
  obtain ⟨⟨-, -, -, -, hsecond, -, hrange, -⟩, ht⟩ := Option.ite_none_right_eq_some.mp h
  cases ht
  constructor
  · simp only
    split <;> omega
  · simp only
    split <;> omega
  · exact hrange

end Time

end KnowledgeTree
