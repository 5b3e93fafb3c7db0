import KnowledgeTree.Calendar
import Mathlib

/-!
Counting days and naming dates are inverse to each other.
-/

namespace KnowledgeTree.Date

/-- A day of an era, by its century, its group of four years, its year and its day. The last
century, group and year may be one day longer than the others. -/
structure Split (day c q r d : Nat) : Prop where
  sum : day = 36524 * c + 1461 * q + 365 * r + d
  century : c ≤ 3
  group : q ≤ 24
  year : r ≤ 3
  day : d ≤ 365
  leap : d = 365 → r = 3 ∧ (q = 24 → c = 3)

theorem exists_split {day : Nat} (h : day < 146097) : ∃ c q r d, Split day c q r d := by
  let c := min (day / 36524) 3
  let rest := day - 36524 * c
  let q := rest / 1461
  let r := min (rest % 1461 / 365) 3
  refine ⟨c, q, r, rest % 1461 - 365 * r, ?_, ?_, ?_, ?_, ?_, ?_⟩ <;> omega

theorem Split.yearOfEra {day c q r d : Nat} (h : Split day c q r d) :
    (day - day / 1460 + day / 36524 - day / 146096) / 365 = 100 * c + 4 * q + r := by
  obtain ⟨hsum, hc, hq, hr, hd, hleap⟩ := h
  by_cases hlast : day = 146096
  · omega
  · have hera : day / 146096 = 0 := by omega
    have hcentury : day / 36524 = c := by omega
    -- 1460 days are one day short of four years
    have hgroup : day / 1460 = 25 * c + q ∧ d < 365 ∨
        day / 1460 = 25 * c + q + 1 ∧ 0 < d := by omega
    omega

theorem Split.dayOfYear {day c q r d : Nat} (h : Split day c q r d) :
    day - (365 * (100 * c + 4 * q + r) + (100 * c + 4 * q + r) / 4 - (100 * c + 4 * q + r) / 100) =
      d := by
  obtain ⟨hsum, hc, hq, hr, hd, hleap⟩ := h
  omega

/-- The date of a day of a year that starts in March, with the months counted from March. -/
def ofMarch (year : Int) (d : Nat) : Date :=
  let march := (5 * d + 2) / 153
  let month := if march < 10 then march + 3 else march - 9
  ⟨year + (if month ≤ 2 then 1 else 0), month, d - (153 * march + 2) / 5 + 1⟩

theorem ofDays_eq {n : Int} {c q r d : Nat} (h : Split ((n + 719468) % 146097).toNat c q r d) :
    ofDays n = ofMarch ((100 * c + 4 * q + r : Nat) + (n + 719468) / 146097 * 400) d := by
  simp only [ofDays, h.yearOfEra, h.dayOfYear]
  rfl

theorem toDays_ofMarch {year : Int} {d : Nat} (hd : d ≤ 365) :
    (ofMarch year d).toDays = year / 400 * 146097 +
      ((year % 400).toNat * 365 + (year % 400).toNat / 4 - (year % 400).toNat / 100 + d : Nat) -
        719468 := by
  have hday : (153 * ((5 * d + 2) / 153) + 2) / 5 +
      (d - (153 * ((5 * d + 2) / 153) + 2) / 5) = d := by
    omega
  have hmarch : (5 * d + 2) / 153 ≤ 11 := by omega
  unfold ofMarch toDays
  simp only
  generalize (5 * d + 2) / 153 = march at hday hmarch
  by_cases hm : march < 10
  · have hmonth : ¬march + 3 ≤ 2 := by omega
    simp only [hm, if_true, hmonth, if_false, Int.add_zero, Nat.add_sub_cancel]
    rw [if_pos (by omega), hday]
  · have hmonth : march - 9 ≤ 2 := by omega
    simp only [hm, if_false, hmonth, if_true, Int.add_sub_cancel, Nat.add_sub_cancel]
    rw [if_neg (by omega), Nat.sub_add_cancel (by omega), hday]

theorem toDays_ofDays (n : Int) : (ofDays n).toDays = n := by
  have hday : ((n + 719468) % 146097).toNat < 146097 := by omega
  obtain ⟨c, q, r, d, h⟩ := exists_split hday
  rw [ofDays_eq h, toDays_ofMarch h.day]
  obtain ⟨hsum, hc, hq, hr, hd, hleap⟩ := h
  have hyear : 100 * c + 4 * q + r < 400 := by omega
  have hquarter : (100 * c + 4 * q + r) / 4 = 25 * c + q := by omega
  have hcentury : (100 * c + 4 * q + r) / 100 = c := by omega
  generalize hy : 100 * c + 4 * q + r = year at *
  have hera : ((year : Int) + (n + 719468) / 146097 * 400) / 400 = (n + 719468) / 146097 := by omega
  have hrest : (((year : Int) + (n + 719468) / 146097 * 400) % 400).toNat = year := by omega
  rw [hera, hrest]
  omega

theorem isLeap_iff {year : Int} :
    isLeap year = true ↔ year % 4 = 0 ∧ (year % 100 ≠ 0 ∨ year % 400 = 0) := by
  simp only [isLeap, Bool.and_eq_true, Bool.or_eq_true, beq_iff_eq, bne_iff_ne]

theorem isValid_ofMarch {year : Int} {d : Nat} (hd : d ≤ 365)
    (hleap : d = 365 → isLeap (year + 1) = true) : (ofMarch year d).isValid = true := by
  have hfirst : 153 * ((5 * d + 2) / 153) ≤ 5 * d + 2 := by omega
  have hlast : 5 * d + 2 < 153 * ((5 * d + 2) / 153) + 153 := by omega
  have hmarch : (5 * d + 2) / 153 ≤ 11 := by omega
  unfold ofMarch isValid daysInMonth
  simp only
  generalize (5 * d + 2) / 153 = march at hfirst hlast hmarch
  by_cases hfeb : march = 11
  · subst hfeb
    have hlength : d - 337 + 1 ≤ if isLeap (year + 1) then 29 else 28 := by
      by_cases hlong : d = 365
      · rw [hleap hlong, if_pos rfl]
        omega
      · split <;> omega
    simpa using hlength
  · interval_cases march
    all_goals simp
    all_goals omega

theorem isValid_ofDays (n : Int) : (ofDays n).isValid = true := by
  have hday : ((n + 719468) % 146097).toNat < 146097 := by omega
  obtain ⟨c, q, r, d, h⟩ := exists_split hday
  rw [ofDays_eq h]
  apply isValid_ofMarch h.day
  intro hd
  obtain ⟨hr, hq⟩ := h.leap hd
  have hc := h.century
  have hg := h.group
  rw [isLeap_iff]
  omega

end KnowledgeTree.Date
