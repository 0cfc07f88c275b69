import Scim.Time.Calendar

/-!
# Days and dates

The days of a date lead back to it (`Date.ofDays_toDays`), and every day has a date that leads to it
(`Date.toDays_ofDays`). A year that starts in March is the year `100 * q + 4 * a + b` of its era, and
`36524 * q + 1461 * a + 365 * b` days are before it; `yearOfEra_eq` finds the year again from any of its
days, and `monthOfYear_eq` the month.
-/

set_option autoImplicit false

namespace Scim.Time.Date

/-! ## Years and months -/

/-- Only a leap year has a day after the 364th. -/
theorem yearOfEra_eq {q a b day days : Nat} (hq : q < 4) (ha : a < 25) (hb : b < 4)
    (hday : day < 365 ∨ (day = 365 ∧ b = 3 ∧ (a < 24 ∨ q = 3)))
    (hdays : days = 36524 * q + 1461 * a + 365 * b + day) :
    (days - days / 1460 + days / 36524 - days / 146096) / 365 = 100 * q + 4 * a + b := by
  by_cases hlast : days = 146096
  · subst hlast
    obtain ⟨rfl, rfl, rfl⟩ : q = 3 ∧ a = 24 ∧ b = 3 := by omega
    rfl
  have hera : days / 146096 = 0 := Nat.div_eq_of_lt (by omega)
  have hcentury : days / 36524 = q := Nat.div_eq_of_lt_le (by omega) (by omega)
  by_cases hlate : 24 * q + a + 365 * b + day < 1460
  · have hcycle : days / 1460 = 25 * q + a := Nat.div_eq_of_lt_le (by omega) (by omega)
    rw [hera, hcentury, hcycle]
    exact Nat.div_eq_of_lt_le (by omega) (by omega)
  · have hcycle : days / 1460 = 25 * q + a + 1 := Nat.div_eq_of_lt_le (by omega) (by omega)
    rw [hera, hcentury, hcycle]
    exact Nat.div_eq_of_lt_le (by omega) (by omega)

theorem dayOfYear_eq {q a b day days : Nat} (ha : a < 25) (hb : b < 4)
    (hdays : days = 36524 * q + 1461 * a + 365 * b + day) :
    days - (365 * (100 * q + 4 * a + b) + (100 * q + 4 * a + b) / 4 -
      (100 * q + 4 * a + b) / 100) = day := by
  have hfour : (100 * q + 4 * a + b) / 4 = 25 * q + a := by omega
  have hcentury : (100 * q + 4 * a + b) / 100 = q := by omega
  omega

theorem month_shift {month shifted : Nat} (h : 1 ≤ month) (h' : month ≤ 12)
    (hs : shifted = (month + 9) % 12) :
    (month ≤ 2 ∧ shifted = month + 9) ∨ (3 ≤ month ∧ shifted = month - 3) := by
  omega

/-- The months 1, 3, 6 and 8 after March are April, June, September and November, and the last is
February. -/
theorem monthOfYear_eq {month day : Nat} (hmonth : month < 12) (hday : day < 31)
    (hshort : month = 1 ∨ month = 3 ∨ month = 6 ∨ month = 8 → day < 30)
    (hfebruary : month = 11 → day < 29) :
    (5 * ((153 * month + 2) / 5 + day) + 2) / 153 = month := by
  have : month = 0 ∨ month = 1 ∨ month = 2 ∨ month = 3 ∨ month = 4 ∨ month = 5 ∨ month = 6 ∨
      month = 7 ∨ month = 8 ∨ month = 9 ∨ month = 10 ∨ month = 11 := by omega
  rcases this with rfl | rfl | rfl | rfl | rfl | rfl | rfl | rfl | rfl | rfl | rfl | rfl <;> omega

/-! ## Valid dates -/

theorem isValid_iff {d : Date} : d.isValid = true ↔
    1 ≤ d.month ∧ d.month ≤ 12 ∧ 1 ≤ d.day ∧ d.day ≤ daysInMonth d.year d.month := by
  simp [isValid, and_assoc]

theorem isLeapYear_iff {year : Int} :
    isLeapYear year = true ↔ year % 4 = 0 ∧ (year % 100 ≠ 0 ∨ year % 400 = 0) := by
  simp [isLeapYear]

theorem le_daysInMonth {year : Int} {month day : Nat} (h : day ≤ daysInMonth year month) :
    day ≤ 31 ∧ (month = 4 ∨ month = 6 ∨ month = 9 ∨ month = 11 → day ≤ 30) ∧
      (month = 2 → day ≤ 28 ∨ (day = 29 ∧ isLeapYear year = true)) := by
  unfold daysInMonth at h
  split at h
  · split at h
    · rename_i hleap
      refine ⟨by omega, by omega, fun _ => ?_⟩
      rcases Nat.lt_or_ge day 29 with hlt | hge
      · exact .inl (by omega)
      · exact .inr ⟨by omega, hleap⟩
    · omega
  · split at h
    · omega
    · rename_i hlong
      simp only [Bool.or_eq_true, decide_eq_true_eq] at hlong
      omega

theorem le_daysInMonth_of {year : Int} {month day : Nat} (h : day ≤ 31)
    (hshort : month = 4 ∨ month = 6 ∨ month = 9 ∨ month = 11 → day ≤ 30)
    (hfebruary : month = 2 → day ≤ 28 ∨ (day = 29 ∧ isLeapYear year = true)) :
    day ≤ daysInMonth year month := by
  unfold daysInMonth
  split
  · rename_i hmonth
    rcases hfebruary hmonth with h28 | ⟨rfl, hleap⟩
    · split <;> omega
    · exact Nat.le_of_eq (if_pos hleap).symm
  · split
    · rename_i hmonth
      simp only [Bool.or_eq_true, decide_eq_true_eq] at hmonth
      omega
    · exact h

/-! ## Eras -/

theorem era_split (year : Int) : ∃ q a b : Nat, q < 4 ∧ a < 25 ∧ b < 4 ∧
    year % 400 = ((100 * q + 4 * a + b : Nat) : Int) := by
  obtain ⟨n, hn⟩ : ∃ n : Nat, year % 400 = n := ⟨(year % 400).toNat, by omega⟩
  have hlt : n < 400 := by omega
  refine ⟨n / 100, n % 100 / 4, n % 4, by omega, by omega, by omega, ?_⟩
  rw [hn]
  omega

/-- The year that starts in March ends with the February of the next one. -/
theorem era_leap {year : Int} {q a b : Nat} (hq : q < 4) (ha : a < 25) (hb : b < 4)
    (hyear : year % 400 = ((100 * q + 4 * a + b : Nat) : Int))
    (h : isLeapYear (year + 1) = true) : b = 3 ∧ (a < 24 ∨ q = 3) := by
  obtain ⟨era, rfl⟩ : ∃ era, year = 400 * era + (100 * q + 4 * a + b) := ⟨year / 400, by omega⟩
  obtain ⟨hfour, hcentury⟩ := isLeapYear_iff.1 h
  obtain rfl : b = 3 := by omega
  refine ⟨rfl, ?_⟩
  by_cases hlt : a < 24
  · exact .inl hlt
  · obtain rfl : a = 24 := by omega
    right
    omega

theorem toDays_eq {d : Date} (hd : 1 ≤ d.day) {year : Int} {q a b month : Nat}
    (hyear : year = if d.month ≤ 2 then d.year - 1 else d.year) (ha : a < 25)
    (hb : b < 4) (hera : year % 400 = ((100 * q + 4 * a + b : Nat) : Int))
    (hmonth : month = (d.month + 9) % 12) : d.toDays + epoch = year / 400 * 146097 +
      ((36524 * q + 1461 * a + 365 * b + ((153 * month + 2) / 5 + (d.day - 1)) : Nat) : Int) := by
  have hfour : (((100 * q + 4 * a + b : Nat) : Int)) / 4 = (25 * q + a : Nat) := by omega
  have hcentury : (((100 * q + 4 * a + b : Nat) : Int)) / 100 = (q : Nat) := by omega
  simp only [toDays, ← hyear, hera, hfour, hcentury, ← hmonth]
  omega

/-- Days of a month that starts in March, and the day in the year. -/
theorem day_shifted {d : Date} {month day : Nat} (h : d.isValid = true)
    (hmonth : month = (d.month + 9) % 12) (hday : day = (153 * month + 2) / 5 + (d.day - 1)) :
    month < 12 ∧ (5 * day + 2) / 153 = month ∧ day - (153 * month + 2) / 5 + 1 = d.day ∧
      (day < 365 ∨ (day = 365 ∧ d.month ≤ 2 ∧ isLeapYear d.year = true)) := by
  obtain ⟨hm, hm', hd, hd'⟩ := isValid_iff.1 h
  obtain ⟨hlong, hshort, hfebruary⟩ := le_daysInMonth hd'
  have hshift := month_shift hm hm' hmonth
  have hback : day - (153 * month + 2) / 5 + 1 = d.day := by omega
  clear hmonth hd'
  refine ⟨by omega, ?_, hback, ?_⟩
  · rw [hday]
    exact monthOfYear_eq (by omega) (by omega) (by omega) (by omega)
  · by_cases hfeb : d.month = 2
    · obtain rfl : month = 11 := by omega
      rcases hfebruary hfeb with h28 | ⟨h29, hleap⟩
      · exact .inl (by omega)
      · exact .inr ⟨by omega, by omega, hleap⟩
    · have : month ≤ 10 := by omega
      exact .inl (by omega)

theorem era_days {era : Int} {days : Nat} (h : days < 146097) :
    (era * 146097 + days) / 146097 = era ∧ ((era * 146097 + days) % 146097).toNat = days := by
  omega

/-- The year and the month that were shifted. -/
theorem unshift {d : Date} {year : Int} {month : Nat} (h : 1 ≤ d.month) (h' : d.month ≤ 12)
    (hyear : year = if d.month ≤ 2 then d.year - 1 else d.year)
    (hmonth : month = (d.month + 9) % 12) :
    (⟨if month < 10 then year else year + 1, if month < 10 then month + 3 else month - 9, d.day⟩ :
      Date) = d := by
  obtain ⟨dyear, dmonth, dday⟩ := d
  simp only at h h' hyear hmonth ⊢
  rw [mk.injEq]
  rcases month_shift h h' hmonth with ⟨hle, hs⟩ | ⟨hge, hs⟩
  · rw [if_pos hle] at hyear
    rw [if_neg (by omega), if_neg (by omega), hyear, hs]
    exact ⟨Int.sub_add_cancel _ _, Nat.add_sub_cancel _ _, rfl⟩
  · rw [if_neg (by omega)] at hyear
    rw [if_pos (by omega), if_pos (by omega), hyear, hs]
    exact ⟨rfl, Nat.sub_add_cancel hge, rfl⟩

theorem toDays_bounds {d : Date} (h : d.isValid = true) (hyear : 0 ≤ d.year ∧ d.year ≤ 9999) :
    -800000 ≤ d.toDays ∧ d.toDays ≤ 3000000 := by
  obtain ⟨hmonth, hmonth', hday, hday'⟩ := isValid_iff.1 h
  have hday' := (le_daysInMonth hday').1
  simp only [toDays, epoch]
  split <;> omega

/-- **The days of a date lead back to it.** -/
theorem ofDays_toDays {d : Date} (h : d.isValid = true) : ofDays d.toDays = d := by
  obtain ⟨hm, hm', hd, -⟩ := isValid_iff.1 h
  obtain ⟨year, hyear⟩ : ∃ year, year = if d.month ≤ 2 then d.year - 1 else d.year := ⟨_, rfl⟩
  obtain ⟨month, hmonth⟩ : ∃ month, month = (d.month + 9) % 12 := ⟨_, rfl⟩
  obtain ⟨day, hday⟩ : ∃ day, day = (153 * month + 2) / 5 + (d.day - 1) := ⟨_, rfl⟩
  obtain ⟨q, a, b, hq, ha, hb, hera⟩ := era_split year
  obtain ⟨days, hsum⟩ : ∃ days, days = 36524 * q + 1461 * a + 365 * b + day := ⟨_, rfl⟩
  obtain ⟨hlt, hmonthOf, hback, hend⟩ := day_shifted h hmonth hday
  have hlast : day < 365 ∨ (day = 365 ∧ b = 3 ∧ (a < 24 ∨ q = 3)) := by
    rcases hend with hlt | ⟨he, hfeb, hleap⟩
    · exact .inl hlt
    · rw [if_pos hfeb] at hyear
      refine .inr ⟨he, era_leap hq ha hb hera ?_⟩
      rwa [hyear, Int.sub_add_cancel]
  have hdays := toDays_eq hd hyear ha hb hera hmonth
  rw [← hday, ← hsum] at hdays
  have hwithin : days < 146097 := by
    clear hdays hera hyear hmonth hday hback hmonthOf
    omega
  obtain ⟨heraOf, hdaysOf⟩ := @era_days (year / 400) days hwithin
  have hyearOf := yearOfEra_eq hq ha hb hlast hsum
  have hdayOf := dayOfYear_eq ha hb hsum
  have hyearEq : year / 400 * 400 + ((100 * q + 4 * a + b : Nat) : Int) = year := by
    rw [← hera, Int.mul_comm]
    exact Int.mul_ediv_add_emod year 400
  simp only [ofDays, hdays, heraOf, hdaysOf, hyearOf, hdayOf, hmonthOf, hyearEq, hback]
  exact unshift hm hm' hyear hmonth

/-! ## Dates of all days -/

/-- A day of an era is in a century of it, in a cycle of four years of that, and in a year. -/
theorem exists_dayOfYear {days : Nat} (h : days < 146097) : ∃ q a b day : Nat,
    q < 4 ∧ a < 25 ∧ b < 4 ∧ (day < 365 ∨ (day = 365 ∧ b = 3 ∧ (a < 24 ∨ q = 3))) ∧
      days = 36524 * q + 1461 * a + 365 * b + day := by
  obtain ⟨q, hq⟩ : ∃ q, q = min (days / 36524) 3 := ⟨_, rfl⟩
  obtain ⟨a, ha⟩ : ∃ a, a = (days - 36524 * q) / 1461 := ⟨_, rfl⟩
  obtain ⟨b, hb⟩ : ∃ b, b = min ((days - 36524 * q - 1461 * a) / 365) 3 := ⟨_, rfl⟩
  exact ⟨q, a, b, days - 36524 * q - 1461 * a - 365 * b, by omega, by omega, by omega, by omega,
    by omega⟩

/-- A day of a year that starts in March is in one of its months. -/
theorem exists_dayOfMonth {day : Nat} (h : day ≤ 365) : ∃ month rest : Nat,
    month < 12 ∧ day = (153 * month + 2) / 5 + rest ∧ rest < 31 ∧
      (month = 1 ∨ month = 3 ∨ month = 6 ∨ month = 8 → rest < 30) ∧
      (month = 11 → rest < 28 ∨ (rest = 28 ∧ day = 365)) :=
  ⟨(5 * day + 2) / 153, day - (153 * ((5 * day + 2) / 153) + 2) / 5, by omega, by omega, by omega,
    by omega, by omega⟩

/-- Converse of `era_leap`. -/
theorem isLeapYear_of_era {year : Int} {q a : Nat} (ha : a < 25)
    (hyear : year % 400 = ((100 * q + 4 * a + 3 : Nat) : Int)) (h : a < 24 ∨ q = 3) :
    isLeapYear (year + 1) = true := by
  rw [isLeapYear_iff]
  omega

/-- Every day has a date. -/
theorem exists_toDays (days : Int) : ∃ d : Date, d.isValid = true ∧ d.toDays = days := by
  obtain ⟨n, hn⟩ : ∃ n : Nat, (days + epoch) % 146097 = n :=
    ⟨((days + epoch) % 146097).toNat, by omega⟩
  obtain ⟨q, a, b, day, hq, ha, hb, hday, hsum⟩ := @exists_dayOfYear n (by omega)
  obtain ⟨month, rest, hmonth, hsplit, hrest, hshort, hfebruary⟩ := @exists_dayOfMonth day (by omega)
  obtain ⟨year, hyear⟩ : ∃ year : Int,
      year = (days + epoch) / 146097 * 400 + (100 * q + 4 * a + b : Nat) := ⟨_, rfl⟩
  have hera : year % 400 = ((100 * q + 4 * a + b : Nat) : Int) := by omega
  -- the months from January on are in the next year
  obtain ⟨y, m, hlow, hhigh, hshift, hnext⟩ : ∃ (y : Int) (m : Nat), 1 ≤ m ∧ m ≤ 12 ∧
      month = (m + 9) % 12 ∧ year = if m ≤ 2 then y - 1 else y := by
    by_cases hspring : month < 10
    · exact ⟨year, month + 3, by omega, by omega, by omega, by rw [if_neg (by omega)]⟩
    · exact ⟨year + 1, month - 9, by omega, by omega, by omega, by rw [if_pos (by omega)]; omega⟩
  have hday' : rest + 1 ≤ daysInMonth y m := by
    refine le_daysInMonth_of hrest (by omega) fun hm => ?_
    have hlast : month = 11 := by omega
    refine (hfebruary hlast).imp_right fun ⟨hrest, hend⟩ => ⟨by rw [hrest], ?_⟩
    obtain ⟨-, rfl, hleap⟩ : day = 365 ∧ b = 3 ∧ (a < 24 ∨ q = 3) := by omega
    rw [if_pos (by omega)] at hnext
    rw [← Int.sub_add_cancel y 1, ← hnext]
    exact isLeapYear_of_era ha hera hleap
  refine ⟨⟨y, m, rest + 1⟩, isValid_iff.2 ⟨hlow, hhigh, Nat.le_add_left 1 rest, hday'⟩, ?_⟩
  have heq := @toDays_eq ⟨y, m, rest + 1⟩ (Nat.le_add_left 1 rest) year q a b month hnext ha hb hera
    hshift
  dsimp only at heq
  rw [Nat.add_sub_cancel, ← hsplit, ← hsum] at heq
  clear hsum hsplit hshift hnext hera
  omega

/-- The date of a day leads back to it. -/
theorem toDays_ofDays (days : Int) : (ofDays days).isValid = true ∧ (ofDays days).toDays = days := by
  obtain ⟨d, hvalid, rfl⟩ := exists_toDays days
  rw [ofDays_toDays hvalid]
  exact ⟨hvalid, rfl⟩

/-- These days are in the years −262143 to 262142. -/
theorem year_bounds {d : Date} (h : d.isValid = true)
    (hdays : -96465292 ≤ d.toDays ∧ d.toDays ≤ 95026236) : -262143 ≤ d.year ∧ d.year ≤ 262142 := by
  obtain ⟨hmonth, hmonth', hday, hday'⟩ := isValid_iff.1 h
  have hday' := (le_daysInMonth hday').1
  obtain ⟨year, hyear⟩ : ∃ year, year = if d.month ≤ 2 then d.year - 1 else d.year := ⟨_, rfl⟩
  obtain ⟨month, hshift⟩ : ∃ month, month = (d.month + 9) % 12 := ⟨_, rfl⟩
  obtain ⟨q, a, b, hq, ha, hb, hera⟩ := era_split year
  obtain ⟨era, hsplit⟩ : ∃ era, year / 400 = era := ⟨_, rfl⟩
  have heq := toDays_eq hday hyear ha hb hera hshift
  have hyearOf : year = 400 * era + (100 * q + 4 * a + b : Nat) := by omega
  have hmonthOf := month_shift hmonth hmonth' hshift
  rw [hsplit, epoch] at heq
  clear hera hsplit hshift
  -- the first and the last year lie within an era, in a century of it
  have hcentury : q = 0 ∨ q = 1 ∨ q = 2 ∨ q = 3 := by omega
  rcases hmonthOf with ⟨hle, hm⟩ | ⟨hge, hm⟩
  · rw [if_pos hle] at hyear
    rcases hcentury with rfl | rfl | rfl | rfl <;> omega
  · rw [if_neg (by omega)] at hyear
    rcases hcentury with rfl | rfl | rfl | rfl <;> omega

end Scim.Time.Date
