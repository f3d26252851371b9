import Mathlib.Data.Int.ModEq
import Mathlib.Tactic.Ring

/-!
# Lankeeper.Lib.Calendar — days and dates

The Gregorian calendar, also before its introduction. Days are counted from 1 January of
year 1, a Monday. A year is taken from March to February, so that a leap day is its last day
and every other date has the same place in every year: `yearDay`.

Four centuries have 146097 days. They are four centuries of 36524 days and a leap day, a
century is 25 times four years of 1461 days without the last leap day, and four years are
four times 365 days and a leap day; `Placed` writes a day in these units.
-/

namespace Lankeeper.Lib.Calendar

/-- The place of a day in its four centuries, which begin with 1 March. -/
def eraDay (n : Int) : Nat :=
  ((n + 306) % 146097).toNat

/-- The place of a day in its year from March on. -/
def yearDay (n : Int) : Nat :=
  let doe := eraDay n
  let yoe := (doe - doe / 1460 + doe / 36524 - doe / 146096) / 365
  doe - (365 * yoe + yoe / 4 - yoe / 100)

/-- The month of a place in the year. -/
def monthOf (doy : Nat) : Nat :=
  let mp := (5 * doy + 2) / 153
  if mp < 10 then mp + 3 else mp - 9

/-- The day of the month of a place in the year. -/
def dayOf (doy : Nat) : Nat :=
  doy - (153 * ((5 * doy + 2) / 153) + 2) / 5 + 1

/-- Sunday is 0. -/
def weekday (n : Int) : Nat :=
  ((n + 1) % 7).toNat

/-! ## Places -/

/-- A day of an era, as centuries, fours of years, years and days. Only the last year of
four has a leap day, unless it is the last one of its century and not of the era. -/
structure Placed (doe c q y d : Nat) : Prop where
  sum : doe = 36524 * c + 1461 * q + 365 * y + d
  century : c ≤ 3
  four : q ≤ 24
  year : y ≤ 3
  day : d ≤ 364 ∨ (d = 365 ∧ y = 3 ∧ (q ≤ 23 ∨ c = 3))

theorem exists_placed {doe : Nat} (h : doe < 146097) : ∃ c q y d, Placed doe c q y d := by
  obtain ⟨c, r₁, hc, hdoe, hr₁⟩ : ∃ c r₁, c ≤ 3 ∧ doe = 36524 * c + r₁ ∧
      (r₁ < 36524 ∨ (r₁ = 36524 ∧ c = 3)) :=
    ⟨min (doe / 36524) 3, doe - 36524 * min (doe / 36524) 3, by omega, by omega, by omega⟩
  obtain ⟨q, r₂, hq, hr, hr₂⟩ : ∃ q r₂, q ≤ 24 ∧ r₁ = 1461 * q + r₂ ∧
      (r₂ < 1460 ∨ (r₂ = 1460 ∧ (q ≤ 23 ∨ c = 3))) :=
    ⟨r₁ / 1461, r₁ % 1461, by omega, by omega, by omega⟩
  obtain ⟨y, d, hy, hd, hday⟩ : ∃ y d, y ≤ 3 ∧ r₂ = 365 * y + d ∧ (d ≤ 364 ∨ (d = 365 ∧ y = 3)) :=
    ⟨min (r₂ / 365) 3, r₂ - 365 * min (r₂ / 365) 3, by omega, by omega, by omega⟩
  exact ⟨c, q, y, d, by omega, hc, hq, hy, by omega⟩

section Formula

variable {doe c q y d : Nat}

/-- The divisions by centuries count the centuries, also on the last day of the era. -/
theorem Placed.centuries (h : Placed doe c q y d) : doe / 36524 = c + doe / 146096 := by
  obtain ⟨r, hr, hlast⟩ : ∃ r, doe = 36524 * c + r ∧ (r < 36524 ∨ (r = 36524 ∧ c = 3)) := by
    have hday := h.day
    have hq := h.four
    have hy := h.year
    exact ⟨1461 * q + 365 * y + d, by rw [h.sum]; ring, by omega⟩
  have hc := h.century
  rcases hlast with hlast | ⟨rfl, rfl⟩
  · have hdiv : doe / 36524 = c := by omega
    have hera : doe / 146096 = 0 := by omega
    omega
  · subst hr
    rfl

/-- The division by four years is one too high from late in the last year of four on. -/
theorem Placed.fours (h : Placed doe c q y d) :
    ∃ e, doe / 1460 = 25 * c + q + e ∧ e ≤ d ∧ d ≤ 364 + e := by
  obtain ⟨r, hr, hdoe⟩ : ∃ r, r = 24 * c + q + 365 * y + d ∧ doe = 1460 * (25 * c + q) + r :=
    ⟨_, rfl, by rw [h.sum]; ring⟩
  have hday := h.day
  have hc := h.century
  have hq := h.four
  have hy := h.year
  exact ⟨r / 1460, by omega, by omega, by omega⟩

/-- The year of the era, by the usual formula. -/
theorem Placed.year_eq (h : Placed doe c q y d) :
    (doe - doe / 1460 + doe / 36524 - doe / 146096) / 365 = 100 * c + 4 * q + y := by
  obtain ⟨e, hfours, hlow, hhigh⟩ := h.fours
  have hsum := h.sum
  have hlin : doe - doe / 1460 + doe / 36524 - doe / 146096 =
      365 * (100 * c + 4 * q + y) + (d - e) := by
    rw [h.centuries, hfours]
    generalize doe / 146096 = era
    omega
  rw [hlin]
  omega

end Formula

variable {n : Int}

/-- Written in these units, the place in the year is the number of days. -/
theorem yearDay_of_placed {c q y d : Nat} (h : Placed (eraDay n) c q y d) : yearDay n = d := by
  have hc := h.century
  have hq := h.four
  have hy := h.year
  have hsum := h.sum
  have hleap : (100 * c + 4 * q + y) / 4 = 25 * c + q := by omega
  have hcentury : (100 * c + 4 * q + y) / 100 = c := by omega
  unfold yearDay
  simp only [h.year_eq, hleap, hcentury]
  omega

theorem eraDay_lt (n : Int) : eraDay n < 146097 := by
  unfold eraDay
  omega

theorem eraDay_succ (n : Int) : eraDay (n + 1) = if eraDay n = 146096 then 0 else eraDay n + 1 := by
  unfold eraDay
  split <;> omega

/-! ## One day after another -/

theorem yearDay_le (n : Int) : yearDay n ≤ 365 := by
  obtain ⟨c, q, y, d, h⟩ := exists_placed (eraDay_lt n)
  have hday := h.day
  rw [yearDay_of_placed h]
  omega

/-- A leap day ends the fourth year of four. -/
theorem yearDay_eq_365 (h : yearDay n = 365) :
    ∃ c q, eraDay n = 36524 * c + 1461 * q + 1460 ∧ c ≤ 3 ∧ q ≤ 24 ∧ (q ≤ 23 ∨ c = 3) := by
  obtain ⟨c, q, y, d, hp⟩ := exists_placed (eraDay_lt n)
  have hday := hp.day
  have hsum := hp.sum
  rw [yearDay_of_placed hp] at h
  exact ⟨c, q, by omega, hp.century, hp.four, by omega⟩

theorem yearDay_succ (h : yearDay n < 364) : yearDay (n + 1) = yearDay n + 1 := by
  obtain ⟨c, q, y, d, hp⟩ := exists_placed (eraDay_lt n)
  have hc := hp.century
  have hq := hp.four
  have hy := hp.year
  have hsum := hp.sum
  rw [yearDay_of_placed hp] at h ⊢
  have hnot : eraDay n ≠ 146096 := by omega
  refine yearDay_of_placed (c := c) (q := q) (y := y) ⟨?_, hc, hq, hy, by omega⟩
  rw [eraDay_succ, if_neg hnot]
  omega

/-- After its last days, a year begins anew. -/
theorem yearDay_wrap (h : 364 ≤ yearDay n) :
    yearDay (n + 1) = 0 ∨ (yearDay n = 364 ∧ yearDay (n + 1) = 365) := by
  obtain ⟨c, q, y, d, hp⟩ := exists_placed (eraDay_lt n)
  have hc := hp.century
  have hq := hp.four
  have hy := hp.year
  have hsum := hp.sum
  have hday := hp.day
  rw [yearDay_of_placed hp] at h ⊢
  have hsucc := eraDay_succ n
  by_cases hlast : eraDay n = 146096
  · rw [if_pos hlast] at hsucc
    exact .inl (yearDay_of_placed (c := 0) (q := 0) (y := 0) ⟨by omega, by omega, by omega,
      by omega, by omega⟩)
  rw [if_neg hlast] at hsucc
  by_cases hyear : y < 3
  · -- the next year of four
    exact .inl (yearDay_of_placed (c := c) (q := q) (y := y + 1) ⟨by omega, hc, hq, by omega,
      by omega⟩)
  by_cases hleap : d = 365
  · -- the next four years of the century
    have hfour : q ≤ 23 := by omega
    exact .inl (yearDay_of_placed (c := c) (q := q + 1) (y := 0) ⟨by omega, hc, by omega,
      by omega, by omega⟩)
  by_cases hcentury : q ≤ 23 ∨ c = 3
  · -- the leap day
    exact .inr ⟨by omega, yearDay_of_placed (c := c) (q := q) (y := y) ⟨by omega, hc, hq, hy,
      by omega⟩⟩
  · -- the next century
    exact .inl (yearDay_of_placed (c := c + 1) (q := 0) (y := 0) ⟨by omega, by omega, by omega,
      by omega, by omega⟩)

/-! ## Dates come again -/

/-- Within a year, days are counted one by one. -/
theorem yearDay_add {i : Nat} (h : yearDay n + i ≤ 364) : yearDay (n + i) = yearDay n + i := by
  induction i with
  | zero => simp
  | succ i ih =>
    have hi := ih (by omega)
    rw [Int.natCast_succ, ← Int.add_assoc, yearDay_succ (by omega), hi]
    rfl

/-- A new year begins after what is left of this one. -/
theorem exists_newYear (n : Int) : ∃ i : Nat, yearDay (n + i) = 0 ∧ i + yearDay n ≤ 366 ∧ 0 < i := by
  have hle := yearDay_le n
  by_cases hlate : 364 ≤ yearDay n
  · rcases yearDay_wrap hlate with h | ⟨hn, h⟩
    · exact ⟨1, h, by omega, by omega⟩
    · refine ⟨2, ?_, by omega, by omega⟩
      rcases yearDay_wrap (n := n + 1) (by omega) with h' | ⟨h', -⟩
      · rwa [Int.add_assoc] at h'
      · omega
  · have hend := yearDay_add (n := n) (i := 364 - yearDay n) (by omega)
    generalize hm : n + ((364 - yearDay n : Nat) : Int) = m at hend
    have hlast : 364 ≤ yearDay m := by omega
    rcases yearDay_wrap hlast with h | ⟨-, h⟩
    · refine ⟨364 - yearDay n + 1, ?_, by omega, by omega⟩
      rw [Int.natCast_succ, ← Int.add_assoc, hm]
      exact h
    · refine ⟨364 - yearDay n + 2, ?_, by omega, by omega⟩
      rcases yearDay_wrap (n := m + 1) (by omega) with h' | ⟨h', -⟩
      · rw [show n + ((364 - yearDay n + 2 : Nat) : Int) = m + 1 + 1 by omega]
        exact h'
      · omega

/-- Every date but the leap day is there within a year. -/
theorem exists_yearDay {doy : Nat} (h : doy ≤ 364) (n : Int) :
    ∃ i : Nat, i ≤ 366 ∧ yearDay (n + i) = doy := by
  by_cases hle : yearDay n ≤ doy
  · refine ⟨doy - yearDay n, by omega, ?_⟩
    rw [yearDay_add (by omega)]
    omega
  · obtain ⟨i, hzero, hi, -⟩ := exists_newYear n
    refine ⟨i + doy, by omega, ?_⟩
    rw [Int.natCast_add, ← Int.add_assoc, yearDay_add (by omega), hzero, Nat.zero_add]

/-- Leap days are at least four years apart. -/
theorem leapDays_apart {n m : Int} (hn : yearDay n = 365) (hm : yearDay m = 365) (hlt : n < m) :
    n + 1461 ≤ m := by
  obtain ⟨c, q, hdoe, hc, hq, hfour⟩ := yearDay_eq_365 hn
  obtain ⟨c', q', hdoe', hc', hq', hfour'⟩ := yearDay_eq_365 hm
  unfold eraDay at hdoe hdoe'
  obtain ⟨e, he⟩ : ∃ e, n + 306 = 146097 * e + (36524 * c + 1461 * q + 1460) :=
    ⟨(n + 306) / 146097, by omega⟩
  obtain ⟨e', he'⟩ : ∃ e, m + 306 = 146097 * e + (36524 * c' + 1461 * q' + 1460) :=
    ⟨(m + 306) / 146097, by omega⟩
  clear hdoe hdoe'
  rcases Int.lt_trichotomy e e' with hera | rfl | hera
  · omega
  · rcases Nat.lt_trichotomy c c' with hcentury | rfl | hcentury <;> omega
  · omega

theorem weekday_lt (n : Int) : weekday n < 7 := by
  unfold weekday
  omega

/-- Every weekday is there within a week. -/
theorem exists_weekday {w : Nat} (h : w < 7) (n : Int) : ∃ i : Nat, i < 7 ∧ weekday (n + i) = w :=
  ⟨((w - (n + 1)) % 7).toNat, by omega, by unfold weekday; omega⟩

end Lankeeper.Lib.Calendar
