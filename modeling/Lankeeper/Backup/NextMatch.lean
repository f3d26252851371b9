import Lankeeper.Backup.Scheduler
import Lankeeper.Lib.Calendar

/-!
# Lankeeper.Backup.NextMatch — how far ahead `Next` has to look

`Next` goes on minute by minute for four times 365 days, and reports that nothing matches if
it has found nothing by then. In a location with a fixed offset every date but the leap day
comes again within a year, so the window is long enough for all schedules that match on any
other date. From one leap day to the next there are at least 1461 days, and a schedule that
matches on leap days only is reported not to match at all: `next_least_iff`.
-/

namespace Lankeeper.Backup

open Lib Text Calendar

/-! ## Locations with a fixed offset -/

/-- What clock and calendar show in the given minute since 1 January of year 1. -/
def clockAt (m : Int) : Clock where
  minute := (m % 60).toNat
  hour := (m / 60 % 24).toNat
  day := dayOf (yearDay (m / 1440))
  month := monthOf (yearDay (m / 1440))
  weekday := weekday (m / 1440)

/-- A location whose clock is ahead of UTC by a number of minutes. -/
def fixedZone (name : Text) (offset : Int) : Location where
  name := name
  clock m := clockAt (m + offset)

theorem fixedZone_utc : fixedZone "UTC" 0 = utc :=
  rfl

/-! ## What a schedule that parses can hold -/

/-- The values of a field lie within its bounds, and there is one. -/
structure FieldSet.Within (f : FieldSet) (min max : Int) : Prop where
  some : ∃ v, f.has v
  bounds : ∀ v, f.has v → min ≤ v ∧ v ≤ max

theorem FieldSet.exists_has {f : FieldSet} (h : f ≠ 0#64) : ∃ v, f.has v := by
  by_contra hnone
  refine h (BitVec.eq_of_getLsbD_eq fun i hi => ?_)
  rw [BitVec.getLsbD_zero]
  by_contra hbit
  exact hnone ⟨i, FieldSet.has_iff.mpr ⟨by omega, by omega, by simpa using hbit⟩⟩

theorem within_of_parseField {spec : Text} {min max : Int} {f : FieldSet} (h0 : 0 ≤ min)
    (hle : min ≤ max) (h63 : max ≤ 63) (h : parseField spec min max = .ok f) :
    f.Within min max := by
  unfold parseField at h
  split at h
  · cases h
    refine ⟨⟨min, (has_makeFieldSet h0 h63).mpr ⟨le_rfl, hle⟩⟩, fun v hv => ?_⟩
    exact (has_makeFieldSet h0 h63).mp hv
  obtain ⟨out, hset, h⟩ := exists_of_bind_ok h
  split at h
  · cases h
  rename_i hne
  cases h
  refine ⟨FieldSet.exists_has hne, fun v hv => ?_⟩
  by_cases hfits : Fits min max (atomsOf spec)
  · rcases setAtoms_spec h0 h63 hfits 0#64 with ⟨e, herr⟩ | ⟨out', hok, hall, hhas⟩
    · cases herr.symm.trans hset
    cases hok.symm.trans hset
    rw [hhas, FieldSet.has_zero] at hv
    rcases hv with hv | ⟨atom, hmem, hv⟩
    · cases hv
    · obtain ⟨a, ha⟩ := hall atom hmem
      exact within_of_denotes ha hv
  · rw [setAtoms_panics h0 h63 hfits] at hset
    cases hset

structure Schedule.Proper (s : Schedule) : Prop where
  minute : s.minute.Within 0 59
  hour : s.hour.Within 0 23
  dayOfMonth : s.dayOfMonth.Within 1 31
  month : s.month.Within 1 12
  dayOfWeek : s.dayOfWeek.Within 0 6

variable {s : Schedule}

theorem proper_of_parseFields {spec : Text} (h : parseFields spec = .ok s) : s.Proper := by
  unfold parseFields at h
  split at h
  · simp only [bind_ok_iff, mapError_ok_iff] at h
    obtain ⟨minute, hminute, hour, hhour, dom, hdom, month, hmonth, dow, hdow, ⟨⟩⟩ := h
    exact ⟨within_of_parseField (by decide) (by decide) (by decide) hminute,
      within_of_parseField (by decide) (by decide) (by decide) hhour,
      within_of_parseField (by decide) (by decide) (by decide) hdom,
      within_of_parseField (by decide) (by decide) (by decide) hmonth,
      within_of_parseField (by decide) (by decide) (by decide) hdow⟩
  · cases h

theorem proper_of_parseSchedule {spec : Text} (h : parseSchedule spec = .ok s) : s.Proper := by
  unfold parseSchedule at h
  simp only at h
  repeat' split at h
  · cases h
  all_goals exact proper_of_parseFields h

/-! ## Days -/

/-- The days that the two day fields let through. -/
def Schedule.onDay (s : Schedule) (day weekday : Nat) : Bool :=
  if s.dayOfMonth == makeFieldSet 1 31 true && s.dayOfWeek == makeFieldSet 0 6 true then true
  else if s.dayOfMonth == makeFieldSet 1 31 true then s.dayOfWeek.has weekday
  else if s.dayOfWeek == makeFieldSet 0 6 true then s.dayOfMonth.has day
  else s.dayOfMonth.has day || s.dayOfWeek.has weekday

theorem Schedule.matches_iff {t : Clock} :
    s.matches t ↔ s.minute.has t.minute ∧ s.hour.has t.hour ∧
      s.month.has t.month ∧ s.onDay t.day t.weekday := by
  change (_ && _ && _ && s.onDay t.day t.weekday) ↔ _
  rw [Bool.and_eq_true, Bool.and_eq_true, Bool.and_eq_true, and_assoc, and_assoc]

/-- The schedule matches on 29 February and on no other date. -/
structure Schedule.LeapDayOnly (s : Schedule) : Prop where
  month : ∀ v, s.month.has v → v = 2
  late : ∀ v, s.dayOfMonth.has v → 29 ≤ v
  leap : s.dayOfMonth.has 29
  weekday : s.dayOfWeek = makeFieldSet 0 6 true

/-- The schedule matches at some time of the day. -/
def Schedule.MatchesDay (s : Schedule) (n : Int) : Prop :=
  s.month.has (monthOf (yearDay n)) ∧ s.onDay (dayOf (yearDay n)) (weekday n)

section Dates

/-- Where a month begins, for a place in the year within it. -/
def monthStart (doy : Nat) : Nat :=
  (153 * ((5 * doy + 2) / 153) + 2) / 5

/-- The first week of a month. -/
theorem monthOf_week : ∀ doy ≤ 365, monthStart doy ≤ 358 ∧
    ∀ i < 7, monthOf (monthStart doy + i) = monthOf doy := by
  decide +kernel

theorem leapDay_date : monthOf 365 = 2 ∧ dayOf 365 = 29 := by
  decide

theorem leapDay_of_date : ∀ doy ≤ 365, monthOf doy = 2 → 29 ≤ dayOf doy → doy = 365 := by
  decide +kernel

/-- Day 29 of another month, counted from January as 1. -/
theorem otherMonth_date : ∀ v ≤ 12, 1 ≤ v → v ≠ 2 →
    (153 * ((v + 9) % 12) + 2) / 5 + 28 ≤ 364 ∧
      monthOf ((153 * ((v + 9) % 12) + 2) / 5 + 28) = v ∧
      dayOf ((153 * ((v + 9) % 12) + 2) / 5 + 28) = 29 := by
  decide

/-- The days of February before the leap day. -/
theorem february_date : ∀ v ≤ 28, 1 ≤ v → monthOf (336 + v) = 2 ∧ dayOf (336 + v) = v := by
  decide

end Dates

section Recurs

variable {s : Schedule}

/-- What a schedule matches on besides leap days: dates, or days of the week. -/
theorem Schedule.Proper.recurring (hs : s.Proper) (hnot : ¬ s.LeapDayOnly) {n : Int}
    (hn : s.MatchesDay n) :
    (∃ doy ≤ 364, s.month.has (monthOf doy) ∧ ∀ w, s.onDay (dayOf doy) w) ∨
      ∃ w < 7, ∀ d, s.onDay d w := by
  obtain ⟨hmonth, hday⟩ := hn
  by_cases hdow : s.dayOfWeek = makeFieldSet 0 6 true
  · by_cases hdom : s.dayOfMonth = makeFieldSet 1 31 true
    · exact .inr ⟨0, by decide, fun d => by simp [Schedule.onDay, hdow, hdom]⟩
    -- the day of the month decides
    have hon : ∀ d w, s.onDay d w = s.dayOfMonth.has d := fun d w => by
      simp [Schedule.onDay, hdow, hdom]
    simp only [hon] at hday ⊢
    refine .inl ?_
    by_cases hleap : yearDay n = 365
    · rw [hleap, leapDay_date.1] at hmonth
      rw [hleap, leapDay_date.2] at hday
      -- unless the schedule is one for leap days only, it has another month or day
      by_contra hnone
      push Not at hnone
      refine hnot ⟨fun v hv => ?_, fun v hv => ?_, hday, hdow⟩
      · by_contra hne
        have hbounds := hs.month.bounds v hv
        obtain ⟨hle, hm, hd⟩ := otherMonth_date v.toNat (by omega) (by omega) (by omega)
        have hcast : ((v.toNat : Nat) : Int) = v := by omega
        obtain ⟨w, hw⟩ := hnone _ hle (by rw [hm, hcast]; exact hv)
        exact hw (by rw [hd]; exact hday)
      · by_contra hlt
        have hbounds := hs.dayOfMonth.bounds v hv
        obtain ⟨hm, hd⟩ := february_date v.toNat (by omega) (by omega)
        have hcast : ((v.toNat : Nat) : Int) = v := by omega
        obtain ⟨w, hw⟩ := hnone (336 + v.toNat) (by omega) (by rw [hm]; exact hmonth)
        exact hw (by rw [hd, hcast]; exact hv)
    · exact ⟨yearDay n, by have := yearDay_le n; omega, hmonth, fun _ => hday⟩
  · -- some day of the week is enough
    refine .inr ?_
    by_cases hdom : s.dayOfMonth = makeFieldSet 1 31 true
    · have hon : ∀ d w, s.onDay d w = s.dayOfWeek.has w := fun d w => by
        simp [Schedule.onDay, hdow, hdom]
      exact ⟨weekday n, weekday_lt n, fun d => by rwa [hon] at hday ⊢⟩
    · obtain ⟨v, hv⟩ := hs.dayOfWeek.some
      have hbounds := hs.dayOfWeek.bounds v hv
      refine ⟨v.toNat, by omega, fun d => ?_⟩
      have hcast : ((v.toNat : Nat) : Int) = v := by omega
      simp [Schedule.onDay, hdow, hdom, hcast, hv]

/-- Within little more than a year, the schedule matches on some day again. -/
theorem Schedule.Proper.exists_day (hs : s.Proper) (hnot : ¬ s.LeapDayOnly) {n : Int}
    (hn : s.MatchesDay n) (from_ : Int) : ∃ i : Nat, i ≤ 372 ∧ s.MatchesDay (from_ + i) := by
  rcases hs.recurring hnot hn with ⟨doy, hdoy, hmonth, hday⟩ | ⟨w, hw, hday⟩
  · obtain ⟨i, hi, hyear⟩ := exists_yearDay hdoy from_
    exact ⟨i, by omega, by rw [hyear]; exact hmonth, by rw [hyear]; exact hday _⟩
  obtain ⟨hfirst, hweek⟩ := monthOf_week (yearDay n) (yearDay_le n)
  have hstart : monthStart (yearDay n) ≤ 364 := by omega
  obtain ⟨i, hi, hyear⟩ := exists_yearDay hstart from_
  obtain ⟨j, hj, hwj⟩ := exists_weekday hw (from_ + i)
  refine ⟨i + j, by omega, ?_⟩
  rw [Int.natCast_add, ← Int.add_assoc]
  refine ⟨?_, by rw [hwj]; exact hday _⟩
  rw [yearDay_add (by omega), hyear, hweek j hj]
  exact hn.1

end Recurs

/-! ## Minutes -/

section Minutes

variable {s : Schedule} {name : Text} {offset : Int}

theorem fires_fixedZone {m : Nat} :
    s.fires (fixedZone name offset) m ↔
      s.minute.has ((m + offset) % 60) ∧ s.hour.has ((m + offset) / 60 % 24) ∧
        s.MatchesDay ((m + offset) / 1440) := by
  have hminute : (((m : Int) + offset) % 60).toNat = ((m : Int) + offset) % 60 := by omega
  have hhour : ((((m : Int) + offset) / 60 % 24).toNat : Int) = ((m : Int) + offset) / 60 % 24 := by
    omega
  refine Schedule.matches_iff.trans ?_
  change s.minute.has (((m : Int) + offset) % 60).toNat ∧
    s.hour.has (((m : Int) + offset) / 60 % 24).toNat ∧ _ ↔ _
  rw [hminute, hhour]
  rfl

/-- A day that matches has a minute that does. -/
theorem exists_minute (name : Text) (hs : s.Proper) {n : Int} (hn : s.MatchesDay n)
    (hpos : offset ≤ n * 1440) :
    ∃ m : Nat, s.fires (fixedZone name offset) m ∧ n * 1440 ≤ m + offset ∧
      m + offset < (n + 1) * 1440 := by
  obtain ⟨h, hh⟩ := hs.hour.some
  obtain ⟨v, hv⟩ := hs.minute.some
  have hhour := hs.hour.bounds h hh
  have hminute := hs.minute.bounds v hv
  have hm : (((n * 1440 + h * 60 + v - offset).toNat : Nat) : Int) + offset =
      n * 1440 + h * 60 + v := by omega
  refine ⟨(n * 1440 + h * 60 + v - offset).toNat, fires_fixedZone.mpr ?_, by omega, by omega⟩
  rw [hm]
  have hsixty : (n * 1440 + h * 60 + v) % 60 = v := by omega
  have hday : (n * 1440 + h * 60 + v) / 60 % 24 = h := by omega
  have hdate : (n * 1440 + h * 60 + v) / 1440 = n := by omega
  rw [hsixty, hday, hdate]
  exact ⟨hv, hh, hn⟩

/-- A schedule for other days than leap days has a match in every window. -/
theorem exists_in_window (hs : s.Proper) (hnot : ¬ s.LeapDayOnly) {m : Nat}
    (hm : s.fires (fixedZone name offset) m) (after : Nat) :
    ∃ n, after < n * oneMinute ∧ n * oneMinute < after + searchWindow ∧
      s.fires (fixedZone name offset) n := by
  obtain ⟨k, hk⟩ : ∃ k, k = after / oneMinute := ⟨_, rfl⟩
  -- from the day after the given time on
  obtain ⟨i, hi, hday⟩ := hs.exists_day hnot (fires_fixedZone.mp hm).2.2 ((k + offset) / 1440 + 1)
  have hpos : offset ≤ ((k + offset) / 1440 + 1 + i) * 1440 := by omega
  obtain ⟨n, hn, hlow, hhigh⟩ := exists_minute name hs hday hpos
  refine ⟨n, ?_, ?_, hn⟩
  · unfold oneMinute at *
    omega
  · unfold searchWindow oneMinute at *
    omega

theorem Schedule.LeapDayOnly.onDay_eq (h : s.LeapDayOnly) (d w : Nat) :
    s.onDay d w = s.dayOfMonth.has d := by
  have hdom : s.dayOfMonth ≠ makeFieldSet 1 31 true := by
    intro hall
    have hfirst : (makeFieldSet 1 31 true).has 1 := by decide
    rw [← hall] at hfirst
    exact absurd (h.late 1 hfirst) (by decide)
  simp [Schedule.onDay, h.weekday, hdom]

theorem Schedule.LeapDayOnly.yearDay_eq (h : s.LeapDayOnly) {n : Int} (hn : s.MatchesDay n) :
    yearDay n = 365 := by
  obtain ⟨hmonth, hday⟩ := hn
  rw [h.onDay_eq] at hday
  have hfebruary := h.month _ hmonth
  have hlate := h.late _ hday
  exact leapDay_of_date _ (yearDay_le n) (by omega) (by omega)

/-- Schedules for leap days do match. -/
theorem exists_leapDay (hs : s.Proper) (h : s.LeapDayOnly) :
    ∃ m, s.fires (fixedZone name offset) m := by
  obtain ⟨v, hv⟩ := hs.month.some
  obtain rfl := h.month v hv
  -- 29 February of the fourth year of some era
  have hleap : yearDay (1154 + 146097 * offset.natAbs) = 365 := by
    have hera : eraDay (1154 + 146097 * offset.natAbs) = 1460 := by
      unfold eraDay
      omega
    refine yearDay_of_placed (c := 0) (q := 0) (y := 3) ⟨?_, by decide, by decide, by decide, by decide⟩
    rw [hera]
  have hday : s.MatchesDay (1154 + 146097 * offset.natAbs) := by
    refine ⟨?_, ?_⟩
    · rw [hleap, leapDay_date.1]
      exact hv
    · rw [h.onDay_eq, hleap, leapDay_date.2]
      exact h.leap
  have hpos : offset ≤ (1154 + 146097 * (offset.natAbs : Int)) * 1440 := by omega
  obtain ⟨m, hm, -⟩ := exists_minute name hs hday hpos
  exact ⟨m, hm⟩

end Minutes

/-! ## The next match -/

/-- `Next` returns the first matching minute after the given time, and it returns one if the
schedule ever matches. -/
structure Schedule.NextLeast (s : Schedule) (loc : Location) (after : Nat) : Prop where
  least : ∀ t, s.next loc after = some t → ∃ n, t = n * oneMinute ∧ after < t ∧
    s.fires loc n ∧ ∀ i, after < i * oneMinute → i < n → s.fires loc i = false
  found : (∃ n, s.fires loc n) → s.next loc after ≠ none

/-- What `Next` finds is right; whether it finds something is the question. -/
theorem Schedule.nextLeast_iff_found {loc : Location} {after : Nat} :
    s.NextLeast loc after ↔ ((∃ n, s.fires loc n) → ∃ n, after < n * oneMinute ∧
      n * oneMinute < after + searchWindow ∧ s.fires loc n) := by
  rcases s.next_spec loc after with ⟨hnone, hnot⟩ | ⟨n, hsome, hlt, hcap, hfires, hfirst⟩
  · constructor
    · exact fun h hever => absurd hnone (h.found hever)
    intro h
    refine ⟨fun t ht => ?_, fun hever => ?_⟩
    · cases hnone.symm.trans ht
    · obtain ⟨n, hlt, hcap, hfires⟩ := h hever
      rw [hnot n hlt hcap] at hfires
      cases hfires
  · refine iff_of_true ⟨fun t ht => ?_, fun _ => ?_⟩ fun _ => ⟨n, hlt, hcap, hfires⟩
    · cases hsome.symm.trans ht
      exact ⟨n, rfl, hlt, hfires, hfirst⟩
    · rw [hsome]
      exact Option.some_ne_none _

/-- **The next match.** In a location with a fixed offset, `Next` returns the first matching
minute after the given time if there is any, exactly unless the schedule matches on leap
days only and the next one is not within the four times 365 days that are searched. -/
theorem next_least_iff {spec : Text} {s : Schedule} (h : parseSchedule spec = .ok s)
    (name : Text) (offset : Int) (after : Nat) :
    s.NextLeast (fixedZone name offset) after ↔
      (s.LeapDayOnly → ∃ n, after < n * oneMinute ∧ n * oneMinute < after + searchWindow ∧
        s.fires (fixedZone name offset) n) := by
  have hs := proper_of_parseSchedule h
  rw [Schedule.nextLeast_iff_found]
  constructor
  · exact fun hfound hleap => hfound (exists_leapDay hs hleap)
  · rintro hleap ⟨m, hm⟩
    by_cases honly : s.LeapDayOnly
    · exact hleap honly
    · exact exists_in_window hs honly hm after

/-- `0 0 * * *`. -/
def daily : Schedule :=
  ⟨FieldSet.withBit 0#64 0, FieldSet.withBit 0#64 0, makeFieldSet 1 31 true, makeFieldSet 1 12 true,
    makeFieldSet 0 6 true⟩

/-- Daily backups five hours behind UTC. -/
theorem daily_next_least :
    parseSchedule "@daily" = .ok daily ∧
      ∀ after, daily.NextLeast (fixedZone "EST" (-300)) after := by
  have hparse : parseSchedule "@daily" = .ok daily := by rfl
  refine ⟨hparse, fun after => (next_least_iff hparse _ _ after).mpr fun hleap => ?_⟩
  exact absurd (hleap.late 1 (by decide)) (by decide)

/-- `0 0 29 2 *`. -/
def leapDays : Schedule :=
  ⟨FieldSet.withBit 0#64 0, FieldSet.withBit 0#64 0, FieldSet.withBit 0#64 29,
    FieldSet.withBit 0#64 2, makeFieldSet 0 6 true⟩

/-- At midnight of 29 February 2024, nothing is found for 29 February, although it comes
again in 2028. -/
theorem leapDay_not_found :
    parseSchedule "0 0 29 2 *" = .ok leapDays ∧
      leapDays.fires utc 1064079360 ∧ leapDays.fires utc 1066183200 ∧
      leapDays.next utc (1064079360 * oneMinute) = none := by
  have honly : leapDays.LeapDayOnly := by
    refine ⟨fun v hv => ?_, fun v hv => ?_, by decide, rfl⟩
    · simpa [leapDays, FieldSet.has_withBit] using hv
    · have : v = 29 := by simpa [leapDays, FieldSet.has_withBit] using hv
      omega
  refine ⟨by rfl, by decide, by decide, ?_⟩
  rcases leapDays.next_spec utc (1064079360 * oneMinute) with
    ⟨hnone, -⟩ | ⟨n, -, hlt, hcap, hfires, -⟩
  · exact hnone
  rw [← fixedZone_utc] at hfires
  obtain ⟨hminute, hhour, hday⟩ := fires_fixedZone.mp hfires
  have hminute : ((n : Int) + 0) % 60 = 0 := by
    simpa only [leapDays, FieldSet.has_withBit (Int.le_refl 0) (by decide), FieldSet.has_zero,
      Bool.false_eq_true, false_or] using hminute
  have hhour : ((n : Int) + 0) / 60 % 24 = 0 := by
    simpa only [leapDays, FieldSet.has_withBit (Int.le_refl 0) (by decide), FieldSet.has_zero,
      Bool.false_eq_true, false_or] using hhour
  have hdate : 738944 < ((n : Int) + 0) / 1440 := by
    unfold oneMinute at hlt
    omega
  have hgap := leapDays_apart (by decide) (honly.yearDay_eq hday) hdate
  unfold searchWindow oneMinute at hcap
  omega

end Lankeeper.Backup
