import Mathlib.Order.WellFounded
import Lankeeper.Backup.Cron

/-!
# Lankeeper.Backup.Scheduler — the ticks that start backups

`internal/services/backup_schedule.go` from `ParseSchedule` on. The scheduler keeps the
next time a backup is due. Every tick compares it with the clock, starts a backup where
it has come, and computes the next one.

Times count nanoseconds since the zero time, and minutes are counted from there too,
which is what `Truncate` does. A location says what its clock shows at the start of each
minute; its offset is a whole number of minutes.

`Next` begins its search in the minute after the one it is given, and after a backup it is
given the time a minute later, so the minute after a backup is never looked at.
`runs_exact_iff` says which schedules this does not harm.
-/

namespace Lankeeper.Backup

open Lib Text

/-! ## Schedules -/

structure Schedule where
  minute : FieldSet
  hour : FieldSet
  dayOfMonth : FieldSet
  month : FieldSet
  dayOfWeek : FieldSet

inductive ScheduleError
  | empty
  | fieldCount (n : Nat)
  | minute (e : Fault)
  | hour (e : Fault)
  | dayOfMonth (e : Fault)
  | month (e : Fault)
  | dayOfWeek (e : Fault)

/-- No error at all: the parser panicked. -/
def ScheduleError.panicked : ScheduleError → Bool
  | .minute .panicked | .hour .panicked | .dayOfMonth .panicked | .month .panicked
  | .dayOfWeek .panicked => true
  | _ => false

def parseFields (spec : Text) : Except ScheduleError Schedule :=
  match fields isSpace spec with
  | [min, hr, dom, mo, dow] => do
    let minute ← (parseField min 0 59).mapError .minute
    let hour ← (parseField hr 0 23).mapError .hour
    let dayOfMonth ← (parseField dom 1 31).mapError .dayOfMonth
    let month ← (parseField mo 1 12).mapError .month
    let dayOfWeek ← (parseField dow 0 6).mapError .dayOfWeek
    .ok ⟨minute, hour, dayOfMonth, month, dayOfWeek⟩
  | parts => .error (.fieldCount parts.length)

def parseSchedule (spec : Text) : Except ScheduleError Schedule :=
  let spec := trimSpace spec
  if spec = [] then .error .empty
  else if spec = "@hourly" then parseFields "0 * * * *"
  else if spec = "@daily" ∨ spec = "@midnight" then parseFields "0 0 * * *"
  else if spec = "@weekly" then parseFields "0 0 * * 0"
  else if spec = "@monthly" then parseFields "0 0 1 * *"
  else if spec = "@yearly" ∨ spec = "@annually" then parseFields "0 0 1 1 *"
  else parseFields spec

/-- What a clock and a calendar show. -/
structure Clock where
  minute : Nat
  hour : Nat
  day : Nat
  month : Nat
  weekday : Nat

def Schedule.matches (s : Schedule) (t : Clock) : Bool :=
  let dom := s.dayOfMonth.has t.day
  let dow := s.dayOfWeek.has t.weekday
  let dayOfMonthAll := s.dayOfMonth == makeFieldSet 1 31 true
  let dayOfWeekAll := s.dayOfWeek == makeFieldSet 0 6 true
  s.minute.has t.minute && s.hour.has t.hour && s.month.has t.month &&
    if dayOfMonthAll && dayOfWeekAll then true
    else if dayOfMonthAll then dow
    else if dayOfWeekAll then dom
    else dom || dow

/-! ## The next match -/

def oneMinute : Nat := 60000000000

/-- The minute a time lies in. -/
def minuteOf (t : Nat) : Nat := t / oneMinute

/-- `time.Time.Second`. -/
def secondOf (t : Nat) : Nat := t / 1000000000 % 60

/-- A location, and what its clock shows at the start of each minute. -/
structure Location where
  name : Text
  clock : Nat → Clock

/-- `4 * 365 * 24 * time.Hour`. -/
def searchWindow : Nat := 4 * 365 * 24 * 60 * oneMinute

/-- The loop of `Next`, for a number of passes. -/
def nextFrom (fires : Nat → Bool) (cap : Nat) : Nat → Nat → Option Nat
  | 0, _ => none
  | passes + 1, m =>
    if m * oneMinute < cap then
      if fires m then some (m * oneMinute) else nextFrom fires cap passes (m + 1)
    else none

/-- The schedule matches the start of a minute. -/
def Schedule.fires (s : Schedule) (loc : Location) (m : Nat) : Bool :=
  s.matches (loc.clock m)

def Schedule.next (s : Schedule) (loc : Location) (after : Nat) : Option Nat :=
  let start := (after + oneMinute - secondOf after * 1000000000) / oneMinute
  let cap := after + searchWindow
  -- more passes than there are minutes before the cap
  nextFrom (s.fires loc) cap (cap / oneMinute) start

/-- The search stops at the first match before the cap. -/
theorem nextFrom_spec {fires : Nat → Bool} {cap : Nat} {passes m : Nat}
    (henough : cap ≤ (m + passes) * oneMinute) :
    (nextFrom fires cap passes m = none ∧
      ∀ n, m ≤ n → n * oneMinute < cap → fires n = false) ∨
    ∃ n, nextFrom fires cap passes m = some (n * oneMinute) ∧ m ≤ n ∧ n * oneMinute < cap ∧
      fires n ∧ ∀ i, m ≤ i → i < n → fires i = false := by
  induction passes generalizing m with
  | zero =>
    refine .inl ⟨rfl, fun n hn hcap => ?_⟩
    have hle : m * oneMinute ≤ n * oneMinute := Nat.mul_le_mul_right _ hn
    rw [Nat.add_zero] at henough
    exact absurd hcap (by omega)
  | succ passes ih =>
    unfold nextFrom
    split
    · rename_i hcap
      split
      · rename_i hfires
        exact .inr ⟨m, rfl, Nat.le_refl m, hcap, hfires, fun i _ _ => by omega⟩
      rename_i hfires
      have hm : fires m = false := by simpa using hfires
      rw [show m + (passes + 1) = m + 1 + passes by omega] at henough
      rcases ih henough with ⟨hnone, hnot⟩ | ⟨n, hn, hle, hlt, hfn, hnot⟩
      · refine .inl ⟨hnone, fun n hn => ?_⟩
        rcases Nat.eq_or_lt_of_le hn with rfl | hn
        · exact fun _ => hm
        · exact hnot n hn
      · refine .inr ⟨n, hn, by omega, hlt, hfn, fun i hi hin => ?_⟩
        rcases Nat.eq_or_lt_of_le hi with rfl | hi
        · exact hm
        · exact hnot i hi hin
    · rename_i hcap
      refine .inl ⟨rfl, fun n hn hlt => ?_⟩
      have hle : m * oneMinute ≤ n * oneMinute := Nat.mul_le_mul_right _ hn
      exact absurd hlt (by omega)

/-- `Next` finds the first match that starts after the given time, in a window of four
times 365 days. -/
theorem Schedule.next_spec (s : Schedule) (loc : Location) (after : Nat) :
    (s.next loc after = none ∧ ∀ n, after < n * oneMinute →
      n * oneMinute < after + searchWindow → s.fires loc n = false) ∨
    ∃ n, s.next loc after = some (n * oneMinute) ∧ after < n * oneMinute ∧
      n * oneMinute < after + searchWindow ∧ s.fires loc n ∧
      ∀ i, after < i * oneMinute → i < n → s.fires loc i = false := by
  have hstart : (after + oneMinute - secondOf after * 1000000000) / oneMinute = after / oneMinute + 1 := by
    unfold oneMinute secondOf
    omega
  have hafter : ∀ n, after / oneMinute + 1 ≤ n ↔ after < n * oneMinute := by
    intro n
    unfold oneMinute
    omega
  have henough : after + searchWindow ≤
      (after / oneMinute + 1 + (after + searchWindow) / oneMinute) * oneMinute := by
    generalize after + searchWindow = cap
    unfold oneMinute
    omega
  unfold Schedule.next
  rw [hstart]
  simp only [← hafter]
  exact nextFrom_spec henough

/-! ## Sequences of ticks -/

section Sequences

variable {time : Nat → Nat} (later : ∀ k, time k < time (k + 1))

include later

/-- Ticks that go on for ever: a time after the first tick lies between two. -/
theorem exists_between {t : Nat} (h : time 0 < t) : ∃ k, time k < t ∧ t ≤ time (k + 1) := by
  by_contra hnone
  push Not at hnone
  have hall : ∀ k, time k < t := by
    intro k
    induction k with
    | zero => exact h
    | succ k ih => exact hnone k ih
  have hgrow : t ≤ time t := (strictMono_nat_of_lt_succ later).le_apply
  exact absurd (hall t) (Nat.not_lt.mpr hgrow)

/-- Only one pair of neighbouring ticks has a given time between them. -/
theorem between_unique {t j k : Nat} (hj : time j < t ∧ t ≤ time (j + 1))
    (hk : time k < t ∧ t ≤ time (k + 1)) : j = k := by
  have hmono := (strictMono_nat_of_lt_succ later).monotone
  rcases Nat.lt_trichotomy j k with hjk | rfl | hkj
  · have := hmono (show j + 1 ≤ k from hjk)
    omega
  · rfl
  · have := hmono (show k + 1 ≤ j from hkj)
    omega

end Sequences

/-- One run in every matching minute after that of the first tick, and none in any other. -/
structure RunsOnce (time : Nat → Nat) (starts fires : Nat → Bool) : Prop where
  once : ∀ m, minuteOf (time 0) < m → fires m →
    ∃ k, (starts k ∧ minuteOf (time k) = m) ∧
      ∀ j, starts j → minuteOf (time j) = m → j = k
  only : ∀ k, starts k →
    minuteOf (time 0) < minuteOf (time k) ∧ fires (minuteOf (time k))

/-- So it is if a tick starts a run exactly when a match has begun since the tick before. -/
theorem runsOnce_of_between {time : Nat → Nat} {starts fires : Nat → Bool}
    (later : ∀ k, time k < time (k + 1)) (soon : ∀ k, time (k + 1) ≤ time k + oneMinute)
    (hzero : starts 0 = false)
    (hstarts : ∀ k, starts (k + 1) ↔
      ∃ m, fires m ∧ time k < m * oneMinute ∧ m * oneMinute ≤ time (k + 1)) :
    RunsOnce time starts fires := by
  -- a match between two ticks lies in the minute of the second
  have hminute : ∀ {k m}, time k < m * oneMinute → m * oneMinute ≤ time (k + 1) →
      minuteOf (time (k + 1)) = m := by
    intro k m hlt hle
    have hsoon := soon k
    unfold minuteOf oneMinute at *
    omega
  constructor
  · intro m hm hfires
    have hafter : time 0 < m * oneMinute := by
      unfold minuteOf oneMinute at *
      omega
    obtain ⟨k, hlt, hle⟩ := exists_between later hafter
    refine ⟨k + 1, ⟨(hstarts k).mpr ⟨m, hfires, hlt, hle⟩, hminute hlt hle⟩, ?_⟩
    intro j hj hjm
    rcases j with _ | j
    · cases hzero.symm.trans hj
    · obtain ⟨m', -, hlt', hle'⟩ := (hstarts j).mp hj
      rw [hminute hlt' hle'] at hjm
      subst hjm
      rw [between_unique later ⟨hlt', hle'⟩ ⟨hlt, hle⟩]
  · intro k hk
    rcases k with _ | k
    · cases hzero.symm.trans hk
    obtain ⟨m, hfires, hlt, hle⟩ := (hstarts k).mp hk
    rw [hminute hlt hle]
    have hmono := (strictMono_nat_of_lt_succ later).monotone (Nat.zero_le k)
    refine ⟨?_, hfires⟩
    unfold minuteOf oneMinute at *
    omega

/-! ## Ticks -/

/-- `scheduledFire`. -/
structure ScheduledFire where
  due : Option Nat
  source : Text

/-- `backupSnapshot`. -/
structure Snapshot where
  enabled : Bool
  schedule : Text
  location : Location
  lastRun : Nat

def scheduleSource (snap : Snapshot) : Text :=
  snap.schedule ++ '|' :: snap.location.name

/-- `schedulerTick` once the schedule is parsed, and whether it calls `RunNow`; `fromNow` and
`afterRun` are what `Next` returns for the time of the tick and for a minute later. -/
def fireIfDue (source : Text) (lastRun now : Nat) (fromNow afterRun : Option Nat)
    (next : ScheduledFire) : ScheduledFire × Bool :=
  let stale : Bool := match next.due with
    | none => true
    | some t => t < lastRun || next.source ≠ source
  let next := if stale then ⟨fromNow, source⟩ else next
  match next.due with
  | none => (next, false)
  | some t => if now < t then (next, false) else (⟨afterRun, source⟩, true)

def schedulerTick (snap : Snapshot) (now : Nat) (next : ScheduledFire) : ScheduledFire × Bool :=
  if !snap.enabled ∨ snap.schedule = [] then (⟨none, []⟩, false)
  else
    match parseSchedule snap.schedule with
    | .error _ => (next, false)
    | .ok sched =>
      fireIfDue (scheduleSource snap) snap.lastRun now (sched.next snap.location now)
        (sched.next snap.location (now + oneMinute)) next

/-- What the scheduler reads at a tick, apart from the settings. -/
structure SchedulerState where
  next : ScheduledFire
  lastRun : Nat

/-- A tick whose backup takes no time. `recordHistory` stores its start; a `RunNow`
without a runner stores nothing. -/
def SchedulerState.tick (cfg : Snapshot) (now : Nat) (recorded : Bool) (s : SchedulerState) :
    SchedulerState × Bool :=
  let (next, ran) := schedulerTick { cfg with lastRun := s.lastRun } now s.next
  (⟨next, if ran && recorded then now else s.lastRun⟩, ran)

/-- An unending sequence of ticks, at most thirty seconds apart, and the last backup
recorded before them. -/
structure Ticks where
  time : Nat → Nat
  recorded : Nat → Bool
  lastRun : Nat
  later : ∀ k, time k < time (k + 1)
  soon : ∀ k, time (k + 1) ≤ time k + 30000000000
  past : lastRun ≤ time 0

namespace Ticks

variable (ticks : Ticks) (cfg : Snapshot)

/-- The state before each tick. -/
def before : Nat → SchedulerState
  | 0 => ⟨⟨none, []⟩, ticks.lastRun⟩
  | k + 1 => ((before k).tick cfg (ticks.time k) (ticks.recorded k)).1

theorem before_succ (k : Nat) : ticks.before cfg (k + 1) =
    ((ticks.before cfg k).tick cfg (ticks.time k) (ticks.recorded k)).1 :=
  rfl

/-- The tick starts a backup. -/
def starts (k : Nat) : Bool :=
  ((ticks.before cfg k).tick cfg (ticks.time k) (ticks.recorded k)).2

/-- Backups are started exactly once in every matching minute after the first tick, and
in no other minute. -/
structure RunsExactly (sched : Schedule) : Prop where
  once : ∀ m, minuteOf (ticks.time 0) < m → sched.fires cfg.location m →
    ∃ k, (ticks.starts cfg k ∧ minuteOf (ticks.time k) = m) ∧
      ∀ j, ticks.starts cfg j → minuteOf (ticks.time j) = m → j = k
  only : ∀ k, ticks.starts cfg k → sched.fires cfg.location (minuteOf (ticks.time k))

end Ticks

/-- An enabled schedule that parses. -/
structure Snapshot.Valid (cfg : Snapshot) (sched : Schedule) : Prop where
  enabled : cfg.enabled
  nonempty : cfg.schedule ≠ []
  parses : parseSchedule cfg.schedule = .ok sched

/-- After two matching minutes in a row, nothing matches in the window that `Next`
searches. -/
def NeighboursLast (fires : Nat → Bool) : Prop :=
  ∀ m n, fires (m + 1) → fires (m + 2) → m + 3 ≤ n →
    n * oneMinute ≤ (m + 2) * oneMinute + searchWindow → fires n = false

section Due

variable {source : Text} {lastRun now t : Nat} {fromNow afterRun : Option Nat}

/-- A tick that finds no time keeps the one that `Next` returns, which lies ahead. -/
theorem fireIfDue_of_none {next : ScheduledFire} (hdue : next.due = none)
    (hahead : ∀ t, fromNow = some t → now < t) :
    fireIfDue source lastRun now fromNow afterRun next = (⟨fromNow, source⟩, false) := by
  unfold fireIfDue
  rw [hdue]
  rcases fromNow with _ | t
  · simp
  · simp [hahead t rfl]

/-- A tick before the time it finds changes nothing. -/
theorem fireIfDue_of_lt (hlast : lastRun ≤ t) (hlt : now < t) :
    fireIfDue source lastRun now fromNow afterRun ⟨some t, source⟩ = (⟨some t, source⟩, false) := by
  simp [fireIfDue, Nat.not_lt.mpr hlast, hlt]

/-- A tick at or after the time it finds starts a backup. -/
theorem fireIfDue_of_le (hlast : lastRun ≤ t) (hle : t ≤ now) :
    fireIfDue source lastRun now fromNow afterRun ⟨some t, source⟩ = (⟨afterRun, source⟩, true) := by
  simp [fireIfDue, Nat.not_lt.mpr hlast, Nat.not_lt.mpr hle]

end Due

section Valid

variable {cfg : Snapshot} {sched : Schedule} (hv : cfg.Valid sched)

include hv

theorem tick_valid (s : SchedulerState) (now : Nat) (recorded : Bool) :
    s.tick cfg now recorded =
      let r := fireIfDue (scheduleSource cfg) s.lastRun now (sched.next cfg.location now)
        (sched.next cfg.location (now + oneMinute)) s.next
      (⟨r.1, if r.2 && recorded then now else s.lastRun⟩, r.2) := by
  have hon : ¬ ((!cfg.enabled) ∨ cfg.schedule = []) := by
    simp [hv.enabled, hv.nonempty]
  have htick : schedulerTick { cfg with lastRun := s.lastRun } now s.next =
      fireIfDue (scheduleSource cfg) s.lastRun now (sched.next cfg.location now)
        (sched.next cfg.location (now + oneMinute)) s.next := by
    unfold schedulerTick
    rw [if_neg hon]
    simp only [hv.parses]
    rfl
  unfold SchedulerState.tick
  rw [htick]

variable {s : SchedulerState}

theorem tick_of_none (hdue : s.next.due = none) (now : Nat) (recorded : Bool) :
    s.tick cfg now recorded =
      (⟨⟨sched.next cfg.location now, scheduleSource cfg⟩, s.lastRun⟩, false) := by
  have hahead : ∀ t, sched.next cfg.location now = some t → now < t := by
    intro t ht
    rcases sched.next_spec cfg.location now with ⟨hnone, -⟩ | ⟨n, hsome, hlt, -⟩
    · cases hnone.symm.trans ht
    · rw [hsome, Option.some.injEq] at ht
      rwa [← ht]
  rw [tick_valid hv, fireIfDue_of_none hdue hahead]
  rfl

theorem tick_of_lt {t now : Nat}
    (hnext : s.next = ⟨some t, scheduleSource cfg⟩) (hlast : s.lastRun ≤ t) (hlt : now < t)
    (recorded : Bool) : s.tick cfg now recorded = (s, false) := by
  rw [tick_valid hv, hnext, fireIfDue_of_lt hlast hlt, ← hnext]
  rfl

theorem tick_of_le {t now : Nat}
    (hnext : s.next = ⟨some t, scheduleSource cfg⟩) (hlast : s.lastRun ≤ t) (hle : t ≤ now)
    (recorded : Bool) :
    s.tick cfg now recorded = (⟨⟨sched.next cfg.location (now + oneMinute), scheduleSource cfg⟩,
      if recorded then now else s.lastRun⟩, true) := by
  rw [tick_valid hv, hnext, fireIfDue_of_le hlast hle]
  rfl

end Valid

/-! ## Schedules without matching neighbours -/

namespace Ticks

variable (ticks : Ticks) {cfg : Snapshot} {sched : Schedule}

/-- The state after a tick at time `now`: what it holds is the next match after `now`, or
nothing, and then nothing matches before the next tick. -/
structure OnTime (cfg : Snapshot) (sched : Schedule) (now : Nat) (s : SchedulerState) : Prop where
  last : s.lastRun ≤ now
  next : (∃ m, s.next = ⟨some (m * oneMinute), scheduleSource cfg⟩ ∧ now < m * oneMinute ∧
      sched.fires cfg.location m ∧
      ∀ i, now < i * oneMinute → i < m → sched.fires cfg.location i = false) ∨
    (s.next.due = none ∧ ∀ i, now < i * oneMinute → i * oneMinute ≤ now + 30000000000 →
      sched.fires cfg.location i = false)

/-- A match starts between two ticks. -/
def MatchBetween (cfg : Snapshot) (sched : Schedule) (t t' : Nat) : Prop :=
  ∃ m, sched.fires cfg.location m ∧ t < m * oneMinute ∧ m * oneMinute ≤ t'

theorem OnTime.of_none {due : Option Nat} {last now : Nat} (hlast : last ≤ now)
    (hnone : due = none) (hnot : ∀ i, now < i * oneMinute → i * oneMinute ≤ now + 30000000000 →
      sched.fires cfg.location i = false) :
    OnTime cfg sched now ⟨⟨due, scheduleSource cfg⟩, last⟩ :=
  ⟨hlast, .inr ⟨hnone, hnot⟩⟩

theorem OnTime.of_some {due : Option Nat} {last now m : Nat} (hlast : last ≤ now)
    (hsome : due = some (m * oneMinute)) (hm : now < m * oneMinute)
    (hfires : sched.fires cfg.location m)
    (hnot : ∀ i, now < i * oneMinute → i < m → sched.fires cfg.location i = false) :
    OnTime cfg sched now ⟨⟨due, scheduleSource cfg⟩, last⟩ :=
  ⟨hlast, .inl ⟨m, by rw [hsome], hm, hfires, hnot⟩⟩

variable (hv : cfg.Valid sched)

include hv

/-- Computing a time anew leaves the scheduler on time. -/
theorem onTime_of_none {s : SchedulerState} (hdue : s.next.due = none) {now : Nat}
    (hlast : s.lastRun ≤ now) (recorded : Bool) :
    OnTime cfg sched now (s.tick cfg now recorded).1 := by
  rw [tick_of_none hv hdue]
  rcases sched.next_spec cfg.location now with ⟨hnone, hnot⟩ | ⟨n, hsome, hlt, -, hfires, hnot⟩
  · apply OnTime.of_none hlast hnone
    intro i hi hle
    apply hnot i hi
    unfold searchWindow oneMinute at *
    omega
  · exact OnTime.of_some hlast hsome hlt hfires hnot

/-- Two ticks in a row: the second starts a backup exactly if a match starts between them,
and the scheduler stays on time. -/
theorem OnTime.step (hn : NeighboursLast (sched.fires cfg.location)) {s : SchedulerState}
    {t now : Nat} (h : OnTime cfg sched t s) (hlater : t < now) (hsoon : now ≤ t + 30000000000)
    (recorded : Bool) :
    OnTime cfg sched now (s.tick cfg now recorded).1 ∧
      ((s.tick cfg now recorded).2 ↔ MatchBetween cfg sched t now) := by
  have hlast := h.last
  rcases h.next with ⟨m, hnext, hm, hfires, hnot⟩ | ⟨hdue, hnot⟩
  · by_cases hlt : now < m * oneMinute
    · rw [tick_of_lt hv hnext (by omega) hlt]
      have hahead : OnTime cfg sched now s :=
        ⟨by omega, .inl ⟨m, hnext, hlt, hfires, fun i hi => hnot i (by omega)⟩⟩
      refine ⟨hahead, ?_⟩
      simp only [Bool.false_eq_true, false_iff]
      rintro ⟨i, hi, hti, hin⟩
      have him : i < m := by
        unfold oneMinute at *
        omega
      rw [hnot i hti him] at hi
      cases hi
    · rw [tick_of_le hv hnext (by omega) (by omega)]
      have hlast' : (if recorded then now else s.lastRun) ≤ now := by
        split <;> omega
      refine ⟨?_, ?_⟩
      · rcases sched.next_spec cfg.location (now + oneMinute) with
          ⟨hnone, -⟩ | ⟨n, hsome, hn1, hncap, hnfires, hnnot⟩
        · -- the tick came in the first half of the matching minute
          apply OnTime.of_none hlast' hnone
          intro i hi hle
          exfalso
          unfold oneMinute at *
          omega
        · apply OnTime.of_some hlast' hsome (by omega) hnfires
          intro i hi hin
          by_cases hi2 : now + oneMinute < i * oneMinute
          · exact hnnot i hi2 hin
          -- the minute that `Next` skips: two matches in a row would be the last ones
          have hi1 : i = m - 1 + 2 := by
            unfold oneMinute at *
            omega
          by_contra hfi
          have hlast : sched.fires cfg.location n = false := by
            apply hn (m - 1) n
            · rwa [show m - 1 + 1 = m by unfold oneMinute at *; omega]
            · rw [← hi1]
              simpa using hfi
            · unfold oneMinute at *
              omega
            · unfold searchWindow oneMinute at *
              omega
          cases hlast.symm.trans hnfires
      · simp only [true_iff]
        exact ⟨m, hfires, hm, by omega⟩
  · refine ⟨onTime_of_none hv hdue (by omega) recorded, ?_⟩
    rw [tick_of_none hv hdue]
    simp only [Bool.false_eq_true, false_iff]
    rintro ⟨i, hi, hti, hin⟩
    rw [hnot i hti (by omega)] at hi
    cases hi

/-- The scheduler is on time after every tick, and starts a backup exactly if a match starts
between a tick and the one before it. -/
theorem onTime_and_starts (hn : NeighboursLast (sched.fires cfg.location)) (k : Nat) :
    OnTime cfg sched (ticks.time k) (ticks.before cfg (k + 1)) ∧
      (ticks.starts cfg (k + 1) ↔ MatchBetween cfg sched (ticks.time k) (ticks.time (k + 1))) := by
  have hstep : ∀ k, OnTime cfg sched (ticks.time k) (ticks.before cfg (k + 1)) →
      OnTime cfg sched (ticks.time (k + 1)) (ticks.before cfg (k + 2)) ∧
        (ticks.starts cfg (k + 1) ↔
          MatchBetween cfg sched (ticks.time k) (ticks.time (k + 1))) :=
    fun k h => h.step hv hn (ticks.later k) (ticks.soon k) _
  have hall : ∀ k, OnTime cfg sched (ticks.time k) (ticks.before cfg (k + 1)) := by
    intro k
    induction k with
    | zero => exact onTime_of_none hv rfl ticks.past _
    | succ k ih => exact (hstep k ih).1
  exact ⟨hall k, (hstep k (hall k)).2⟩

theorem starts_zero : ticks.starts cfg 0 = false := by
  unfold starts
  rw [tick_of_none hv rfl]

theorem runsExactly (hn : NeighboursLast (sched.fires cfg.location)) :
    ticks.RunsExactly cfg sched := by
  have hsoon : ∀ k, ticks.time (k + 1) ≤ ticks.time k + oneMinute := by
    intro k
    have := ticks.soon k
    unfold oneMinute
    omega
  have hruns := runsOnce_of_between ticks.later hsoon (ticks.starts_zero hv)
    fun k => (ticks.onTime_and_starts hv hn k).2
  exact ⟨hruns.once, fun k hk => (hruns.only k hk).2⟩

end Ticks

/-! ## Schedules with matching neighbours -/

/-- Ticks every thirty seconds, the second one just after the start of minute `m + 1`. -/
def ticksAround (m : Nat) : Ticks where
  time k := m * oneMinute + 30000000001 + k * 30000000000
  recorded _ := true
  lastRun := 0
  later k := by omega
  soon k := by omega
  past := Nat.zero_le _

/-- Up to the time it holds, the scheduler starts nothing. -/
theorem quiet_until {cfg : Snapshot} {sched : Schedule} (hv : cfg.Valid sched) {ticks : Ticks}
    {k t : Nat} {s : SchedulerState} (hbefore : ticks.before cfg k = s)
    (hnext : s.next = ⟨some t, scheduleSource cfg⟩) (hlast : s.lastRun ≤ t) {j : Nat}
    (hj : ticks.time (k + j) < t) : ticks.starts cfg (k + j) = false := by
  have hsame : ∀ i, i ≤ j → ticks.before cfg (k + i) = s := by
    intro i
    induction i with
    | zero => exact fun _ => hbefore
    | succ i ih =>
      intro hi
      have hmono := (strictMono_nat_of_lt_succ ticks.later).monotone (show k + i ≤ k + j by omega)
      rw [← Nat.add_assoc, Ticks.before_succ, ih (by omega), tick_of_lt hv hnext hlast (by omega)]
  unfold Ticks.starts
  rw [hsame j (Nat.le_refl j), tick_of_lt hv hnext hlast hj]

section Neighbours

variable {cfg : Snapshot} {sched : Schedule} (hv : cfg.Valid sched) {m n : Nat}
  (h1 : sched.fires cfg.location (m + 1)) (hn : sched.fires cfg.location n)

theorem ticksAround_time (k : Nat) :
    (ticksAround m).time k = m * oneMinute + 30000000001 + k * 30000000000 :=
  rfl

include h1

/-- The first tick finds minute `m + 1`. -/
theorem next_first :
    sched.next cfg.location ((ticksAround m).time 0) = some ((m + 1) * oneMinute) := by
  rcases sched.next_spec cfg.location ((ticksAround m).time 0) with
    ⟨-, hnot⟩ | ⟨i, hi, hlt, -, -, hnot⟩
  · have hfalse := hnot (m + 1) (by rw [ticksAround_time]; unfold oneMinute; omega)
      (by rw [ticksAround_time]; unfold searchWindow oneMinute; omega)
    cases h1.symm.trans hfalse
  rw [hi]
  rw [ticksAround_time] at hlt hnot
  have hle : ¬ m + 1 < i := by
    intro hlt'
    have hfalse := hnot (m + 1) (by unfold oneMinute; omega) hlt'
    cases h1.symm.trans hfalse
  have heq : i = m + 1 := by
    unfold oneMinute at hlt
    omega
  rw [heq]

omit h1
include hn

/-- The second tick looks no earlier than minute `m + 3`. -/
theorem next_second (hlo : m + 3 ≤ n) (hhi : n * oneMinute ≤ (m + 2) * oneMinute + searchWindow) :
    ∃ i, sched.next cfg.location ((ticksAround m).time 1 + oneMinute) = some (i * oneMinute) ∧
      m + 3 ≤ i := by
  rcases sched.next_spec cfg.location ((ticksAround m).time 1 + oneMinute) with
    ⟨-, hnot⟩ | ⟨i, hi, hlt, -, -, -⟩
  · have hfalse := hnot n (by rw [ticksAround_time]; unfold oneMinute; omega)
      (by rw [ticksAround_time]; unfold searchWindow oneMinute at *; omega)
    cases hn.symm.trans hfalse
  · refine ⟨i, hi, ?_⟩
    rw [ticksAround_time] at hlt
    unfold oneMinute at hlt
    omega

include hv h1

/-- The second of two matching minutes gets no backup where a later match is found. -/
theorem no_start_in_neighbour (hlo : m + 3 ≤ n)
    (hhi : n * oneMinute ≤ (m + 2) * oneMinute + searchWindow) (k : Nat)
    (hk : (ticksAround m).starts cfg k) : minuteOf ((ticksAround m).time k) ≠ m + 2 := by
  have hbefore1 : (ticksAround m).before cfg 1 =
      ⟨⟨some ((m + 1) * oneMinute), scheduleSource cfg⟩, 0⟩ := by
    rw [Ticks.before_succ, tick_of_none hv rfl, next_first h1]
    rfl
  obtain ⟨i, hi, hilo⟩ := next_second hn hlo hhi
  have hbefore2 : (ticksAround m).before cfg 2 =
      ⟨⟨some (i * oneMinute), scheduleSource cfg⟩, (ticksAround m).time 1⟩ := by
    have hle : (m + 1) * oneMinute ≤ (ticksAround m).time 1 := by
      rw [ticksAround_time]
      unfold oneMinute
      omega
    rw [Ticks.before_succ, hbefore1, tick_of_le hv (t := (m + 1) * oneMinute) rfl (Nat.zero_le _) hle, hi]
    rfl
  have hlast : (ticksAround m).time 1 ≤ i * oneMinute := by
    rw [ticksAround_time]
    unfold oneMinute
    omega
  intro hminute
  rw [ticksAround_time] at hminute
  unfold minuteOf at hminute
  have hk2 : 2 ≤ k := by
    unfold oneMinute at hminute
    omega
  obtain ⟨j, rfl⟩ : ∃ j, k = 2 + j := ⟨k - 2, by omega⟩
  have hlt : (ticksAround m).time (2 + j) < i * oneMinute := by
    rw [ticksAround_time]
    unfold oneMinute at *
    omega
  rw [quiet_until hv hbefore2 rfl hlast hlt] at hk
  cases hk

end Neighbours

/-- **Scheduled backups.** Every sequence of ticks starts exactly one backup in each matching
minute, exactly if two matching minutes in a row have no further match in the window that
`Next` searches. -/
theorem runs_exact_iff {cfg : Snapshot} {sched : Schedule} (hv : cfg.Valid sched) :
    (∀ ticks : Ticks, ticks.RunsExactly cfg sched) ↔ NeighboursLast (sched.fires cfg.location) := by
  constructor
  · intro h m n h1 h2 hlo hhi
    by_contra hn
    have hfires : sched.fires cfg.location n := by simpa using hn
    have hfirst : minuteOf ((ticksAround m).time 0) < m + 2 := by
      show (m * oneMinute + 30000000001 + 0 * 30000000000) / oneMinute < m + 2
      unfold oneMinute
      omega
    obtain ⟨k, ⟨hk, hm⟩, -⟩ := (h (ticksAround m)).once (m + 2) hfirst h2
    exact no_start_in_neighbour hv h1 hfires hlo hhi k hk hm
  · intro hn ticks
    exact ticks.runsExactly hv hn

/-- Coordinated Universal Time: minutes are counted from 1 January of year 1, a Monday. -/
def utc : Location where
  name := "UTC"
  clock m :=
    let days := m / 1440
    -- years that begin in March, so that the leap day comes last
    let doe := (days + 306) % 146097
    let yoe := (doe - doe / 1460 + doe / 36524 - doe / 146096) / 365
    let doy := doe - (365 * yoe + yoe / 4 - yoe / 100)
    let mp := (5 * doy + 2) / 153
    { minute := m % 60
      hour := m / 60 % 24
      day := doy - (153 * mp + 2) / 5 + 1
      month := if mp < 10 then mp + 3 else mp - 9
      weekday := (days + 1) % 7 }

/-- Enabled backups with a given schedule. -/
def backupsAt (schedule : Text) : Snapshot :=
  ⟨true, schedule, utc, 0⟩

/-- `0 * * * *`. -/
def hourly : Schedule :=
  ⟨FieldSet.withBit 0#64 0, makeFieldSet 0 23 true, makeFieldSet 1 31 true, makeFieldSet 1 12 true,
    makeFieldSet 0 6 true⟩

/-- Hourly backups: matching minutes are never neighbours. -/
theorem hourly_runs_exact :
    (backupsAt "@hourly").Valid hourly ∧
      ∀ ticks : Ticks, ticks.RunsExactly (backupsAt "@hourly") hourly := by
  have hv : (backupsAt "@hourly").Valid hourly := ⟨rfl, by decide, rfl⟩
  have hminute : ∀ m, hourly.fires utc m → m % 60 = 0 := by
    intro m hm
    simp only [Schedule.fires, Schedule.matches, Bool.and_eq_true] at hm
    have hbit : (utc.clock m).minute = 0 := by
      simpa [hourly, FieldSet.has_withBit] using hm.1.1.1
    exact hbit
  refine ⟨hv, (runs_exact_iff hv).mpr ?_⟩
  intro m n h1 h2
  have := hminute _ h1
  have := hminute _ h2
  omega

/-- `* * * * *`. -/
def everyMinute : Schedule :=
  ⟨makeFieldSet 0 59 true, makeFieldSet 0 23 true, makeFieldSet 1 31 true, makeFieldSet 1 12 true,
    makeFieldSet 0 6 true⟩

/-- A backup every minute, at midnight of 1 January 2026: ticks every thirty seconds start
none in the minute from 00:01, although the schedule matches it. -/
theorem every_minute_skips :
    (backupsAt "* * * * *").Valid everyMinute ∧
      everyMinute.fires utc 1065047041 ∧
      (∀ k, (ticksAround 1065047039).starts (backupsAt "* * * * *") k →
        minuteOf ((ticksAround 1065047039).time k) ≠ 1065047041) ∧
      ¬ (ticksAround 1065047039).RunsExactly (backupsAt "* * * * *") everyMinute := by
  have hv : (backupsAt "* * * * *").Valid everyMinute := ⟨rfl, by decide, rfl⟩
  have hfires : everyMinute.fires utc 1065047040 ∧ everyMinute.fires utc 1065047041 ∧
      everyMinute.fires utc 1065047042 := by
    decide
  have hnone := no_start_in_neighbour hv (m := 1065047039) hfires.1 hfires.2.2 (by decide) (by decide)
  refine ⟨hv, hfires.2.1, hnone, fun h => ?_⟩
  obtain ⟨k, ⟨hk, hm⟩, -⟩ := h.once 1065047041 (by decide) hfires.2.1
  exact hnone k hk hm

end Lankeeper.Backup
