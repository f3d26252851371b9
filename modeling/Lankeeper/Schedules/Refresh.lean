import Lankeeper.Backup.Scheduler
import Lankeeper.NAS.Playlist

/-!
# Lankeeper.Schedules.Refresh — ticks that refresh playlists and blocklists

Two loops besides that of the backups use a cron schedule: `m3uScheduleTick` of
`internal/services/nas.go`, which keeps the next time of every playlist under a key, and
`blocklistTick` of `dns_blocklist_schedule.go`, which keeps one time and the schedule it was
computed from. Unlike the loop of the backups both look for the next match from the time of
the tick on, so no minute is passed over.

Either loop does at each tick what `fireOrWait` does (`MinuteTicks.before_of_step`). For
`fireOrWait` the runs are those that the schedule says, as long as the ticks are at most a
minute apart. Of playlists with one key only the first gets them.
-/

namespace Lankeeper.Schedules

open Lib Text Lankeeper.Backup Lankeeper.NAS List Option

/-! ## One time that is waited for -/

variable (loc : Location) {sched : Schedule}

theorem next_ahead {now t : Nat} (h : sched.next loc now = some t) : now < t := by
  rcases sched.next_spec loc now with ⟨hnone, -⟩ | ⟨n, hsome, hlt, -⟩
  · cases hnone.symm.trans h
  · rw [hsome, some.injEq] at h
    rwa [← h]

/-- Wait for the given time; without one, or once it has come, go on with the next match. -/
def fireOrWait (sched : Schedule) (now : Nat) : Option Nat → Option Nat × Bool
  | none => (sched.next loc now, false)
  | some due => if now < due then (some due, false) else (sched.next loc now, true)

/-- A tick that is repeated at the same time does nothing. -/
theorem fireOrWait_again (now : Nat) (due : Option Nat) :
    fireOrWait loc sched now (fireOrWait loc sched now due).1 =
      ((fireOrWait loc sched now due).1, false) := by
  have hnext : fireOrWait loc sched now (sched.next loc now) = (sched.next loc now, false) := by
    cases hnext : sched.next loc now with
    | none => rw [fireOrWait, hnext]
    | some t => exact if_pos (next_ahead loc hnext)
  cases due with
  | none => exact hnext
  | some t =>
    by_cases hwait : now < t
    · simp [fireOrWait, hwait]
    · have hfired : fireOrWait loc sched now (some t) = (sched.next loc now, true) := if_neg hwait
      rw [hfired]
      exact hnext

/-- An unending sequence of ticks at most a minute apart. -/
structure MinuteTicks where
  time : Nat → Nat
  later : ∀ k, time k < time (k + 1)
  soon : ∀ k, time (k + 1) ≤ time k + oneMinute

namespace MinuteTicks

variable (ticks : MinuteTicks) (sched : Schedule)

/-- What is waited for before each tick. -/
def due : Nat → Option Nat
  | 0 => none
  | k + 1 => (fireOrWait loc sched (ticks.time k) (due k)).1

def fires (k : Nat) : Bool :=
  (fireOrWait loc sched (ticks.time k) (ticks.due loc sched k)).2

/-- After a tick, the first match after it is waited for. If nothing is, nothing matches in
the window that `Next` searches. -/
def Awaits (now : Nat) (due : Option Nat) : Prop :=
  (∃ m, due = some (m * oneMinute) ∧ now < m * oneMinute ∧ sched.fires loc m ∧
      ∀ i, now < i * oneMinute → i < m → sched.fires loc i = false) ∨
    (due = none ∧ ∀ i, now < i * oneMinute → i * oneMinute < now + searchWindow →
      sched.fires loc i = false)

variable {loc sched}

theorem awaits_next (now : Nat) : Awaits loc sched now (sched.next loc now) := by
  rcases sched.next_spec loc now with ⟨hnone, hnot⟩ | ⟨n, hsome, hlt, -, hfires, hfirst⟩
  · exact .inr ⟨hnone, hnot⟩
  · exact .inl ⟨n, hsome, hlt, hfires, hfirst⟩

/-- A tick starts a run exactly if a match has begun since the tick before. -/
theorem Awaits.step {t now : Nat} {due : Option Nat} (h : Awaits loc sched t due) (hlater : t < now)
    (hsoon : now ≤ t + oneMinute) :
    Awaits loc sched now (fireOrWait loc sched now due).1 ∧
      ((fireOrWait loc sched now due).2 ↔
        ∃ m, sched.fires loc m ∧ t < m * oneMinute ∧ m * oneMinute ≤ now) := by
  rcases h with ⟨m, rfl, hm, hfires, hfirst⟩ | ⟨rfl, hnot⟩
  · by_cases hwait : now < m * oneMinute
    · have hkeep : fireOrWait loc sched now (some (m * oneMinute)) =
          (some (m * oneMinute), false) := if_pos hwait
      rw [hkeep]
      refine ⟨.inl ⟨m, rfl, hwait, hfires, fun i hi => hfirst i (by omega)⟩, ?_⟩
      simp only [Bool.false_eq_true, false_iff]
      rintro ⟨i, hi, hti, hin⟩
      have him : i < m := by
        unfold oneMinute at *
        omega
      rw [hfirst i hti him] at hi
      cases hi
    · have hfire : fireOrWait loc sched now (some (m * oneMinute)) =
          (sched.next loc now, true) := if_neg hwait
      rw [hfire]
      exact ⟨awaits_next now, iff_of_true rfl ⟨m, hfires, hm, by omega⟩⟩
  · refine ⟨awaits_next now, ?_⟩
    simp only [fireOrWait, Bool.false_eq_true, false_iff]
    rintro ⟨i, hi, hti, hin⟩
    have hwindow : i * oneMinute < t + searchWindow := by
      unfold searchWindow oneMinute at *
      omega
    rw [hnot i hti hwindow] at hi
    cases hi

theorem awaits_due (k : Nat) : Awaits loc sched (ticks.time k) (ticks.due loc sched (k + 1)) := by
  induction k with
  | zero => exact awaits_next _
  | succ k ih => exact (ih.step (ticks.later k) (ticks.soon k)).1

theorem runsOnce : RunsOnce ticks.time (ticks.fires loc sched) (sched.fires loc) :=
  runsOnce_of_between ticks.later ticks.soon rfl
    fun k => ((ticks.awaits_due k).step (ticks.later k) (ticks.soon k)).2

/-! The loops. A tick says what is kept until the next one, or nothing if the process is gone. -/

section Loop

variable {σ ρ : Type} (tick : Nat → σ → Option σ × ρ) (start : σ)

/-- The state of a loop before each tick. -/
def before : Nat → Option σ
  | 0 => some start
  | k + 1 => (before k).bind fun s => (tick (ticks.time k) s).1

/-- What the loop does at a tick, if the process is still there. -/
def does (k : Nat) : Option ρ :=
  (ticks.before tick start k).map fun s => (tick (ticks.time k) s).2

/-- A loop that does what `fireOrWait` does with the time it waits for. -/
theorem before_of_step (Inv : σ → Prop) (waits : σ → Option Nat) (hinv : Inv start)
    (hwaits : waits start = none)
    (hstep : ∀ now s, Inv s → ∃ s', (tick now s).1 = some s' ∧ Inv s' ∧
      waits s' = (fireOrWait loc sched now (waits s)).1) (k : Nat) :
    ∃ s, ticks.before tick start k = some s ∧ Inv s ∧ waits s = ticks.due loc sched k := by
  induction k with
  | zero => exact ⟨start, rfl, hinv, hwaits⟩
  | succ k ih =>
    obtain ⟨s, hs, hinv, hdue⟩ := ih
    obtain ⟨s', hs', hinv', hdue'⟩ := hstep (ticks.time k) s hinv
    refine ⟨s', ?_, hinv', ?_⟩
    · rw [before, hs]
      exact hs'
    · rw [hdue', hdue]
      rfl

end Loop

end MinuteTicks

/-- Parsing the schedule ends the process. -/
def Panics (spec : Text) : Prop :=
  ∃ e, parseSchedule spec = .error e ∧ e.panicked

/-! ## Blocklists -/

/-- The next time and the schedule it was computed from. -/
structure BlocklistState where
  next : Option Nat := none
  source : Text := []

/-- `blocklistTick`, and whether it calls `UpdateBlocklist`. -/
def blocklistTick (loc : Location) (spec : Text) (now : Nat) (s : BlocklistState) :
    Option BlocklistState × Bool :=
  if spec = [] then (some {}, false)
  else
    match parseSchedule spec with
    | .error e => (if e.panicked then none else some ⟨none, spec⟩, false)
    | .ok sched =>
      match s.next with
      | none => (some ⟨sched.next loc now, spec⟩, false)
      | some due =>
        if spec ≠ s.source then (some ⟨sched.next loc now, spec⟩, false)
        else if now < due then (some ⟨some due, spec⟩, false)
        else (some ⟨sched.next loc now, spec⟩, true)

def blocklistStarts (ticks : MinuteTicks) (loc : Location) (spec : Text) (k : Nat) : Bool :=
  ticks.does (blocklistTick loc spec) {} k == some true

/-! ## Playlists -/

/-- The times by key. A key may be unknown, or known with no time. -/
abbrev FireTimes := Text → Option (Option Nat)

def sourceKey (src : M3USourceConfig) : Text :=
  src.url ++ '|' :: (src.downloadPath ++ '|' :: src.schedule)

/-- `m3uSourceTick` on the entry of its key, and whether it calls `syncSources`. -/
def entryTick (loc : Location) (now : Nat) (src : M3USourceConfig) (entry : Option (Option Nat)) :
    Option (Option Nat × Bool) :=
  match parseSchedule src.schedule with
  | .error e => if e.panicked then none else some (entry.getD none, false)
  | .ok sched =>
    match entry with
    | none => some (sched.next loc now, false)
    | some none => some (sched.next loc now, false)
    | some (some due) => some (if now < due then (some due, false) else (sched.next loc now, true))

def m3uSourceTick (loc : Location) (now : Nat) (src : M3USourceConfig) (key : Text)
    (next : FireTimes) : Option (FireTimes × Bool) :=
  (entryTick loc now src (next key)).map fun r =>
    (fun k => if k = key then some r.1 else next k, r.2)

/-- The body of the loop of `m3uScheduleTick`. -/
def visitSource (loc : Location) (now : Nat) (src : M3USourceConfig) (next : FireTimes) :
    Option (FireTimes × Bool) :=
  if src.schedule = [] then some (next, false) else m3uSourceTick loc now src (sourceKey src) next

/-- The loop of `m3uScheduleTick`, and of each source it comes to, whether it is synced. -/
def tickSources (loc : Location) (now : Nat) :
    List M3USourceConfig → FireTimes → Option FireTimes × List Bool
  | [], next => (some next, [])
  | src :: sources, next =>
    match visitSource loc now src next with
    | none => (none, [])
    | some r => ((tickSources loc now sources r.1).1, r.2 :: (tickSources loc now sources r.1).2)

def m3uScheduleTick (loc : Location) (sources : List M3USourceConfig) (now : Nat)
    (next : FireTimes) : Option FireTimes × List Bool :=
  let seen := (sources.filter (·.schedule ≠ [])).map sourceKey
  ((tickSources loc now sources next).1.map fun next k => if k ∈ seen then next k else none,
    (tickSources loc now sources next).2)

/-- Whether a tick syncs the source at a position. -/
def syncs (ticks : MinuteTicks) (loc : Location) (sources : List M3USourceConfig) (i k : Nat) :
    Bool :=
  (ticks.does (m3uScheduleTick loc sources) (fun _ => none) k).bind (·[i]?) == some true

/-! ## A bar in a schedule -/

/-- Keys are told apart by their bars: a schedule that parses has none. -/
theorem bar_not_mem_atom {min max : Int} {t : Text} {a : Atom} (h : ReadsAtom min max t a) :
    '|' ∉ t := by
  cases h with
  | plain hr => exact fun h => absurd (hr.chars _ h) (by decide)
  | stepped hr hstep _ =>
    rw [mem_append, mem_cons]
    rintro (h | h | h)
    · exact absurd (hr.chars _ h) (by decide)
    · exact absurd h (by decide)
    · exact absurd (chars_of_readInt hstep _ h) (by decide)

theorem mem_trimSpace {c : Char} (hc : isSpace c = false) {t : Text} (h : c ∈ t) : c ∈ trimSpace t := by
  obtain ⟨l, r, ht, hl, hr⟩ := exists_trimSpace t
  rw [ht, mem_append, mem_append] at h
  rcases h with (h | h) | h
  · rw [hl c h] at hc
    cases hc
  · exact h
  · rw [hr c h] at hc
    cases hc

theorem bar_not_mem_field {min max : Int} {t : Text} {f : FieldSet}
    (h : parseField t min max = .ok f) : '|' ∉ t := by
  unfold parseField at h
  split at h
  case isTrue hstar =>
    rw [hstar]
    decide
  case isFalse =>
    obtain ⟨out, hset, -⟩ := exists_of_bind_ok h
    have hall : ∀ c ∈ t, c ≠ '|' := by
      refine forall_of_splitOn (show ',' ≠ '|' by decide) fun piece hpiece c hc heq => ?_
      subst heq
      have hmem := mem_trimSpace (by decide) hc
      have hatom : trimSpace piece ∈ atomsOf t :=
        mem_filter.mpr ⟨mem_map_of_mem hpiece, by simpa using ne_nil_of_mem hmem⟩
      obtain ⟨a, ha⟩ := parseAtom_of_setAtoms hset _ hatom
      exact bar_not_mem_atom (((parseAtom_spec ha).2.2 a).mpr rfl) hmem
    exact fun hbar => hall _ hbar rfl

variable {spec : Text}

theorem bar_not_mem_fields (h : parseFields spec = .ok sched) : '|' ∉ spec := by
  unfold parseFields at h
  split at h
  case h_2 => cases h
  case h_1 min hr dom mo dow hfields =>
    simp only [bind_ok_iff, mapError_ok_iff] at h
    obtain ⟨_, hminute, _, hhour, _, hdom, _, hmonth, _, hdow, -⟩ := h
    intro hbar
    obtain ⟨w, hw, hmem⟩ := exists_field (show ¬ isSpace '|' by decide) hbar
    rw [hfields] at hw
    simp only [mem_cons, not_mem_nil, or_false] at hw
    rcases hw with rfl | rfl | rfl | rfl | rfl
    · exact bar_not_mem_field hminute hmem
    · exact bar_not_mem_field hhour hmem
    · exact bar_not_mem_field hdom hmem
    · exact bar_not_mem_field hmonth hmem
    · exact bar_not_mem_field hdow hmem

theorem bar_not_mem_schedule (h : parseSchedule spec = .ok sched) : '|' ∉ spec := by
  intro hbar
  have hmem := mem_trimSpace (by decide) hbar
  -- so it is none of the aliases
  have hne : ∀ {word : Text}, '|' ∉ word → trimSpace spec ≠ word := by
    rintro word hword rfl
    exact hword hmem
  simp only [parseSchedule] at h
  split_ifs at h with hempty hhourly hdaily hweekly hmonthly hyearly
  · exact hne (by decide) hhourly
  · exact hdaily.elim (hne (by decide)) (hne (by decide))
  · exact hne (by decide) hweekly
  · exact hne (by decide) hmonthly
  · exact hyearly.elim (hne (by decide)) (hne (by decide))
  · exact bar_not_mem_fields h hmem

/-- The source has the key, and its schedule parses. -/
def Active (key : Text) (src : M3USourceConfig) : Prop :=
  sourceKey src = key ∧ ∃ sched, parseSchedule src.schedule = .ok sched

/-- Two schedules that parse are the same if their sources have the same key. -/
theorem Active.parses {a b : M3USourceConfig} (h : Active (sourceKey a) b)
    (ha : parseSchedule a.schedule = .ok sched) : parseSchedule b.schedule = .ok sched := by
  obtain ⟨hkey, sched', hb⟩ := h
  have hlast : ∀ {src : M3USourceConfig}, '|' ∉ src.schedule →
      (sourceKey src).rtakeWhile (· ≠ '|') = src.schedule := by
    intro src hsrc
    rw [sourceKey, ← cons_append, ← append_assoc, rtakeWhile_ne hsrc]
  rw [← hlast (bar_not_mem_schedule hb), hkey, hlast (bar_not_mem_schedule ha), ha]

/-! ## The loops do what `fireOrWait` does -/

theorem some_beq_true (b : Bool) : (some b == some true) = b := by
  cases b <;> rfl

section Loops

variable {ticks : MinuteTicks} {loc : Location} {sched : Schedule} {next : FireTimes}

/-- A tick of the loop for blocklists. -/
theorem blocklistTick_eq (h : parseSchedule spec = .ok sched) {now : Nat}
    {s : BlocklistState} (hs : s.next = none ∨ s.source = spec) :
    blocklistTick loc spec now s =
      (some ⟨(fireOrWait loc sched now s.next).1, spec⟩, (fireOrWait loc sched now s.next).2) := by
  have hne : spec ≠ [] := by
    rintro rfl
    cases h
  unfold blocklistTick
  rw [if_neg hne, h]
  cases hnext : s.next with
  | none => rfl
  | some due =>
    have hsource : s.source = spec := by simpa [hnext] using hs
    by_cases hwait : now < due <;> simp [fireOrWait, hwait, hsource]

theorem blocklistStarts_eq (h : parseSchedule spec = .ok sched) (k : Nat) :
    blocklistStarts ticks loc spec k = ticks.fires loc sched k := by
  obtain ⟨s, hs, hsource, hdue⟩ := ticks.before_of_step (blocklistTick loc spec) {}
    (fun s => s.next = none ∨ s.source = spec) (·.next) (.inl rfl) rfl
    (fun now s hs => by
      rw [blocklistTick_eq h hs]
      exact ⟨_, rfl, .inr rfl, rfl⟩) k
  rw [blocklistStarts, MinuteTicks.does, hs, map_some, blocklistTick_eq h hsource, hdue]
  exact some_beq_true _

variable {now : Nat} {src : M3USourceConfig} {sources : List M3USourceConfig}

theorem entryTick_ok (h : parseSchedule src.schedule = .ok sched) (entry : Option (Option Nat)) :
    entryTick loc now src entry = some (fireOrWait loc sched now (entry.getD none)) := by
  unfold entryTick
  rw [h]
  rcases entry with _ | _ | due <;> rfl

theorem entryTick_error {e : ScheduleError} (h : parseSchedule src.schedule = .error e)
    (entry : Option (Option Nat)) :
    entryTick loc now src entry = if e.panicked then none else some (entry.getD none, false) := by
  unfold entryTick
  rw [h]

theorem ne_nil_of_parses (h : parseSchedule src.schedule = .ok sched) : src.schedule ≠ [] := by
  intro hempty
  rw [hempty] at h
  cases h

theorem visitSource_panics (h : Panics src.schedule) : visitSource loc now src next = none := by
  obtain ⟨e, he, hpanic⟩ := h
  have hne : src.schedule ≠ [] := by
    intro hempty
    rw [hempty] at he
    cases he
    cases hpanic
  rw [visitSource, if_neg hne, m3uSourceTick, entryTick_error he, if_pos hpanic, map_none]

theorem tickSources_panics (h : ∃ src ∈ sources, Panics src.schedule) :
    (tickSources loc now sources next).1 = none := by
  induction sources generalizing next with
  | nil => simp at h
  | cons src sources ih =>
    rw [tickSources]
    cases hvisit : visitSource loc now src next with
    | none => rfl
    | some r =>
      obtain ⟨src', hsrc', hpanics⟩ := h
      rcases mem_cons.mp hsrc' with rfl | hsrc'
      · rw [visitSource_panics hpanics] at hvisit
        cases hvisit
      · exact ih ⟨src', hsrc', hpanics⟩

/-- As long as every time lies ahead, nothing is synced. -/
theorem tickSources_ahead (loc : Location) (sources : List M3USourceConfig)
    (h : ∀ key t, next key = some (some t) → now < t) :
    ∀ ran ∈ (tickSources loc now sources next).2, ran = false := by
  induction sources generalizing next with
  | nil => simp [tickSources]
  | cons src sources ih =>
    have hvisit : ∀ r, visitSource loc now src next = some r →
        (∀ key t, r.1 key = some (some t) → now < t) ∧ r.2 = false := by
      intro r hr
      unfold visitSource m3uSourceTick at hr
      split_ifs at hr
      · cases hr
        exact ⟨h, rfl⟩
      obtain ⟨⟨entry, ran⟩, hentry, rfl⟩ := map_eq_some_iff.mp hr
      have hwait : (∀ t, entry = some t → now < t) ∧ ran = false := by
        unfold entryTick at hentry
        split at hentry
        · split_ifs at hentry
          cases hentry
          refine ⟨fun t ht => h (sourceKey src) t ?_, rfl⟩
          cases hkey : next (sourceKey src) <;> simp_all
        · split at hentry
          · cases hentry
            exact ⟨fun t => next_ahead loc, rfl⟩
          · cases hentry
            exact ⟨fun t => next_ahead loc, rfl⟩
          · rename_i due hdue
            rw [if_pos (h _ _ hdue)] at hentry
            cases hentry
            exact ⟨fun t ht => h _ t (by rw [hdue, ht]), rfl⟩
      refine ⟨fun key t ht => ?_, hwait.2⟩
      dsimp only at ht
      split_ifs at ht
      · exact hwait.1 t (some.inj ht)
      · exact h key t ht
    rw [tickSources]
    cases hr : visitSource loc now src next with
    | none => simp
    | some r =>
      obtain ⟨hahead, hran⟩ := hvisit r hr
      rintro ran (_ | ⟨_, hran'⟩)
      · exact hran
      · exact ih hahead ran hran'

theorem tickSources_append {xs ys : List M3USourceConfig} {next' : FireTimes}
    (h : (tickSources loc now xs next).1 = some next') :
    tickSources loc now (xs ++ ys) next =
      ((tickSources loc now ys next').1,
        (tickSources loc now xs next).2 ++ (tickSources loc now ys next').2) := by
  induction xs generalizing next with
  | nil =>
    cases h
    rfl
  | cons src xs ih =>
    rw [cons_append, tickSources]
    rw [tickSources] at h ⊢
    cases hvisit : visitSource loc now src next with
    | none =>
      rw [hvisit] at h
      cases h
    | some r =>
      rw [hvisit] at h
      dsimp only at h ⊢
      rw [ih h]
      rfl

section Key

variable {own : M3USourceConfig} (hown : parseSchedule own.schedule = .ok sched)
include hown

theorem visitSource_active (loc : Location) (now : Nat) (h : Active (sourceKey own) src)
    (next : FireTimes) :
    ∃ next', (next' (sourceKey own)).getD none =
        (fireOrWait loc sched now ((next (sourceKey own)).getD none)).1 ∧
      visitSource loc now src next =
        some (next', (fireOrWait loc sched now ((next (sourceKey own)).getD none)).2) := by
  have hparse := h.parses hown
  rw [← h.1, visitSource, if_neg (ne_nil_of_parses hparse), m3uSourceTick, entryTick_ok hparse,
    map_some]
  refine ⟨fun k => if k = sourceKey src then some _ else next k, ?_, rfl⟩
  simp only [↓reduceIte, getD_some]

omit hown in
theorem visitSource_quiet (loc : Location) (now : Nat) (hcalm : ¬ Panics src.schedule) {key : Text}
    (h : ¬ Active key src) (next : FireTimes) :
    ∃ next' ran, (next' key).getD none = (next key).getD none ∧
      visitSource loc now src next = some (next', ran) := by
  unfold visitSource m3uSourceTick
  split_ifs
  · exact ⟨next, false, rfl, rfl⟩
  cases hparse : parseSchedule src.schedule with
  | error e =>
    have hreturned : ¬ e.panicked := fun hpanic => hcalm ⟨e, hparse, hpanic⟩
    rw [entryTick_error hparse, if_neg hreturned]
    refine ⟨_, _, ?_, rfl⟩
    by_cases hkey : key = sourceKey src <;> simp [hkey]
  | ok sched' =>
    have hkey : key ≠ sourceKey src := fun hkey => h ⟨hkey.symm, sched', hparse⟩
    rw [entryTick_ok hparse]
    exact ⟨_, _, by simp [hkey], rfl⟩

/-- The first active source makes the tick for the key, and the others find nothing left to do. -/
theorem tickSources_key (loc : Location) (now : Nat) (h : ∀ src ∈ sources, ¬ Panics src.schedule)
    (next : FireTimes) :
    ∃ next', (tickSources loc now sources next).1 = some next' ∧
      (tickSources loc now sources next).2.length = sources.length ∧
      ((∃ src ∈ sources, Active (sourceKey own) src) → (next' (sourceKey own)).getD none =
        (fireOrWait loc sched now ((next (sourceKey own)).getD none)).1) ∧
      ((¬ ∃ src ∈ sources, Active (sourceKey own) src) →
        (next' (sourceKey own)).getD none = (next (sourceKey own)).getD none) := by
  induction sources generalizing next with
  | nil => exact ⟨next, rfl, rfl, by simp, fun _ => rfl⟩
  | cons src sources ih =>
    rw [forall_mem_cons] at h
    rw [tickSources]
    simp only [exists_mem_cons_iff]
    by_cases hactive : Active (sourceKey own) src
    · obtain ⟨next₁, hentry, hvisit⟩ := visitSource_active hown loc now hactive next
      obtain ⟨next', hsome, hlen, hmore, hnone⟩ := ih h.2 next₁
      rw [hvisit]
      refine ⟨next', hsome, by simpa using hlen, fun _ => ?_, fun hnot => absurd (.inl hactive) hnot⟩
      by_cases hrest : ∃ src ∈ sources, Active (sourceKey own) src
      · rw [hmore hrest, hentry, fireOrWait_again]
      · rw [hnone hrest, hentry]
    · obtain ⟨next₁, ran, hentry, hvisit⟩ := visitSource_quiet loc now h.1 hactive next
      obtain ⟨next', hsome, hlen, hmore, hnone⟩ := ih h.2 next₁
      rw [hvisit, ← hentry]
      refine ⟨next', hsome, by simpa using hlen, ?_, ?_⟩
      · exact fun hsome => hmore (hsome.resolve_left hactive)
      · exact fun hnot => hnone fun hrest => hnot (.inr hrest)

/-- Whether a source is synced: only if no source before it is active. -/
theorem synced_at (loc : Location) (now : Nat) {xs ys : List M3USourceConfig}
    (h : ∀ src ∈ xs ++ own :: ys, ¬ Panics src.schedule) (next : FireTimes) :
    ((∃ src ∈ xs, Active (sourceKey own) src) →
      (tickSources loc now (xs ++ own :: ys) next).2[xs.length]? = some false) ∧
    ((¬ ∃ src ∈ xs, Active (sourceKey own) src) →
      (tickSources loc now (xs ++ own :: ys) next).2[xs.length]? =
        some (fireOrWait loc sched now ((next (sourceKey own)).getD none)).2) := by
  obtain ⟨next₁, hsome, hlen, hmore, hnone⟩ :=
    tickSources_key hown loc now (forall_mem_append.mp h).1 next
  obtain ⟨next₂, -, hvisit⟩ := visitSource_active hown loc now ⟨rfl, sched, hown⟩ next₁
  have hat : (tickSources loc now (xs ++ own :: ys) next).2[xs.length]? =
      some (fireOrWait loc sched now ((next₁ (sourceKey own)).getD none)).2 := by
    rw [tickSources_append hsome, getElem?_append_right hlen.le, hlen, Nat.sub_self, tickSources, hvisit]
    rfl
  rw [hat]
  refine ⟨fun hrest => ?_, fun hrest => ?_⟩
  · rw [hmore hrest, fireOrWait_again]
  · rw [hnone hrest]

variable (ticks loc) (xs ys : List M3USourceConfig)

/-- The loop over the playlists does for a key what `fireOrWait` does. -/
theorem timesBefore_eq (hstays : ∀ src ∈ xs ++ own :: ys, ¬ Panics src.schedule) (k : Nat) :
    ∃ next, ticks.before (m3uScheduleTick loc (xs ++ own :: ys)) (fun _ => none) k = some next ∧
      (next (sourceKey own)).getD none = ticks.due loc sched k := by
  have hmem : own ∈ xs ++ own :: ys := by simp
  have hseen : sourceKey own ∈ ((xs ++ own :: ys).filter (·.schedule ≠ [])).map sourceKey :=
    mem_map_of_mem (mem_filter.mpr ⟨hmem, by simpa using ne_nil_of_parses hown⟩)
  have hstep : ∀ now next, True → ∃ next', (m3uScheduleTick loc (xs ++ own :: ys) now next).1 =
      some next' ∧ True ∧ (next' (sourceKey own)).getD none =
        (fireOrWait loc sched now ((next (sourceKey own)).getD none)).1 := by
    intro now next _
    obtain ⟨next', hsome, -, hmore, -⟩ := tickSources_key hown loc now hstays next
    refine ⟨_, by rw [m3uScheduleTick, hsome]; rfl, trivial, ?_⟩
    dsimp only
    rw [if_pos hseen]
    exact hmore ⟨own, hmem, rfl, sched, hown⟩
  obtain ⟨next, hnext, -, hdue⟩ := ticks.before_of_step _ (fun _ => none) (fun _ => True)
    (fun next => (next (sourceKey own)).getD none) trivial rfl hstep k
  exact ⟨next, hnext, hdue⟩

/-- No source ends the process, and none before this one is active. -/
def Undisturbed (xs : List M3USourceConfig) (own : M3USourceConfig) (ys : List M3USourceConfig) : Prop :=
  (∀ src ∈ xs ++ own :: ys, ¬ Panics src.schedule) ∧ ¬ ∃ src ∈ xs, Active (sourceKey own) src

theorem syncs_of_undisturbed (h : Undisturbed xs own ys) (k : Nat) :
    syncs ticks loc (xs ++ own :: ys) xs.length k = ticks.fires loc sched k := by
  obtain ⟨next, hnext, hdue⟩ := timesBefore_eq ticks loc hown xs ys h.1 k
  have hsynced := (synced_at hown loc (ticks.time k) h.1 next).2 h.2
  rw [hdue] at hsynced
  rw [syncs, MinuteTicks.does, hnext]
  simp only [m3uScheduleTick, map_some, bind_some, hsynced]
  exact some_beq_true _

theorem not_syncs_of_disturbed (h : ¬ Undisturbed xs own ys) (k : Nat) :
    syncs ticks loc (xs ++ own :: ys) xs.length k = false := by
  by_cases hstays : ∀ src ∈ xs ++ own :: ys, ¬ Panics src.schedule
  · have hfirst : ∃ src ∈ xs, Active (sourceKey own) src := by
      by_contra hfirst
      exact h ⟨hstays, hfirst⟩
    obtain ⟨next, hnext, -⟩ := timesBefore_eq ticks loc hown xs ys hstays k
    have hsynced := (synced_at hown loc (ticks.time k) hstays next).1 hfirst
    rw [syncs, MinuteTicks.does, hnext]
    simp only [m3uScheduleTick, map_some, bind_some, hsynced]
    rfl
  · have hends : ∃ src ∈ xs ++ own :: ys, Panics src.schedule := by simpa using hstays
    cases k with
    | zero =>
      have hnone : ∀ ran ∈ (tickSources loc (ticks.time 0) (xs ++ own :: ys) fun _ => none).2,
          ran = false := tickSources_ahead loc _ (by simp)
      simp only [syncs, MinuteTicks.does, MinuteTicks.before, m3uScheduleTick, map_some,
        bind_some, beq_eq_false_iff_ne]
      intro hran
      cases hnone true (mem_of_getElem? hran)
    | succ k =>
      have hgone : ticks.before (m3uScheduleTick loc (xs ++ own :: ys)) (fun _ => none) (k + 1) = none := by
        rw [MinuteTicks.before]
        cases ticks.before (m3uScheduleTick loc (xs ++ own :: ys)) (fun _ => none) k with
        | none => rfl
        | some next =>
          rw [bind_some, m3uScheduleTick, tickSources_panics hends]
          rfl
      rw [syncs, MinuteTicks.does, hgone]
      rfl

end Key

end Loops

/-- **Refreshes on schedule.** A playlist with a schedule that parses is refreshed once in every
minute after that of the first tick that the schedule matches, and in no other, exactly if parsing
no schedule ends the process and no source listed before it has its key and a schedule that
parses, or no such minute matches. The blocklist always is, if its schedule parses. -/
theorem refreshed_once_iff (ticks : MinuteTicks) (loc : Location) (sched : Schedule) :
    (∀ xs src ys, parseSchedule src.schedule = .ok sched →
      (RunsOnce ticks.time (syncs ticks loc (xs ++ src :: ys) xs.length) (sched.fires loc) ↔
        Undisturbed xs src ys ∨ ∀ m, minuteOf (ticks.time 0) < m → sched.fires loc m = false)) ∧
      ∀ spec, parseSchedule spec = .ok sched →
        RunsOnce ticks.time (blocklistStarts ticks loc spec) (sched.fires loc) := by
  refine ⟨fun xs src ys h => ?_, fun spec h => ?_⟩
  · by_cases hundisturbed : Undisturbed xs src ys
    · rw [funext (syncs_of_undisturbed ticks loc h xs ys hundisturbed)]
      exact iff_of_true ticks.runsOnce (.inl hundisturbed)
    rw [funext (not_syncs_of_disturbed ticks loc h xs ys hundisturbed), or_iff_right hundisturbed]
    constructor
    · intro hruns m hm
      by_contra hfires
      obtain ⟨k, ⟨hk, -⟩, -⟩ := hruns.once m hm (by simpa using hfires)
      cases hk
    · intro hnone
      refine ⟨fun m hm hfires => ?_, fun k hk => by cases hk⟩
      rw [hnone m hm] at hfires
      cases hfires
  · rw [show blocklistStarts ticks loc spec = ticks.fires loc sched from
      funext fun k => blocklistStarts_eq h k]
    exact ticks.runsOnce

/-- A tick every half minute. -/
def halfMinutes : MinuteTicks where
  time k := k * 30000000000
  later k := by omega
  soon k := by
    unfold oneMinute
    omega

/-- Two playlists with one key, that differ in their groups. -/
def dailyPlaylists : List M3USourceConfig :=
  [{ tvSource with schedule := "@daily" },
    { tvSource with schedule := "@daily", excludeGroups := ["x"] }]

theorem dailyPlaylists_stay : ∀ src ∈ dailyPlaylists, ¬ Panics src.schedule := by
  rintro src hsrc ⟨e, he, -⟩
  simp only [dailyPlaylists, mem_cons, not_mem_nil, or_false] at hsrc
  rcases hsrc with rfl | rfl <;> cases he

/-- The first one is synced once a day, like the blocklist. -/
theorem daily_refreshed_once :
    ∃ sched, parseSchedule "@daily" = .ok sched ∧
      RunsOnce halfMinutes.time (syncs halfMinutes utc dailyPlaylists 0) (sched.fires utc) ∧
      RunsOnce halfMinutes.time (blocklistStarts halfMinutes utc "@daily") (sched.fires utc) := by
  refine ⟨_, rfl, ?_, ?_⟩
  · exact ((refreshed_once_iff halfMinutes utc _).1 [] _ _ rfl).mpr
      (.inl ⟨dailyPlaylists_stay, by simp⟩)
  · exact (refreshed_once_iff halfMinutes utc _).2 _ rfl

/-- The second one never is. -/
theorem second_never_refreshed :
    ∃ sched, parseSchedule "@daily" = .ok sched ∧
      (∀ src ∈ dailyPlaylists, ¬ Panics src.schedule) ∧
      ¬ RunsOnce halfMinutes.time (syncs halfMinutes utc dailyPlaylists 1) (sched.fires utc) := by
  have hmidnight : ∀ sched, parseSchedule "@daily" = .ok sched → sched.fires utc 1440 := by
    rintro _ ⟨⟩
    decide +kernel
  obtain ⟨sched, hsched⟩ : ∃ sched, parseSchedule "@daily" = .ok sched := ⟨_, rfl⟩
  have hnever : ∀ k, syncs halfMinutes utc dailyPlaylists 1 k = false :=
    not_syncs_of_disturbed halfMinutes utc hsched (dailyPlaylists.take 1) []
      fun hundisturbed => hundisturbed.2 ⟨_, mem_cons_self, rfl, _, hsched⟩
  refine ⟨sched, hsched, dailyPlaylists_stay, ?_⟩
  intro h
  obtain ⟨k, ⟨hk, -⟩, -⟩ := h.once 1440 (by decide) (hmidnight sched hsched)
  cases (hnever k).symm.trans hk

end Lankeeper.Schedules
