import Lankeeper.DNS.QueryPages

/-!
# Lankeeper.DNS.LogLimits — the limits of the query log

`internal/services/dns_querylog_rotate.go` reads the size limit and the retention of the
query log, and multiplies the number by its unit in 64 bits without looking for an overflow.
`log_limits_iff` says when the limits are the ones that were written.
-/

namespace Lankeeper.DNS

open Lib Text List Option

inductive LimitError
  | invalidSize (s : Text)
  | invalidRetention (s : Text)
deriving DecidableEq

/-- The number of `parseByteSize` and its unit. No letter but `k`, `m` and `g` has their
upper case, and none has a digit's. -/
def sizeParts (s : Text) : Text × Int :=
  let t := trimSpace (s.map Char.toUpper)
  if t.getLast? = some 'K' then (t.dropLast, 1024)
  else if t.getLast? = some 'M' then (t.dropLast, 1048576)
  else if t.getLast? = some 'G' then (t.dropLast, 1073741824)
  else (t, 1)

/-- A positive number times its unit, in 64 bits. -/
def scaled (s : Text) (unit : Int) : Option Int :=
  ((atoi s).filter (0 < ·)).map fun n => wrap (n * unit)

def parseByteSize (s : Text) : Except LimitError Int :=
  match scaled (sizeParts s).1 (sizeParts s).2 with
  | some v => .ok v
  | none => .error (.invalidSize (sizeParts s).1)

/-- A day in nanoseconds. -/
def day : Int := 86400000000000

/-- The text in front of the `d`. -/
def dayNumber (s : Text) : Option Text :=
  if (trimSpace s).getLast? = some 'd' then some (trimSpace s).dropLast else none

variable (parseDuration : Text → Option Int)

/-- `parseRetention`, for a given `time.ParseDuration`. -/
def parseRetention (s : Text) : Except LimitError Int :=
  let d := match dayNumber s with
    | some days => scaled days day
    | none => (parseDuration (trimSpace s)).filter (0 < ·)
  match d with
  | some v => .ok v
  | none => .error (.invalidRetention (trimSpace s))

structure QueryLogConfig where
  enabled : Bool
  logPath : Text
  maxSize : Text
  retention : Text

/-- What a rotation finds: the size of the log and the age of the old generation, where there
are any, and which commands succeed. -/
structure Rotation where
  size : Option Int
  age : Option Int
  removes : Bool
  copies : Bool

/-- `rotateQueryLog`: whether `rm` is run on the old generation, and whether the log is
emptied. -/
def rotateQueryLog (c : QueryLogConfig) (r : Rotation) : Bool × Bool :=
  if ¬ c.enabled ∨ c.logPath = [] then (false, false)
  else
    match parseRetention parseDuration c.retention with
    | .error _ => (false, false)
    | .ok keep =>
      let expired := r.age.any (keep < ·)
      if expired ∧ ¬ r.removes then (true, false)
      else
        match parseByteSize c.maxSize with
        | .error _ => (expired, false)
        | .ok limit => (expired, r.size.any (limit < ·) && r.copies)

/-! ## The limits as written -/

def writtenSize (s : Text) : Option Int :=
  (readInt (sizeParts s).1).map (· * (sizeParts s).2)

def writtenRetention (s : Text) : Option Int :=
  match dayNumber s with
  | some days => (readInt days).map (· * day)
  | none => parseDuration (trimSpace s)

/-- The limits are read as they are written, and the log is rotated by what is written. -/
structure Exact (maxSize retention : Text) : Prop where
  limit : ∀ v, parseByteSize maxSize = .ok v → 0 < v ∧ writtenSize maxSize = some v
  keep : ∀ v, parseRetention parseDuration retention = .ok v →
    0 < v ∧ writtenRetention parseDuration retention = some v
  emptied : ∀ enabled path r, (rotateQueryLog parseDuration ⟨enabled, path, maxSize, retention⟩ r).2 →
    ∃ v ∈ writtenSize maxSize, ∃ n ∈ r.size, v < n
  removed : ∀ enabled path r, (rotateQueryLog parseDuration ⟨enabled, path, maxSize, retention⟩ r).1 →
    ∃ v ∈ writtenRetention parseDuration retention, ∃ n ∈ r.age, v < n

/-- The product fits into 64 bits where the number does. -/
def Fits (s : Text) (unit : Int) : Prop :=
  ∀ n ∈ atoi s, n * unit < 9223372036854775808

theorem wrap_eq_iff {n : Int} :
    wrap n = n ↔ -9223372036854775808 ≤ n ∧ n < 9223372036854775808 := by
  unfold wrap
  omega

variable {s : Text}

theorem scaled_eq_some {unit v : Int} :
    scaled s unit = some v ↔ ∃ n, atoi s = some n ∧ 0 < n ∧ wrap (n * unit) = v := by
  simp [scaled, filter_eq_some_iff, and_assoc]

theorem scaled_exact_iff {unit : Int} (hunit : 0 < unit) :
    (∀ v, scaled s unit = some v → 0 < v ∧ (readInt s).map (· * unit) = some v) ↔ Fits s unit := by
  constructor
  · intro h n hn
    by_cases hpos : 0 < n
    · have hv := (h _ (scaled_eq_some.mpr ⟨n, hn, hpos, rfl⟩)).2
      rw [(atoi_eq_some.mp hn).1] at hv
      exact (wrap_eq_iff.mp (some.inj hv).symm).2
    · have hneg := Int.mul_nonpos_of_nonpos_of_nonneg (Int.not_lt.mp hpos) (Int.le_of_lt hunit)
      omega
  · intro hfits v hv
    obtain ⟨n, hn, hpos, rfl⟩ := scaled_eq_some.mp hv
    have hmul := Int.mul_pos hpos hunit
    rw [wrap_eq_iff.mpr ⟨by omega, hfits n hn⟩, (atoi_eq_some.mp hn).1]
    exact ⟨hmul, rfl⟩

theorem parseByteSize_eq_ok {v : Int} :
    parseByteSize s = .ok v ↔ scaled (sizeParts s).1 (sizeParts s).2 = some v := by
  unfold parseByteSize
  cases scaled (sizeParts s).1 (sizeParts s).2 <;> simp

theorem sizeParts_pos (s : Text) : 0 < (sizeParts s).2 := by
  unfold sizeParts
  dsimp only
  split_ifs <;> simp

variable {parseDuration}

/-- The retention is exact if the days are. -/
theorem retention_exact_iff :
    (∀ v, parseRetention parseDuration s = .ok v →
      0 < v ∧ writtenRetention parseDuration s = some v) ↔ ∀ days ∈ dayNumber s, Fits days day := by
  unfold parseRetention writtenRetention
  cases hdays : dayNumber s with
  | none =>
    cases hd : (parseDuration (trimSpace s)).filter (0 < ·) with
    | none => simp
    | some d => simpa [and_comm] using filter_eq_some_iff.mp hd
  | some days =>
    simp only [mem_def, some.injEq, forall_eq', ← scaled_exact_iff (s := days) (by decide : 0 < day)]
    cases scaled days day <;> simp

/-- What the rotation does, it does by the limits it has read. -/
theorem rotateQueryLog_spec {c : QueryLogConfig} {r : Rotation} :
    ((rotateQueryLog parseDuration c r).2 →
      ∃ limit, parseByteSize c.maxSize = .ok limit ∧ ∃ n ∈ r.size, limit < n) ∧
    ((rotateQueryLog parseDuration c r).1 →
      ∃ keep, parseRetention parseDuration c.retention = .ok keep ∧ ∃ n ∈ r.age, keep < n) := by
  unfold rotateQueryLog
  cases parseRetention parseDuration c.retention <;> cases parseByteSize c.maxSize <;>
    cases r.age <;> cases r.size <;> dsimp only <;> split_ifs <;> simp_all

/-- **The limits of the query log.** They are exact if the product of the number and its unit
fits into 64 bits. -/
theorem log_limits_iff (parseDuration : Text → Option Int) (maxSize retention : Text) :
    Exact parseDuration maxSize retention ↔
      Fits (sizeParts maxSize).1 (sizeParts maxSize).2 ∧
        ∀ days ∈ dayNumber retention, Fits days day := by
  rw [← retention_exact_iff, ← scaled_exact_iff (sizeParts_pos maxSize)]
  simp only [← parseByteSize_eq_ok]
  constructor
  · intro h
    exact ⟨h.limit, h.keep⟩
  rintro ⟨hlimit, hkeep⟩
  refine ⟨hlimit, hkeep, fun enabled path r h => ?_, fun enabled path r h => ?_⟩
  · obtain ⟨v, hv, hsize⟩ := rotateQueryLog_spec.1 h
    exact ⟨v, (hlimit v hv).2, hsize⟩
  · obtain ⟨v, hv, hage⟩ := rotateQueryLog_spec.2 h
    exact ⟨v, (hkeep v hv).2, hage⟩

/-- 2^33 gigabytes empty the log at every rotation, and 106752 days keep no old generation. -/
theorem wrapped_limits : ¬ Exact (fun _ => none) "8589934592G" "7d" ∧
    ¬ Exact (fun _ => none) "100M" "106752d" := by
  constructor
  · intro h
    exact absurd (h.limit (-9223372036854775808) (by decide +kernel)).1 (by decide)
  · intro h
    exact absurd (h.keep (-9223371273709551616) (by decide +kernel)).1 (by decide)

end Lankeeper.DNS
