import Lankeeper.Lib.Machine
import Lankeeper.Lib.Text

/-!
# Lankeeper.Health.Recovery — health checks and their recovery actions

`internal/services/healthcheck.go`. Every entry of the configuration has a goroutine that
probes its targets at each tick and, after `FailureThreshold` failures, tries its recovery
actions in turn. All goroutines share the map of results, which is keyed by the name of the
entry; `ResetCounter` may be called at any time.

The goroutine lets go of the lock between the gate, the probe and the verdict, and holds none
while it waits for the delay of an action. So the steps of this machine are what happens under
one lock or between two, and a reset may fall between any two of them.

* `acts_on_failures_iff` — no probe and no action runs while a check cools down, and an action
  is backed by enough failures exactly if no reset came after the verdict.
-/

namespace Lankeeper.Health

open Lib Text List Option

/-! ## Configuration -/

structure HealthCheckTarget where
  type : Text
  host : Text := []
  url : Text := []

structure HealthCheckAction where
  type : Text
  delay : Text := []

structure HealthCheckEntry where
  name : Text
  targets : List HealthCheckTarget
  failureThreshold : Int
  actions : List HealthCheckAction
  cooldown : Text := []

structure HealthCheckConfig where
  enabled : Bool
  checks : List HealthCheckEntry

/-- The entry of a goroutine. -/
abbrev HealthCheckConfig.Id (cfg : HealthCheckConfig) := Fin cfg.checks.length

def HealthCheckConfig.check (cfg : HealthCheckConfig) (i : cfg.Id) : HealthCheckEntry :=
  cfg.checks.get i

section Durations

-- `time.ParseDuration`, in nanoseconds
variable (parseDuration : Text → Option Int)

def defaultCooldown : Int := 300000000000

/-- The cooldown of `runCheck`. A text that does not parse counts as none. -/
def cooldownOf (check : HealthCheckEntry) : Int :=
  let cooldown := (parseDuration check.cooldown).getD 0
  if cooldown = 0 then defaultCooldown else cooldown

/-- How long `waitActionDelay` waits. -/
def delayOf (action : HealthCheckAction) : Int :=
  if action.delay = [] then 0
  else
    match parseDuration action.delay with
    | none => 0
    | some delay => max delay 0

end Durations

/-! ## Probes and actions

What the network answers and how a command ends are not known: they are parameters. -/

def probe (answers : HealthCheckTarget → Bool) (target : HealthCheckTarget) : Bool :=
  if target.type = "ping" then answers target
  else if target.type = "http" then answers target
  else false

/-- `probeTargets`: one answer is enough. Otherwise all targets have failed. -/
def probeTargets (answers : HealthCheckTarget → Bool) :
    List HealthCheckTarget → Bool × List HealthCheckTarget
  | [] => (false, [])
  | target :: targets =>
    if probe answers target then (true, [])
    else
      match probeTargets answers targets with
      | (true, _) => (true, [])
      | (false, failures) => (false, target :: failures)

def runAction (works : Bool) (actionType : Text) : Bool :=
  if actionType = "restartInterface" then works
  else if actionType = "restartPppoe" then works
  else if actionType = "failoverUsb" then works
  else if actionType = "rebootSystem" then works
  else false

/-! ## Results -/

inductive Status
  | unknown
  | ok
  | failing
deriving DecidableEq

structure CheckResult where
  name : Text
  status : Status := .unknown
  lastCheck : Option Nat := none
  failureCount : Nat := 0
  lastAction : Text := []
  lastActionAt : Option Nat := none
  inCooldown : Bool := false
  cooldownUntil : Option Int := none

/-- The method `inCooldown`. The zero time lies before every other. -/
def CheckResult.heldAt (r : CheckResult) (now : Nat) : Bool :=
  match r.cooldownUntil with
  | none => false
  | some deadline => (now : Int) < deadline

/-! ## The goroutines -/

/-- Where a goroutine is. -/
inductive Phase
  /-- It waits for the next tick. -/
  | idle
  /-- It has passed the gate and probes the targets. -/
  | probing
  /-- It waits, since the given time, for the delay of an action. -/
  | waiting (since : Nat) (action : HealthCheckAction) (rest : List HealthCheckAction)
  /-- The action runs. -/
  | acting (action : HealthCheckAction) (rest : List HealthCheckAction)
  /-- The action has succeeded; the cooldown has not begun. -/
  | succeeded
  /-- It has returned, or never started. -/
  | stopped

/-- A probe or an action is running. -/
def Phase.Running : Phase → Prop
  | .probing => True
  | .acting _ _ => True
  | _ => False

/-- The loop of `executeActions` over the actions that are left. -/
def Phase.tryActions (now : Nat) : List HealthCheckAction → Phase
  | [] => .idle
  | action :: rest => .waiting now action rest

structure State (cfg : HealthCheckConfig) where
  now : Nat
  results : Text → Option CheckResult
  phase : cfg.Id → Phase
  cancelled : Bool

variable {cfg : HealthCheckConfig}

/-- `Start`. -/
def started (cfg : HealthCheckConfig) (now : Nat) : State cfg where
  now := now
  results name :=
    if cfg.enabled ∧ ∃ check ∈ cfg.checks, check.name = name then some { name } else none
  phase _ := if cfg.enabled then .idle else .stopped
  cancelled := false

namespace State

variable (s : State cfg) (i : cfg.Id)

def go (p : Phase) : State cfg :=
  { s with phase := fun j => if j = i then p else s.phase j }

/-- Change the result of a check, if it has one. -/
def modifyResult (name : Text) (f : CheckResult → CheckResult) : State cfg :=
  { s with results := fun n => if n = name then (s.results n).map f else s.results n }

def resetCounter (name : Text) : State cfg :=
  s.modifyResult name fun r =>
    { r with failureCount := 0, status := .ok, inCooldown := false, cooldownUntil := none }

def recordAction (name actionType : Text) : State cfg :=
  s.modifyResult name fun r => { r with lastAction := actionType, lastActionAt := some s.now }

def startCooldown (name : Text) (cooldown : Int) : State cfg :=
  s.modifyResult name fun r =>
    { r with inCooldown := true, failureCount := 0, cooldownUntil := some (s.now + cooldown) }

/-- The result that `executeCheck` works on. -/
def resultOf (name : Text) : CheckResult :=
  (s.results name).getD { name }

/-- The gate of `executeCheck`. -/
def executeCheck : State cfg :=
  if ((s.results (cfg.check i).name).map (·.heldAt s.now)).getD false then s else s.go i .probing

/-- What `executeCheck` notes under the lock. -/
def noteProbe (ok : Bool) (r : CheckResult) : CheckResult :=
  if ok then { r with lastCheck := some s.now, status := .ok, failureCount := 0 }
  else { r with lastCheck := some s.now, status := .failing, failureCount := r.failureCount + 1 }

/-- The rest of `executeCheck`, once the targets have been probed. -/
def recordProbe (ok : Bool) : State cfg :=
  let check := cfg.check i
  let result := s.noteProbe ok (s.resultOf check.name)
  let shouldAct : Bool := check.failureThreshold ≤ result.failureCount ∧ 0 < check.failureThreshold
  { s with results := fun n => if n = check.name then some result else s.results n }.go i
    (if shouldAct then Phase.tryActions s.now check.actions else .idle)

end State

/-! ## Steps -/

inductive Event (cfg : HealthCheckConfig)
  | elapse (d : Nat)
  /-- A tick of the entry reaches `executeCheck`. -/
  | tick (i : cfg.Id)
  /-- The probe of the entry ends. -/
  | probed (i : cfg.Id) (ok : Bool)
  /-- The delay is over and the action starts. -/
  | act (i : cfg.Id)
  /-- The action returns. -/
  | acted (i : cfg.Id) (ok : Bool)
  | cool (i : cfg.Id)
  /-- `ResetCounter`. -/
  | reset (name : Text)
  /-- `Stop`. -/
  | stop
  /-- `waitActionDelay` finds the context ended. -/
  | giveUp (i : cfg.Id)
  /-- `runCheck` finds the context ended. -/
  | leave (i : cfg.Id)
deriving DecidableEq

section Machine

variable (parseDuration : Text → Option Int)

/-- When an event may happen. -/
def Enabled (s : State cfg) : Event cfg → Prop
  | .elapse _ => True
  | .tick i => s.phase i = .idle
  | .probed i ok =>
    s.phase i = .probing ∧ ∃ answers, (probeTargets answers (cfg.check i).targets).1 = ok
  | .act i => ∃ since action rest, s.phase i = .waiting since action rest ∧
      since + delayOf parseDuration action ≤ s.now
  | .acted i ok => ∃ action rest, s.phase i = .acting action rest ∧
      ∃ works, runAction works action.type = ok
  | .cool i => s.phase i = .succeeded
  | .reset _ => True
  | .stop => True
  | .giveUp i => s.cancelled ∧ ∃ since action rest, s.phase i = .waiting since action rest ∧
      0 < delayOf parseDuration action
  | .leave i => s.cancelled ∧ s.phase i = .idle

def health (cfg : HealthCheckConfig) : Machine (State cfg) (Event cfg) where
  Init s := ∃ now, s = started cfg now
  step s
    | .elapse d => { s with now := s.now + d }
    | .tick i => s.executeCheck i
    | .probed i ok => s.recordProbe i ok
    | .act i =>
      match s.phase i with
      | .waiting _ action rest =>
        (s.recordAction (cfg.check i).name action.type).go i (.acting action rest)
      | _ => s
    | .acted i ok =>
      match s.phase i with
      | .acting _ rest => s.go i (if ok then .succeeded else Phase.tryActions s.now rest)
      | _ => s
    | .cool i =>
      (s.startCooldown (cfg.check i).name (cooldownOf parseDuration (cfg.check i))).go i .idle
    | .reset name => s.resetCounter name
    | .stop => { s with cancelled := true }
    | .giveUp i => s.go i .idle
    | .leave i => s.go i .stopped

end Machine

/-! ## What a history says about a check -/

section History

variable (i : cfg.Id)

def countEvent (n : Nat) : Event cfg → Nat
  | .probed j ok => if j = i then (if ok then 0 else n + 1) else n
  | .cool j => if j = i then 0 else n
  | .reset name => if name = (cfg.check i).name then 0 else n
  | _ => n

/-- The failing probes since the last successful one, cooldown or reset. -/
def streak (es : List (Event cfg)) : Nat :=
  es.foldl (countEvent i) 0

def noteReset (seen : Bool) : Event cfg → Bool
  | .probed j _ => if j = i then false else seen
  | .reset name => if name = (cfg.check i).name then true else seen
  | _ => seen

/-- The check was reset after its last probe. -/
def resetSinceProbe (es : List (Event cfg)) : Bool :=
  es.foldl (noteReset i) false

variable (parseDuration : Text → Option Int)

/-- An action of the check has succeeded, there has been no reset since, and its cooldown is
not over: it has not begun, or it is still less than its length ago that it did. -/
def Held (s : State cfg) (es : List (Event cfg)) : Prop :=
  ∃ before since, es = before ++ .acted i true :: since ∧
    .reset (cfg.check i).name ∉ since ∧
    ∀ pre post, since = pre ++ .cool i :: post → .cool i ∉ pre →
      (((health parseDuration cfg).run s es).now : Int) <
        ((health parseDuration cfg).run s (before ++ .acted i true :: pre)).now +
          cooldownOf parseDuration (cfg.check i)

/-- Actions start on enough failures, and nothing runs while the check is held. -/
structure Orderly (s : State cfg) (es : List (Event cfg)) : Prop where
  backed : ∀ pre, pre ++ [.act i] <+: es → (cfg.check i).failureThreshold ≤ streak i pre
  quiet : ∀ pre, pre <+: es → Held i parseDuration s pre →
    ¬ (((health parseDuration cfg).run s pre).phase i).Running

end History

/-! ## Frames -/

section Frames

variable {s : State cfg} {i j : cfg.Id} {p : Phase} {name name' : Text}
  {f : CheckResult → CheckResult}

namespace State

@[simp] theorem go_phase_self : (s.go i p).phase i = p :=
  if_pos rfl

theorem go_phase_of_ne (h : i ≠ j) : (s.go j p).phase i = s.phase i :=
  if_neg h

@[simp] theorem go_results : (s.go i p).results = s.results := rfl

@[simp] theorem modifyResult_results_self :
    (s.modifyResult name f).results name = (s.results name).map f :=
  if_pos rfl

theorem modifyResult_results_of_ne (h : name' ≠ name) :
    (s.modifyResult name f).results name' = s.results name' :=
  if_neg h

end State

/-- The event is one of the check: a step of its goroutine or a reset. -/
def Event.Concerns (i : cfg.Id) : Event cfg → Prop
  | .elapse _ => False
  | .tick j => j = i
  | .probed j _ => j = i
  | .act j => j = i
  | .acted j _ => j = i
  | .cool j => j = i
  | .reset name => name = (cfg.check i).name
  | .stop => False
  | .giveUp j => j = i
  | .leave j => j = i

variable {parseDuration : Text → Option Int} {e : Event cfg}

/-- What is not about a check leaves it alone, as long as no other has its name. -/
theorem step_frame (hname : ∀ j, (cfg.check j).name = (cfg.check i).name → j = i)
    (h : ¬ e.Concerns i) :
    ((health parseDuration cfg).step s e).phase i = s.phase i ∧
      ((health parseDuration cfg).step s e).results (cfg.check i).name =
        s.results (cfg.check i).name := by
  have hother : ∀ {j : cfg.Id}, ¬ j = i → i ≠ j ∧ (cfg.check i).name ≠ (cfg.check j).name :=
    fun hj => ⟨fun heq => hj heq.symm, fun heq => hj (hname _ heq.symm)⟩
  cases e with
  | elapse d => exact ⟨rfl, rfl⟩
  | tick j =>
    simp only [health, State.executeCheck]
    split
    · exact ⟨rfl, rfl⟩
    · exact ⟨State.go_phase_of_ne (hother h).1, rfl⟩
  | probed j ok => exact ⟨State.go_phase_of_ne (hother h).1, if_neg (hother h).2⟩
  | act j =>
    simp only [health]
    split
    · exact ⟨State.go_phase_of_ne (hother h).1, State.modifyResult_results_of_ne (hother h).2⟩
    · exact ⟨rfl, rfl⟩
  | acted j ok =>
    simp only [health]
    split
    · exact ⟨State.go_phase_of_ne (hother h).1, rfl⟩
    · exact ⟨rfl, rfl⟩
  | cool j =>
    exact ⟨State.go_phase_of_ne (hother h).1, State.modifyResult_results_of_ne (hother h).2⟩
  | reset name => exact ⟨rfl, State.modifyResult_results_of_ne fun heq => h heq.symm⟩
  | stop => exact ⟨rfl, rfl⟩
  | giveUp j => exact ⟨State.go_phase_of_ne (hother h).1, rfl⟩
  | leave j => exact ⟨State.go_phase_of_ne (hother h).1, rfl⟩

/-- Nor does it count in the history of the check. -/
theorem history_frame (h : ¬ e.Concerns i) (n : Nat) (seen : Bool) :
    countEvent i n e = n ∧ noteReset i seen e = seen := by
  cases e with
  | probed j ok => exact ⟨if_neg h, if_neg h⟩
  | cool j => exact ⟨if_neg h, rfl⟩
  | reset name => exact ⟨if_neg h, if_neg h⟩
  | _ => exact ⟨rfl, rfl⟩

end Frames

/-! ## Failures that are counted -/

section Counting

variable {s : State cfg} {i : cfg.Id} {parseDuration : Text → Option Int} {pre : List (Event cfg)}
  {e : Event cfg}

@[simp] theorem streak_concat : streak i (pre ++ [e]) = countEvent i (streak i pre) e :=
  foldl_concat ..

@[simp] theorem resetSinceProbe_concat :
    resetSinceProbe i (pre ++ [e]) = noteReset i (resetSinceProbe i pre) e :=
  foldl_concat ..

/-- An update that treats the counter of a check that has no result yet like any other. -/
theorem failureCount_modifyResult {name : Text} {f : CheckResult → CheckResult} {g : Nat → Nat}
    (hf : ∀ r, (f r).failureCount = g r.failureCount) (hg : g 0 = 0) :
    ((s.modifyResult name f).resultOf name).failureCount = g (s.resultOf name).failureCount := by
  rw [State.resultOf, State.resultOf, State.modifyResult_results_self]
  cases s.results name with
  | none => exact hg.symm
  | some r => exact hf r

/-- The goroutine is in `executeActions`, with an action to start or to wait for. -/
def Phase.Trying : Phase → Prop
  | .waiting _ _ _ => True
  | .acting _ _ => True
  | _ => False

/-- What holds of a check after a history. -/
structure Counted (i : cfg.Id) (pre : List (Event cfg)) (s : State cfg) : Prop where
  known : s.phase i = .stopped ∨ (s.results (cfg.check i).name).isSome
  count : (s.resultOf (cfg.check i).name).failureCount = streak i pre
  cleared : resetSinceProbe i pre → streak i pre = 0
  /-- the verdict was right, and may only have been outdated by a reset -/
  verdict : (s.phase i).Trying → 0 < (cfg.check i).failureThreshold ∧
    (resetSinceProbe i pre ∨ (cfg.check i).failureThreshold ≤ streak i pre)

theorem counted_started (i : cfg.Id) (now : Nat) : Counted i [] (started cfg now) := by
  refine ⟨?_, ?_, nofun, ?_⟩
  · by_cases hen : cfg.enabled
    · have hmem : ∃ check ∈ cfg.checks, check.name = (cfg.check i).name :=
        ⟨_, get_mem .., rfl⟩
      exact .inr (by simp [started, hen, hmem])
    · exact .inl (by simp [started, hen])
  · simp only [started, State.resultOf]
    split <;> rfl
  · intro htry
    by_cases hen : cfg.enabled <;> simp [started, hen, Phase.Trying] at htry

/-- A step that leaves the counter and the history of the check alone. -/
theorem Counted.keep (h : Counted i pre s) {t : State cfg}
    (hcount : countEvent i (streak i pre) e = streak i pre)
    (hreset : noteReset i (resetSinceProbe i pre) e = resetSinceProbe i pre)
    (hknown : t.phase i = .stopped ∨ (t.results (cfg.check i).name).isSome)
    (hfailures : (t.resultOf (cfg.check i).name).failureCount =
      (s.resultOf (cfg.check i).name).failureCount)
    (htry : (t.phase i).Trying → (s.phase i).Trying) : Counted i (pre ++ [e]) t := by
  refine ⟨hknown, ?_, ?_, ?_⟩
  · rw [streak_concat, hcount, hfailures, h.count]
  · rw [streak_concat, hcount, resetSinceProbe_concat, hreset]
    exact h.cleared
  · rw [streak_concat, hcount, resetSinceProbe_concat, hreset]
    exact fun ht => h.verdict (htry ht)

/-- So does a step of its goroutine that only changes the phase. -/
theorem Counted.go (h : Counted i pre s) {p : Phase}
    (hcount : countEvent i (streak i pre) e = streak i pre)
    (hreset : noteReset i (resetSinceProbe i pre) e = resetSinceProbe i pre)
    (hphase : s.phase i ≠ .stopped) (htry : p.Trying → (s.phase i).Trying) :
    Counted i (pre ++ [e]) (s.go i p) := by
  refine h.keep hcount hreset (.inr (h.known.resolve_left hphase)) rfl ?_
  rwa [State.go_phase_self]

theorem trying_tryActions {now : Nat} {actions : List HealthCheckAction} {b : Prop} [Decidable b]
    (h : (if b then Phase.tryActions now actions else .idle).Trying) : b := by
  by_contra hb
  rw [if_neg hb] at h
  exact h

theorem Counted.recordProbe (h : Counted i pre s) (ok : Bool) :
    Counted i (pre ++ [.probed i ok]) (s.recordProbe i ok) := by
  have hcount : (s.noteProbe ok (s.resultOf (cfg.check i).name)).failureCount =
      streak i (pre ++ [.probed i ok]) := by
    rw [streak_concat, ← h.count]
    cases ok <;> simp [State.noteProbe, countEvent]
  have hreset : resetSinceProbe i (pre ++ [.probed i ok]) = false := by
    rw [resetSinceProbe_concat]
    exact if_pos rfl
  have hresult : (s.recordProbe i ok).results (cfg.check i).name =
      some (s.noteProbe ok (s.resultOf (cfg.check i).name)) := if_pos rfl
  refine ⟨.inr ?_, ?_, ?_, ?_⟩
  · rw [hresult]
    rfl
  · rw [State.resultOf, hresult]
    exact hcount
  · rw [hreset]
    nofun
  · intro htry
    have hact := decide_eq_true_iff.mp (trying_tryActions (State.go_phase_self ▸ htry))
    rw [hcount] at hact
    exact ⟨hact.2, .inr hact.1⟩

/-- A cooldown or a reset sets the counter to zero. -/
theorem Counted.clear (h : Counted i pre s) {t : State cfg} {f : CheckResult → CheckResult}
    (hf : ∀ r, (f r).failureCount = 0) (hcount : ∀ n, countEvent i n e = 0)
    (hresults : t.results = (s.modifyResult (cfg.check i).name f).results)
    (hphase : s.phase i = .stopped → t.phase i = .stopped)
    (htry : (t.phase i).Trying → (s.phase i).Trying ∧ noteReset i (resetSinceProbe i pre) e) :
    Counted i (pre ++ [e]) t := by
  refine ⟨?_, ?_, ?_, ?_⟩
  · rw [hresults, State.modifyResult_results_self, isSome_map]
    exact h.known.imp_left hphase
  · rw [State.resultOf, hresults, streak_concat, hcount]
    exact failureCount_modifyResult (g := fun _ => 0) hf rfl
  · rw [streak_concat, hcount]
    exact fun _ => rfl
  · intro ht
    rw [resetSinceProbe_concat]
    exact ⟨(h.verdict (htry ht).1).1, .inl (htry ht).2⟩

theorem Counted.step (hname : ∀ j, (cfg.check j).name = (cfg.check i).name → j = i)
    (h : Counted i pre s) (he : Enabled parseDuration s e) :
    Counted i (pre ++ [e]) ((health parseDuration cfg).step s e) := by
  by_cases hconcerns : e.Concerns i
  swap
  · obtain ⟨hcount, hreset⟩ := history_frame hconcerns (streak i pre) (resetSinceProbe i pre)
    obtain ⟨hphase, hresult⟩ := step_frame hname hconcerns
    refine h.keep hcount hreset ?_ ?_ ?_
    · rw [hphase, hresult]
      exact h.known
    · rw [State.resultOf, hresult, State.resultOf]
    · rw [hphase]
      exact id
  cases e with
  | elapse d => exact hconcerns.elim
  | stop => exact hconcerns.elim
  | tick j =>
    obtain rfl : j = i := hconcerns
    change Counted j _ (s.executeCheck j)
    unfold State.executeCheck
    split
    · exact h.keep rfl rfl h.known rfl id
    · have hidle : s.phase j = .idle := he
      exact h.go rfl rfl (by rw [hidle]; nofun) nofun
  | probed j ok =>
    obtain rfl : j = i := hconcerns
    exact h.recordProbe ok
  | act j =>
    obtain rfl : j = i := hconcerns
    obtain ⟨since, action, rest, hphase, -⟩ := he
    have hstep : (health parseDuration cfg).step s (.act j) =
        (s.recordAction (cfg.check j).name action.type).go j (.acting action rest) := by
      simp only [health, hphase]
    rw [hstep]
    have hknown := h.known.resolve_left (by rw [hphase]; nofun)
    refine h.keep rfl rfl (.inr ?_) ?_ ?_
    · rw [State.go_results, State.recordAction, State.modifyResult_results_self, isSome_map]
      exact hknown
    · exact failureCount_modifyResult (g := id) (fun _ => rfl) rfl
    · intro _
      rw [hphase]
      trivial
  | acted j ok =>
    obtain rfl : j = i := hconcerns
    obtain ⟨action, rest, hphase, -⟩ := he
    have hstep : (health parseDuration cfg).step s (.acted j ok) =
        s.go j (if ok then .succeeded else Phase.tryActions s.now rest) := by
      simp only [health, hphase]
    rw [hstep]
    refine h.go rfl rfl ?_ ?_
    · rw [hphase]
      nofun
    · intro _
      rw [hphase]
      trivial
  | cool j =>
    obtain rfl : j = i := hconcerns
    have hphase : s.phase j = .succeeded := he
    refine h.clear (fun _ => rfl) (fun _ => if_pos rfl) rfl ?_ ?_
    · rw [hphase]
      nofun
    · have hidle : ((health parseDuration cfg).step s (.cool j)).phase j = .idle :=
        State.go_phase_self
      rw [hidle]
      nofun
  | reset name =>
    obtain rfl : name = (cfg.check i).name := hconcerns
    exact h.clear (fun _ => rfl) (fun _ => if_pos rfl) rfl id fun ht => ⟨ht, if_pos rfl⟩
  | giveUp j =>
    obtain rfl : j = i := hconcerns
    obtain ⟨-, since, action, rest, hphase, -⟩ := he
    exact h.go rfl rfl (by rw [hphase]; nofun) nofun
  | leave j =>
    obtain rfl : j = i := hconcerns
    exact h.go rfl rfl (by rw [he.2]; nofun) nofun

end Counting

/-! ## Cooldowns that are kept -/

section Cooling

variable {s : State cfg} {i : cfg.Id} {parseDuration : Text → Option Int} {e : Event cfg}

theorem now_le_step : s.now ≤ ((health parseDuration cfg).step s e).now := by
  cases e with
  | elapse d => exact Nat.le_add_right ..
  | tick j =>
    simp only [health, State.executeCheck]
    split <;> exact Nat.le_refl _
  | act j =>
    simp only [health]
    split <;> exact Nat.le_refl _
  | acted j ok =>
    simp only [health]
    split <;> exact Nat.le_refl _
  | _ => exact Nat.le_refl _

/-- What a goroutine at rest can do. -/
theorem Enabled.of_resting (he : Enabled parseDuration s e) (hconcerns : e.Concerns i)
    (hphase : s.phase i = .idle ∨ s.phase i = .stopped) :
    e = .tick i ∨ e = .leave i ∨ e = .reset (cfg.check i).name := by
  rcases hphase with hphase | hphase <;> cases e <;> simp_all [Event.Concerns, Enabled]

/-- After a success, all that is left is the cooldown. -/
theorem Enabled.of_succeeded (he : Enabled parseDuration s e) (hconcerns : e.Concerns i)
    (hphase : s.phase i = .succeeded) : e = .cool i ∨ e = .reset (cfg.check i).name := by
  cases e <;> simp_all [Event.Concerns, Enabled]

/-- Until the deadline the goroutine is at rest and finds the deadline in the map. -/
def Cooling (i : cfg.Id) (deadline : Int) (s : State cfg) : Prop :=
  (s.now : Int) < deadline → (s.phase i = .idle ∨ s.phase i = .stopped) ∧
    ∃ r, s.results (cfg.check i).name = some r ∧ r.cooldownUntil = some deadline

theorem Cooling.step (hname : ∀ j, (cfg.check j).name = (cfg.check i).name → j = i)
    {deadline : Int} (h : Cooling i deadline s) (he : Enabled parseDuration s e)
    (hreset : e ≠ .reset (cfg.check i).name) :
    Cooling i deadline ((health parseDuration cfg).step s e) := by
  intro hnow
  have hle : s.now ≤ ((health parseDuration cfg).step s e).now := now_le_step
  have hbefore : (s.now : Int) < deadline := by omega
  obtain ⟨hphase, r, hr, hdeadline⟩ := h hbefore
  by_cases hconcerns : e.Concerns i
  · rcases he.of_resting hconcerns hphase with rfl | rfl | rfl
    · -- the gate refuses the tick
      have hheld : r.heldAt s.now := by
        rw [CheckResult.heldAt, hdeadline]
        exact decide_eq_true hbefore
      have hstep : (health parseDuration cfg).step s (.tick i) = s := by
        change s.executeCheck i = s
        rw [State.executeCheck, hr, map_some, hheld]
        exact if_pos rfl
      rw [hstep]
      exact ⟨hphase, r, hr, hdeadline⟩
    · exact ⟨.inr State.go_phase_self, r, hr, hdeadline⟩
    · exact absurd rfl hreset
  · obtain ⟨hphase', hresult⟩ : ((health parseDuration cfg).step s e).phase i = s.phase i ∧
        ((health parseDuration cfg).step s e).results (cfg.check i).name =
          s.results (cfg.check i).name := step_frame hname hconcerns
    rw [hphase', hresult]
    exact ⟨hphase, r, hr, hdeadline⟩

/-- The cooldown that begins after a success. -/
theorem cooling_startCooldown (hknown : (s.results (cfg.check i).name).isSome) :
    Cooling i (s.now + cooldownOf parseDuration (cfg.check i))
      ((health parseDuration cfg).step s (.cool i)) := by
  intro _
  obtain ⟨r, hr⟩ := isSome_iff_exists.mp hknown
  refine ⟨.inl State.go_phase_self, ?_⟩
  change ∃ r, ((s.startCooldown _ _).results _) = some r ∧ _
  rw [State.startCooldown, State.modifyResult_results_self, hr]
  exact ⟨_, rfl, rfl⟩

/-- What has become of a success, if there was no reset since. -/
def AfterSuccess (i : cfg.Id) (parseDuration : Text → Option Int) (s : State cfg)
    (since : List (Event cfg)) (t : State cfg) : Prop :=
  (.cool i ∉ since ∧ t.phase i = .succeeded ∧ (t.results (cfg.check i).name).isSome) ∨
    ∃ pre post, since = pre ++ .cool i :: post ∧ .cool i ∉ pre ∧
      Cooling i (((health parseDuration cfg).run s pre).now + cooldownOf parseDuration (cfg.check i)) t

theorem afterSuccess_run (hname : ∀ j, (cfg.check j).name = (cfg.check i).name → j = i)
    (hphase : s.phase i = .succeeded) (hknown : (s.results (cfg.check i).name).isSome)
    {since : List (Event cfg)}
    (hsince : (health parseDuration cfg).Guarded (Enabled parseDuration) s since)
    (hreset : .reset (cfg.check i).name ∉ since) :
    AfterSuccess i parseDuration s since ((health parseDuration cfg).run s since) := by
  have hrun := Machine.Guarded.history
    (P := fun since t => .reset (cfg.check i).name ∉ since → AfterSuccess i parseDuration s since t)
    (fun _ => .inl ⟨not_mem_nil, hphase, hknown⟩) ?_ hsince
  · exact hrun hreset
  intro pre e ih he hnot
  rw [mem_append, mem_singleton, not_or] at hnot
  rcases ih hnot.1 with ⟨hnone, hphase, hknown⟩ | ⟨front, post, rfl, hfront, hcooling⟩
  · by_cases hconcerns : e.Concerns i
    · rcases he.of_succeeded hconcerns hphase with rfl | rfl
      · exact .inr ⟨pre, [], rfl, hnone, cooling_startCooldown hknown⟩
      · exact absurd rfl hnot.2
    · obtain ⟨hphase', hresult⟩ := step_frame hname hconcerns
      refine .inl ⟨?_, hphase'.trans hphase, ?_⟩
      · rw [mem_append, mem_singleton, not_or]
        exact ⟨hnone, fun heq => hconcerns (heq ▸ rfl)⟩
      · rw [hresult]
        exact hknown
  · refine .inr ⟨front, post ++ [e], ?_, hfront, hcooling.step hname he (Ne.symm hnot.2)⟩
    rw [append_assoc, cons_append]

variable {now : Nat} {es : List (Event cfg)}

theorem counted_run (hname : ∀ j, (cfg.check j).name = (cfg.check i).name → j = i)
    (hes : (health parseDuration cfg).Guarded (Enabled parseDuration) (started cfg now) es) :
    Counted i es ((health parseDuration cfg).run (started cfg now) es) :=
  hes.history (counted_started i now) fun _ _ h he => h.step hname he

theorem not_running_of_held (hname : ∀ j, (cfg.check j).name = (cfg.check i).name → j = i)
    (hes : (health parseDuration cfg).Guarded (Enabled parseDuration) (started cfg now) es)
    (hheld : Held i parseDuration (started cfg now) es) :
    ¬ (((health parseDuration cfg).run (started cfg now) es).phase i).Running := by
  obtain ⟨before, since, rfl, hreset, hcool⟩ := hheld
  -- the state after the success
  rw [append_cons, Machine.guarded_append] at hes
  obtain ⟨hbefore, hsince⟩ := hes
  have hphase : ((health parseDuration cfg).run (started cfg now)
      (before ++ [.acted i true])).phase i = .succeeded := by
    obtain ⟨action, rest, hacting, -⟩ := (Machine.guarded_append.mp hbefore).2.1
    rw [Machine.run_concat]
    simp only [health] at hacting ⊢
    rw [hacting]
    exact State.go_phase_self
  have hknown := (counted_run hname hbefore).known.resolve_left (by rw [hphase]; nofun)
  have hafter := afterSuccess_run hname hphase hknown hsince hreset
  rw [← Machine.run_append, ← append_cons] at hafter
  rcases hafter with ⟨-, hsucceeded, -⟩ | ⟨pre, post, rfl, hpre, hcooling⟩
  · rw [hsucceeded]
    exact id
  rw [← Machine.run_append, ← append_cons] at hcooling
  rcases (hcooling (hcool pre post rfl hpre)).1 with hidle | hstopped
  · rw [hidle]
    exact id
  · rw [hstopped]
    exact id

end Cooling

/-! ## Actions and resets -/

/-- **Recovery actions.** As long as no other entry has the name of a check, nothing of it runs
from a success to the end of the cooldown, and all its actions start on enough failures exactly
if none starts after a reset that followed the verdict. -/
theorem acts_on_failures_iff (parseDuration : Text → Option Int) (cfg : HealthCheckConfig)
    (i : cfg.Id) (hname : ∀ j, (cfg.check j).name = (cfg.check i).name → j = i) (now : Nat)
    {es : List (Event cfg)}
    (hes : (health parseDuration cfg).Guarded (Enabled parseDuration) (started cfg now) es) :
    Orderly i parseDuration (started cfg now) es ↔
      ∀ pre, pre ++ [.act i] <+: es → resetSinceProbe i pre = false := by
  have hguard := Machine.guarded_iff.mp hes
  have hpre : ∀ pre, pre <+: es →
      (health parseDuration cfg).Guarded (Enabled parseDuration) (started cfg now) pre :=
    fun pre hpre => Machine.guarded_iff.mpr fun pre' e he => hguard pre' e (he.trans hpre)
  have hbacked : ∀ pre, pre ++ [.act i] <+: es →
      ((cfg.check i).failureThreshold ≤ streak i pre ↔ resetSinceProbe i pre = false) := by
    intro pre h
    have hcounted := counted_run hname (hpre pre ((prefix_append ..).trans h))
    obtain ⟨since, action, rest, hphase, -⟩ := hguard pre _ h
    obtain ⟨hpos, hverdict⟩ := hcounted.verdict (by rw [hphase]; trivial)
    constructor
    · intro hle
      rw [← Bool.not_eq_true]
      intro hreset
      rw [hcounted.cleared hreset] at hle
      omega
    · intro hreset
      rw [hreset] at hverdict
      exact hverdict.resolve_left nofun
  constructor
  · intro h pre hact
    exact (hbacked pre hact).mp (h.backed pre hact)
  · intro h
    exact ⟨fun pre hact => (hbacked pre hact).mpr (h pre hact),
      fun pre hprefix => not_running_of_held hname (hpre pre hprefix)⟩

theorem resetSinceProbe_of_not_mem {i : cfg.Id} {es : List (Event cfg)}
    (h : .reset (cfg.check i).name ∉ es) : resetSinceProbe i es = false := by
  induction es using reverseRecOn with
  | nil => rfl
  | append_singleton es e ih =>
    rw [mem_append, mem_singleton, not_or] at h
    rw [resetSinceProbe_concat, ih h.1]
    cases e with
    | probed j ok => exact ite_self _
    | reset name => exact if_neg fun heq => h.2 (by rw [heq])
    | _ => rfl

/-- Two failures restart the interface, half a minute later. -/
def wanCheck : HealthCheckEntry where
  name := "wan"
  targets := [{ type := "ping", host := "1.1.1.1" }]
  failureThreshold := 2
  actions := [{ type := "restartInterface", delay := "30s" }]

/-- What `time.ParseDuration` makes of the texts of that check. -/
def wanDurations (t : Text) : Option Int :=
  if t = "30s" then some 30000000000 else none

def wanConfig : HealthCheckConfig := ⟨true, [wanCheck]⟩

def wan : wanConfig.Id := ⟨0, Nat.zero_lt_one⟩

/-- The check fails twice, is acted on and cools down. -/
def recovery : List (Event wanConfig) :=
  [.tick wan, .probed wan false, .elapse 30000000000, .tick wan, .probed wan false,
    .elapse 30000000000, .act wan, .acted wan true, .cool wan, .tick wan]

theorem recovery_orderly :
    (health wanDurations wanConfig).Guarded (Enabled wanDurations) (started wanConfig 0) recovery ∧
      Orderly wan wanDurations (started wanConfig 0) recovery := by
  have hrecovery : (health wanDurations wanConfig).Guarded (Enabled wanDurations)
      (started wanConfig 0) recovery := by
    refine ⟨rfl, ⟨rfl, fun _ => false, rfl⟩, trivial, rfl, ⟨rfl, fun _ => false, rfl⟩, trivial,
      ⟨30000000000, _, _, rfl, ?_⟩, ⟨_, _, rfl, true, rfl⟩, rfl, rfl, trivial⟩
    decide
  refine ⟨hrecovery, (acts_on_failures_iff wanDurations wanConfig wan ?_ 0 hrecovery).mpr ?_⟩
  · exact fun j _ => Subsingleton.elim (α := Fin 1) j wan
  · intro pre hpre
    refine resetSinceProbe_of_not_mem fun hmem => ?_
    have hin : .reset _ ∈ recovery := ((prefix_append ..).trans hpre).subset hmem
    simp [recovery] at hin

/-- The operator resets the check while it waits to be acted on. -/
def resetInBetween : List (Event wanConfig) :=
  [.tick wan, .probed wan false, .elapse 30000000000, .tick wan, .probed wan false,
    .elapse 10000000000, .reset "wan", .elapse 20000000000, .act wan]

/-- Two entries with one name. -/
def twinConfig : HealthCheckConfig := ⟨true, [wanCheck, wanCheck]⟩

def firstTwin : twinConfig.Id := ⟨0, Nat.zero_lt_two⟩

def secondTwin : twinConfig.Id := ⟨1, Nat.one_lt_two⟩

/-- Each of them fails once. -/
def twinFailures : List (Event twinConfig) :=
  [.tick firstTwin, .probed firstTwin false, .tick secondTwin, .probed secondTwin false,
    .elapse 30000000000, .act secondTwin]

/-- The interface is restarted although nothing has failed since the reset; and after a single
failure of an entry whose name another has. -/
theorem acts_without_failures :
    ((health wanDurations wanConfig).Guarded (Enabled wanDurations) (started wanConfig 0)
        resetInBetween ∧
      streak wan resetInBetween = 0 ∧
      ¬ Orderly wan wanDurations (started wanConfig 0) resetInBetween) ∧
    (health wanDurations twinConfig).Guarded (Enabled wanDurations) (started twinConfig 0)
        twinFailures ∧
      streak secondTwin twinFailures = 1 ∧
      ¬ Orderly secondTwin wanDurations (started twinConfig 0) twinFailures := by
  refine ⟨⟨?_, by decide, fun h => ?_⟩, ?_, by decide, fun h => ?_⟩
  · refine ⟨rfl, ⟨rfl, fun _ => false, rfl⟩, trivial, rfl, ⟨rfl, fun _ => false, rfl⟩, trivial,
      trivial, trivial, ⟨30000000000, _, _, rfl, ?_⟩, trivial⟩
    decide
  · exact absurd (h.backed resetInBetween.dropLast (by decide)) (by decide)
  · refine ⟨rfl, ⟨rfl, fun _ => false, rfl⟩, rfl, ⟨rfl, fun _ => false, rfl⟩, trivial,
      ⟨0, _, _, rfl, ?_⟩, trivial⟩
    decide
  · exact absurd (h.backed twinFailures.dropLast (by decide)) (by decide)

end Lankeeper.Health
