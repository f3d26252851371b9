import Lankeeper.Lib.Machine
import Lankeeper.Lib.Text

/-!
# Lankeeper.Firewall.Service — the firewall service as a machine

`internal/services/firewall.go` and `internal/netutil/atomic.go`. Apply loads the
rendered config into the kernel and arms a watchdog; Confirm keeps the ruleset
and writes the boot file; Rollback and the watchdog load the snapshot back. The
pending change lives in process memory, a record of it on disk survives restarts
of the process, and a marker file remembers that the watchdog rolled back.

`nft` and the template are parameters (`Env`), with the two facts about them that
the development needs: no rendering is empty, and a listing loads back to the
ruleset it lists. Every fallible operation takes its outcome from `Ops`, chosen
by whoever schedules the step. A background `ApplyAndConfirm` is three steps,
since it holds the lock in two of them only.
-/

namespace Lankeeper.Firewall

open Lib Text

/-! ## nft and the template -/

/-- `emptyRulesetSnapshot`. -/
def emptyRulesetSnapshot : Text := "# empty ruleset\n"

/-- What `AtomicChange.Snapshot` keeps of a listing. -/
def snapshotOf (out : Text) : Text :=
  if trimSpace out = [] then emptyRulesetSnapshot else out

/-- The file `AtomicChange.Rollback` loads: flush and snapshot in one
transaction. -/
def rollbackFile (snapshot : Text) : Text :=
  "flush ruleset\n" ++ snapshot

theorem snapshotOf_ne_nil (out : Text) : snapshotOf out ≠ [] := by
  unfold snapshotOf
  split
  · decide
  · next h =>
    rintro rfl
    exact h (by decide)

/-- Rulesets `K` under nft, and the configs `C` that render to nft files. -/
structure Env (K C : Type) where
  /-- `RenderConfig`, `none` on an error -/
  render : C → Option Text
  /-- `nft list ruleset` -/
  list : K → Text
  /-- `nft -f`, one transaction: `none` leaves the ruleset alone -/
  load : Text → K → Option K
  render_ne_nil : ∀ c t, render c = some t → t ≠ []
  restores : ∀ k k', load (rollbackFile (snapshotOf (list k))) k' = some k

/-- The outcomes of the operations of one step. -/
structure Ops where
  /-- `nft list ruleset` in Apply -/
  list : Bool := true
  /-- `nft -c -f` in Apply -/
  validate : Bool := true
  /-- `nft -f` in Apply -/
  load : Bool := true
  /-- writing the pending record -/
  persistState : Bool := true
  /-- removing the pending record -/
  removeState : Bool := true
  /-- writing the rollback file -/
  writeRollback : Bool := true
  /-- `nft -f` of the rollback file -/
  loadRollback : Bool := true
  /-- writing the rolled-back marker -/
  mark : Bool := true
  /-- removing the rolled-back marker -/
  unmark : Bool := true
  /-- writing the boot ruleset -/
  persistBoot : Bool := true
deriving DecidableEq

/-! ## State -/

/-- An `AtomicChange`: its identity stands for the pointer. -/
structure Change where
  id : Nat
  snapshot : Text
deriving DecidableEq

/-- `firewallPendingState`. -/
structure PendingState where
  snapshot : Text
  appliedAt : Int
deriving DecidableEq

/-- Where a background `ApplyAndConfirm` stands. -/
inductive CallPhase where
  | idle
  /-- the marker was absent -/
  | checked
  /-- its Apply made this change pending -/
  | applied (change : Nat)
deriving DecidableEq

structure State (K C : Type) where
  kernel : K
  /-- the saved config -/
  config : C
  now : Int
  /-- the state file -/
  pending : Option PendingState
  /-- the marker file exists -/
  rolledBack : Bool
  /-- the boot ruleset file -/
  boot : Option Text
  change : Option Change
  appliedRuleset : Text
  afterReload : Option (C → K → K)
  /-- running timers: change and deadline -/
  armed : List (Nat × Int)
  /-- timers that went off and whose callback waits for the lock -/
  fired : List Nat
  /-- background calls in progress -/
  calls : Nat → CallPhase
  nextId : Nat

variable {K C : Type}

/-- `firewallConfirmWindow`, in seconds. -/
def firewallConfirmWindow : Int := 30

/-! ## Operations -/

namespace State

/-- The ruleset the hook of `SetAfterReload` makes of `k`. -/
def reloaded (s : State K C) (k : K) : K :=
  match s.afterReload with
  | none => k
  | some hook => hook s.config k

/-- `runAfterReload`; an error of the hook is only logged. -/
def runAfterReload (s : State K C) : State K C :=
  { s with kernel := s.reloaded s.kernel }

/-- `AtomicChange.timer.Stop`: a timer that went off stays in `fired`. -/
def stopTimer (id : Nat) (s : State K C) : State K C :=
  { s with armed := s.armed.filter (·.1 ≠ id) }

/-- `armWatchdog`. -/
def armWatchdog (id : Nat) (timeout : Int) (s : State K C) : State K C :=
  { s with armed := (id, s.now + timeout) :: s.armed }

/-- `persistPendingState`; a failed write leaves the record as it was. -/
def persistPendingState (ops : Ops) (snapshot : Text) (s : State K C) : State K C :=
  { s with pending :=
      if snapshot ≠ [] ∧ ops.persistState then some ⟨snapshot, s.now⟩ else s.pending }

/-- `clearPendingState`. -/
def clearPendingState (ops : Ops) (s : State K C) : State K C :=
  { s with pending := if ops.removeState then none else s.pending }

/-- `markRolledBack`. -/
def markRolledBack (ops : Ops) (s : State K C) : State K C :=
  { s with rolledBack := if ops.mark then true else s.rolledBack }

/-- `clearRolledBack`. -/
def clearRolledBack (ops : Ops) (s : State K C) : State K C :=
  { s with rolledBack := if ops.unmark then false else s.rolledBack }

def setCall (call : Nat) (phase : CallPhase) (s : State K C) : State K C :=
  { s with calls := fun n => if n = call then phase else s.calls n }

end State

inductive ApplyError where
  | changePending
  | render
  | snapshot
  | validate
  | apply
deriving DecidableEq

/-- The state after a successful Apply that loaded `rendered` and left `k`. -/
def applied (env : Env K C) (ops : Ops) (rendered : Text) (k : K) (s : State K C) : State K C :=
  let c : Change := ⟨s.nextId, snapshotOf (env.list s.kernel)⟩
  let s' := { s with
    kernel := k
    change := some c
    appliedRuleset := rendered
    nextId := s.nextId + 1 }
  ((s'.persistPendingState ops c.snapshot).armWatchdog c.id firewallConfirmWindow).runAfterReload

/-- `Apply`. -/
def apply (env : Env K C) (ops : Ops) (s : State K C) : Except ApplyError (State K C) :=
  if s.change ≠ none then .error .changePending
  else
    match env.render s.config with
    | none => .error .render
    | some rendered =>
      if ops.list = false then .error .snapshot
      else
        match env.load rendered s.kernel with
        | none => .error .validate
        | some k =>
          if ops.validate = false then .error .validate
          else if ops.load = false then .error .apply
          else .ok (applied env ops rendered k s)

/-- The text `persistConfirmedRuleset` writes: the ruleset kept in memory, or the
config rendered again. -/
def confirmedRuleset (env : Env K C) (s : State K C) : Option Text :=
  if s.appliedRuleset ≠ [] then some s.appliedRuleset else env.render s.config

/-- `persistConfirmedRuleset`. -/
def persistConfirmedRuleset (env : Env K C) (ops : Ops) (s : State K C) : State K C :=
  { s with
    appliedRuleset := []
    boot := if ops.persistBoot then (confirmedRuleset env s).or s.boot else s.boot }

/-- `Confirm`. -/
def confirm (env : Env K C) (ops : Ops) (s : State K C) : State K C :=
  match s.change with
  | none => s.clearPendingState ops
  | some c =>
    let s := { s.stopTimer c.id with change := none }
    ((persistConfirmedRuleset env ops s).clearRolledBack ops).clearPendingState ops

/-- `AtomicChange.Rollback`: the ruleset it leaves, `none` on an error. -/
def rolledBackKernel (env : Env K C) (ops : Ops) (c : Change) (k : K) : Option K :=
  if c.snapshot = [] then none
  else if ops.writeRollback = false then none
  else if ops.loadRollback = false then none
  else env.load (rollbackFile c.snapshot) k

/-- What Rollback and the watchdog have in common: the change is forgotten, its
timer stopped, and the snapshot loaded if that succeeds. -/
def revert (env : Env K C) (ops : Ops) (c : Change) (s : State K C) : State K C :=
  { s.stopTimer c.id with
    change := none
    kernel := (rolledBackKernel env ops c s.kernel).getD s.kernel }

/-- `Rollback`. -/
def rollback (env : Env K C) (ops : Ops) (s : State K C) : State K C :=
  match s.change with
  | none => s
  | some c => ((revert env ops c s).clearPendingState ops).runAfterReload

/-- The callback of `armWatchdog`, when it gets the lock. -/
def watchdog (env : Env K C) (ops : Ops) (id : Nat) (s : State K C) : State K C :=
  if id ∉ s.fired then s
  else
    let s := { s with fired := s.fired.erase id }
    match s.change with
    | none => s
    | some c =>
      -- a callback that lost the race finds another change, or none
      if c.id ≠ id then s
      else (((revert env ops c s).clearPendingState ops).markRolledBack ops).runAfterReload

/-- A timer reaches its deadline. -/
def expire (id : Nat) (s : State K C) : State K C :=
  if s.armed.any (fun t => t.1 == id && decide (t.2 ≤ s.now)) then
    { s.stopTimer id with fired := id :: s.fired }
  else s

/-- `restorePendingChange`. -/
def restorePendingChange (ops : Ops) (s : State K C) : State K C :=
  match s.pending with
  | none => s
  | some state =>
    if state.snapshot = [] then s.clearPendingState ops
    else
      { s with
        change := some ⟨s.nextId, state.snapshot⟩
        nextId := s.nextId + 1
        armed := [(s.nextId,
          s.now + max (firewallConfirmWindow - (s.now - state.appliedAt)) 0)] }

/-- The process dies and a new one runs the constructor. -/
def restart (ops : Ops) (s : State K C) : State K C :=
  restorePendingChange ops { s with
    change := none
    appliedRuleset := []
    afterReload := none
    armed := []
    fired := []
    calls := fun _ => .idle }

/-! ## The machine -/

/-- Who does what next. -/
inductive Action (K C : Type) where
  /-- the saved config is edited -/
  | edit (config : C)
  | clock (now : Int)
  /-- `SetAfterReload` -/
  | wire (hook : C → K → K)
  | apply
  | confirm
  | rollback
  | expire (id : Nat)
  | watchdog (id : Nat)
  | restart
  /-- a background call looks for the marker -/
  | bgCheck (call : Nat)
  | bgApply (call : Nat)
  | bgConfirm (call : Nat)

structure Event (K C : Type) where
  action : Action K C
  ops : Ops := {}

/-- One step of the service. -/
def step (env : Env K C) (s : State K C) (e : Event K C) : State K C :=
  match e.action with
  | .edit config => { s with config := config }
  | .clock now => { s with now := now }
  | .wire hook => { s with afterReload := some hook }
  | .apply =>
    match apply env e.ops s with
    | .ok s' => s'
    | .error _ => s
  | .confirm => confirm env e.ops s
  | .rollback => rollback env e.ops s
  | .expire id => expire id s
  | .watchdog id => watchdog env e.ops id s
  | .restart => restart e.ops s
  | .bgCheck call =>
    if s.calls call = .idle ∧ s.rolledBack = false then s.setCall call .checked else s
  | .bgApply call =>
    if s.calls call = .checked then
      match apply env e.ops s with
      | .ok s' => s'.setCall call (.applied s.nextId)
      | .error _ => s.setCall call .idle
    else s
  | .bgConfirm call =>
    match s.calls call with
    | .applied _ => (confirm env e.ops s).setCall call .idle
    | _ => s

/-- The service, started with nothing pending. -/
def service (env : Env K C) : Machine (State K C) (Event K C) where
  Init s := s.change = none ∧ s.pending = none ∧ s.appliedRuleset = [] ∧ s.afterReload = none ∧
    s.armed = [] ∧ s.fired = [] ∧ ∀ n, s.calls n = .idle
  step := step env

/-- Every operation of the step succeeds. -/
def AllOk (_ : State K C) (e : Event K C) : Prop :=
  e.ops = {}

/-! ## What a step can do

Every step is of one of five kinds, and the lemmas below are all that later
proofs use of `step`. -/

inductive Kind (K : Type) where
  /-- an Apply, the operator's or a background call's, loads a rendering -/
  | apply (rendered : Text) (k : K)
  /-- a Confirm, the operator's or a background call's, settles the change -/
  | confirm (c : Change)
  /-- Rollback or the watchdog settles the change -/
  | revert (c : Change) (byWatchdog : Bool)
  | restart
  | quiet

def applyKind (env : Env K C) (ops : Ops) (s : State K C) : Kind K :=
  match s.change, env.render s.config with
  | none, some rendered =>
    match env.load rendered s.kernel with
    | some k => if ops.list ∧ ops.validate ∧ ops.load then .apply rendered k else .quiet
    | none => .quiet
  | _, _ => .quiet

def kind (env : Env K C) (s : State K C) (e : Event K C) : Kind K :=
  match e.action with
  | .apply => applyKind env e.ops s
  | .bgApply call => if s.calls call = .checked then applyKind env e.ops s else .quiet
  | .confirm =>
    match s.change with
    | some c => .confirm c
    | none => .quiet
  | .bgConfirm call =>
    match s.calls call, s.change with
    | .applied _, some c => .confirm c
    | _, _ => .quiet
  | .rollback =>
    match s.change with
    | some c => .revert c false
    | none => .quiet
  | .watchdog id =>
    match s.change with
    | some c => if id ∈ s.fired ∧ c.id = id then .revert c true else .quiet
    | none => .quiet
  | .restart => .restart
  | _ => .quiet

variable {env : Env K C} {ops : Ops} {s s' : State K C} {e : Event K C} {c : Change}
  {rendered : Text} {k : K}

theorem applyKind_apply (h : applyKind env ops s = .apply rendered k) :
    s.change = none ∧ env.render s.config = some rendered ∧
      env.load rendered s.kernel = some k ∧ apply env ops s = .ok (applied env ops rendered k s) := by
  unfold applyKind at h
  split at h
  · next r hc hr =>
    split at h
    · next k' hk =>
      split at h
      · next hops =>
        cases h
        refine ⟨hc, hr, hk, ?_⟩
        unfold apply
        simp [hc, hr, hk, hops]
      · cases h
    · cases h
  · cases h

theorem applyKind_quiet (h : ∀ rendered k, applyKind env ops s ≠ .apply rendered k) :
    ∃ err, apply env ops s = .error err := by
  unfold applyKind at h
  unfold apply
  rcases hc : s.change with _ | c
  · rcases hr : env.render s.config with _ | r
    · exact ⟨.render, by simp⟩
    rcases hl : ops.list with _ | _
    · exact ⟨.snapshot, by simp⟩
    rcases hk : env.load r s.kernel with _ | k
    · exact ⟨.validate, by simp [hk]⟩
    · rcases hv : ops.validate with _ | _
      · exact ⟨.validate, by simp [hk]⟩
      · rcases ho : ops.load with _ | _
        · exact ⟨.apply, by simp [hk]⟩
        · exact absurd (by simp [hc, hr, hk, hl, hv, ho]) (h r k)
  · exact ⟨.changePending, by simp⟩

theorem applyKind_cases (env : Env K C) (ops : Ops) (s : State K C) :
    (∃ rendered k, applyKind env ops s = .apply rendered k) ∨ applyKind env ops s = .quiet := by
  unfold applyKind
  split
  · split
    · split
      · exact .inl ⟨_, _, rfl⟩
      · exact .inr rfl
    · exact .inr rfl
  · exact .inr rfl

/-- The state Rollback or the watchdog leaves. -/
def reverted (env : Env K C) (ops : Ops) (c : Change) (byWatchdog : Bool) (s : State K C) :
    State K C :=
  let s' := (revert env ops c s).clearPendingState ops
  (if byWatchdog then s'.markRolledBack ops else s').runAfterReload

/-- A timer for the change runs, or its callback waits for the lock. -/
def Watched (id : Nat) (s : State K C) : Prop :=
  (∃ deadline, (id, deadline) ∈ s.armed) ∨ id ∈ s.fired

/-- A step that loads nothing and settles nothing. It may remove a record that
no change in memory stands for. -/
structure Quiet (s s' : State K C) : Prop where
  kernel : s'.kernel = s.kernel
  change : s'.change = s.change
  applied : s'.appliedRuleset = s.appliedRuleset
  marker : s'.rolledBack = s.rolledBack
  boot : s'.boot = s.boot
  nextId : s'.nextId = s.nextId
  pending : s'.pending = s.pending ∨ (s.change = none ∧ s'.pending = none)
  watched : ∀ c, s.change = some c → Watched c.id s → Watched c.id s'

theorem Quiet.of_fields (s : State K C) (config : C) (now : Int) (hook : Option (C → K → K))
    (calls : Nat → CallPhase) :
    Quiet s { s with config := config, now := now, afterReload := hook, calls := calls } :=
  ⟨rfl, rfl, rfl, rfl, rfl, rfl, .inl rfl, fun _ _ hw => hw⟩

/-- A timer that goes off hands over to its callback. -/
theorem Quiet.of_expire (id : Nat) (s : State K C) :
    Quiet s { s.stopTimer id with fired := id :: s.fired } := by
  refine ⟨rfl, rfl, rfl, rfl, rfl, rfl, .inl rfl, ?_⟩
  intro c _ hw
  by_cases hid : c.id = id
  · exact .inr (by rw [hid]; exact List.mem_cons_self ..)
  · rcases hw with ⟨d, hd⟩ | hf
    · exact .inl ⟨d, List.mem_filter.mpr ⟨hd, by simpa using hid⟩⟩
    · exact .inr (List.mem_cons_of_mem _ hf)

/-- A callback that finds another change, or none, just ends. -/
theorem Quiet.of_late {id : Nat} (hid : ∀ c, s.change = some c → c.id ≠ id) :
    Quiet s { s with fired := s.fired.erase id } := by
  refine ⟨rfl, rfl, rfl, rfl, rfl, rfl, .inl rfl, ?_⟩
  intro c hc hw
  rcases hw with hd | hf
  · exact .inl hd
  · exact .inr ((List.mem_erase_of_ne (hid c hc)).mpr hf)

/-- Confirm without a change still removes the record. -/
theorem Quiet.of_clear (hc : s.change = none) (ops : Ops) (calls : Nat → CallPhase) :
    Quiet s { s.clearPendingState ops with calls := calls } := by
  refine ⟨rfl, rfl, rfl, rfl, rfl, rfl, ?_, ?_⟩
  · show (if ops.removeState then none else s.pending) = s.pending ∨ _
    split
    · next h =>
      right
      exact ⟨hc, by simp [State.clearPendingState, h]⟩
    · exact .inl rfl
  · intro c hc'
    cases hc.symm.trans hc'

/-- What an Apply step does, whoever asks for it. -/
theorem apply_cases (env : Env K C) (ops : Ops) (s : State K C) :
    (∃ rendered k, applyKind env ops s = .apply rendered k ∧ s.change = none ∧
      env.render s.config = some rendered ∧ env.load rendered s.kernel = some k ∧
      apply env ops s = .ok (applied env ops rendered k s)) ∨
    (applyKind env ops s = .quiet ∧ ∃ err, apply env ops s = .error err) := by
  rcases applyKind_cases env ops s with ⟨rendered, k, h⟩ | h
  · exact .inl ⟨rendered, k, h, applyKind_apply h⟩
  · refine .inr ⟨h, applyKind_quiet ?_⟩
    intro rendered k
    simp [h]

/-- The five cases of a step, each with the state it leads to. -/
def StepCases (env : Env K C) (s : State K C) (e : Event K C) : Prop :=
    (∃ rendered k calls, kind env s e = .apply rendered k ∧ s.change = none ∧
      env.render s.config = some rendered ∧ env.load rendered s.kernel = some k ∧
      step env s e = { applied env e.ops rendered k s with calls := calls }) ∨
    (∃ c calls, kind env s e = .confirm c ∧ s.change = some c ∧
      step env s e = { confirm env e.ops s with calls := calls }) ∨
    (∃ c byWatchdog fired, kind env s e = .revert c byWatchdog ∧ s.change = some c ∧
      step env s e = { reverted env e.ops c byWatchdog s with fired := fired }) ∨
    (kind env s e = .restart ∧ step env s e = restart e.ops s) ∨
    (kind env s e = .quiet ∧ Quiet s (step env s e))

theorem StepCases.of_quiet (hk : kind env s e = .quiet) (hq : Quiet s (step env s e)) :
    StepCases env s e :=
  .inr (.inr (.inr (.inr ⟨hk, hq⟩)))

theorem StepCases.of_apply (calls : Nat → CallPhase) (hk : kind env s e = .apply rendered k)
    (hc : s.change = none) (hr : env.render s.config = some rendered)
    (hl : env.load rendered s.kernel = some k)
    (hs : step env s e = { applied env e.ops rendered k s with calls := calls }) :
    StepCases env s e :=
  .inl ⟨rendered, k, calls, hk, hc, hr, hl, hs⟩

theorem StepCases.of_confirm (calls : Nat → CallPhase) (hk : kind env s e = .confirm c)
    (hc : s.change = some c) (hs : step env s e = { confirm env e.ops s with calls := calls }) :
    StepCases env s e :=
  .inr (.inl ⟨c, calls, hk, hc, hs⟩)

theorem StepCases.of_revert (byWatchdog : Bool) (fired : List Nat)
    (hk : kind env s e = .revert c byWatchdog) (hc : s.change = some c)
    (hs : step env s e = { reverted env e.ops c byWatchdog s with fired := fired }) :
    StepCases env s e :=
  .inr (.inr (.inl ⟨c, byWatchdog, fired, hk, hc, hs⟩))

/-- **Everything a step can do.** -/
theorem step_cases (env : Env K C) (s : State K C) (e : Event K C) : StepCases env s e := by
  obtain ⟨a, ops⟩ := e
  have hquiet : ∀ config now hook calls, Quiet s { s with
      config := config, now := now, afterReload := hook, calls := calls } := Quiet.of_fields s
  cases a with
  | edit config =>
    exact .of_quiet rfl (hquiet config _ _ _)
  | clock now =>
    exact .of_quiet rfl (hquiet _ now _ _)
  | wire hook =>
    exact .of_quiet rfl (hquiet _ _ (some hook) _)
  | apply =>
    rcases apply_cases env ops s with ⟨r, k, hk, hc, hr, hl, hok⟩ | ⟨hk, err, herr⟩
    · refine .of_apply s.calls hk hc hr hl ?_
      simp only [step, hok]
      rfl
    · refine .of_quiet hk ?_
      simp only [step, herr]
      exact hquiet _ _ _ _
  | confirm =>
    rcases hc : s.change with _ | c
    · refine .of_quiet (by simp only [kind, hc]) ?_
      simp only [step, confirm, hc]
      exact Quiet.of_clear hc ops s.calls
    · exact .of_confirm _ (by simp only [kind, hc]) hc rfl
  | rollback =>
    rcases hc : s.change with _ | c
    · refine .of_quiet (by simp only [kind, hc]) ?_
      simp only [step, rollback, hc]
      exact hquiet _ _ _ _
    · refine .of_revert false s.fired (by simp only [kind, hc]) hc ?_
      simp only [step, rollback, hc]
      rfl
  | expire id =>
    refine .of_quiet rfl ?_
    simp only [step, expire]
    split
    · exact Quiet.of_expire id s
    · exact hquiet _ _ _ _
  | watchdog id =>
    by_cases hf : id ∈ s.fired
    · rcases hc : s.change with _ | c
      · refine .of_quiet (by simp only [kind, hc]) ?_
        simp only [step, watchdog, hf, not_true_eq_false, if_false, hc]
        rw [← hc]
        exact Quiet.of_late (by simp [hc])
      · by_cases hid : c.id = id
        · refine .of_revert true (s.fired.erase id)
            (by simp only [kind, hc, hf, hid, and_self, if_true]) hc ?_
          simp only [step, watchdog, hf, not_true_eq_false, if_false, hc, hid, ne_eq]
          rfl
        · refine .of_quiet (by simp only [kind, hc, hid, and_false, if_false]) ?_
          simp only [step, watchdog, hf, not_true_eq_false, if_false, hc, hid, ne_eq,
            not_false_eq_true, if_true]
          rw [← hc]
          refine Quiet.of_late ?_
          intro c' hc'
          rw [hc] at hc'
          rw [← Option.some.inj hc']
          exact hid
    · refine .of_quiet ?_ ?_
      · simp only [kind, hf, false_and, if_false]
        split <;> rfl
      · simp only [step, watchdog, hf, not_false_eq_true, if_true]
        exact hquiet _ _ _ _
  | restart => exact .inr (.inr (.inr (.inl ⟨rfl, rfl⟩)))
  | bgCheck call =>
    refine .of_quiet rfl ?_
    simp only [step]
    split
    · exact hquiet _ _ _ _
    · exact hquiet _ _ _ _
  | bgApply call =>
    by_cases hcall : s.calls call = .checked
    · rcases apply_cases env ops s with ⟨r, k, hk, hc, hr, hl, hok⟩ | ⟨hk, err, herr⟩
      · refine .of_apply ((applied env ops r k s).setCall call (.applied s.nextId)).calls
          (by simp only [kind, hcall, if_true, hk]) hc hr hl ?_
        simp only [step, hcall, if_true, hok]
        rfl
      · refine .of_quiet (by simp only [kind, hcall, if_true, hk]) ?_
        simp only [step, hcall, if_true, herr]
        exact hquiet _ _ _ _
    · refine .of_quiet (by simp only [kind, hcall, if_false]) ?_
      simp only [step, hcall, if_false]
      exact hquiet _ _ _ _
  | bgConfirm call =>
    rcases hcall : s.calls call with _ | _ | i
    · refine .of_quiet (by simp only [kind, hcall]) ?_
      simp only [step, hcall]
      exact hquiet _ _ _ _
    · refine .of_quiet (by simp only [kind, hcall]) ?_
      simp only [step, hcall]
      exact hquiet _ _ _ _
    rcases hc : s.change with _ | c
    · refine .of_quiet (by simp only [kind, hcall, hc]) ?_
      simp only [step, hcall, confirm, hc]
      exact Quiet.of_clear hc ops _
    · refine .of_confirm ((confirm env ops s).setCall call .idle).calls
        (by simp only [kind, hcall, hc]) hc ?_
      simp only [step, hcall]
      rfl

theorem step_of_apply (hk : kind env s e = .apply rendered k) :
    s.change = none ∧ env.render s.config = some rendered ∧ env.load rendered s.kernel = some k ∧
      ∃ calls, step env s e = { applied env e.ops rendered k s with calls := calls } := by
  simpa [StepCases, hk] using step_cases env s e

theorem step_of_confirm (hk : kind env s e = .confirm c) :
    s.change = some c ∧ ∃ calls, step env s e = { confirm env e.ops s with calls := calls } := by
  simpa [StepCases, hk] using step_cases env s e

theorem step_of_revert {byWatchdog : Bool} (hk : kind env s e = .revert c byWatchdog) :
    s.change = some c ∧
      ∃ fired, step env s e = { reverted env e.ops c byWatchdog s with fired := fired } := by
  simpa [StepCases, hk, -Bool.exists_bool] using step_cases env s e

theorem quiet_of_kind (hk : kind env s e = .quiet) : Quiet s (step env s e) := by
  simpa [StepCases, hk] using step_cases env s e

/-- Both ways of settling leave nothing pending in memory. -/
theorem change_of_confirm (hk : kind env s e = .confirm c) : (step env s e).change = none := by
  obtain ⟨hc, calls, hs⟩ := step_of_confirm hk
  rw [hs]
  show (confirm env e.ops s).change = none
  unfold confirm
  rw [hc]
  rfl

theorem change_of_revert {byWatchdog : Bool} (hk : kind env s e = .revert c byWatchdog) :
    (step env s e).change = none := by
  obtain ⟨-, fired, hs⟩ := step_of_revert hk
  rw [hs]
  cases byWatchdog <;> rfl

/-- What a restart neither loses nor restores, and what it loses for good. -/
theorem restart_fields (ops : Ops) (s : State K C) :
    (restart ops s).kernel = s.kernel ∧ (restart ops s).rolledBack = s.rolledBack ∧
      (restart ops s).boot = s.boot ∧ (restart ops s).appliedRuleset = [] ∧
      ∀ n, (restart ops s).calls n = .idle := by
  simp only [restart, restorePendingChange]
  split
  · exact ⟨rfl, rfl, rfl, rfl, fun _ => rfl⟩
  · split
    · exact ⟨rfl, rfl, rfl, rfl, fun _ => rfl⟩
    · exact ⟨rfl, rfl, rfl, rfl, fun _ => rfl⟩

theorem step_of_restart (hk : kind env s e = .restart) : step env s e = restart e.ops s := by
  simpa [StepCases, hk] using step_cases env s e

/-! ## A small instance -/

/-- nft over texts: a ruleset is a text, listed with a plus sign in front, and a
config renders to the listing of the ruleset with the same text. -/
def textEnv : Env Text Text where
  render c := some ('+' :: c)
  list k := '+' :: k
  load t _ :=
    match trimPrefix "flush ruleset\n" t with
    | '+' :: k => some k
    | _ => none
  render_ne_nil c t h := by
    rw [← Option.some.inj h]
    simp
  restores k k' := by
    have hplus : trimSpace ('+' :: k) ≠ [] := by
      intro h
      have hmem : fields isSpace (trimSpace ('+' :: k)) = [] := by rw [h, fields_nil]
      unfold trimSpace at hmem
      rw [fields_trim] at hmem
      obtain ⟨w, ws, -, hf⟩ := fields_cons (by decide : ¬ isSpace '+') k
      cases hf.symm.trans hmem
    have hsnap : snapshotOf ('+' :: k) = '+' :: k := by
      unfold snapshotOf
      rw [if_neg hplus]
    rw [hsnap]
    unfold rollbackFile trimPrefix
    rw [if_pos (List.prefix_append _ _), List.drop_left]
    rfl

/-- A process that just started on an empty ruleset. -/
def freshState (config : Text) : State Text Text where
  kernel := []
  config := config
  now := 0
  pending := none
  rolledBack := false
  boot := none
  change := none
  appliedRuleset := []
  afterReload := none
  armed := []
  fired := []
  calls _ := .idle
  nextId := 0

theorem freshState_init (config : Text) : (service textEnv).Init (freshState config) :=
  ⟨rfl, rfl, rfl, rfl, rfl, rfl, fun _ => rfl⟩

end Lankeeper.Firewall
