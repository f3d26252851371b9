import Lankeeper.Firewall.Pending

/-!
# Lankeeper.Firewall.Refinement — the service as a trial protocol

What the confirm window is for, without files, timers and processes: a ruleset is
put in force on trial, and the trial is kept or undone. `Trial.next` is that
protocol; the hook of `SetAfterReload` appears as an adjustment of the ruleset in
force. Every run of the service whose operations succeed is a run of the protocol
(`service_refines_trial`): a restart and a late watchdog are invisible in it.
-/

namespace Lankeeper.Firewall

open Lib Text Option

/-! ## The protocol -/

/-- A ruleset in force, and the one to fall back to while it is on trial. -/
structure Trial (K : Type) where
  current : K
  fallback : Option K

inductive Trial.Act (K : Type)
  /-- put `k` in force on trial -/
  | propose (k : K)
  | keep
  | undo
  /-- another service changes the ruleset in force -/
  | adjust (f : K → K)

variable {K C : Type} {env : Env K C}

/-- Nothing is proposed during a trial, and without one nothing is kept or undone. -/
def Trial.next : Trial K → Trial.Act K → Option (Trial K)
  | ⟨cur, none⟩, .propose k => some ⟨k, some cur⟩
  | ⟨cur, some _⟩, .keep => some ⟨cur, none⟩
  | ⟨_, some back⟩, .undo => some ⟨back, none⟩
  | ⟨cur, back⟩, .adjust f => some ⟨f cur, back⟩
  | _, _ => none

/-! ## The service -/

/-- What an event of the service stands for in the protocol. -/
def actsOf (env : Env K C) (s : State K C) (e : Event K C) : List (Trial.Act K) :=
  match kind env s e with
  | .apply _ k => [.propose k, .adjust s.reloaded]
  | .confirm _ => [.keep]
  | .revert _ _ => [.undo, .adjust s.reloaded]
  | .restart | .quiet => []

/-- The service stands where the protocol stands. -/
def Refines (env : Env K C) (s : State K C) (a : Trial K) : Prop :=
  s.kernel = a.current ∧ ∃ settled, PendingInv env s ⟨a.fallback, settled⟩

/-- Every step of the service is some actions of the protocol. -/
theorem step_refines {s : State K C} {e : Event K C} {a : Trial K} (hr : Refines env s a)
    (hok : AllOk s e) :
    ∃ a', (actsOf env s e).foldlM Trial.next a = some a' ∧ Refines env (step env s e) a' := by
  obtain ⟨cur, back⟩ := a
  obtain ⟨rfl, settled, hi⟩ := hr
  -- the protocol's state after the step is read off the history
  refine ⟨⟨(step env s e).kernel, (History.update env ⟨back, settled⟩ s e).before⟩, ?_, rfl, _,
    step_pendingInv hok hi⟩
  unfold actsOf History.update
  rcases hk : kind env s e with ⟨r, k⟩ | c | ⟨c, w⟩ | _ | _
  · obtain ⟨hc, -, -, calls, hs⟩ := step_of_apply hk
    obtain rfl : back = none := (hi.idle hc).2
    rw [hs]
    rfl
  · obtain ⟨hc, calls, hs⟩ := step_of_confirm hk
    obtain ⟨-, b, state, hb, -⟩ := hi.busy c hc
    obtain rfl : back = some b := hb
    rw [hs, show _ = s.kernel from (confirm_of_some env e.ops hc).1]
    rfl
  · obtain ⟨hc, fired, hs⟩ := step_of_revert hk
    obtain ⟨-, b, state, hb, hsnap, -⟩ := hi.busy c hc
    obtain rfl : back = some b := hb
    have hload := rolledBackKernel_of_ok s.kernel hok hsnap
    dsimp only
    rw [hs, show _ = s.reloaded _ from reverted_kernel env s e.ops c w, hload]
    rfl
  · rw [step_of_restart hk, (restart_fields e.ops s).1]
    rfl
  · rw [(quiet_of_kind hk).kernel]
    rfl

/-- **The service refines the trial protocol.** The protocol can take every action of
a run, ends with the ruleset in the kernel, and falls back to the one that the pending
change has a snapshot of. -/
theorem service_refines_trial {s : State K C} {es : List (Event K C)} (hs : (service env).Init s)
    (hes : (service env).Guarded AllOk s es) :
    ∃ back, ((service env).trace (actsOf env) s es).foldlM Trial.next ⟨s.kernel, none⟩ =
        some ⟨((service env).run s es).kernel, back⟩ ∧
      ((service env).run s es).change.map (·.snapshot) =
        back.map fun k => snapshotOf (env.list k) := by
  have hinit : Refines env s ⟨s.kernel, none⟩ := ⟨rfl, [], .of_idle hs.1 hs.2.1 rfl nofun⟩
  rcases hes.simulates (R := Refines env) (fun _ _ _ => step_refines) hinit with
    ⟨⟨cur, back⟩, htrace, rfl, settled, hi⟩
  refine ⟨back, htrace, ?_⟩
  rcases hc : ((service env).run s es).change with _ | c
  · rw [show back = none from (hi.idle hc).2]
    rfl
  · obtain ⟨-, b, -, hb, hsnap, -⟩ := hi.busy c hc
    rw [show back = some b from hb, map_some, hsnap]
    rfl

/-- An Apply and a restart. -/
def trialRun : List (Event Text Text) :=
  [⟨.apply, {}⟩, ⟨.restart, {}⟩]

theorem restarted_trial :
    (service textEnv).Guarded AllOk (freshState "a") trialRun ∧
      ∃ back, ((service textEnv).trace (actsOf textEnv) (freshState "a") trialRun).foldlM
        Trial.next ⟨[], none⟩ = some ⟨"a".toList, back⟩ ∧ back.isSome := by
  have hes : (service textEnv).Guarded AllOk (freshState "a") trialRun := ⟨rfl, rfl, trivial⟩
  obtain ⟨back, htrace, hsnap⟩ := service_refines_trial (freshState_init _) hes
  refine ⟨hes, back, htrace, ?_⟩
  rw [← isSome_map, ← hsnap]
  decide

end Lankeeper.Firewall
