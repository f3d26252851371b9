import Lankeeper.Firewall.Service

/-!
# Lankeeper.Firewall.Pending — an unconfirmed ruleset can always be reverted

A history variable remembers the ruleset that was in force before the load nobody
has confirmed or reverted yet (`before`), and which changes were settled
(`settled`). `PendingInv` ties it to the three places where the service keeps a
pending change: memory, the record on disk, and a timer. It is kept by every step
whose operations succeed, restarts included.
-/

namespace Lankeeper.Firewall

open Lib Text Option

variable {K C : Type} {env : Env K C}

/-! ## History -/

structure History (K : Type) where
  /-- the ruleset before the load that nobody has confirmed or reverted -/
  before : Option K
  /-- the changes that were confirmed or rolled back -/
  settled : List Nat

/-- The history follows what reaches the kernel: an Apply that loads, a Confirm
that settles, a rollback that loads. -/
def History.update (env : Env K C) (h : History K) (s : State K C) (e : Event K C) : History K :=
  match kind env s e with
  | .apply _ _ => { h with before := some s.kernel }
  | .confirm c => { before := none, settled := c.id :: h.settled }
  | .revert c _ =>
    { before := if (rolledBackKernel env e.ops c s.kernel).isSome then none else h.before
      settled := c.id :: h.settled }
  | .restart => h
  | .quiet => h

/-- The service with its history. -/
def recorded (env : Env K C) : Machine (State K C × History K) (Event K C) :=
  (service env).observe ⟨none, []⟩ (History.update env)

/-! ## Where a step leads, field by field -/

section Fields

variable (env) (s : State K C) (ops : Ops) (rendered : Text) (k : K) (c : Change)

theorem applied_change : (applied env ops rendered k s).change =
    some ⟨s.nextId, snapshotOf (env.list s.kernel)⟩ := rfl

theorem applied_pending (h : ops.persistState) : (applied env ops rendered k s).pending =
    some ⟨snapshotOf (env.list s.kernel), s.now⟩ :=
  if_pos ⟨snapshotOf_ne_nil _, h⟩

theorem reverted_kernel (w : Bool) : (reverted env ops c w s).kernel =
    s.reloaded ((rolledBackKernel env ops c s.kernel).getD s.kernel) := by
  cases w <;> rfl

theorem reverted_change (w : Bool) : (reverted env ops c w s).change = none := by
  cases w <;> rfl

theorem reverted_pending (w : Bool) : (reverted env ops c w s).pending =
    if ops.removeState then none else s.pending := by
  cases w <;> rfl

theorem reverted_nextId (w : Bool) : (reverted env ops c w s).nextId = s.nextId := by
  cases w <;> rfl

variable {s : State K C}

theorem confirm_of_some {c : Change} (hc : s.change = some c) :
    (confirm env ops s).kernel = s.kernel ∧ (confirm env ops s).change = none ∧
      (confirm env ops s).pending = (if ops.removeState then none else s.pending) ∧
      (confirm env ops s).nextId = s.nextId := by
  unfold confirm
  rw [hc]
  exact ⟨rfl, rfl, rfl, rfl⟩

theorem restart_of_none (hp : s.pending = none) :
    (restart ops s).kernel = s.kernel ∧ (restart ops s).change = none ∧
      (restart ops s).pending = none ∧ (restart ops s).nextId = s.nextId := by
  unfold restart restorePendingChange
  simp only [hp, and_self]

theorem restart_of_some {state : PendingState} (hp : s.pending = some state)
    (hne : state.snapshot ≠ []) :
    (restart ops s).kernel = s.kernel ∧
      (restart ops s).change = some ⟨s.nextId, state.snapshot⟩ ∧
      (restart ops s).pending = some state ∧ (restart ops s).nextId = s.nextId + 1 ∧
      Watched s.nextId (restart ops s) := by
  unfold restart restorePendingChange
  simp only [hp, hne, if_false, Watched, true_and]
  exact .inl ⟨_, List.mem_cons_self ..⟩

end Fields

/-! ## The invariant -/

structure PendingInv (env : Env K C) (s : State K C) (h : History K) : Prop where
  fresh : ∀ c, s.change = some c → c.id < s.nextId
  old : ∀ id ∈ h.settled, id < s.nextId ∧ ∀ c, s.change = some c → c.id ≠ id
  idle : s.change = none → s.pending = none ∧ h.before = none
  busy : ∀ c, s.change = some c → Watched c.id s ∧
    ∃ k state, h.before = some k ∧ c.snapshot = snapshotOf (env.list k) ∧
      s.pending = some state ∧ state.snapshot = c.snapshot

/-- With nothing pending, the settled changes only have to be old. -/
theorem PendingInv.of_idle {s : State K C} {h : History K} (hc : s.change = none)
    (hp : s.pending = none) (hb : h.before = none) (hold : ∀ id ∈ h.settled, id < s.nextId) :
    PendingInv env s h := by
  refine ⟨?_, fun id hid => ⟨hold id hid, ?_⟩, fun _ => ⟨hp, hb⟩, ?_⟩ <;> simp [hc]

/-- A new change is none of the settled ones. -/
theorem PendingInv.of_new {s s' : State K C} {h h' : History K} (hi : PendingInv env s h)
    (hold : h'.settled = h.settled) {k : K} {state : PendingState} (hb : h'.before = some k)
    (hsnap : state.snapshot = snapshotOf (env.list k))
    (hc : s'.change = some ⟨s.nextId, state.snapshot⟩) (hp : s'.pending = some state)
    (hn : s'.nextId = s.nextId + 1) (hw : Watched s.nextId s') : PendingInv env s' h' := by
  have honly : ∀ c, s'.change = some c → c = ⟨s.nextId, state.snapshot⟩ := by
    intro c hc'
    exact some.inj (hc'.symm.trans hc)
  refine ⟨?_, ?_, by simp [hc], ?_⟩
  · intro c hc'
    rw [honly c hc', hn]
    exact Nat.lt_succ_self _
  · intro id hid
    have hlt := (hi.old id (hold ▸ hid)).1
    rw [hn]
    refine ⟨Nat.lt_succ_of_lt hlt, fun c hc' => ?_⟩
    rw [honly c hc']
    exact hlt.ne'
  · intro c hc'
    rw [honly c hc']
    exact ⟨hw, k, state, hb, hsnap, hp, rfl⟩

/-- The snapshot of a pending change loads back. -/
theorem rolledBackKernel_of_ok {ops : Ops} {c : Change} {k : K} (k' : K) (hops : ops = {})
    (hsnap : c.snapshot = snapshotOf (env.list k)) : rolledBackKernel env ops c k' = some k := by
  have hne : c.snapshot ≠ [] := by
    rw [hsnap]
    exact snapshotOf_ne_nil _
  subst hops
  unfold rolledBackKernel
  simp only [hne, if_false, Bool.true_eq_false]
  rw [hsnap]
  exact env.restores k k'

theorem step_pendingInv {s : State K C} {h : History K} {e : Event K C} (hok : AllOk s e)
    (hi : PendingInv env s h) : PendingInv env (step env s e) (h.update env s e) := by
  have hops : e.ops = {} := hok
  have hremove : e.ops.removeState := by rw [hops]
  have hsettled : ∀ c, s.change = some c → ∀ id ∈ c.id :: h.settled, id < s.nextId := by
    intro c hc id hid
    rcases List.mem_cons.mp hid with rfl | hid
    · exact hi.fresh c hc
    · exact (hi.old id hid).1
  unfold History.update
  rcases step_cases env s e with ⟨rendered, k, calls, hk, hc, hr, hl, hs⟩ | ⟨c, calls, hk, hc, hs⟩ |
    ⟨c, w, fired, hk, hc, hs⟩ | ⟨hk, hs⟩ | ⟨hk, hq⟩
  · -- an Apply: the ruleset in force becomes the snapshot
    rw [hk, hs]
    exact hi.of_new rfl rfl rfl (applied_change env s e.ops rendered k)
      (applied_pending env s e.ops rendered k (by rw [hops])) rfl (.inl ⟨_, List.mem_cons_self ..⟩)
  · -- a Confirm: nothing is pending any more
    rw [hk, hs]
    obtain ⟨-, hcn, hp, hn⟩ := confirm_of_some env e.ops hc
    rw [if_pos hremove] at hp
    refine .of_idle hcn hp rfl ?_
    simpa only [hn] using hsettled c hc
  · -- a rollback: the same, and the load succeeds
    rw [hk, hs]
    obtain ⟨-, k, state, hbefore, hsnap, -, -⟩ := hi.busy c hc
    have hload := rolledBackKernel_of_ok s.kernel hops hsnap
    refine .of_idle (reverted_change ..) ?_ (by simp [hload]) ?_
    · exact (reverted_pending ..).trans (if_pos hremove)
    · simpa only [reverted_nextId] using hsettled c hc
  · -- a restart: the record brings the change back under a new identity
    rw [hk, hs]
    rcases hc : s.change with _ | c
    · obtain ⟨hp, hb⟩ := hi.idle hc
      obtain ⟨-, hcn, hpn, hn⟩ := restart_of_none e.ops hp
      refine .of_idle hcn hpn hb fun id hid => ?_
      rw [hn]
      exact (hi.old id hid).1
    · obtain ⟨-, k, state, hb, hsnap, hp, hst⟩ := hi.busy c hc
      rw [← hst] at hsnap
      have hne : state.snapshot ≠ [] := by
        rw [hsnap]
        exact snapshotOf_ne_nil _
      obtain ⟨-, hcs, hps, hn, hw⟩ := restart_of_some e.ops hp hne
      exact hi.of_new rfl hb hsnap hcs hps hn hw
  · -- nothing that the invariant speaks of changes
    rw [hk]
    have hpend : s.change = none → (step env s e).pending = none := by
      intro hc
      rcases hq.pending with hp | ⟨-, hp⟩
      · rw [hp]
        exact (hi.idle hc).1
      · exact hp
    refine ⟨?_, ?_, ?_, ?_⟩
    · intro c hc
      rw [hq.change] at hc
      rw [hq.nextId]
      exact hi.fresh c hc
    · intro id hid
      rw [hq.change, hq.nextId]
      exact hi.old id hid
    · intro hc
      rw [hq.change] at hc
      exact ⟨hpend hc, (hi.idle hc).2⟩
    · intro c hc
      rw [hq.change] at hc
      obtain ⟨hw, k, state, hb, hsnap, hp, hst⟩ := hi.busy c hc
      refine ⟨hq.watched c hc hw, k, state, hb, hsnap, ?_, hst⟩
      rcases hq.pending with hp' | ⟨hn, -⟩
      · rw [hp']
        exact hp
      · cases hc.symm.trans hn

theorem reachable_pendingInv {x : State K C × History K}
    (h : (recorded env).Reachable (fun x e => AllOk x.1 e) x) : PendingInv env x.1 x.2 := by
  refine h.invariant (P := fun x => PendingInv env x.1 x.2) ?_ ?_
  · rintro ⟨s, g⟩ ⟨hs, hg⟩
    obtain rfl : g = ⟨none, []⟩ := hg
    exact .of_idle hs.1 hs.2.1 rfl nofun
  · intro x e hi hok
    exact step_pendingInv hok hi

/-! ## The safety net -/

/-- A callback for another change than the pending one leaves everything alone. -/
theorem watchdog_of_settled {s : State K C} {id : Nat} (ops : Ops)
    (h : ∀ c, s.change = some c → c.id ≠ id) :
    (step env s ⟨.watchdog id, ops⟩).kernel = s.kernel ∧
      (step env s ⟨.watchdog id, ops⟩).pending = s.pending ∧
      (step env s ⟨.watchdog id, ops⟩).change = s.change := by
  have hstep : ∃ fired, step env s ⟨.watchdog id, ops⟩ = { s with fired := fired } := by
    simp only [step, watchdog]
    split
    · exact ⟨s.fired, rfl⟩
    · rcases hc : s.change with _ | c
      · exact ⟨s.fired.erase id, rfl⟩
      · exact ⟨s.fired.erase id, by simp only [h c hc, ne_eq, not_false_eq_true, if_true]⟩
  obtain ⟨fired, hs⟩ := hstep
  rw [hs]
  exact ⟨rfl, rfl, rfl⟩

/-- **An unconfirmed ruleset can always be reverted.** While the kernel holds a
ruleset that nobody confirmed, the change is pending in memory, on disk and with
a timer, its snapshot is the ruleset before, and whatever settles it other than a
Confirm brings that ruleset back and runs the after-reload hook on it. A watchdog
of a settled change does nothing. -/
theorem unconfirmed_ruleset_reverts {x : State K C × History K}
    (h : (recorded env).Reachable (fun x e => AllOk x.1 e) x) :
    (∀ k, x.2.before = some k → ∃ c state,
      x.1.change = some c ∧ c.snapshot = snapshotOf (env.list k) ∧
      x.1.pending = some state ∧ state.snapshot = c.snapshot ∧ Watched c.id x.1 ∧
      ∀ e c' w, AllOk x.1 e → kind env x.1 e = .revert c' w →
        c' = c ∧ (step env x.1 e).kernel = x.1.reloaded k ∧
          (x.1.afterReload = none → (step env x.1 e).kernel = k)) ∧
    ∀ id ∈ x.2.settled, ∀ ops,
      (step env x.1 ⟨.watchdog id, ops⟩).kernel = x.1.kernel ∧
      (step env x.1 ⟨.watchdog id, ops⟩).pending = x.1.pending ∧
      (step env x.1 ⟨.watchdog id, ops⟩).change = x.1.change := by
  have hi := reachable_pendingInv h
  constructor
  · intro k hk
    rcases hc : x.1.change with _ | c
    · rw [(hi.idle hc).2] at hk
      cases hk
    obtain ⟨hw, k', state, hb, hsnap, hp, hst⟩ := hi.busy c hc
    obtain rfl : k' = k := some.inj (hb.symm.trans hk)
    refine ⟨c, state, rfl, hsnap, hp, hst, hw, ?_⟩
    intro e c' w hok hkind
    obtain ⟨hc', fired, hs⟩ := step_of_revert hkind
    obtain rfl : c = c' := some.inj (hc.symm.trans hc')
    have hkernel : (step env x.1 e).kernel = x.1.reloaded k' := by
      rw [hs, ← getD_some (a := k') (b := x.1.kernel),
        ← rolledBackKernel_of_ok x.1.kernel hok hsnap]
      exact reverted_kernel env x.1 e.ops c w
    refine ⟨rfl, hkernel, ?_⟩
    intro hnone
    rw [hkernel]
    unfold State.reloaded
    rw [hnone]
  · intro id hid ops
    exact watchdog_of_settled ops (hi.old id hid).2

/-- A first Apply, on an empty ruleset. -/
def firstApply : State Text Text × History Text :=
  (recorded textEnv).run (freshState "a", ⟨none, []⟩) [⟨.apply, {}⟩]

theorem firstApply_reverts :
    (recorded textEnv).Reachable (fun x e => AllOk x.1 e) firstApply ∧
      firstApply.2.before = some [] ∧
      ∃ c, firstApply.1.change = some c ∧
        (step textEnv firstApply.1 ⟨.rollback, {}⟩).kernel = [] := by
  have hr : (recorded textEnv).Reachable (fun x e => AllOk x.1 e) firstApply :=
    Machine.Reachable.run (.init ⟨freshState_init _, rfl⟩) ⟨rfl, trivial⟩
  refine ⟨hr, rfl, ?_⟩
  obtain ⟨c, state, hc, -, -, -, -, hall⟩ := (unconfirmed_ruleset_reverts hr).1 [] rfl
  exact ⟨c, hc, (hall ⟨.rollback, {}⟩ _ false rfl rfl).2.2 rfl⟩

/-- The same with a hook registered that adds a rule of its own. -/
def hookedApply : State Text Text × History Text :=
  (recorded textEnv).run (freshState "a", ⟨none, []⟩)
    [⟨.wire fun _ k => k ++ "r", {}⟩, ⟨.apply, {}⟩]

theorem hook_changes_reverted_ruleset :
    (recorded textEnv).Reachable (fun x e => AllOk x.1 e) hookedApply ∧
      hookedApply.2.before = some [] ∧
      (∃ c, kind textEnv hookedApply.1 ⟨.rollback, {}⟩ = .revert c false) ∧
      (step textEnv hookedApply.1 ⟨.rollback, {}⟩).kernel ≠ [] := by
  refine ⟨Machine.Reachable.run (.init ⟨freshState_init _, rfl⟩) ⟨rfl, rfl, trivial⟩, rfl,
    ⟨_, rfl⟩, ?_⟩
  decide

end Lankeeper.Firewall
