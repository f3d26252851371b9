import Lankeeper.Firewall.Pending

/-!
# Lankeeper.Firewall.Background — ApplyAndConfirm among the operator's steps

A background `ApplyAndConfirm` looks for the rolled-back marker, applies and
confirms, and lets go of the lock in between. Two things should hold whatever
happens in the gaps: it confirms its own change only, and it never brings back an
edit that was rolled back.

Neither holds in general (`background_confirms_operator_change`,
`background_reinstalls_rolled_back_edit`). Each holds in the runs that keep the
gaps clear:

* `NoApplyInGap` — no other Apply succeeds between a call's Apply and its
  Confirm; then it confirms its own change;
* `GapsClear` — in addition nobody but the watchdog rolls a change back, and the
  watchdog does not while a call stands between its look at the marker and its
  Apply; then no rolled-back edit comes back.
-/

namespace Lankeeper.Firewall

open Lib Text

variable {K C : Type} {env : Env K C} {s : State K C} {e : Event K C}

/-! ## Calls in progress -/

/-- What a step can do to a background call. -/
theorem step_calls (env : Env K C) (s : State K C) (e : Event K C) (n : Nat) :
    (step env s e).calls n = s.calls n ∨ (step env s e).calls n = .idle ∨
    ((step env s e).calls n = .checked ∧ s.rolledBack = false ∧ kind env s e = .quiet) ∨
    (∃ rendered k, kind env s e = .apply rendered k ∧ s.calls n = .checked ∧
      (step env s e).calls n = .applied s.nextId) := by
  obtain ⟨a, ops⟩ := e
  cases a with
  | edit config => exact .inl rfl
  | clock now => exact .inl rfl
  | wire hook => exact .inl rfl
  | apply =>
    left
    rcases apply_cases env ops s with ⟨r, k, -, -, -, -, hok⟩ | ⟨-, err, herr⟩
    · simp only [step, hok]
      rfl
    · simp only [step, herr]
  | confirm | rollback | expire id | watchdog id =>
    left
    simp only [step, confirm, rollback, expire, watchdog]
    repeat' split
    all_goals rfl
  | restart => exact .inr (.inl ((restart_fields ops s).2.2.2.2 n))
  | bgCheck call =>
    simp only [step]
    split
    · next h =>
      by_cases hn : n = call
      · right
        right
        left
        exact ⟨if_pos hn, h.2, rfl⟩
      · exact .inl (if_neg hn)
    · exact .inl rfl
  | bgApply call =>
    by_cases hcall : s.calls call = .checked
    · rcases apply_cases env ops s with ⟨r, k, hk, -, -, -, hok⟩ | ⟨-, err, herr⟩
      · simp only [step, hcall, if_true, hok]
        by_cases hn : n = call
        · right
          right
          right
          exact ⟨r, k, by simp only [kind, hcall, if_true, hk], hn ▸ hcall, if_pos hn⟩
        · exact .inl (if_neg hn)
      · simp only [step, hcall, if_true, herr]
        by_cases hn : n = call
        · exact .inr (.inl (if_pos hn))
        · exact .inl (if_neg hn)
    · left
      simp only [step, hcall, if_false]
  | bgConfirm call =>
    simp only [step]
    split
    · by_cases hn : n = call
      · exact .inr (.inl (if_pos hn))
      · left
        refine (if_neg hn).trans ?_
        unfold confirm
        split <;> rfl
    · exact .inl rfl

/-- A call stands behind its Apply only if it stood there before, or this step
was its Apply. -/
theorem applied_of_step {n i : Nat} (h : (step env s e).calls n = .applied i) :
    s.calls n = .applied i ∨
      ∃ rendered k, kind env s e = .apply rendered k ∧ s.calls n = .checked ∧ i = s.nextId := by
  rcases step_calls env s e n with hs | hs | ⟨hs, -, -⟩ | ⟨r, k, hk, hc, hs⟩
  · left
    rw [← hs]
    exact h
  · cases hs.symm.trans h
  · cases hs.symm.trans h
  · right
    rw [hs] at h
    exact ⟨r, k, hk, hc, (CallPhase.applied.inj h).symm⟩

/-- A call stands before its Apply only if it stood there before, or saw no marker
just now. -/
theorem checked_of_step {n : Nat} (h : (step env s e).calls n = .checked) :
    s.calls n = .checked ∨ (s.rolledBack = false ∧ kind env s e = .quiet) := by
  rcases step_calls env s e n with hs | hs | ⟨-, hm, hk⟩ | ⟨r, k, -, -, hs⟩
  · left
    rw [← hs]
    exact h
  · cases hs.symm.trans h
  · exact .inr ⟨hm, hk⟩
  · cases hs.symm.trans h

/-! ## Whose change is confirmed -/

/-- No Apply succeeds while a background call stands between its own Apply and
its Confirm. -/
def NoApplyInGap (env : Env K C) (s : State K C) (e : Event K C) : Prop :=
  ∀ rendered k, kind env s e = .apply rendered k → ∀ n i, s.calls n ≠ .applied i

/-- A change that is pending while a call waits to confirm is the call's own. -/
def OwnInv (s : State K C) : Prop :=
  ∀ n i, s.calls n = .applied i → ∀ c, s.change = some c → c.id = i

theorem step_ownInv (hg : NoApplyInGap env s e) (hi : OwnInv s) : OwnInv (step env s e) := by
  intro n i hn c hc
  rcases applied_of_step hn with hold | ⟨r, k, hk, -, rfl⟩
  · rcases hk : kind env s e with ⟨r, k⟩ | c' | ⟨c', w⟩ | _ | _
    · exact absurd hold (hg r k hk n i)
    · rw [change_of_confirm hk] at hc
      cases hc
    · rw [change_of_revert hk] at hc
      cases hc
    · rw [step_of_restart hk, (restart_fields e.ops s).2.2.2.2 n] at hn
      cases hn
    · rw [(quiet_of_kind hk).change] at hc
      exact hi n i hold c hc
  · -- the call's own Apply: the change it made has the next identity
    obtain ⟨-, -, -, calls, hs⟩ := step_of_apply hk
    rw [hs] at hc
    rw [← Option.some.inj hc]

theorem reachable_ownInv (h : (service env).Reachable (NoApplyInGap env) s) : OwnInv s := by
  refine h.invariant ?_ ?_
  · intro s hs n i hn
    rw [hs.2.2.2.2.2.2 n] at hn
    cases hn
  · intro s e hi hg
    exact step_ownInv hg hi

/-- A Confirm step of a background call follows its Apply. -/
theorem calls_of_confirm {n : Nat} {ops : Ops} {c : Change}
    (hk : kind env s ⟨.bgConfirm n, ops⟩ = .confirm c) :
    (∃ i, s.calls n = .applied i) ∧ s.change = some c := by
  refine ⟨?_, (step_of_confirm hk).1⟩
  simp only [kind] at hk
  split at hk
  · next i _ hcall _ => exact ⟨i, hcall⟩
  · cases hk

/-- A change is confirmed by the operator or by a call behind its Apply. -/
theorem confirm_cases {c : Change} (hk : kind env s e = .confirm c) :
    e.action = .confirm ∨ ∃ n i, e.action = .bgConfirm n ∧ s.calls n = .applied i := by
  obtain ⟨a, ops⟩ := e
  cases a with
  | bgConfirm n =>
    obtain ⟨⟨i, hn⟩, -⟩ := calls_of_confirm hk
    exact .inr ⟨n, i, rfl, hn⟩
  | confirm => exact .inl rfl
  | apply =>
    rcases applyKind_cases env ops s with ⟨r, k, ha⟩ | ha <;>
      simp only [kind, ha] at hk <;> cases hk
  | bgApply call =>
    rcases applyKind_cases env ops s with ⟨r, k, ha⟩ | ha <;>
      simp only [kind, ha] at hk <;> split at hk <;> cases hk
  | rollback | watchdog id =>
    simp only [kind] at hk
    repeat' split at hk
    all_goals cases hk
  | _ => cases hk

/-- **A background call confirms its own change**, in every run in which no other
Apply succeeds between its Apply and its Confirm. -/
theorem background_confirms_own {s : State K C} {n : Nat} {ops : Ops} {c : Change}
    (h : (service env).Reachable (NoApplyInGap env) s)
    (hk : kind env s ⟨.bgConfirm n, ops⟩ = .confirm c) : s.calls n = .applied c.id := by
  obtain ⟨⟨i, hcall⟩, hc⟩ := calls_of_confirm hk
  rw [hcall, reachable_ownInv h n i hcall c hc]

/-- A background call alone. -/
def lonelyCall : State Text Text :=
  (service textEnv).run (freshState "a") [⟨.bgCheck 7, {}⟩, ⟨.bgApply 7, {}⟩]

theorem lonelyCall_confirms_own :
    (service textEnv).Reachable (NoApplyInGap textEnv) lonelyCall ∧
      kind textEnv lonelyCall ⟨.bgConfirm 7, {}⟩ = .confirm ⟨0, "+"⟩ ∧
      lonelyCall.calls 7 = .applied 0 := by
  have hr : (service textEnv).Reachable (NoApplyInGap textEnv) lonelyCall := by
    refine Machine.Reachable.run (.init (freshState_init _)) ⟨nofun, ?_, trivial⟩
    intro r k _ n i
    show (if n = 7 then CallPhase.checked else .idle) ≠ .applied i
    split <;> simp
  have hk : kind textEnv lonelyCall ⟨.bgConfirm 7, {}⟩ = .confirm ⟨0, "+"⟩ := rfl
  exact ⟨hr, hk, background_confirms_own hr hk⟩

/-- The operator rolls the call's change back and applies, all before the call
confirms. -/
def overtakenCall : State Text Text :=
  (service textEnv).run (freshState "a")
    [⟨.bgCheck 7, {}⟩, ⟨.bgApply 7, {}⟩, ⟨.rollback, {}⟩, ⟨.apply, {}⟩]

theorem background_confirms_operator_change :
    (service textEnv).Reachable (fun _ _ => True) overtakenCall ∧
      overtakenCall.calls 7 = .applied 0 ∧
      kind textEnv overtakenCall ⟨.bgConfirm 7, {}⟩ = .confirm ⟨1, "+"⟩ :=
  ⟨Machine.Reachable.run (.init (freshState_init _)) ⟨trivial, trivial, trivial, trivial, trivial⟩,
    rfl, rfl⟩

/-! ## Rolled-back edits -/

/-- Which edits are where. -/
structure EditHistory (E : Type) where
  /-- in the ruleset that was settled last -/
  inForce : List E
  /-- in the ruleset that was applied last -/
  installed : List E
  /-- rolled back, still in the saved config, and no operator Confirm since -/
  rolledBack : List E

variable {E : Type} [DecidableEq E]

/-- An edit is rolled back with the change that installed it, unless it was in
force before; it leaves the list when the config drops it or when an operator
confirms a change. -/
def EditHistory.update (edits : C → List E) (env : Env K C) (h : EditHistory E) (s : State K C)
    (e : Event K C) : EditHistory E :=
  match kind env s e, e.action with
  | .apply _ _, _ => { h with installed := edits s.config }
  | .confirm _, .confirm => { h with inForce := h.installed, rolledBack := [] }
  | .confirm _, _ => { h with inForce := h.installed }
  | .revert _ _, _ =>
    { h with rolledBack := h.rolledBack ++
        h.installed.filter fun x => x ∉ h.inForce ∧ x ∈ edits s.config }
  | _, .edit config => { h with rolledBack := h.rolledBack.filter (· ∈ edits config) }
  | _, _ => h

/-- The service with its edits; `base` is what is in force at the start. -/
def editRecorded (edits : C → List E) (base : List E) (env : Env K C) :
    Machine (State K C × EditHistory E) (Event K C) :=
  (service env).observe ⟨base, [], []⟩ (EditHistory.update edits env)

/-- The operations succeed, no other Apply falls between a call's Apply and its
Confirm, only the watchdog rolls a change back, and it does not while a call stands
between its look at the marker and its Apply. -/
structure GapsClear (env : Env K C) (s : State K C) (e : Event K C) : Prop where
  ok : AllOk s e
  noApply : NoApplyInGap env s e
  noRollback : ∀ c, kind env s e ≠ .revert c false
  noWatchdog : ∀ c, kind env s e = .revert c true → ∀ n, s.calls n ≠ .checked

/-- A rolled-back edit keeps the marker in place and the calls out. -/
structure EditInv (s : State K C) (h : EditHistory E) : Prop where
  own : OwnInv s
  marked : h.rolledBack ≠ [] → s.rolledBack ∧ ∀ n, s.calls n ≠ .checked
  clean : ∀ n i, s.calls n = .applied i → s.change ≠ none → h.rolledBack = []

section Update

variable {edits : C → List E} {h : EditHistory E} {s : State K C} {e : Event K C}

theorem update_of_quiet (hk : kind env s e = .quiet ∨ kind env s e = .restart)
    (hne : (h.update edits env s e).rolledBack ≠ []) : h.rolledBack ≠ [] := by
  intro hnil
  apply hne
  obtain ⟨a, ops⟩ := e
  unfold EditHistory.update
  rcases hk with hk | hk <;> rw [hk] <;> cases a <;> simp [hnil]

theorem update_of_apply {rendered : Text} {k : K} (hk : kind env s e = .apply rendered k) :
    (h.update edits env s e).rolledBack = h.rolledBack := by
  unfold EditHistory.update
  rw [hk]

theorem update_of_confirm {c : Change} (hk : kind env s e = .confirm c)
    (hne : (h.update edits env s e).rolledBack ≠ []) : e.action ≠ .confirm ∧ h.rolledBack ≠ [] := by
  obtain ⟨a, ops⟩ := e
  unfold EditHistory.update at hne
  rw [hk] at hne
  cases a with
  | confirm => exact absurd rfl hne
  | _ => exact ⟨by simp, hne⟩

/-- Only Confirm and the watchdog touch the marker. -/
theorem marker_of_step (hk : ∀ c, kind env s e ≠ .confirm c)
    (hw : ∀ c, kind env s e ≠ .revert c true) : (step env s e).rolledBack = s.rolledBack := by
  rcases step_cases env s e with ⟨_, _, _, -, -, -, -, hs⟩ | ⟨c, _, hk', -⟩ | ⟨c, w, _, hk', -, hs⟩ |
    ⟨-, hs⟩ | ⟨-, hq⟩
  · rw [hs]
    rfl
  · exact absurd hk' (hk c)
  · cases w with
    | false =>
      rw [hs]
      rfl
    | true => exact absurd hk' (hw c)
  · rw [hs]
    exact (restart_fields e.ops s).2.1
  · exact hq.marker

/-- The marker is there, and keeps calls out, from the rollback of an edit to the
operator's Confirm. -/
theorem step_marked (hg : GapsClear env s e) (hi : EditInv s h)
    (hne : (h.update edits env s e).rolledBack ≠ []) :
    (step env s e).rolledBack ∧ ∀ n, (step env s e).calls n ≠ .checked := by
  -- with the marker in place before, only a Confirm can remove it or let a call in
  have hkeep : h.rolledBack ≠ [] → (∀ c, kind env s e ≠ .confirm c) →
      (∀ c, kind env s e ≠ .revert c true) →
      (step env s e).rolledBack ∧ ∀ n, (step env s e).calls n ≠ .checked := by
    intro hne hconfirm hrevert
    obtain ⟨hm, hc⟩ := hi.marked hne
    rw [marker_of_step hconfirm hrevert]
    refine ⟨hm, fun n hn => ?_⟩
    rcases checked_of_step hn with hold | ⟨hm', -⟩
    · exact hc n hold
    · cases hm.symm.trans hm'
  rcases hk : kind env s e with ⟨r, k⟩ | c | ⟨c, w⟩ | _ | _
  · rw [update_of_apply hk] at hne
    exact hkeep hne (by simp [hk]) (by simp [hk])
  · -- a background Confirm finds no rolled-back edit, by `clean`
    obtain ⟨hact, hne'⟩ := update_of_confirm hk hne
    rcases confirm_cases hk with hop | ⟨n, i, -, hn⟩
    · exact absurd hop hact
    · exact absurd (hi.clean n i hn (by simp [(step_of_confirm hk).1])) hne'
  · cases w with
    | false => exact absurd hk (hg.noRollback c)
    | true =>
      obtain ⟨-, fired, hs⟩ := step_of_revert hk
      refine ⟨?_, ?_⟩
      · rw [hs, show e.ops = {} from hg.ok]
        rfl
      · intro n hn
        rcases checked_of_step hn with hold | ⟨-, hk'⟩
        · exact hg.noWatchdog c hk n hold
        · cases hk.symm.trans hk'
  · exact hkeep (update_of_quiet (.inr hk) hne) (by simp [hk]) (by simp [hk])
  · exact hkeep (update_of_quiet (.inl hk) hne) (by simp [hk]) (by simp [hk])

theorem step_clean (hg : GapsClear env s e) (hi : EditInv s h) {n i : Nat}
    (hn : (step env s e).calls n = .applied i) (hc : (step env s e).change ≠ none) :
    (h.update edits env s e).rolledBack = [] := by
  rcases hk : kind env s e with ⟨r, k⟩ | c | ⟨c, w⟩ | _ | _
  · rw [update_of_apply hk]
    rcases applied_of_step hn with hold | ⟨-, -, -, hchecked, -⟩
    · exact absurd hold (hg.noApply r k hk n i)
    · -- the call saw no marker, so nothing was rolled back
      by_contra hne
      exact (hi.marked hne).2 n hchecked
  · exact absurd (change_of_confirm hk) hc
  · exact absurd (change_of_revert hk) hc
  · rw [step_of_restart hk, (restart_fields e.ops s).2.2.2.2 n] at hn
    cases hn
  · rcases applied_of_step hn with hold | ⟨r, k, hk', -⟩
    · rw [(quiet_of_kind hk).change] at hc
      by_contra hne
      exact update_of_quiet (.inl hk) hne (hi.clean n i hold hc)
    · cases hk.symm.trans hk'

end Update

theorem reachable_editInv {edits : C → List E} {base : List E} {x : State K C × EditHistory E}
    (h : (editRecorded edits base env).Reachable (fun x e => GapsClear env x.1 e) x) :
    EditInv x.1 x.2 := by
  refine h.invariant (P := fun x => EditInv x.1 x.2) ?_ ?_
  · rintro ⟨s, g⟩ ⟨hs, hg⟩
    obtain rfl : g = ⟨base, [], []⟩ := hg
    have hidle := hs.2.2.2.2.2.2
    refine ⟨?_, fun hne => absurd rfl hne, ?_⟩
    all_goals
      intro n i hn
      rw [hidle n] at hn
      cases hn
  · intro x e hi hg
    exact ⟨step_ownInv hg.noApply hi.own, step_marked hg hi, fun n i => step_clean hg hi⟩

/-- **No rolled-back edit comes back in the background**, in every run whose gaps
are clear: a Confirm of a background call settles a ruleset without rolled-back
edits. -/
theorem background_keeps_rolled_back_out {edits : C → List E} {base : List E}
    {x : State K C × EditHistory E} {n : Nat} {ops : Ops} {c : Change}
    (h : (editRecorded edits base env).Reachable (fun x e => GapsClear env x.1 e) x)
    (hk : kind env x.1 ⟨.bgConfirm n, ops⟩ = .confirm c) :
    ∀ edit ∈ x.2.rolledBack, edit ∉ x.2.installed := by
  obtain ⟨⟨i, hn⟩, hc⟩ := calls_of_confirm hk
  rw [(reachable_editInv h).clean n i hn (by simp [hc])]
  simp

/-- The background call alone again, with edits counted by the letter. -/
def lonelyEdits : State Text Text × EditHistory Char :=
  (editRecorded id [] textEnv).run (freshState "a", ⟨[], [], []⟩)
    [⟨.bgCheck 7, {}⟩, ⟨.bgApply 7, {}⟩]

theorem lonelyEdits_keeps_rolled_back_out :
    (editRecorded id [] textEnv).Reachable (fun x e => GapsClear textEnv x.1 e) lonelyEdits ∧
      ∀ edit ∈ lonelyEdits.2.rolledBack, edit ∉ lonelyEdits.2.installed := by
  have hr : (editRecorded id [] textEnv).Reachable (fun x e => GapsClear textEnv x.1 e)
      lonelyEdits := by
    refine Machine.Reachable.run (.init ⟨freshState_init _, rfl⟩)
      ⟨⟨rfl, nofun, nofun, nofun⟩, ⟨rfl, ?_, nofun, nofun⟩, trivial⟩
    intro r k _ n i
    show (if n = 7 then CallPhase.checked else .idle) ≠ .applied i
    split <;> simp
  have hk : kind textEnv lonelyEdits.1 ⟨.bgConfirm 7, {}⟩ = .confirm ⟨0, "+"⟩ := rfl
  exact ⟨hr, background_keeps_rolled_back_out hr hk⟩

/-- The watchdog rolls the operator's edit back right after a call has looked for
the marker. -/
def racedEdits : State Text Text × EditHistory Char :=
  (editRecorded id [] textEnv).run (freshState "a", ⟨[], [], []⟩)
    [⟨.apply, {}⟩, ⟨.bgCheck 7, {}⟩, ⟨.clock 30, {}⟩, ⟨.expire 0, {}⟩, ⟨.watchdog 0, {}⟩,
      ⟨.bgApply 7, {}⟩]

/-- The operator rolls the edit back, which leaves no marker. -/
def unmarkedEdits : State Text Text × EditHistory Char :=
  (editRecorded id [] textEnv).run (freshState "a", ⟨[], [], []⟩)
    [⟨.apply, {}⟩, ⟨.rollback, {}⟩, ⟨.bgCheck 7, {}⟩, ⟨.bgApply 7, {}⟩]

theorem background_reinstalls_rolled_back_edit :
    ((editRecorded id [] textEnv).Reachable (fun x e => AllOk x.1 e) racedEdits ∧
      kind textEnv racedEdits.1 ⟨.bgConfirm 7, {}⟩ = .confirm ⟨1, "+"⟩ ∧
      racedEdits.1.calls 7 = .applied 1 ∧
      'a' ∈ racedEdits.2.rolledBack ∧ 'a' ∈ racedEdits.2.installed) ∧
    ((editRecorded id [] textEnv).Reachable (fun x e => AllOk x.1 e) unmarkedEdits ∧
      kind textEnv unmarkedEdits.1 ⟨.bgConfirm 7, {}⟩ = .confirm ⟨1, "+"⟩ ∧
      unmarkedEdits.1.calls 7 = .applied 1 ∧
      'a' ∈ unmarkedEdits.2.rolledBack ∧ 'a' ∈ unmarkedEdits.2.installed) := by
  refine ⟨⟨?_, rfl, rfl, ?_, ?_⟩, ⟨?_, rfl, rfl, ?_, ?_⟩⟩
  · exact Machine.Reachable.run (.init ⟨freshState_init _, rfl⟩)
      ⟨rfl, rfl, rfl, rfl, rfl, rfl, trivial⟩
  · decide
  · decide
  · exact Machine.Reachable.run (.init ⟨freshState_init _, rfl⟩) ⟨rfl, rfl, rfl, rfl, trivial⟩
  · decide
  · decide

end Lankeeper.Firewall
