import Lankeeper.Firewall.Pending

/-!
# Lankeeper.Firewall.Settling — what settling a change leaves behind

Two questions about the step that settles a change. Which text does Confirm write
to the boot ruleset file? The rendered ruleset is kept in process memory only, so
after a restart the live config is rendered again, edited or not
(`confirm_writes_loaded_iff`). And what is left of a change whose rollback
failed? Rollback and the watchdog forget it in memory and remove the record
whether or not the snapshot was loaded (`failed_rollback_recorded_iff`).
-/

namespace Lankeeper.Firewall

open Lib Text

variable {K C : Type} {env : Env K C}

/-! ## The boot ruleset -/

/-- The text a step writes to the boot ruleset file. -/
def bootWrite (env : Env K C) (s : State K C) (e : Event K C) : Option Text :=
  match kind env s e with
  | .confirm _ => if e.ops.persistBoot then confirmedRuleset env s else none
  | _ => none

/-- Nothing else writes that file. -/
theorem step_boot (s : State K C) (e : Event K C) :
    (step env s e).boot = (bootWrite env s e).or s.boot := by
  unfold bootWrite
  rcases step_cases env s e with ⟨_, _, _, hk, -, -, -, hs⟩ | ⟨c, calls, hk, hc, hs⟩ |
    ⟨c, w, fired, hk, -, hs⟩ | ⟨hk, hs⟩ | ⟨hk, hq⟩
  · rw [hk, hs]
    rfl
  · rw [hk, hs]
    simp only [confirm, hc]
    show (if e.ops.persistBoot then (confirmedRuleset env s).or s.boot else s.boot) = _
    split <;> rfl
  · rw [hk, hs]
    cases w <;> rfl
  · rw [hk, hs]
    exact (restart_fields e.ops s).2.2.1
  · rw [hk]
    exact hq.boot

/-- What the last successful Apply loaded, and whether the process was restarted
since. -/
structure LoadedText where
  text : Text
  restarted : Bool

def LoadedText.update (env : Env K C) (h : LoadedText) (s : State K C) (e : Event K C) :
    LoadedText :=
  match kind env s e with
  | .apply rendered _ => ⟨rendered, false⟩
  | .restart => { h with restarted := true }
  | _ => h

/-- The service with the text that was loaded last. -/
def textRecorded (env : Env K C) : Machine (State K C × LoadedText) (Event K C) :=
  (service env).observe ⟨[], false⟩ (LoadedText.update env)

/-- The file operations of a step succeed; nft may fail. -/
def FilesOk (e : Event K C) : Prop :=
  e.ops.persistState ∧ e.ops.removeState ∧ e.ops.writeRollback ∧
    e.ops.mark ∧ e.ops.unmark ∧ e.ops.persistBoot

/-- The ruleset in memory is the loaded one until the process is restarted, and
gone after that. -/
structure LoadedInv (s : State K C) (h : LoadedText) : Prop where
  idle : s.change = none → s.pending = none
  kept : s.change ≠ none → h.text ≠ [] ∧
    s.appliedRuleset = if h.restarted then [] else h.text

theorem step_loadedInv {s : State K C} {h : LoadedText} {e : Event K C} (hok : FilesOk e)
    (hi : LoadedInv s h) : LoadedInv (step env s e) (h.update env s e) := by
  unfold LoadedText.update
  rcases step_cases env s e with ⟨rendered, k, calls, hk, -, hr, -, hs⟩ | ⟨c, calls, hk, hc, hs⟩ |
    ⟨c, w, fired, hk, -, hs⟩ | ⟨hk, hs⟩ | ⟨hk, hq⟩
  · rw [hk, hs]
    refine ⟨?_, ?_⟩
    · intro hc
      cases hc
    · intro _
      exact ⟨env.render_ne_nil _ _ hr, rfl⟩
  · rw [hk, hs]
    obtain ⟨-, hcn, hp, -⟩ := confirm_of_some env e.ops hc
    refine ⟨?_, fun hne => absurd hcn hne⟩
    intro _
    rw [hp, if_pos hok.2.1]
  · rw [hk, hs]
    refine ⟨?_, fun hne => absurd (reverted_change env s e.ops c w) hne⟩
    intro _
    rw [reverted_pending, if_pos hok.2.1]
  · -- the memory of the process is lost, the record is not
    rw [hk, hs]
    rcases hc : s.change with _ | c
    · obtain ⟨-, hcn, hp, -⟩ := restart_of_none e.ops (hi.idle hc)
      exact ⟨fun _ => hp, fun hne => absurd hcn hne⟩
    have hkept := hi.kept (by simp [hc])
    refine ⟨?_, fun _ => ⟨hkept.1, ?_⟩⟩
    · intro hcn
      rcases hp : s.pending with _ | state
      · exact (restart_of_none e.ops hp).2.2.1
      by_cases hne : state.snapshot = []
      · unfold restart restorePendingChange
        simp only [hp, hne, if_true]
        exact if_pos hok.2.1
      · rw [(restart_of_some e.ops hp hne).2.1] at hcn
        cases hcn
    · rw [(restart_fields e.ops s).2.2.2.1]
      rfl
  · rw [hk]
    refine ⟨?_, ?_⟩
    · intro hc
      rw [hq.change] at hc
      rcases hq.pending with hp | ⟨-, hp⟩
      · rw [hp]
        exact hi.idle hc
      · exact hp
    · intro hc
      rw [hq.change] at hc
      rw [hq.applied]
      exact hi.kept hc

theorem reachable_loadedInv {x : State K C × LoadedText}
    (h : (textRecorded env).Reachable (fun _ e => FilesOk e) x) : LoadedInv x.1 x.2 := by
  refine h.invariant (P := fun x => LoadedInv x.1 x.2) ?_ ?_
  · rintro ⟨s, g⟩ ⟨⟨hc, hp, -⟩, -⟩
    exact ⟨fun _ => hp, fun hne => absurd hc hne⟩
  · intro x e hi hok
    exact step_loadedInv hok hi

/-- **What Confirm persists.** The boot file gets the text that Apply loaded
exactly when the process was not restarted since, or the config still renders to
that text. -/
theorem confirm_writes_loaded_iff {x : State K C × LoadedText} {e : Event K C} {c : Change}
    (h : (textRecorded env).Reachable (fun _ e => FilesOk e) x)
    (hk : kind env x.1 e = .confirm c) (hok : FilesOk e) :
    (step env x.1 e).boot = (bootWrite env x.1 e).or x.1.boot ∧
    ((∀ t, bootWrite env x.1 e = some t → t = x.2.text) ↔
      (x.2.restarted = false ∨ ∀ t, env.render x.1.config = some t → t = x.2.text)) := by
  refine ⟨step_boot x.1 e, ?_⟩
  have hi := reachable_loadedInv h
  have hc : x.1.change ≠ none := by
    rw [(step_of_confirm hk).1]
    simp
  obtain ⟨hne, happ⟩ := hi.kept hc
  unfold bootWrite confirmedRuleset
  rw [hk, happ]
  simp only [hok.2.2.2.2.2, if_true]
  rcases x.2.restarted with _ | _
  · -- the rendered text is still in memory
    simp only [Bool.false_eq_true, if_false, ne_eq, hne, not_false_eq_true, if_true, true_or,
      iff_true]
    intro t ht
    exact (Option.some.inj ht).symm
  · simp only [if_true, ne_eq, not_true_eq_false, if_false, Bool.true_eq_false, false_or]

/-- Apply, then an edit of the config. -/
def editedApply : State Text Text × LoadedText :=
  (textRecorded textEnv).run (freshState "a", ⟨[], false⟩)
    [⟨.apply, {}⟩, ⟨.edit "b", {}⟩]

theorem editedApply_persists :
    (textRecorded textEnv).Reachable (fun _ e => FilesOk e) editedApply ∧
      ∀ t, bootWrite textEnv editedApply.1 ⟨.confirm, {}⟩ = some t → t = editedApply.2.text := by
  have hf : ∀ a : Action Text Text, FilesOk ⟨a, {}⟩ := fun _ => ⟨rfl, rfl, rfl, rfl, rfl, rfl⟩
  have hr : (textRecorded textEnv).Reachable (fun _ e => FilesOk e) editedApply :=
    Machine.Reachable.run (.init ⟨freshState_init _, rfl⟩) ⟨hf _, hf _, trivial⟩
  have hk : kind textEnv editedApply.1 ⟨.confirm, {}⟩ = .confirm ⟨0, "+"⟩ := rfl
  exact ⟨hr, ((confirm_writes_loaded_iff hr hk (hf _)).2).mpr (.inl rfl)⟩

/-- Apply, a restart of the process, then an edit of the config. -/
def restartedApply : State Text Text × LoadedText :=
  (textRecorded textEnv).run (freshState "a", ⟨[], false⟩)
    [⟨.apply, {}⟩, ⟨.restart, {}⟩, ⟨.edit "b", {}⟩]

theorem restartedApply_persists_edit :
    (textRecorded textEnv).Reachable (fun _ e => FilesOk e) restartedApply ∧
      kind textEnv restartedApply.1 ⟨.confirm, {}⟩ = .confirm ⟨1, "+"⟩ ∧
      restartedApply.2.text = "+a" ∧
      (step textEnv restartedApply.1 ⟨.confirm, {}⟩).boot = some "+b".toList := by
  have hf : ∀ a : Action Text Text, FilesOk ⟨a, {}⟩ := fun _ => ⟨rfl, rfl, rfl, rfl, rfl, rfl⟩
  refine ⟨Machine.Reachable.run (.init ⟨freshState_init _, rfl⟩) ⟨hf _, hf _, hf _, trivial⟩,
    rfl, ?_, ?_⟩
  · decide
  · decide

/-! ## A rollback that fails -/

/-- The change is recorded as pending, in memory or on disk, with its snapshot. -/
def StillRecorded (c : Change) (s : State K C) : Prop :=
  (∃ c', s.change = some c' ∧ c'.snapshot = c.snapshot) ∨
    ∃ state, s.pending = some state ∧ state.snapshot = c.snapshot

theorem reverted_recorded_iff (s : State K C) (ops : Ops) (c : Change) (w : Bool) :
    StillRecorded c (reverted env ops c w s) ↔
      (∃ state, s.pending = some state ∧ state.snapshot = c.snapshot) ∧
        ops.removeState = false := by
  unfold StillRecorded
  rw [reverted_change, reverted_pending]
  rcases ops.removeState with _ | _
  · simp
  · simp

/-- **What a failed rollback leaves.** After a Rollback, or a watchdog callback,
that could not load the snapshot, the change is still recorded exactly when the
record on disk held it and could not be removed either. -/
theorem failed_rollback_recorded_iff {s : State K C} {ops : Ops} {c : Change}
    (hc : s.change = some c) (hfail : rolledBackKernel env ops c s.kernel = none) :
    ((rollback env ops s).kernel = s.reloaded s.kernel ∧
      (StillRecorded c (rollback env ops s) ↔
        (∃ state, s.pending = some state ∧ state.snapshot = c.snapshot) ∧
          ops.removeState = false)) ∧
    (c.id ∈ s.fired →
      (watchdog env ops c.id s).kernel = s.reloaded s.kernel ∧
      (StillRecorded c (watchdog env ops c.id s) ↔
        (∃ state, s.pending = some state ∧ state.snapshot = c.snapshot) ∧
          ops.removeState = false)) := by
  have hkernel : ∀ w, (reverted env ops c w s).kernel = s.reloaded s.kernel := by
    intro w
    rw [reverted_kernel, hfail]
    rfl
  constructor
  · have hroll : rollback env ops s = reverted env ops c false s := by
      unfold rollback
      rw [hc]
      rfl
    rw [hroll]
    exact ⟨hkernel false, reverted_recorded_iff s ops c false⟩
  · intro hf
    have hdog : watchdog env ops c.id s =
        { reverted env ops c true s with fired := s.fired.erase c.id } := by
      unfold watchdog
      simp only [hf, not_true_eq_false, if_false, hc, ne_eq]
      rfl
    rw [hdog]
    exact ⟨hkernel true, reverted_recorded_iff s ops c true⟩

/-- The rollback file cannot be loaded, and the record cannot be removed. -/
def stuckOps : Ops := { loadRollback := false, removeState := false }

theorem stuck_rollback_recorded :
    StillRecorded ⟨0, "+"⟩ (rollback textEnv stuckOps firstApply.1) := by
  refine ((failed_rollback_recorded_iff (c := ⟨0, "+"⟩) rfl rfl).1.2).mpr ⟨?_, rfl⟩
  exact ⟨⟨"+", 0⟩, rfl, rfl⟩

theorem failed_rollback_forgets :
    firstApply.1.change = some ⟨0, "+"⟩ ∧
      rolledBackKernel textEnv { loadRollback := false } ⟨0, "+"⟩ firstApply.1.kernel = none ∧
      (rollback textEnv { loadRollback := false } firstApply.1).kernel = "a" ∧
      ¬ StillRecorded ⟨0, "+"⟩ (rollback textEnv { loadRollback := false } firstApply.1) := by
  refine ⟨rfl, rfl, rfl, ?_⟩
  rintro (⟨c', hc', -⟩ | ⟨state, hs, -⟩)
  · cases hc'
  · cases hs

end Lankeeper.Firewall
