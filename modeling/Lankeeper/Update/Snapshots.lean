import Mathlib.Data.List.Infix
import Lankeeper.Update.Service

/-!
# Lankeeper.Update.Snapshots — the archives from before an update

Before it downloads anything `ApplyUpdate` exports the configuration, with every secret
on the device, to an archive of its own. `removeConfigSnapshot` deletes the archive that
the pending update remembers when `ConfirmUpdate` or `Rollback` settles it.

Runs here are those of `Update.Service`, and the process may be killed within a call: it
has then done the steps up to some point, as if the rest had failed, and starts again.

`mem_snapshots_step` says which archives a step adds and which it removes. From it
`no_archive_iff` says when no archive is on disk while nothing is pending: every archive
made so far must have been settled. A download that fails and the guard both leave one
behind (`archive_left_behind`).
-/

namespace Lankeeper.Update

open Lib Text

variable {β : Type} {t : Trial β}

/-! ## Runs with kills -/

/-- A call that returns, or one in which the process is killed before a process of the
given version starts. -/
inductive Occurrence (β : Type)
  | call (e : Event β)
  | killed (e : Event β) (version : Text)

/-- The call. -/
def Occurrence.event : Occurrence β → Event β
  | .call e => e
  | .killed e _ => e

def Trial.occur (t : Trial β) : Occurrence β → Trial β
  | .call e => t.step e
  | .killed e version => (t.step e).step (.restart version)

/-- The device under updates, from one on which nothing is pending and no archive lies. -/
def snapshotting (β : Type) : Machine (Trial β) (Occurrence β) where
  Init t := (updating β).Init t ∧ t.state.snapshots = []
  step := Trial.occur

/-! ## What makes and what removes an archive -/

/-- An export leaves an archive: `tar` ran, and what it wrote was not removed. -/
def ExportEnv.Leaves (env : ExportEnv) : Prop :=
  env.staleRemoved ∧ env.created ∧ (env.archived ∨ ¬ env.partialRemoved)

/-- An export removes the archive that was there and leaves none. -/
def ExportEnv.Clears (env : ExportEnv) : Prop :=
  env.staleRemoved ∧ ¬ (env.created ∧ (env.archived ∨ ¬ env.partialRemoved))

/-- `ApplyUpdate` runs an export to the archive with the given effect. -/
def Exports (env : ApplyEnv β) (info : UpdateInfo) (effect : ExportEnv → Prop) (a : Text) : Prop :=
  info.downloadURL ≠ [] ∧ (∃ x, env.exported = some x ∧ effect x) ∧
    a = preUpdateSnapshotPath info.latestVersion

/-- The call makes the archive. -/
def Event.Makes (a : Text) : Event β → Prop
  | .applyUpdate env info => Exports env info ExportEnv.Leaves a
  | _ => False

/-- The pending update remembers the archive. -/
def State.Remembers (s : State β) (a : Text) : Prop :=
  a ≠ [] ∧ s.pending.map (·.configSnapshot) = some a

/-- The call removes the archive: it settles the update that remembers it, or exports to
it in vain. -/
def Event.Removes (s : State β) (a : Text) : Event β → Prop
  | .applyUpdate env info => Exports env info ExportEnv.Clears a
  | .confirmUpdate env => s.Remembers a ∧ env.snapshotRemoved
  | .rollback env => s.Remembers a ∧ (copyBackup s env.copy).2 ∧ env.snapshotRemoved
  | .restart _ => False
  | .guardFires _ => False

/-! ## Frame lemmas -/

theorem copyBackup_snapshots (s : State β) (c : Copy β) :
    (copyBackup s c).1.snapshots = s.snapshots := by
  unfold copyBackup
  split
  · rfl
  · split <;> rfl

theorem copyBackup_pending (s : State β) (c : Copy β) : (copyBackup s c).1.pending = s.pending := by
  unfold copyBackup
  split
  · rfl
  · split <;> rfl

theorem installBinary_snapshots (env : ApplyEnv β) (new : β) (s : State β) :
    (installBinary env new s).2.snapshots = s.snapshots := by
  unfold installBinary
  split
  · rfl
  simp only
  split
  · exact copyBackup_snapshots _ _
  · split
    · exact copyBackup_snapshots _ _
    · split
      · exact copyBackup_snapshots _ _
      · rfl

theorem recordUpdate_snapshots (env : ApplyEnv β) (info : UpdateInfo) (configSnapshot : Text)
    (s : State β) : (recordUpdate env info configSnapshot s).2.snapshots = s.snapshots := by
  unfold recordUpdate
  simp only
  rcases saveUpdateState_cases ⟨info.latestVersion, s.currentVersion, configSnapshot⟩ s env.save with
    ⟨file, hsave⟩ | hsave
  · rw [hsave]
    exact copyBackup_snapshots _ _
  rw [hsave]
  simp only
  split
  · rw [clearUpdateState_eq]
    exact copyBackup_snapshots _ _
  · rfl

/-- Behind the export nothing in `ApplyUpdate` touches the archives, however it ends. -/
theorem applyUpdate_snapshots (env : ApplyEnv β) (info : UpdateInfo) (s : State β)
    (hurl : info.downloadURL ≠ []) : (applyUpdate env info s).2.snapshots =
      (snapshotConfig env.exported info.latestVersion s).2.snapshots := by
  rw [applyUpdate, if_neg hurl]
  generalize snapshotConfig env.exported info.latestVersion s = r
  obtain ⟨configSnapshot, s⟩ := r
  simp only
  cases fetchBinary env with
  | error e => rfl
  | ok new =>
    have hinstall := installBinary_snapshots env new s
    simp only
    generalize installBinary env new s = r at hinstall ⊢
    rcases r with ⟨_ | _, s'⟩
    · exact hinstall
    · exact (recordUpdate_snapshots env info configSnapshot s').trans hinstall

theorem rollbackUnconfirmedUpdate_snapshots (env : GuardEnv) (s : State β) :
    (rollbackUnconfirmedUpdate env s).2.snapshots = s.snapshots := by
  unfold rollbackUnconfirmedUpdate
  split
  · rfl
  split
  · rfl
  · split
    · simp only [clearUpdateState_eq, removeBackup_eq]
      split <;> rfl
    · rfl

/-! ## The archives after a step -/

theorem mem_exportPlain (env : ExportEnv) (path a : Text) (archives : List Text) :
    a ∈ (exportPlain env path archives).2 ↔
      (env.Leaves ∧ a = path) ∨ a ∈ archives ∧ ¬ (env.Clears ∧ a = path) := by
  unfold exportPlain ExportEnv.Leaves ExportEnv.Clears
  by_cases hpath : a = path
  · cases env.staleRemoved <;> cases env.created <;> cases env.archived <;>
      cases env.partialRemoved <;> simp [hpath]
  · cases env.staleRemoved <;> cases env.created <;> cases env.archived <;>
      cases env.partialRemoved <;> simp [hpath]

theorem mem_applyUpdate_snapshots (env : ApplyEnv β) (info : UpdateInfo) (s : State β) (a : Text) :
    a ∈ (applyUpdate env info s).2.snapshots ↔
      Exports env info ExportEnv.Leaves a ∨
        a ∈ s.snapshots ∧ ¬ Exports env info ExportEnv.Clears a := by
  by_cases hurl : info.downloadURL = []
  · rw [applyUpdate, if_pos hurl]
    simp [Exports, hurl]
  rw [applyUpdate_snapshots env info s hurl]
  cases hexp : env.exported with
  | none => simp [snapshotConfig, Exports, hexp]
  | some x =>
    have hmem := mem_exportPlain x (preUpdateSnapshotPath info.latestVersion) a s.snapshots
    simpa [snapshotConfig, Exports, hexp, hurl] using hmem

theorem mem_removeConfigSnapshot (removed : Bool) (s : State β) (a : Text) :
    a ∈ (removeConfigSnapshot removed s).snapshots ↔
      a ∈ s.snapshots ∧ ¬ (s.Remembers a ∧ removed) := by
  unfold removeConfigSnapshot State.Remembers
  cases s.pending with
  | none => simp
  | some p =>
    simp only [Option.map_some, Option.some.injEq]
    split
    · rename_i hrm
      simp only [List.mem_filter, decide_eq_true_eq, and_congr_right_iff]
      intro _
      constructor
      · intro hne hrem
        exact hne hrem.1.2.symm
      · intro hkept heq
        exact hkept ⟨⟨fun hnil => hrm.1 (heq ▸ hnil), heq.symm⟩, hrm.2⟩
    · rename_i hrm
      refine (and_iff_left fun hrem => hrm ⟨fun hnil => hrem.1.1 ?_, hrem.2⟩).symm
      exact hrem.1.2.symm.trans hnil

theorem mem_settle_snapshots (env : SettleEnv β) (s : State β) (a : Text) :
    a ∈ (settle env s).snapshots ↔ a ∈ s.snapshots ∧ ¬ (s.Remembers a ∧ env.snapshotRemoved) := by
  rw [settle, clearUpdateState_eq, removeBackup_eq]
  exact mem_removeConfigSnapshot env.snapshotRemoved _ a

theorem mem_rollback_snapshots (env : SettleEnv β) (s : State β) (a : Text) :
    a ∈ (rollback env s).2.snapshots ↔
      a ∈ s.snapshots ∧ ¬ (s.Remembers a ∧ (copyBackup s env.copy).2 ∧ env.snapshotRemoved) := by
  unfold rollback
  cases hp : s.pending with
  | none => simp [State.Remembers, hp]
  | some p =>
    have hsnap := copyBackup_snapshots s env.copy
    have hpend := copyBackup_pending s env.copy
    simp only
    generalize copyBackup s env.copy = r at hsnap hpend ⊢
    rcases r with ⟨s', _ | _⟩
    · simp only at hsnap ⊢
      rw [hsnap]
      simp
    · simp only at hsnap hpend ⊢
      rw [mem_settle_snapshots, hsnap]
      simp [State.Remembers, hpend]

/-- What a call does to the archives. -/
theorem mem_snapshots_step (t : Trial β) (e : Event β) (a : Text) :
    a ∈ (t.step e).state.snapshots ↔ e.Makes a ∨ a ∈ t.state.snapshots ∧ ¬ e.Removes t.state a := by
  cases e with
  | applyUpdate env info => exact mem_applyUpdate_snapshots env info t.state a
  | confirmUpdate env =>
    simp only [Event.Makes, false_or]
    exact mem_settle_snapshots env t.state a
  | rollback env =>
    simp only [Event.Makes, false_or]
    exact mem_rollback_snapshots env t.state a
  | restart version => simp [Event.Makes, Event.Removes, Trial.step, restart]
  | guardFires env =>
    simp [Event.Makes, Event.Removes, Trial.step, rollbackUnconfirmedUpdate_snapshots]

/-- A process that starts finds the archives as they are. -/
theorem mem_snapshots_occur (t : Trial β) (o : Occurrence β) (a : Text) :
    a ∈ (t.occur o).state.snapshots ↔
      o.event.Makes a ∨ a ∈ t.state.snapshots ∧ ¬ o.event.Removes t.state a := by
  cases o with
  | call e => exact mem_snapshots_step t e a
  | killed e version => exact mem_snapshots_step t e a

/-! ## Every run -/

/-- Every `rm` of an archive that a call reaches succeeds. A call that is killed may not
have reached it. -/
def RmSucceeds : Occurrence β → Prop
  | .call (.applyUpdate env _) => ∀ x, env.exported = some x → x.staleRemoved ∧ x.partialRemoved
  | .call (.confirmUpdate env) => env.snapshotRemoved
  | .call (.rollback env) => env.snapshotRemoved
  | _ => True

/-- The archive is settled: `ConfirmUpdate` or a `Rollback` that restores the backup ends
the update that remembers it. Or another export to it fails, or the process is killed in
one of these behind the `rm`. -/
def Occurrence.Settles (s : State β) (a : Text) : Occurrence β → Prop
  | .call (.confirmUpdate _) => s.Remembers a
  | .call (.rollback env) => s.Remembers a ∧ (copyBackup s env.copy).2
  | o => o.event.Removes s a

theorem removes_iff_settles (s : State β) (a : Text) {o : Occurrence β} (h : RmSucceeds o) :
    o.event.Removes s a ↔ o.Settles s a := by
  rcases o with e | ⟨e, version⟩
  · cases e with
    | confirmUpdate env => exact and_iff_left h
    | rollback env => exact and_congr_right fun _ => and_iff_left h
    | applyUpdate env info => rfl
    | restart version => rfl
    | guardFires env => rfl
  · rfl

theorem mem_snapshots_occur_iff_settles (a : Text) (t : Trial β) (o : Occurrence β)
    (h : RmSucceeds o) : a ∈ (t.occur o).state.snapshots ↔
      o.event.Makes a ∨ a ∈ t.state.snapshots ∧ ¬ o.Settles t.state a := by
  rw [← removes_iff_settles t.state a h]
  exact mem_snapshots_occur t o a

/-- Every archive made in the run has been settled since. -/
def Accounted (t : Trial β) (os : List (Occurrence β)) : Prop :=
  ∀ a pre o rest, os = pre ++ o :: rest → o.event.Makes a →
    ∃ mid d, mid ++ [d] <+: rest ∧
      d.Settles ((snapshotting β).run t (pre ++ o :: mid)).state a

/-- The archives on disk are those that were made and not settled since. -/
theorem snapshots_eq_nil_iff (ht : t.state.snapshots = []) {os : List (Occurrence β)}
    (hrm : ∀ o ∈ os, RmSucceeds o) :
    ((snapshotting β).run t os).state.snapshots = [] ↔ Accounted t os := by
  have hsince := fun a => Machine.run_iff_since (M := snapshotting β)
    (P := fun t => a ∈ t.state.snapshots) (mem_snapshots_occur_iff_settles a) t hrm
  rw [List.eq_nil_iff_forall_not_mem]
  constructor
  · intro hnone a pre o rest hos hmakes
    by_contra hkept
    refine hnone a ((hsince a).mpr (.inr ⟨pre, o, rest, hos, hmakes, ?_⟩))
    rw [Machine.guarded_iff]
    intro mid d hmid hsettles
    rw [← Machine.run_append, List.append_assoc] at hsettles
    exact hkept ⟨mid, d, hmid, hsettles⟩
  · intro haccounted a ha
    rcases (hsince a).mp ha with ⟨hold, -⟩ | ⟨pre, o, rest, hos, hmakes, hkept⟩
    · rw [ht] at hold
      exact List.not_mem_nil hold
    · obtain ⟨mid, d, hmid, hsettles⟩ := haccounted a pre o rest hos hmakes
      refine Machine.guarded_iff.mp hkept mid d hmid ?_
      rw [← Machine.run_append, List.append_assoc]
      exact hsettles

/-- **No archive outlives its update** exactly in the runs in which, whenever nothing is
pending, every archive made so far has been settled. -/
theorem no_archive_iff {t : Trial β} (ht : (snapshotting β).Init t) {os : List (Occurrence β)}
    (hrm : ∀ o ∈ os, RmSucceeds o) :
    (∀ pre, pre <+: os → ((snapshotting β).run t pre).state.pending = none →
      ((snapshotting β).run t pre).state.snapshots = []) ↔
    ∀ pre, pre <+: os → ((snapshotting β).run t pre).state.pending = none → Accounted t pre := by
  refine forall_congr' fun pre => imp_congr_right fun hpre => imp_congr_right fun _ => ?_
  exact snapshots_eq_nil_iff ht.2 fun o ho => hrm o (hpre.subset ho)

/-! What the condition comes to for one update: `ConfirmUpdate` and a `Rollback` that gets its copy
through leave no archive that the update remembers; a fetch that fails and the guard leave theirs. -/

theorem snapshots_of_settles {o : Occurrence β} (hrm : RmSucceeds o)
    (hmakes : ∀ a, ¬ o.event.Makes a) (h : ∀ a ∈ t.state.snapshots, o.Settles t.state a) :
    (t.occur o).state.snapshots = [] := by
  rw [List.eq_nil_iff_forall_not_mem]
  intro a ha
  rcases (mem_snapshots_occur_iff_settles a t o hrm).mp ha with hmade | ⟨hold, hkept⟩
  · exact hmakes a hmade
  · exact hkept (h a hold)

theorem snapshots_of_failed_fetch {env : ApplyEnv β} {info : UpdateInfo} {a : Text}
    {e : UpdateError} (hmade : Exports env info ExportEnv.Leaves a)
    (hfetch : fetchBinary env = .error e) :
    (t.step (.applyUpdate env info)).state.pending = t.state.pending ∧
      a ∈ (t.step (.applyUpdate env info)).state.snapshots := by
  refine ⟨?_, (mem_snapshots_step t _ a).mpr (.inl hmade)⟩
  show (applyUpdate env info t.state).2.pending = _
  rw [applyUpdate, if_neg hmade.1, hfetch]
  unfold snapshotConfig
  cases env.exported <;> rfl

theorem snapshots_guardFires (t : Trial β) (env : GuardEnv) :
    (t.step (.guardFires env)).state.snapshots = t.state.snapshots :=
  rollbackUnconfirmedUpdate_snapshots env t.state

/-- An update to binary 2 that is confirmed. -/
def confirmedUpdate : List (Occurrence Nat) :=
  [.call (.applyUpdate (smooth 2) (sampleRelease '2' releaseTwo)), .call (.restart "v1.2"),
    .call (.confirmUpdate ⟨.done, true, true, true⟩)]

theorem confirmedUpdate_accounted : Accounted sampleTrial confirmedUpdate := by
  have hrm : ∀ o ∈ confirmedUpdate, RmSucceeds o := by
    simp [confirmedUpdate, RmSucceeds, smooth]
  have hinit : (snapshotting Nat).Init sampleTrial := ⟨⟨rfl, rfl, rfl⟩, rfl⟩
  have hgone : ∀ pre ∈ confirmedUpdate.inits,
      ((snapshotting Nat).run sampleTrial pre).state.pending = none →
        ((snapshotting Nat).run sampleTrial pre).state.snapshots = [] := by
    decide +kernel
  exact (no_archive_iff hinit hrm).mp (fun pre hpre => hgone pre ((List.mem_inits _ _).mpr hpre))
    confirmedUpdate List.prefix_rfl (by decide +kernel)

/-- Two updates after which nothing is pending: one fails to download, the guard takes the
other one back. -/
def failedDownload : List (Occurrence Nat) :=
  [.call (.applyUpdate { smooth 2 with downloaded := false } (sampleRelease '2' releaseTwo))]

def unconfirmedUpdate : List (Occurrence Nat) :=
  [.call (.applyUpdate (smooth 2) (sampleRelease '2' releaseTwo)), .call (.restart "v1.2"),
    .call (.guardFires ⟨true, true, true, true, true, "v1.0"⟩)]

/-- Both leave the archive on disk, though every `rm` succeeds. -/
theorem archive_left_behind :
    (snapshotting Nat).Init sampleTrial ∧ ∀ os ∈ [failedDownload, unconfirmedUpdate],
      (∀ o ∈ os, RmSucceeds o) ∧
      ((snapshotting Nat).run sampleTrial os).state.pending = none ∧
      ((snapshotting Nat).run sampleTrial os).state.snapshots =
        [preUpdateSnapshotPath ['v', '1', '.', '2']] := by
  refine ⟨⟨⟨rfl, rfl, rfl⟩, rfl⟩, ?_⟩
  simp only [List.forall_mem_cons, List.not_mem_nil, false_implies, implies_true, and_true]
  refine ⟨⟨?_, ?_⟩, ?_, ?_⟩
  · simp [failedDownload, RmSucceeds, smooth]
  · decide +kernel
  · simp [unconfirmedUpdate, RmSucceeds, smooth]
  · decide +kernel

end Lankeeper.Update
