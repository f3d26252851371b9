import Lankeeper.Lib.Basic
import Lankeeper.Lib.Machine
import Lankeeper.Lib.Text

/-!
# Lankeeper.Update.Service — updates on trial

`internal/services/update.go` and `cmd/lankeeper/update_guard.go`. `ApplyUpdate` keeps
the installed binary as `.bak`, installs the new one, records in a state file and in
memory that an update is pending, and arms a guard unit. The update is settled by
`ConfirmUpdate`, by `Rollback`, or by the guard, which runs outside the process and
sees nothing but the files. A restart reads the state file into memory.

`β` is what can stand at the path of a binary. A copy that fails may leave anything
there. Every outcome of a command or a file operation is an argument, and one that
is not reached is not read.

`trial_keeps_confirmed` says under which steps a binary that nobody confirmed is
never left installed and never becomes the backup. An `ApplyUpdate` while an update is
pending breaks it (`second_apply_loses_confirmed`).
-/

namespace Lankeeper.Update

open Lib Text

/-! ## Releases -/

/-- `releaseTagPattern` and `maxReleaseTagLength`:
`v?[0-9]+(\.[0-9]+){0,3}(-[0-9A-Za-z][0-9A-Za-z.-]*)?`. -/
def isReleaseTag (t : Text) : Bool :=
  let version := if t.head? = some 'v' then t.tail else t
  let numbers := (version.takeWhile (· ≠ '-')).splitOn '.'
  byteLen t ≤ 64 && numbers.length ≤ 4 && (numbers.all fun n => (readNat n).isSome) &&
    match version.dropWhile (· ≠ '-') with
    | [] => true
    | [_] => false
    | _ :: c :: rest => c.isAlphanum && rest.all fun d => d.isAlphanum || d == '.' || d == '-'

/-- `UpdateInfo`, as `CheckForUpdate` returns it. -/
structure UpdateInfo where
  latestVersion : Text
  downloadURL : Text
  tag : isReleaseTag latestVersion

theorem UpdateInfo.latestVersion_ne_nil (info : UpdateInfo) : info.latestVersion ≠ [] := by
  intro h
  have htag := info.tag
  rw [h] at htag
  exact absurd htag (by decide)

/-! ## Files and memory -/

/-- The fields of `UpdateService` that `resetPendingUpdate` clears, and `updateState`. The
path of the backup is the same for all updates. -/
structure Pending where
  version : Text
  previousVersion : Text
  configSnapshot : Text
deriving DecidableEq

/-- The state file. -/
inductive StateFile
  | absent
  | damaged
  | record (p : Pending)
deriving DecidableEq

/-- The device. -/
structure State (β : Type) where
  /-- the installed binary -/
  binary : β
  /-- the `.bak` file -/
  backup : Option β
  file : StateFile
  /-- pre-update archives on disk -/
  snapshots : List Text
  -- memory of the process
  currentVersion : Text
  pending : Option Pending
deriving DecidableEq

/-- Why a call fails. -/
inductive UpdateError
  | noDownloadURL | download | checksum | extract
  | backup | install | chmod | version
  | saveState | armGuard
  | noPendingUpdate | rollback
  | stat | restore | restart
deriving DecidableEq

/-- What became of `cp -f`. -/
inductive Copy (γ : Type)
  | done
  | failed (left : γ)

/-- What became of writing the state file. A write may fail before the file is touched,
in the middle, or when everything is there. -/
inductive Write
  | done | untouched | damaged | complete

variable {β : Type} {s : State β}

/-- `cp -f` of the backup over the binary, and whether it succeeded. -/
def copyBackup (s : State β) : Copy β → State β × Bool
  | .failed left => ({ s with binary := left }, false)
  | .done =>
    match s.backup with
    | none => (s, false)
    | some b => ({ s with binary := b }, true)

/-- `saveUpdateState`. -/
def saveUpdateState (p : Pending) (s : State β) : Write → State β × Bool
  | .done => ({ s with file := .record p }, true)
  | .untouched => (s, false)
  | .damaged => ({ s with file := .damaged }, false)
  | .complete => ({ s with file := .record p }, false)

/-- `clearUpdateState`. -/
def clearUpdateState (cleared : Bool) (s : State β) : State β :=
  if cleared then { s with file := .absent } else s

/-- `rm -f` of the backup. -/
def removeBackup (removed : Bool) (s : State β) : State β :=
  if removed then { s with backup := none } else s

/-- `removeConfigSnapshot`. -/
def removeConfigSnapshot (removed : Bool) (s : State β) : State β :=
  match s.pending with
  | none => s
  | some p =>
    if p.configSnapshot ≠ [] ∧ removed then
      { s with snapshots := s.snapshots.filter (· ≠ p.configSnapshot) }
    else s

/-- `preUpdateSnapshotPath`. -/
def preUpdateSnapshotPath (version : Text) : Text :=
  "/var/backups/lankeeper-pre-update-" ++ version ++ ".tar.gz"

/-! ## Calls -/

/-- The outcomes of the steps of `exportPlain`. -/
structure ExportEnv where
  staleRemoved : Bool
  created : Bool
  archived : Bool
  partialRemoved : Bool

/-- The outcomes of the steps of `ApplyUpdate`. -/
structure ApplyEnv (β : Type) where
  /-- of the export, if there is a backup service -/
  exported : Option ExportEnv
  downloaded : Bool
  verified : Bool
  /-- the binary from the archive -/
  staged : Option β
  backup : Copy (Option β)
  install : Copy β
  chmod : Bool
  /-- the installed binary reports the version -/
  reports : Bool
  save : Write
  armed : Bool
  -- on the way back
  restore : Copy β
  cleared : Bool

/-- `restoreBinary`. -/
def restoreBinary (env : ApplyEnv β) (s : State β) : State β :=
  (copyBackup s env.restore).1

/-- `installBinary`. -/
def installBinary (env : ApplyEnv β) (new : β) (s : State β) : Except UpdateError Unit × State β :=
  match env.backup with
  | .failed left => (.error .backup, { s with backup := left })
  | .done =>
    let s := { s with backup := some s.binary }
    match env.install with
    | .failed left => (.error .install, restoreBinary env { s with binary := left })
    | .done =>
      let s := { s with binary := new }
      if ¬ env.chmod then (.error .chmod, restoreBinary env s)
      else if ¬ env.reports then (.error .version, restoreBinary env s)
      else (.ok (), s)

/-- `exportPlain`, on the archives on disk, and whether it succeeded. The file that is
created first is empty; `tar` makes it an archive, also where it fails. -/
def exportPlain (env : ExportEnv) (path : Text) (archives : List Text) : Bool × List Text :=
  if ¬ env.staleRemoved then (false, archives)
  else
    let archives := archives.filter (· ≠ path)
    if ¬ env.created then (false, archives)
    else if env.archived then (true, path :: archives)
    else if env.partialRemoved then (false, archives)
    else (false, path :: archives)

/-- `snapshotConfig`, with the path of the archive. -/
def snapshotConfig (exported : Option ExportEnv) (version : Text) (s : State β) : Text × State β :=
  match exported with
  | none => ([], s)
  | some env =>
    let path := preUpdateSnapshotPath version
    let (done, archives) := exportPlain env path s.snapshots
    (if done then path else [], { s with snapshots := archives })

/-- What `ApplyUpdate` does once the new binary is installed. -/
def recordUpdate (env : ApplyEnv β) (info : UpdateInfo) (configSnapshot : Text) (s : State β) :
    Except UpdateError Unit × State β :=
  let p : Pending := ⟨info.latestVersion, s.currentVersion, configSnapshot⟩
  match saveUpdateState p s env.save with
  | (s, false) => (.error .saveState, restoreBinary env s)
  | (s, true) =>
    if ¬ env.armed then
      (.error .armGuard, { clearUpdateState env.cleared (restoreBinary env s) with pending := none })
    else (.ok (), { s with pending := some p })

/-- `downloadFile`, `verifyChecksum` and `stageBinary`: the new binary. -/
def fetchBinary (env : ApplyEnv β) : Except UpdateError β := do
  failIf (¬ env.downloaded) .download
  failIf (¬ env.verified) .checksum
  match env.staged with
  | none => .error .extract
  | some new => .ok new

/-- `ApplyUpdate`, up to the restart at its end. -/
def applyUpdate (env : ApplyEnv β) (info : UpdateInfo) (s : State β) :
    Except UpdateError Unit × State β :=
  if info.downloadURL = [] then (.error .noDownloadURL, s)
  else
    let (configSnapshot, s) := snapshotConfig env.exported info.latestVersion s
    match fetchBinary env with
    | .error e => (.error e, s)
    | .ok new =>
      match installBinary env new s with
      | (.error e, s) => (.error e, s)
      | (.ok (), s) => recordUpdate env info configSnapshot s

/-- The outcomes of the steps that settle an update. -/
structure SettleEnv (β : Type) where
  copy : Copy β
  backupRemoved : Bool
  snapshotRemoved : Bool
  cleared : Bool

/-- What follows when an update is settled in memory. -/
def settle (env : SettleEnv β) (s : State β) : State β :=
  { clearUpdateState env.cleared (removeConfigSnapshot env.snapshotRemoved
      (removeBackup (env.backupRemoved ∧ s.pending ≠ none) s)) with pending := none }

/-- `ConfirmUpdate`. -/
def confirmUpdate (env : SettleEnv β) (s : State β) : State β :=
  settle env s

/-- `Rollback`, up to the restart at its end. -/
def rollback (env : SettleEnv β) (s : State β) : Except UpdateError Unit × State β :=
  match s.pending with
  | none => (.error .noPendingUpdate, s)
  | some _ =>
    match copyBackup s env.copy with
    | (s, false) => (.error .rollback, s)
    | (s, true) => (.ok (), settle env s)

/-- `restorePendingUpdate` in a new process of the given version. -/
def restart (version : Text) (s : State β) : State β :=
  { s with
    currentVersion := version
    pending := match s.file with
      | .record p => if p.version = [] then none else some p
      | _ => none }

/-- The outcomes of the guard's steps. -/
structure GuardEnv where
  stat : Bool
  /-- the backup is renamed over the binary; otherwise nothing changes -/
  replaced : Bool
  backupRemoved : Bool
  fileRemoved : Bool
  restarted : Bool
  /-- the version the restored binary reports -/
  version : Text

/-- `rollbackUnconfirmedUpdate`. -/
def rollbackUnconfirmedUpdate (env : GuardEnv) (s : State β) : Except UpdateError Unit × State β :=
  if s.file = .absent then (.ok (), s)
  else if ¬ env.stat then (.error .stat, s)
  else
    match s.backup, env.replaced with
    | some b, true =>
      let s := clearUpdateState env.fileRemoved (removeBackup env.backupRemoved { s with binary := b })
      if env.restarted then (.ok (), restart env.version s) else (.error .restart, s)
    | _, _ => (.error .restore, s)

/-! ## Runs -/

inductive Event (β : Type)
  | applyUpdate (env : ApplyEnv β) (info : UpdateInfo)
  | restart (version : Text)
  | confirmUpdate (env : SettleEnv β)
  | rollback (env : SettleEnv β)
  | guardFires (env : GuardEnv)

/-- The device, and the binary that was confirmed last. -/
structure Trial (β : Type) where
  state : State β
  confirmed : β
deriving DecidableEq

def Trial.step (t : Trial β) : Event β → Trial β
  | .applyUpdate env info => { t with state := (Update.applyUpdate env info t.state).2 }
  | .restart version => { t with state := Update.restart version t.state }
  | .confirmUpdate env =>
    ⟨Update.confirmUpdate env t.state,
      if t.state.pending = none then t.confirmed else t.state.binary⟩
  | .rollback env => { t with state := (Update.rollback env t.state).2 }
  | .guardFires env => { t with state := (rollbackUnconfirmedUpdate env t.state).2 }

/-- The device under updates, from one on which nothing is pending. -/
def updating (β : Type) : Machine (Trial β) (Event β) where
  Init t := t.state.pending = none ∧ t.state.file = .absent ∧ t.state.binary = t.confirmed
  step := Trial.step

/-- `ApplyUpdate` gets as far as the backup. -/
def ApplyEnv.Installs (env : ApplyEnv β) (info : UpdateInfo) : Prop :=
  info.downloadURL ≠ [] ∧ ∃ new, fetchBinary env = .ok new

/-- An update is installed only if none is pending. A failed copy leaves no half-written
backup behind a state file, the binary can be restored after a failure, the state file
goes when an update is settled, and the guard restarts a process that has the update
pending. -/
def Orderly (t : Trial β) : Event β → Prop
  | .applyUpdate env info => env.Installs info → t.state.pending = none ∧
      (t.state.file ≠ .absent → env.backup = .done) ∧ env.restore = .done
  | .restart _ => True
  | .confirmUpdate env => t.state.pending ≠ none → env.cleared
  | .rollback env => t.state.pending ≠ none → env.cleared
  | .guardFires env => t.state.file ≠ .absent →
      env.fileRemoved ∧ (t.state.pending ≠ none → env.restarted)

/-! ## The invariant -/

structure Inv (t : Trial β) : Prop where
  settled : t.state.pending = none → t.state.binary = t.confirmed
  /-- a restart finds the update again -/
  recorded : t.state.pending ≠ none → ∃ p, t.state.file = .record p ∧ p.version ≠ []
  /-- while there is a state file, the guard would restore the confirmed binary -/
  backup : t.state.file ≠ .absent → t.state.backup = some t.confirmed

variable {t : Trial β} {env : ApplyEnv β}

/-- A pending update has a state file, so the backup is the confirmed binary. -/
theorem Inv.pending_backup (h : Inv t) (hp : t.state.pending ≠ none) :
    t.state.backup = some t.confirmed := by
  obtain ⟨p, hfile, -⟩ := h.recorded hp
  apply h.backup
  rw [hfile]
  exact StateFile.noConfusion

/-! ### ApplyUpdate -/

theorem copyBackup_done {b : β} (hb : s.backup = some b) :
    copyBackup s .done = ({ s with binary := b }, true) := by
  rw [copyBackup, hb]

/-- After a failure the installed binary is the one from before. -/
theorem restoreBinary_done (h : env.restore = .done) {b : β}
    (hb : s.backup = some b) : restoreBinary env s = { s with binary := b } := by
  rw [restoreBinary, h, copyBackup_done hb]

/-- What `installBinary` leaves behind. -/
theorem installBinary_cases (env : ApplyEnv β) (new : β) (s : State β) (h : env.restore = .done) :
    (∃ e left, env.backup = .failed left ∧ installBinary env new s = (.error e, { s with backup := left })) ∨
    (∃ e, installBinary env new s = (.error e, { s with backup := some s.binary })) ∨
      installBinary env new s = (.ok (), { s with backup := some s.binary, binary := new }) := by
  unfold installBinary
  split
  · rename_i left hbackup
    exact .inl ⟨.backup, left, hbackup, rfl⟩
  simp only
  split
  · refine .inr (.inl ⟨.install, ?_⟩)
    rw [restoreBinary_done h rfl]
  split
  · refine .inr (.inl ⟨.chmod, ?_⟩)
    rw [restoreBinary_done h rfl]
  · split
    · refine .inr (.inl ⟨.version, ?_⟩)
      rw [restoreBinary_done h rfl]
    · exact .inr (.inr rfl)

/-- Writing the state file changes nothing else, and a write that succeeds is complete. -/
theorem saveUpdateState_cases (p : Pending) (s : State β) (w : Write) :
    (∃ file, saveUpdateState p s w = ({ s with file := file }, false)) ∨
      saveUpdateState p s w = ({ s with file := .record p }, true) := by
  cases w with
  | done => exact .inr rfl
  | untouched => exact .inl ⟨s.file, rfl⟩
  | damaged => exact .inl ⟨.damaged, rfl⟩
  | complete => exact .inl ⟨.record p, rfl⟩

theorem clearUpdateState_eq (cleared : Bool) (s : State β) :
    clearUpdateState cleared s = { s with file := if cleared then .absent else s.file } := by
  cases cleared <;> rfl

theorem removeBackup_eq (removed : Bool) (s : State β) :
    removeBackup removed s = { s with backup := if removed then none else s.backup } := by
  cases removed <;> rfl

/-- Recording an update either completes it or restores the binary. -/
theorem recordUpdate_cases (env : ApplyEnv β) (info : UpdateInfo) (configSnapshot : Text)
    {b : β} (h : env.restore = .done) (hb : s.backup = some b) :
    ∃ file, (recordUpdate env info configSnapshot s).2 = { s with file := file, binary := b } ∨
      (recordUpdate env info configSnapshot s).2 =
        { s with file := file, binary := b, pending := none } ∨
      ∃ p, file = .record p ∧ p.version ≠ [] ∧
        (recordUpdate env info configSnapshot s).2 = { s with file := file, pending := some p } := by
  unfold recordUpdate
  simp only
  rcases saveUpdateState_cases ⟨info.latestVersion, s.currentVersion, configSnapshot⟩ s env.save with
    ⟨file, hsave⟩ | hsave
  · rw [hsave]
    refine ⟨file, .inl ?_⟩
    exact restoreBinary_done h hb
  rw [hsave]
  simp only
  split
  · -- the guard could not be armed
    have hrestore := restoreBinary_done h (s := { s with
      file := .record ⟨info.latestVersion, s.currentVersion, configSnapshot⟩ }) hb
    rw [hrestore, clearUpdateState_eq]
    exact ⟨_, .inr (.inl rfl)⟩
  · exact ⟨_, .inr (.inr ⟨_, rfl, info.latestVersion_ne_nil, rfl⟩)⟩

/-- Nothing but the archives changes before the new binary is there. -/
theorem snapshotConfig_eq (exported : Option ExportEnv) (version : Text) (s : State β) :
    ∃ configSnapshot archives,
      snapshotConfig exported version s = (configSnapshot, { s with snapshots := archives }) := by
  cases exported with
  | none => exact ⟨[], s.snapshots, rfl⟩
  | some env => exact ⟨_, _, rfl⟩

/-- What an orderly `ApplyUpdate` leaves behind: what was there, the binary with a backup
of it or without a state file, or a recorded update with a backup of the binary. -/
theorem applyUpdate_cases {info : UpdateInfo}
    (h : env.Installs info → s.pending = none ∧ (s.file ≠ .absent → env.backup = .done) ∧
      env.restore = .done) (s' : State β) (hs' : (applyUpdate env info s).2 = s') :
    (s'.binary = s.binary ∧ s'.backup = s.backup ∧ s'.file = s.file ∧ s'.pending = s.pending) ∨
    (s.pending = none ∧ s'.pending = none ∧ s'.binary = s.binary ∧
      (s'.file ≠ .absent → s'.backup = some s.binary)) ∨
    (s.pending = none ∧ s'.backup = some s.binary ∧
      ∃ p, s'.pending = some p ∧ s'.file = .record p ∧ p.version ≠ []) := by
  unfold applyUpdate at hs'
  split at hs'
  · subst hs'
    exact .inl ⟨rfl, rfl, rfl, rfl⟩
  rename_i hurl
  obtain ⟨configSnapshot, archives, hsnap⟩ := snapshotConfig_eq env.exported info.latestVersion s
  rw [hsnap] at hs'
  simp only at hs'
  cases hfetch : fetchBinary env with
  | error e =>
    rw [hfetch] at hs'
    subst hs'
    exact .inl ⟨rfl, rfl, rfl, rfl⟩
  | ok new =>
    rw [hfetch] at hs'
    simp only at hs'
    obtain ⟨hpending, hbackup, hrestore⟩ := h ⟨hurl, new, hfetch⟩
    rcases installBinary_cases env new { s with snapshots := archives } hrestore with
      ⟨e, left, hfailed, heq⟩ | ⟨e, heq⟩ | heq
    · rw [heq] at hs'
      subst hs'
      refine .inr (.inl ⟨hpending, hpending, rfl, ?_⟩)
      intro hfile
      rw [hbackup hfile] at hfailed
      cases hfailed
    · rw [heq] at hs'
      subst hs'
      exact .inr (.inl ⟨hpending, hpending, rfl, fun _ => rfl⟩)
    · rw [heq] at hs'
      simp only at hs'
      rcases recordUpdate_cases env info configSnapshot
        (s := { s with snapshots := archives, backup := some s.binary, binary := new })
        hrestore rfl with ⟨file, heq | heq | ⟨p, rfl, hversion, heq⟩⟩
      · rw [heq] at hs'
        subst hs'
        exact .inr (.inl ⟨hpending, hpending, rfl, fun _ => rfl⟩)
      · rw [heq] at hs'
        subst hs'
        exact .inr (.inl ⟨hpending, rfl, rfl, fun _ => rfl⟩)
      · rw [heq] at hs'
        subst hs'
        exact .inr (.inr ⟨hpending, rfl, p, rfl, rfl, hversion⟩)

theorem Inv.applyUpdate (h : Inv t) {info : UpdateInfo}
    (horderly : Orderly t (.applyUpdate env info)) : Inv (t.step (.applyUpdate env info)) := by
  rcases applyUpdate_cases horderly _ rfl with
    ⟨hbin, hbak, hfile, hpend⟩ | ⟨hnone, hpend, hbin, hbak⟩ | ⟨hnone, hbak, p, hpend, hfile, hversion⟩
  · constructor
    · intro hp
      exact hbin.trans (h.settled (hpend.symm.trans hp))
    · intro hp
      obtain ⟨p, hrecord, hversion⟩ := h.recorded (fun hnone => hp (hpend.trans hnone))
      exact ⟨p, hfile.trans hrecord, hversion⟩
    · intro hf
      exact hbak.trans (h.backup fun habsent => hf (hfile.trans habsent))
  · have hconfirmed := h.settled hnone
    constructor
    · intro _
      exact hbin.trans hconfirmed
    · intro hp
      exact absurd hpend hp
    · intro hf
      exact (hbak hf).trans (congrArg some hconfirmed)
  · have hconfirmed := h.settled hnone
    constructor
    · intro hp
      rw [show (t.step (.applyUpdate env info)).state.pending = some p from hpend] at hp
      cases hp
    · intro _
      exact ⟨p, hfile, hversion⟩
    · intro _
      exact hbak.trans (congrArg some hconfirmed)

/-! ### Restarts -/

theorem Inv.restart (h : Inv t) (version : Text) : Inv (t.step (.restart version)) := by
  constructor
  · intro hp
    refine h.settled ?_
    by_contra hpending
    obtain ⟨p, hfile, hversion⟩ := h.recorded hpending
    simp only [Trial.step, Update.restart, hfile, if_neg hversion] at hp
    cases hp
  · intro hp
    simp only [Trial.step, Update.restart] at hp ⊢
    cases hfile : t.state.file with
    | absent => simp [hfile] at hp
    | damaged => simp [hfile] at hp
    | record p =>
      rw [hfile] at hp
      simp only at hp
      split_ifs at hp with hversion
      · exact absurd rfl hp
      · exact ⟨p, rfl, hversion⟩
  · intro hf
    exact h.backup hf

/-! ### Settling -/

/-- Without a state file and a pending update, the binary has to be the confirmed one. -/
theorem Inv.of_clear (hp : t.state.pending = none) (hf : t.state.file = .absent)
    (hb : t.state.binary = t.confirmed) : Inv t where
  settled _ := hb
  recorded hpending := absurd hp hpending
  backup hfile := absurd hf hfile

theorem settle_eq (env : SettleEnv β) (s : State β) :
    ∃ archives, settle env s = { s with
      backup := if env.backupRemoved ∧ s.pending ≠ none then none else s.backup
      file := if env.cleared then .absent else s.file
      snapshots := archives
      pending := none } := by
  have harchives : ∀ s : State β, ∃ archives,
      removeConfigSnapshot env.snapshotRemoved s = { s with snapshots := archives } := by
    intro s
    unfold removeConfigSnapshot
    split
    · exact ⟨s.snapshots, rfl⟩
    · split
      · exact ⟨_, rfl⟩
      · exact ⟨s.snapshots, rfl⟩
  obtain ⟨archives, heq⟩ := harchives (removeBackup (env.backupRemoved ∧ s.pending ≠ none) s)
  rw [settle, heq, clearUpdateState_eq, removeBackup_eq]
  simp only [decide_eq_true_eq]
  exact ⟨archives, rfl⟩

variable {env : SettleEnv β}

/-- A settled update whose state file is gone leaves its binary confirmed. -/
theorem Inv.of_settle (hcleared : env.cleared) (s : State β) : Inv ⟨settle env s, s.binary⟩ := by
  obtain ⟨archives, heq⟩ := settle_eq env s
  rw [heq]
  refine Inv.of_clear rfl ?_ rfl
  simp [hcleared]

theorem Inv.confirmUpdate (h : Inv t)
    (horderly : Orderly t (.confirmUpdate env)) : Inv (t.step (.confirmUpdate env)) := by
  simp only [Trial.step, Update.confirmUpdate]
  by_cases hp : t.state.pending = none
  · -- nothing to confirm: at most a stray state file goes
    obtain ⟨archives, heq⟩ := settle_eq env t.state
    simp only [heq, hp, if_true, ne_eq, not_true_eq_false, and_false, if_false]
    constructor
    · intro _
      exact h.settled hp
    · intro hpending
      exact absurd rfl hpending
    · intro hfile
      refine h.backup fun habsent => hfile ?_
      simp [habsent]
  · rw [if_neg hp]
    exact Inv.of_settle (horderly hp) t.state

theorem Inv.rollback (h : Inv t)
    (horderly : Orderly t (.rollback env)) : Inv (t.step (.rollback env)) := by
  simp only [Trial.step, Update.rollback]
  cases hp : t.state.pending with
  | none => exact h
  | some p =>
    have hpending : t.state.pending ≠ none := by simp [hp]
    have hbackup := h.pending_backup hpending
    cases hcopy : env.copy with
    | failed left =>
      -- the binary may be damaged, but the update stays pending
      simp only [copyBackup]
      exact ⟨fun hnone => absurd hnone hpending, h.recorded, h.backup⟩
    | done =>
      rw [copyBackup_done hbackup]
      exact Inv.of_settle (horderly hpending) { t.state with binary := t.confirmed }

theorem Inv.guardFires (h : Inv t) {env : GuardEnv}
    (horderly : Orderly t (.guardFires env)) : Inv (t.step (.guardFires env)) := by
  simp only [Trial.step, rollbackUnconfirmedUpdate]
  split
  · exact h
  rename_i hfile
  split
  · exact h
  split
  · rename_i b hbackup _
    obtain ⟨hremoved, hrestarted⟩ := horderly hfile
    have hb : b = t.confirmed := Option.some.inj (hbackup.symm.trans (h.backup hfile))
    simp only [hremoved, clearUpdateState_eq, removeBackup_eq, if_true]
    cases hr : env.restarted with
    | true => exact Inv.of_clear rfl rfl hb
    | false =>
      refine Inv.of_clear ?_ rfl hb
      by_contra hpending
      rw [hrestarted hpending] at hr
      cases hr
  · exact h

/-! ## Every orderly run -/

theorem Inv.init (h : (updating β).Init t) : Inv t :=
  Inv.of_clear h.1 h.2.1 h.2.2

theorem Inv.step (t : Trial β) (e : Event β) (h : Inv t) (horderly : Orderly t e) :
    Inv ((updating β).step t e) := by
  cases e with
  | applyUpdate env info => exact h.applyUpdate horderly
  | restart version => exact h.restart version
  | confirmUpdate env => exact h.confirmUpdate horderly
  | rollback env => exact h.rollback horderly
  | guardFires env => exact h.guardFires horderly

/-- **Only confirmed binaries stay.** In every orderly run the installed binary is the one
confirmed last whenever nothing is pending, and the backup is while an update is pending. -/
theorem trial_keeps_confirmed {t : Trial β} (h : (updating β).Reachable Orderly t) :
    (t.state.pending = none → t.state.binary = t.confirmed) ∧
      (t.state.pending ≠ none → t.state.backup = some t.confirmed) := by
  have hinv : Inv t := h.invariant (fun _ => Inv.init) Inv.step
  exact ⟨hinv.settled, hinv.pending_backup⟩

/-- A device with binary 1, and the outcomes of an update to another binary. -/
def sampleTrial : Trial Nat :=
  ⟨⟨1, none, .absent, [], "v1.0", none⟩, 1⟩

def smooth (new : Nat) : ApplyEnv Nat where
  exported := some ⟨true, true, true, true⟩
  downloaded := true
  verified := true
  staged := some new
  backup := .done
  install := .done
  chmod := true
  reports := true
  save := .done
  armed := true
  restore := .done
  cleared := true

def sampleRelease (minor : Char) (h : isReleaseTag ['v', '1', '.', minor]) : UpdateInfo :=
  ⟨['v', '1', '.', minor], "lankeeper-linux-amd64", h⟩

theorem releaseTwo : isReleaseTag ['v', '1', '.', '2'] := by
  decide

theorem sampleTrial_rolled_back :
    ((updating Nat).run sampleTrial [.applyUpdate (smooth 2) (sampleRelease '2' releaseTwo),
      .restart "v1.2", .rollback ⟨.done, true, true, true⟩]).state.binary = 1 := by
  have hguard : Machine.Guarded (updating Nat) Orderly sampleTrial
      [.applyUpdate (smooth 2) (sampleRelease '2' releaseTwo), .restart "v1.2",
        .rollback ⟨.done, true, true, true⟩] := by
    refine ⟨?_, trivial, fun _ => rfl, trivial⟩
    intro _
    exact ⟨rfl, fun hfile => absurd rfl hfile, rfl⟩
  have hinit : (updating Nat).Init sampleTrial := ⟨rfl, rfl, rfl⟩
  exact (trial_keeps_confirmed ((Machine.Reachable.init hinit).run hguard)).1 rfl

/-- The device after a second `ApplyUpdate` while the first is still unconfirmed. -/
def appliedTwice (armed : Bool) : Trial Nat :=
  (updating Nat).run sampleTrial [.applyUpdate (smooth 2) (sampleRelease '2' releaseTwo),
    .restart "v1.2",
    .applyUpdate { smooth 3 with armed := armed } (sampleRelease '3' (by decide))]

/-- While the first guard is waiting no second one can be armed, so the second call fails
and leaves binary 2, never confirmed, installed with nothing pending. With a guard, binary
2 is the backup. -/
theorem second_apply_loses_confirmed :
    (appliedTwice false).confirmed = 1 ∧ (appliedTwice false).state.pending = none ∧
    (appliedTwice false).state.binary = 2 ∧
    (appliedTwice true).confirmed = 1 ∧ (appliedTwice true).state.pending ≠ none ∧
    (appliedTwice true).state.backup = some 2 := by
  decide

end Lankeeper.Update
