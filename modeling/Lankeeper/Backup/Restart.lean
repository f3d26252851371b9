import Lankeeper.Backup.Import
import Lankeeper.Lib.Machine

/-!
# Lankeeper.Backup.Restart — a restored config and the saves of the old process

`Import` and `FactoryReset` of `internal/services/backup.go` write `router.yaml` behind the
config that the process holds in memory, and the process is restarted later: by a goroutine
of its own after an import, by a reboot after a reset, neither of which is certain to come.
Until then every `SaveToFile` of `internal/config/config.go` marshals the old config.

A save marshals under `configMu` and renames a finished copy into place. A restore does not
take that lock: it opens the file, which truncates it, and writes. A rename that falls
between the two leaves what is written in a file without a name.

`restored_loaded_iff` says for every run which text the next start loads.
-/

namespace Lankeeper.Backup.Restart

open Lib Text Option

/-! ## What a restore writes -/

structure Write where
  target : Text
  data : Bytes

/-- A file of the embedded defaults. -/
structure Default where
  name : Text
  isDir : Bool
  data : Bytes

def yamlSuffix : Text := ".yaml"

inductive Restore
  | importing (svc : BackupService) (u : Upload)
  | factoryReset (configDir : Text) (entries : List Default)

def Restore.configDir : Restore → Text
  | importing svc _ => svc.configDir
  | factoryReset dir _ => dir

/-- The path of `router.yaml`. -/
def Restore.conf (r : Restore) : Text :=
  Path.join r.configDir "router.yaml"

/-- The files among the members, in the order in which they are installed. -/
def memberWrites (members : List StagedMember) : List Write :=
  (members.filter fun m => !m.isDir).map fun m => ⟨m.target, m.data⟩

/-- What `Import` writes behind its checks. -/
def importWrites (svc : BackupService) (u : Upload) : List Write :=
  if u.encrypted ∧ ¬ u.decrypts then []
  else if ¬ u.gzipped then []
  else
    match stageArchive svc u with
    | .error _ => []
    | .ok (members, _) =>
      match validateStagedConfig svc members with
      | .error _ => []
      | .ok () => memberWrites members

def resetWrites (configDir : Text) (entries : List Default) : List Write :=
  (entries.filter fun e => !e.isDir && decide (yamlSuffix <:+ e.name)).map fun e =>
    ⟨Path.join configDir e.name, e.data⟩

def Restore.writes : Restore → List Write
  | importing svc u => importWrites svc u
  | factoryReset dir entries => resetWrites dir entries

/-- The text that writes leave at a path, if one of them goes there. -/
def leaves (path : Text) : List Write → Option Bytes
  | [] => none
  | w :: ws => (leaves path ws).or (if w.target = path then some w.data else none)

/-! ## The process -/

/-- The file that a restore has open for writing. -/
structure Opened where
  data : Bytes
  /-- it is still the one named `router.yaml` -/
  linked : Bool

/-- The process that performs the restore, `router.yaml`, and what the next start loads. -/
structure State (γ : Type) where
  memory : γ
  /-- what the save that holds `configMu` has marshalled -/
  saving : Option Bytes
  conf : Bytes
  todo : List Write
  opened : Option Opened
  running : Bool
  loaded : Option Bytes

inductive Event (γ ν : Type)
  /-- a handler, a service or a background task changes the config -/
  | edit (f : γ → γ)
  /-- `Save` takes the lock and marshals; secrets are encrypted with a nonce -/
  | marshal (n : ν)
  /-- the rename of `atomicWrite`, and the lock is released -/
  | rename
  | saveFails
  /-- the restore opens its next file; files other than `router.yaml` are written at once -/
  | openNext
  | writeOpened
  /-- a restart, a reboot or a crash -/
  | stop
  | start

variable {γ ν : Type} {text : Bytes} {marshal : ν → γ → Option Bytes} {s : State γ}

/-- A step of the running process. -/
def stepRunning (path : Text) (marshal : ν → γ → Option Bytes) (s : State γ) :
    Event γ ν → State γ
  | .edit f => { s with memory := f s.memory }
  | .marshal n => if s.saving.isSome then s else { s with saving := marshal n s.memory }
  | .rename =>
    match s.saving with
    | none => s
    | some data =>
      { s with
        saving := none
        conf := data
        opened := s.opened.map fun o => { o with linked := false } }
  | .saveFails => { s with saving := none }
  | .openNext =>
    match s.opened, s.todo with
    | none, w :: ws =>
      if w.target = path then
        { s with todo := ws, conf := [], opened := some ⟨w.data, true⟩ }
      else { s with todo := ws }
    | _, _ => s
  | .writeOpened =>
    match s.opened with
    | none => s
    | some o => { s with opened := none, conf := if o.linked then o.data else s.conf }
  | .stop => { s with running := false, saving := none }
  | .start => s

def step (path : Text) (marshal : ν → γ → Option Bytes) (s : State γ) (e : Event γ ν) : State γ :=
  if s.running then stepRunning path marshal s e
  else
    match e with
    | .start => { s with loaded := s.loaded.or (some s.conf) }
    | _ => s

/-- The old process while a restore begins; a save may be under way. -/
def system (r : Restore) (marshal : ν → γ → Option Bytes) : Machine (State γ) (Event γ ν) where
  Init s := s.todo = r.writes ∧ s.opened = none ∧ s.running ∧ s.loaded = none
  step := step r.conf marshal

/-- The restore has written all of its files. -/
def State.Restored (s : State γ) : Prop :=
  s.todo = [] ∧ s.opened = none

/-! ## The last save -/

/-- The save completed last since the restore opened `router.yaml`: opening it makes an
earlier one forgotten. -/
def savedRunning (path : Text) (g : Option Bytes) (s : State γ) : Event γ ν → Option Bytes
  | .rename => s.saving.or g
  | .openNext =>
    match s.opened, s.todo with
    | none, w :: _ => if w.target = path then none else g
    | _, _ => g
  | _ => g

def savedSince (path : Text) (g : Option Bytes) (s : State γ) (e : Event γ ν) : Option Bytes :=
  if s.running then savedRunning path g s e else g

def lastSave (r : Restore) (marshal : ν → γ → Option Bytes) (s : State γ)
    (es : List (Event γ ν)) : Option Bytes :=
  (((system r marshal).observe none (savedSince r.conf)).run (s, none) es).2

/-- What holds of a state and of the save completed last, for a restore of `text`. -/
structure Inv (path : Text) (text : Bytes) (s : State γ) (g : Option Bytes) : Prop where
  /-- what is still to be written ends with the restored text -/
  todo : ∀ x, leaves path s.todo = some x → x = text
  /-- `router.yaml` is open for the last time -/
  opened : ∀ o, s.opened = some o → leaves path s.todo = none →
    o.data = text ∧ g = if o.linked then none else some s.conf
  closed : s.opened = none → leaves path s.todo = none → s.conf = g.getD text
  loaded : ∀ t, s.loaded = some t → s.running = false ∧ t = s.conf

theorem Inv.init {r : Restore} (htext : leaves r.conf r.writes = some text)
    (hs : (system r marshal).Init s) : Inv r.conf text s none := by
  obtain ⟨htodo, hopened, hrun, hload⟩ := hs
  constructor
  · intro x hx
    rw [htodo, htext] at hx
    exact (some.inj hx).symm
  · intro o ho
    cases hopened.symm.trans ho
  · intro _ hnone
    rw [htodo, htext] at hnone
    cases hnone
  · intro t ht
    cases hload.symm.trans ht

variable {path : Text} {g : Option Bytes}

theorem Inv.loaded_none (h : Inv path text s g) (hrun : s.running) : s.loaded = none := by
  cases hload : s.loaded with
  | none => rfl
  | some t =>
    have hstopped := (h.loaded t hload).1
    cases hrun.symm.trans hstopped

/-- The next file is opened. -/
theorem Inv.openNext (h : Inv path text s g) (hrun : s.running) :
    Inv path text (stepRunning path marshal s .openNext)
      (savedRunning path g s (.openNext : Event γ ν)) := by
  unfold stepRunning savedRunning
  have hload := h.loaded_none hrun
  rcases hopened : s.opened with _ | o <;> rcases htodo : s.todo with _ | ⟨w, ws⟩ <;> dsimp only
  · exact h
  · have hrest : ∀ x, leaves path ws = some x → x = text := by
      intro x hx
      apply h.todo x
      rw [htodo, leaves, hx]
      rfl
    split_ifs with hw
    · -- `router.yaml`: its text is the restored one if no further write of it follows
      refine ⟨hrest, ?_, nofun, ?_⟩
      · rintro o ⟨⟩ hnone
        have hdata : leaves path s.todo = some w.data := by
          rw [htodo, leaves, hnone, if_pos hw]
          rfl
        exact ⟨h.todo _ hdata, rfl⟩
      · intro t ht
        cases hload.symm.trans ht
    · refine ⟨hrest, nofun, ?_, h.loaded⟩
      intro _ hnone
      apply h.closed hopened
      rw [htodo, leaves, hnone, if_neg hw]
      rfl
  · exact h
  · exact h

/-- A save is completed. -/
theorem Inv.rename (h : Inv path text s g) (hrun : s.running) :
    Inv path text (stepRunning path marshal s .rename)
      (savedRunning path g s (.rename : Event γ ν)) := by
  unfold stepRunning savedRunning
  cases hsaving : s.saving with
  | none => exact h
  | some data =>
    refine ⟨h.todo, ?_, fun _ _ => rfl, ?_⟩
    · intro o ho hnone
      obtain ⟨o', ho', rfl⟩ := map_eq_some_iff.mp ho
      exact ⟨(h.opened o' ho' hnone).1, rfl⟩
    · intro t ht
      have hload : s.loaded = some t := ht
      rw [h.loaded_none hrun] at hload
      cases hload

/-- The restored text reaches the file that was opened, whatever its name is now. -/
theorem Inv.writeOpened (h : Inv path text s g) (hrun : s.running) :
    Inv path text (stepRunning path marshal s .writeOpened) g := by
  unfold stepRunning
  cases hopened : s.opened with
  | none => simpa only [hopened] using h
  | some o =>
    refine ⟨h.todo, nofun, ?_, ?_⟩
    · intro _ hnone
      obtain ⟨hdata, hg⟩ := h.opened o hopened hnone
      dsimp only
      split_ifs at hg ⊢ with hlinked
      · rw [hg, hdata]
        rfl
      · rw [hg]
        rfl
    · intro t ht
      have hload : s.loaded = some t := ht
      rw [h.loaded_none hrun] at hload
      cases hload

theorem Inv.stepRunning (h : Inv path text s g) (hrun : s.running) (e : Event γ ν) :
    Inv path text (stepRunning path marshal s e) (savedRunning path g s e) := by
  cases e with
  | openNext => exact h.openNext hrun
  | rename => exact h.rename hrun
  | writeOpened => exact h.writeOpened hrun
  | edit f => exact ⟨h.todo, h.opened, h.closed, h.loaded⟩
  | marshal n =>
    unfold Restart.stepRunning
    dsimp only
    split_ifs
    · exact h
    · exact ⟨h.todo, h.opened, h.closed, h.loaded⟩
  | saveFails => exact ⟨h.todo, h.opened, h.closed, h.loaded⟩
  | stop => exact ⟨h.todo, h.opened, h.closed, fun t ht => ⟨rfl, (h.loaded t ht).2⟩⟩
  | start => exact h

theorem Inv.step (h : Inv path text s g) (e : Event γ ν) :
    Inv path text (step path marshal s e) (savedSince path g s e) := by
  unfold Restart.step savedSince
  split_ifs with hrun
  · exact h.stepRunning hrun e
  -- behind the end of the process only a start does something
  have hstopped : s.running = false := by simpa using hrun
  cases e with
  | start =>
    refine ⟨h.todo, h.opened, h.closed, ?_⟩
    intro t ht
    refine ⟨hstopped, ?_⟩
    have ht : s.loaded.or (some s.conf) = some t := ht
    cases hload : s.loaded with
    | none =>
      rw [hload] at ht
      exact (some.inj ht).symm
    | some t' =>
      rw [hload] at ht
      cases ht
      exact (h.loaded _ hload).2
  | _ => exact h

theorem Inv.run {r : Restore} (htext : leaves r.conf r.writes = some text)
    (hs : (system r marshal).Init s) (es : List (Event γ ν)) :
    Inv r.conf text ((system r marshal).run s es) (lastSave r marshal s es) := by
  have hrun := Machine.run_invariant (M := (system r marshal).observe none (savedSince r.conf))
    (P := fun x => Inv r.conf text x.1 x.2) (fun _ e h => h.step e) (s := (s, none))
    (Inv.init htext hs) es
  rwa [Machine.observe_run_fst] at hrun

/-- **The next start loads the restored text** exactly if no save was completed since the
restore last opened `router.yaml`, or the last of them wrote that same text. -/
theorem restored_loaded_iff {γ ν : Type} (r : Restore) (marshal : ν → γ → Option Bytes)
    {text : Bytes} (htext : leaves r.conf r.writes = some text) {s : State γ}
    (hs : (system r marshal).Init s) (es : List (Event γ ν))
    (hdone : ((system r marshal).run s es).Restored) {t : Bytes}
    (hload : ((system r marshal).run s es).loaded = some t) :
    t = text ↔ ∀ saved, lastSave r marshal s es = some saved → saved = text := by
  have hinv := Inv.run htext hs es
  have hrest : leaves r.conf ((system r marshal).run s es).todo = none := by
    rw [hdone.1]
    rfl
  have hconf : t = (lastSave r marshal s es).getD text := by
    rw [(hinv.loaded t hload).2]
    exact hinv.closed hdone.2 hrest
  rw [hconf]
  cases lastSave r marshal s es with
  | none => simp
  | some saved => simp

/-! ## A reset that is undone -/

/-- A factory reset with two default files. -/
def smallReset : Restore :=
  .factoryReset "/etc/lankeeper"
    [⟨"nas.yaml", false, [2]⟩, ⟨"router.yaml", false, [1]⟩]

/-- The process holds the config 7, and so does `router.yaml`. -/
def runningOld : State UInt8 where
  memory := 7
  saving := none
  conf := [7]
  todo := smallReset.writes
  opened := none
  running := true
  loaded := none

/-- Configs are numbers here, and a file holds one. -/
def marshalOne : Unit → UInt8 → Option Bytes := fun _ c => some [c]

/-- The reset is made and the process restarted. -/
def quietReset : List (Event UInt8 Unit) :=
  [.openNext, .openNext, .writeOpened, .stop, .start]

/-- Before the restart the history of the backups is saved. -/
def savedReset : List (Event UInt8 Unit) :=
  [.openNext, .openNext, .writeOpened, .edit (· + 1), .marshal (), .rename, .stop, .start]

theorem smallReset_leaves : leaves smallReset.conf smallReset.writes = some [1] := by
  decide

theorem runningOld_init : (system smallReset marshalOne).Init runningOld :=
  ⟨rfl, rfl, rfl, rfl⟩

/-- The quiet run ends with the restored text loaded, and no save came behind it. -/
theorem restored_loaded_quiet :
    ((system smallReset marshalOne).run runningOld quietReset).loaded = some [1] ∧
      ∀ saved, lastSave smallReset marshalOne runningOld quietReset = some saved → saved = [1] := by
  have hload : ((system smallReset marshalOne).run runningOld quietReset).loaded = some [1] := by
    decide
  exact ⟨hload, (restored_loaded_iff smallReset marshalOne smallReset_leaves runningOld_init
    quietReset ⟨rfl, rfl⟩ hload).mp rfl⟩

/-- The reset is complete, and the next start loads what the old process held. -/
theorem restored_not_loaded :
    (system smallReset marshalOne).Init runningOld ∧
      leaves smallReset.conf smallReset.writes = some [1] ∧
      ((system smallReset marshalOne).run runningOld savedReset).Restored ∧
      ((system smallReset marshalOne).run runningOld savedReset).loaded = some [8] := by
  refine ⟨runningOld_init, smallReset_leaves, ⟨rfl, rfl⟩, ?_⟩
  decide

end Lankeeper.Backup.Restart
