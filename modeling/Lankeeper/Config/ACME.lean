import Lankeeper.VPN.Service
import Lankeeper.Lib.Machine

/-!
# Lankeeper.Config.ACME — staging settings for an issuance

`HandleConfigureACME` and `acmeIssueFailed` of `internal/web/handlers/system.go` with
`SetSettings` and `Issue` of `internal/services/acme.go`. A request remembers the settings
it finds, puts its own in their place without saving them, and asks for a certificate,
which takes minutes. If that fails it puts back what it remembers. Each of these takes the
TLS lock for itself, so requests may overlap, and any service may save the whole config
meanwhile, which needs another lock only.

`settings_restored` says when a run of failed requests leaves the settings from before.
-/

namespace Lankeeper.ACME

open Lib Text

/-! ## Settings -/

structure DNSChallenge where
  provider : Text
  apiToken : Text
deriving DecidableEq

structure ACMEConfig where
  enabled : Bool
  email : Text
  domain : Text
  provider : Text
  directoryURL : Text
  dnsChallenge : DNSChallenge
deriving DecidableEq

structure Form where
  domain : Text
  email : Text
  provider : Text
  endpoint : Text
  apiToken : Text

def letsEncryptProductionURL : Text :=
  "https://acme-v02.api.letsencrypt.org/directory"

def letsEncryptStagingURL : Text :=
  "https://acme-staging-v02.api.letsencrypt.org/directory"

def acmeDirectoryForChoice (choice : Text) : Text :=
  if choice = "production" then letsEncryptProductionURL else letsEncryptStagingURL

/-- The settings that a form asks for; without a token the stored one is kept. -/
def Form.next (form : Form) (previous : ACMEConfig) : ACMEConfig where
  enabled := previous.enabled
  email := form.email
  domain := form.domain
  provider := previous.provider
  directoryURL := acmeDirectoryForChoice form.endpoint
  dnsChallenge :=
    { provider := form.provider
      apiToken := if form.apiToken ≠ [] then form.apiToken else previous.dnsChallenge.apiToken }

/-! ## Requests -/

inductive Result
  /-- the domain is not one -/
  | refused
  | issued
  /-- a manual challenge is pending -/
  | manual
  | failed

/-- Where a request is; it carries the settings it found. -/
inductive Phase
  | waiting
  | began (previous : ACMEConfig)
  | staged (previous : ACMEConfig)
  /-- `installACMEPair` has recorded the mode and saves it -/
  | installing (previous : ACMEConfig)
  | challenged (previous : ACMEConfig)
  | failed (previous : ACMEConfig)
  | returned (r : Result)

variable {ι : Type}

structure State (ι : Type) where
  /-- the settings in memory -/
  memory : ACMEConfig
  /-- the settings in `router.yaml` -/
  file : ACMEConfig
  /-- what the save that holds `configMu` has marshalled -/
  saving : Option ACMEConfig
  phase : ι → Phase
  /-- the request whose installation holds the TLS lock -/
  locked : Option ι

inductive Event (ι : Type)
  | begin (i : ι)
  | stage (i : ι)
  | issueFails (i : ι)
  | challenge (i : ι)
  | install (i : ι)
  | persist (i : ι)
  | persistFails (i : ι)
  /-- `SetSettings(previous, false)` of `acmeIssueFailed` -/
  | restore (i : ι)
  /-- `SetSettings(next, true)` of `acmeIssueFailed`; a failed save is only logged -/
  | keep (i : ι) (saved : Bool)
  /-- any service saves the config -/
  | marshal
  | rename
  | saveFails

variable [DecidableEq ι] (form : ι → Form)

def State.set (s : State ι) (i : ι) (p : Phase) : State ι :=
  { s with phase := Function.update s.phase i p }

/-- One step; what is not possible does nothing. -/
def step (s : State ι) : Event ι → State ι
  | .begin i =>
    match s.phase i, s.locked with
    | .waiting, none =>
      if VPN.isDomain (form i).domain then s.set i (.began s.memory)
      else s.set i (.returned .refused)
    | _, _ => s
  | .stage i =>
    match s.phase i, s.locked with
    | .began p, none => { s.set i (.staged p) with memory := (form i).next p }
    | _, _ => s
  | .issueFails i =>
    match s.phase i with
    | .staged p => s.set i (.failed p)
    | _ => s
  | .challenge i =>
    match s.phase i with
    | .staged p => s.set i (.challenged p)
    | _ => s
  | .install i =>
    match s.phase i, s.locked with
    | .staged p, none =>
      { s.set i (.installing p) with
        memory := { s.memory with enabled := true }
        locked := some i }
    | _, _ => s
  | .persist i =>
    match s.phase i, s.saving with
    | .installing _, none =>
      { s.set i (.returned .issued) with file := s.memory, locked := none }
    | _, _ => s
  | .persistFails i =>
    match s.phase i with
    | .installing p => { s.set i (.failed p) with locked := none }
    | _ => s
  | .restore i =>
    match s.phase i, s.locked with
    | .failed p, none => { s.set i (.returned .failed) with memory := p }
    | _, _ => s
  | .keep i saved =>
    match s.phase i, s.locked, s.saving with
    | .challenged p, none, none =>
      { s.set i (.returned .manual) with
        memory := (form i).next p
        file := if saved then (form i).next p else s.file }
    | _, _, _ => s
  | .marshal => if s.saving.isSome then s else { s with saving := some s.memory }
  | .rename =>
    match s.saving with
    | none => s
    | some b => { s with file := b, saving := none }
  | .saveFails => { s with saving := none }

/-- Before the first of the requests; a save may be under way. -/
def system : Machine (State ι) (Event ι) where
  Init s := (∀ i, s.phase i = .waiting) ∧ s.locked = none
  step := step form

/-- Every request that began has returned, and its issuance failed. -/
def AllFailed (s : State ι) : Prop :=
  ∀ i, s.phase i = .waiting ∨ s.phase i = .returned .refused ∨ s.phase i = .returned .failed

/-! ## Requests that do not meet -/

/-- What a request found, as long as it may put it back. -/
def Phase.previous : Phase → Option ACMEConfig
  | began p | staged p | installing p | challenged p | failed p => some p
  | waiting | returned _ => none

/-- A request that ended with its own settings kept. -/
def Phase.Kept : Phase → Prop
  | returned .issued | returned .manual => True
  | _ => False

/-- A request that may have changed the settings in memory and not put them back. -/
def Phase.Holding : Phase → Prop
  | waiting | began _ | returned .refused | returned .failed => False
  | _ => True

/-- No request begins, and no save marshals the config, while a request holds settings. -/
def Apart (s : State ι) : Event ι → Prop
  | .begin _ | .marshal => ∀ i, ¬ (s.phase i).Holding
  | _ => True

/-- `m` are the settings from before the requests, in memory and in the file. -/
structure Inv (m : ACMEConfig) (s : State ι) : Prop where
  previous : ∀ i, ∀ p ∈ (s.phase i).previous, p = m
  memory : (∀ i, ¬ (s.phase i).Holding) → s.memory = m
  file : (∀ i, ¬ (s.phase i).Kept) → s.file = m
  saving : ∀ b ∈ s.saving, b = m

variable {form} {m : ACMEConfig} {s : State ι}

/-- A request moves on. If it then holds no settings, it left the ones from before in memory. -/
theorem Inv.move (h : Inv m s) {i : ι} {p : Phase} {s' : State ι}
    (hphase : s'.phase = Function.update s.phase i p) (hprevious : ∀ c ∈ p.previous, c = m)
    (hmemory : ¬ p.Holding → s'.memory = m)
    (hfile : ¬ p.Kept → ¬ (s.phase i).Kept ∧ s'.file = s.file) (hsaving : s'.saving = s.saving) :
    Inv m s' := by
  have hi : s'.phase i = p := by rw [hphase, Function.update_self]
  have hne : ∀ j, j ≠ i → s'.phase j = s.phase j := by
    intro j hj
    rw [hphase, Function.update_of_ne hj]
  refine ⟨?_, ?_, ?_, ?_⟩
  · intro j c hc
    by_cases hj : j = i
    · rw [hj, hi] at hc
      exact hprevious c hc
    · rw [hne j hj] at hc
      exact h.previous j c hc
  · intro hall
    apply hmemory
    rw [← hi]
    exact hall i
  · intro hall
    have hkept : ¬ p.Kept := by
      rw [← hi]
      exact hall i
    obtain ⟨hbefore, hsame⟩ := hfile hkept
    rw [hsame]
    apply h.file
    intro j
    by_cases hj : j = i
    · rwa [hj]
    · rw [← hne j hj]
      exact hall j
  · rw [hsaving]
    exact h.saving

/-- A request that remembers the settings from before moves on and holds its own. -/
theorem Inv.hold (h : Inv m s) {i : ι} {p c : Phase} (hi : s.phase i = c) {s' : State ι}
    (hphase : s'.phase = Function.update s.phase i p) (hprevious : p.previous = c.previous)
    (hholding : p.Holding) (hkept : ¬ c.Kept) (hfile : s'.file = s.file)
    (hsaving : s'.saving = s.saving) : Inv m s' := by
  refine h.move hphase ?_ (absurd hholding) (fun _ => ⟨by rwa [hi], hfile⟩) hsaving
  intro b hb
  rw [hprevious, ← hi] at hb
  exact h.previous i b hb

theorem Inv.step (h : Inv m s) {e : Event ι} (he : Apart s e) : Inv m (step form s e) := by
  unfold ACME.step
  cases e with
  | begin i =>
    have hmemory : s.memory = m := h.memory he
    dsimp only
    split
    · rename_i hi _
      have hkept : ¬ (s.phase i).Kept := by simp [hi, Phase.Kept]
      split_ifs
      · exact h.move (p := .began _) rfl (by rintro c ⟨⟩; exact hmemory) (fun _ => hmemory)
          (fun _ => ⟨hkept, rfl⟩) rfl
      · exact h.move (p := .returned .refused) rfl (by rintro c ⟨⟩) (fun _ => hmemory)
          (fun _ => ⟨hkept, rfl⟩) rfl
    · exact h
  | stage i =>
    dsimp only
    split
    · rename_i hi _
      exact h.hold (p := .staged _) hi rfl rfl trivial id rfl rfl
    · exact h
  | issueFails i =>
    dsimp only
    split
    · rename_i hi
      exact h.hold (p := .failed _) hi rfl rfl trivial id rfl rfl
    · exact h
  | challenge i =>
    dsimp only
    split
    · rename_i hi
      exact h.hold (p := .challenged _) hi rfl rfl trivial id rfl rfl
    · exact h
  | install i =>
    dsimp only
    split
    · rename_i hi _
      exact h.hold (p := .installing _) hi rfl rfl trivial id rfl rfl
    · exact h
  | persist i =>
    dsimp only
    split
    · exact h.move (p := .returned .issued) rfl (by rintro c ⟨⟩) (absurd trivial) (absurd trivial) rfl
    · exact h
  | persistFails i =>
    dsimp only
    split
    · rename_i hi
      exact h.hold (p := .failed _) hi rfl rfl trivial id rfl rfl
    · exact h
  | restore i =>
    dsimp only
    split
    · rename_i p hi _
      have hp : p = m := h.previous i p (by rw [hi]; rfl)
      have hkept : ¬ (s.phase i).Kept := by simp [hi, Phase.Kept]
      exact h.move (p := .returned .failed) rfl (by rintro c ⟨⟩) (fun _ => hp)
        (fun _ => ⟨hkept, rfl⟩) rfl
    · exact h
  | keep i saved =>
    dsimp only
    split
    · exact h.move (p := .returned .manual) rfl (by rintro c ⟨⟩) (absurd trivial) (absurd trivial) rfl
    · exact h
  | marshal =>
    dsimp only
    split_ifs
    · exact h
    · exact ⟨h.previous, h.memory, h.file, by rintro b ⟨⟩; exact h.memory he⟩
  | rename =>
    dsimp only
    split
    · exact h
    · rename_i b hb
      exact ⟨h.previous, h.memory, fun _ => h.saving b hb, by rintro c ⟨⟩⟩
  | saveFails => exact ⟨h.previous, h.memory, h.file, by rintro c ⟨⟩⟩

/-- **What failed requests leave.** If no request begins and no save marshals the config
while a request holds its own settings, then the settings from before are in memory and in
the file once every request that began has failed. -/
theorem settings_restored {ι : Type} [DecidableEq ι] (form : ι → Form) (s : State ι)
    (hs : (system form).Init s) (hsame : s.memory = s.file) (hsaving : ∀ b ∈ s.saving, b = s.file)
    (es : List (Event ι)) (hapart : (system form).Guarded Apart s es)
    (hend : AllFailed ((system form).run s es)) :
    ((system form).run s es).memory = s.memory ∧ ((system form).run s es).file = s.file := by
  have hstart : Inv s.file s := by
    refine ⟨?_, fun _ => hsame, fun _ => rfl, hsaving⟩
    intro i p hp
    rw [hs.1 i] at hp
    cases hp
  have hinv : Inv s.file ((system form).run s es) :=
    Machine.Guarded.history (P := fun _ s' => Inv s.file s') hstart (fun _ _ h he => h.step he) hapart
  have hquiet : ∀ i, ¬ (((system form).run s es).phase i).Holding ∧
      ¬ (((system form).run s es).phase i).Kept := by
    intro i
    rcases hend i with h | h | h <;> simp [h, Phase.Holding, Phase.Kept]
  rw [hsame]
  exact ⟨hinv.memory fun i => (hquiet i).1, hinv.file fun i => (hquiet i).2⟩

/-! ## Overlapping requests -/

def formFor (email : Text) : Form where
  domain := "lan"
  email := email
  provider := "cloudflare"
  endpoint := []
  apiToken := "t"

/-- Two requests. -/
def twoForms : Bool → Form
  | false => formFor "a"
  | true => formFor "b"

def noSettings : ACMEConfig := ⟨false, [], [], [], [], ⟨[], []⟩⟩

def beforeBoth : State Bool where
  memory := noSettings
  file := noSettings
  saving := none
  phase := fun _ => .waiting
  locked := none

/-- The second request follows the first, and a save comes between them. -/
def oneByOne : List (Event Bool) :=
  [.begin false, .stage false, .issueFails false, .restore false, .marshal, .rename,
    .begin true, .stage true, .issueFails true, .restore true]

theorem settings_restored_oneByOne :
    ((system twoForms).run beforeBoth oneByOne).memory = noSettings ∧
      ((system twoForms).run beforeBoth oneByOne).file = noSettings := by
  have hend : AllFailed ((system twoForms).run beforeBoth oneByOne) := by
    intro i
    cases i with
    | false => exact .inr (.inr rfl)
    | true => exact .inr (.inr rfl)
  have hapart : (system twoForms).Guarded Apart beforeBoth oneByOne := by
    refine ⟨?_, trivial, trivial, trivial, ?_, trivial, ?_, trivial, trivial, trivial, trivial⟩ <;>
      rintro (_ | _) <;> exact id
  exact settings_restored twoForms beforeBoth ⟨fun _ => rfl, rfl⟩ rfl (by rintro b ⟨⟩) oneByOne
    hapart hend

/-- The second request begins while the settings of the first are staged, and fails after
it; and a save falls into the issuance of a single request. -/
theorem settings_not_restored :
    (AllFailed ((system twoForms).run beforeBoth
        [.begin false, .stage false, .begin true, .stage true, .issueFails false,
          .restore false, .issueFails true, .restore true]) ∧
      ((system twoForms).run beforeBoth
        [.begin false, .stage false, .begin true, .stage true, .issueFails false,
          .restore false, .issueFails true, .restore true]).memory =
        (twoForms false).next noSettings) ∧
    (AllFailed ((system twoForms).run beforeBoth
        [.begin false, .stage false, .marshal, .rename, .issueFails false, .restore false]) ∧
      ((system twoForms).run beforeBoth
        [.begin false, .stage false, .marshal, .rename, .issueFails false, .restore false]).file =
        (twoForms false).next noSettings) ∧ (twoForms false).next noSettings ≠ noSettings := by
  refine ⟨⟨?_, rfl⟩, ⟨?_, rfl⟩, by decide⟩
  · intro i
    cases i with
    | false => exact .inr (.inr rfl)
    | true => exact .inr (.inr rfl)
  · intro i
    cases i with
    | false => exact .inr (.inr rfl)
    | true => exact .inl rfl

end Lankeeper.ACME
