import Lankeeper.Lib.Basic
import Lankeeper.Lib.Text

/-!
# Lankeeper.Config.Secrets — credentials at rest

`internal/config/secrets.go`, with `Save` and `Load` of `config.go`. `Save` encrypts the
secret fields into a copy of the config and writes the copy; `Load` decrypts them, clearing
what it cannot read. A marker at the start of a value says that it is encrypted.

A config in memory holds its lists by reference, as Go's slices do, since the copy that
`Save` encrypts shares them until they are cloned. The encryption is a `Sealing`: base64 of
AES-GCM, of which the round trip is all that is assumed. That of YAML is assumed by taking
the file to be the config it was written from.

`save_load_iff` says that the secrets come back as they were, and are not in the file, for
exactly those configs none of whose secrets starts with the marker.
-/

namespace Lankeeper.Secrets

open Lib Text List

/-! ## Configs -/

structure BackupTarget where
  name : Text
  secretAccessKey : Text
  password : Text
deriving DecidableEq

/-- `WGServerPeer` and `WGClientTunnel`, which have the same secrets. -/
structure Tunnel where
  name : Text
  privateKey : Text
  presharedKey : Text
deriving DecidableEq

/-- The secret fields of a config; `ρ` is all the rest. -/
structure Config (ρ : Type) where
  passphrase : Text
  serverKey : Text
  sessionSecret : Text
  apiToken : Text
  targets : List BackupTarget
  peers : List Tunnel
  clients : List Tunnel
  rest : ρ
deriving DecidableEq

variable {ρ : Type} {R : Text → Text → Prop} {c d : Config ρ}

def BackupTarget.secrets (t : BackupTarget) : List Text :=
  [t.secretAccessKey, t.password]

def Tunnel.secrets (t : Tunnel) : List Text :=
  [t.privateKey, t.presharedKey]

namespace Config

def secretFields (c : Config ρ) : List Text :=
  [c.passphrase, c.serverKey, c.sessionSecret, c.apiToken] ++
    c.targets.flatMap BackupTarget.secrets ++ c.peers.flatMap Tunnel.secrets ++
    c.clients.flatMap Tunnel.secrets

def hasSecrets (c : Config ρ) : Bool :=
  c.secretFields.any (· ≠ [])

end Config

/-! ## Encryption -/

/-- Encryption and base64 together, and their inverse. -/
structure Sealing where
  Key : Type
  Nonce : Type
  encipher : Key → Nonce → Text → Text
  decipher : Key → Text → Option Text
  decipher_encipher : ∀ k n p, decipher k (encipher k n p) = some p

def secretPrefix : Text := "enc:v1:"

def isEncrypted (value : Text) : Bool :=
  secretPrefix <+: value

/-- What `Save` and `Load` meet. -/
structure Env (ρ : Type) extends Sealing where
  /-- The key, unless it can be neither read nor created. -/
  key : Option Key
  /-- The random source: a nonce for each encryption, unless it fails. -/
  random : Nat → Option Nonce
  /-- The file can be written. -/
  written : Bool
  /-- What `Load` changes apart from the secrets. -/
  migrate : ρ → ρ
  /-- `Validate`, which reads no secret. -/
  validate : ρ → Bool

variable {env : Env ρ} {key : env.Key} {c : Config ρ}

/-- `encryptSecret`; the state counts the encryptions. -/
def encryptSecret (env : Env ρ) (key : env.Key) (plaintext : Text) : StateT Nat Option Text :=
  fun n =>
    if plaintext = [] ∨ isEncrypted plaintext then some (plaintext, n)
    else (env.random n).map fun nonce => (secretPrefix ++ env.encipher key nonce plaintext, n + 1)

def decryptSecret (env : Env ρ) (key : env.Key) (value : Text) : Option Text :=
  if isEncrypted value then env.decipher key (trimPrefix secretPrefix value) else some value

/-- The values that `encryptSecret` can return. -/
inductive Encrypts (env : Env ρ) (key : env.Key) : Text → Text → Prop
  | keep {p : Text} : p = [] ∨ isEncrypted p → Encrypts env key p p
  | encipher {p : Text} (nonce : env.Nonce) : p ≠ [] → isEncrypted p = false →
    Encrypts env key p (secretPrefix ++ env.encipher key nonce p)

theorem isEncrypted_append (t : Text) : isEncrypted (secretPrefix ++ t) :=
  decide_eq_true (prefix_append _ _)

/-- What was encrypted from a value without the marker is decrypted to it. -/
theorem decryptSecret_of_encrypts {p q : Text} (h : Encrypts env key p q)
    (hp : isEncrypted p = false) : decryptSecret env key q = some p := by
  cases h with
  | keep _ => rw [decryptSecret, hp, if_neg (by decide)]
  | encipher nonce _ _ =>
    rw [decryptSecret, if_pos (isEncrypted_append _), trimPrefix,
      if_pos (prefix_append _ _), drop_left, env.decipher_encipher]

/-! ## Loops over the secrets -/

section Loops

variable {m : Type → Type} [Monad m] (f : Text → m Text)

def BackupTarget.forSecrets (t : BackupTarget) : m BackupTarget := do
  let secretAccessKey ← f t.secretAccessKey
  let password ← f t.password
  pure { t with secretAccessKey, password }

def Tunnel.forSecrets (t : Tunnel) : m Tunnel := do
  let privateKey ← f t.privateKey
  let presharedKey ← f t.presharedKey
  pure { t with privateKey, presharedKey }

/-- The loop over the pointers of `secretFields`, which replaces what they point to. -/
def Config.forSecrets (c : Config ρ) : m (Config ρ) := do
  let passphrase ← f c.passphrase
  let serverKey ← f c.serverKey
  let sessionSecret ← f c.sessionSecret
  let apiToken ← f c.apiToken
  let targets ← c.targets.mapM (BackupTarget.forSecrets f)
  let peers ← c.peers.mapM (Tunnel.forSecrets f)
  let clients ← c.clients.mapM (Tunnel.forSecrets f)
  pure ⟨passphrase, serverKey, sessionSecret, apiToken, targets, peers, clients, c.rest⟩

end Loops

/-- Whenever the computation succeeds, its result has the property. -/
def Yields {α : Type} (x : StateT Nat Option α) (P : α → Prop) : Prop :=
  ∀ n a n', x n = some (a, n') → P a

theorem Yields.pure {α : Type} {P : α → Prop} {a : α} (h : P a) :
    Yields (Pure.pure a : StateT Nat Option α) P := by
  rintro n b n' ⟨rfl, rfl⟩
  exact h

theorem Yields.bind {α β : Type} {x : StateT Nat Option α} {f : α → StateT Nat Option β}
    {P : α → Prop} {Q : β → Prop} (hx : Yields x P) (hf : ∀ a, P a → Yields (f a) Q) :
    Yields (x >>= f) Q := by
  intro n b n' h
  obtain ⟨⟨a, i⟩, ha, hb⟩ := Option.bind_eq_some_iff.mp h
  exact hf a (hx n a i ha) i b n' hb

theorem Yields.mapM {α β : Type} {f : α → StateT Nat Option β} {R : α → β → Prop}
    (h : ∀ a, Yields (f a) (R a)) (l : List α) : Yields (l.mapM f) (List.Forall₂ R l) := by
  induction l with
  | nil =>
    rw [mapM_nil]
    exact .pure .nil
  | cons a l ih =>
    rw [mapM_cons]
    exact (h a).bind fun b hb => ih.bind fun bs hbs => .pure (.cons hb hbs)

/-- Two configs whose secrets are related one by one, and that agree otherwise. -/
structure Config.Rel (R : Text → Text → Prop) (c d : Config ρ) : Prop where
  passphrase : R c.passphrase d.passphrase
  serverKey : R c.serverKey d.serverKey
  sessionSecret : R c.sessionSecret d.sessionSecret
  apiToken : R c.apiToken d.apiToken
  targets : List.Forall₂ (fun t u => t.name = u.name ∧ R t.secretAccessKey u.secretAccessKey ∧
    R t.password u.password) c.targets d.targets
  peers : List.Forall₂ (fun t u => t.name = u.name ∧ R t.privateKey u.privateKey ∧
    R t.presharedKey u.presharedKey) c.peers d.peers
  clients : List.Forall₂ (fun t u => t.name = u.name ∧ R t.privateKey u.privateKey ∧
    R t.presharedKey u.presharedKey) c.clients d.clients
  rest : c.rest = d.rest

theorem Config.forSecrets_yields {f : Text → StateT Nat Option Text}
    (h : ∀ p, Yields (f p) (R p)) (c : Config ρ) : Yields (c.forSecrets f) (c.Rel R) := by
  have htarget : ∀ t : BackupTarget, Yields (t.forSecrets f) fun u => t.name = u.name ∧
      R t.secretAccessKey u.secretAccessKey ∧ R t.password u.password :=
    fun t => (h _).bind fun k hk => (h _).bind fun p hp => .pure ⟨rfl, hk, hp⟩
  have htunnel : ∀ t : Tunnel, Yields (t.forSecrets f) fun u => t.name = u.name ∧
      R t.privateKey u.privateKey ∧ R t.presharedKey u.presharedKey :=
    fun t => (h _).bind fun k hk => (h _).bind fun p hp => .pure ⟨rfl, hk, hp⟩
  exact (h _).bind fun p hp => (h _).bind fun k hk => (h _).bind fun s hs => (h _).bind fun a ha =>
    (Yields.mapM htarget _).bind fun ts hts => (Yields.mapM htunnel _).bind fun ps hps =>
    (Yields.mapM htunnel _).bind fun cs hcs => .pure ⟨hp, hk, hs, ha, hts, hps, hcs, rfl⟩

theorem encryptSecret_yields (key : env.Key) (p : Text) :
    Yields (encryptSecret env key p) (Encrypts env key p) := by
  intro n q n' h
  unfold encryptSecret at h
  split at h
  · rename_i hkeep
    cases h
    exact .keep hkeep
  · rename_i hkeep
    obtain ⟨nonce, -, heq⟩ := Option.map_eq_some_iff.mp h
    cases heq
    rw [not_or] at hkeep
    exact .encipher nonce hkeep.1 (by simpa using hkeep.2)

/-- The secrets of related configs are related one by one. -/
theorem Config.Rel.secretFields (h : c.Rel R d) : List.Forall₂ R c.secretFields d.secretFields := by
  have htarget : List.Forall₂ R (c.targets.flatMap BackupTarget.secrets)
      (d.targets.flatMap BackupTarget.secrets) :=
    rel_flatMap h.targets fun t u htu => .cons htu.2.1 (.cons htu.2.2 .nil)
  have htunnels : ∀ {ts us : List Tunnel}, List.Forall₂ (fun t u => t.name = u.name ∧
      R t.privateKey u.privateKey ∧ R t.presharedKey u.presharedKey) ts us →
      List.Forall₂ R (ts.flatMap Tunnel.secrets) (us.flatMap Tunnel.secrets) :=
    fun hts => rel_flatMap hts fun t u htu => .cons htu.2.1 (.cons htu.2.2 .nil)
  have hsingle : List.Forall₂ R [c.passphrase, c.serverKey, c.sessionSecret, c.apiToken]
      [d.passphrase, d.serverKey, d.sessionSecret, d.apiToken] :=
    .cons h.passphrase (.cons h.serverKey (.cons h.sessionSecret (.cons h.apiToken .nil)))
  exact rel_append (rel_append (rel_append hsingle htarget) (htunnels h.peers)) (htunnels h.clients)

/-- A loop that cannot fail. -/
def Config.mapSecrets (f : Text → Text) (c : Config ρ) : Config ρ :=
  { passphrase := f c.passphrase
    serverKey := f c.serverKey
    sessionSecret := f c.sessionSecret
    apiToken := f c.apiToken
    targets := c.targets.map fun t =>
      { t with secretAccessKey := f t.secretAccessKey, password := f t.password }
    peers := c.peers.map fun t =>
      { t with privateKey := f t.privateKey, presharedKey := f t.presharedKey }
    clients := c.clients.map fun t =>
      { t with privateKey := f t.privateKey, presharedKey := f t.presharedKey }
    rest := c.rest }

section Members

variable {c : Config ρ}

theorem mem_secretFields_of_target {t : BackupTarget} (ht : t ∈ c.targets) :
    t.secretAccessKey ∈ c.secretFields ∧ t.password ∈ c.secretFields := by
  have hmem : ∀ s ∈ t.secrets, s ∈ c.secretFields := by
    intro s hs
    unfold Config.secretFields
    simp only [mem_append, mem_flatMap]
    exact .inl (.inl (.inr ⟨t, ht, hs⟩))
  exact ⟨hmem _ (by simp [BackupTarget.secrets]), hmem _ (by simp [BackupTarget.secrets])⟩

theorem mem_secretFields_of_tunnel {t : Tunnel} (ht : t ∈ c.peers ∨ t ∈ c.clients) :
    t.privateKey ∈ c.secretFields ∧ t.presharedKey ∈ c.secretFields := by
  have hmem : ∀ s ∈ t.secrets, s ∈ c.secretFields := by
    intro s hs
    unfold Config.secretFields
    simp only [mem_append, mem_flatMap]
    rcases ht with ht | ht
    · exact .inl (.inr ⟨t, ht, hs⟩)
    · exact .inr ⟨t, ht, hs⟩
  exact ⟨hmem _ (by simp [Tunnel.secrets]), hmem _ (by simp [Tunnel.secrets])⟩

end Members

/-- What undoes the relation secret by secret gives the first config back. -/
theorem Config.Rel.restore {f : Text → Text}
    (h : c.Rel R d) (hf : ∀ p ∈ c.secretFields, ∀ q ∈ d.secretFields, R p q → f q = p) :
    d.mapSecrets f = c := by
  have htargets : (d.mapSecrets f).targets = c.targets := by
    apply map_eq_of_forall₂ h.targets
    rintro ⟨name, k, p⟩ ht u hu ⟨rfl, hk, hp⟩
    obtain ⟨hk₁, hp₁⟩ := mem_secretFields_of_target ht
    obtain ⟨hk₂, hp₂⟩ := mem_secretFields_of_target hu
    rw [hf _ hk₁ _ hk₂ hk, hf _ hp₁ _ hp₂ hp]
  have htunnel : ∀ {t u : Tunnel}, t ∈ c.peers ∨ t ∈ c.clients → u ∈ d.peers ∨ u ∈ d.clients →
      t.name = u.name ∧ R t.privateKey u.privateKey ∧ R t.presharedKey u.presharedKey →
      { u with privateKey := f u.privateKey, presharedKey := f u.presharedKey } = t := by
    rintro ⟨name, k, p⟩ u ht hu ⟨rfl, hk, hp⟩
    obtain ⟨hk₁, hp₁⟩ := mem_secretFields_of_tunnel ht
    obtain ⟨hk₂, hp₂⟩ := mem_secretFields_of_tunnel hu
    rw [hf _ hk₁ _ hk₂ hk, hf _ hp₁ _ hp₂ hp]
  have hpeers : (d.mapSecrets f).peers = c.peers :=
    map_eq_of_forall₂ h.peers fun t ht u hu => htunnel (.inl ht) (.inl hu)
  have hclients : (d.mapSecrets f).clients = c.clients :=
    map_eq_of_forall₂ h.clients fun t ht u hu => htunnel (.inr ht) (.inr hu)
  have hsingle : ∀ {p q}, p ∈ [c.passphrase, c.serverKey, c.sessionSecret, c.apiToken] →
      q ∈ [d.passphrase, d.serverKey, d.sessionSecret, d.apiToken] → R p q → f q = p := by
    intro p q hp hq
    apply hf p _ q
    · unfold Config.secretFields
      simp only [append_assoc]
      exact mem_append_left _ hq
    · unfold Config.secretFields
      simp only [append_assoc]
      exact mem_append_left _ hp
  obtain ⟨pass, server, session, api, targets, peers, clients, rest⟩ := c
  unfold Config.mapSecrets at *
  simp only [Config.mk.injEq]
  exact ⟨hsingle (by simp) (by simp) h.passphrase, hsingle (by simp) (by simp) h.serverKey,
    hsingle (by simp) (by simp) h.sessionSecret, hsingle (by simp) (by simp) h.apiToken, htargets,
    hpeers, hclients, h.rest.symm⟩

/-! ## Load -/

/-- `decryptInPlace`: a value that cannot be decrypted is cleared. -/
def decryptInPlace (env : Env ρ) (key : env.Key) (value : Text) : Text :=
  (decryptSecret env key value).getD []

namespace Config

def hasEncryptedSecrets (c : Config ρ) : Bool :=
  c.secretFields.any isEncrypted

def clearEncryptedSecrets (c : Config ρ) : Config ρ :=
  c.mapSecrets fun f => if isEncrypted f then [] else f

def decryptVPNPeerSecrets (env : Env ρ) (key : env.Key) (c : Config ρ) : Config ρ :=
  { c with
    peers := c.peers.map fun p => { p with presharedKey := decryptInPlace env key p.presharedKey }
    clients := c.clients.map fun t =>
      { t with privateKey := decryptInPlace env key t.privateKey
               presharedKey := decryptInPlace env key t.presharedKey } }

/-- `decryptSecretsInPlace`, which does not go through `secretFields`. -/
def decryptSecretsInPlace (env : Env ρ) (c : Config ρ) : Config ρ :=
  if !c.hasEncryptedSecrets then c
  else
    match env.key with
    | none => c.clearEncryptedSecrets
    | some key =>
      let c : Config ρ := { c with
        passphrase := decryptInPlace env key c.passphrase
        targets := c.targets.map fun t =>
          { t with secretAccessKey := decryptInPlace env key t.secretAccessKey
                   password := decryptInPlace env key t.password }
        serverKey := decryptInPlace env key c.serverKey
        peers := c.peers.map fun p =>
          { p with privateKey := decryptInPlace env key p.privateKey } }
      let c := c.decryptVPNPeerSecrets env key
      { c with
        sessionSecret := decryptInPlace env key c.sessionSecret
        apiToken := decryptInPlace env key c.apiToken }

end Config

inductive LoadError
  | invalid

/-- `Load`, from the file as `yaml.Unmarshal` reads it. -/
def load (env : Env ρ) (file : Config ρ) : Except LoadError (Config ρ) :=
  let cfg := { file with rest := env.migrate file.rest }
  let cfg := cfg.decryptSecretsInPlace env
  if !env.validate cfg.rest then .error .invalid else .ok cfg

/-- The two walks are inverse on secrets without the marker. -/
theorem decryptSecretsInPlace_of_rel (hkey : env.key = some key)
    (h : c.Rel (Encrypts env key) d) (hc : ∀ p ∈ c.secretFields, isEncrypted p = false) :
    d.decryptSecretsInPlace env = c := by
  unfold Config.decryptSecretsInPlace
  split
  · -- nothing was encrypted, so nothing was changed
    rename_i hnone
    have hnone' : ∀ q ∈ d.secretFields, isEncrypted q = false := by
      simpa [Config.hasEncryptedSecrets] using hnone
    have hid : d.mapSecrets id = d := by
      simp [Config.mapSecrets]
    rw [← hid]
    apply h.restore
    intro p _ q hq henc
    cases henc with
    | keep _ => rfl
    | encipher nonce _ _ =>
      have hfalse := hnone' _ hq
      rw [isEncrypted_append] at hfalse
      cases hfalse
  · rw [hkey]
    have hmap : d.mapSecrets (decryptInPlace env key) = c := by
      apply h.restore
      intro p hp q _ henc
      rw [decryptInPlace, decryptSecret_of_encrypts henc (hc p hp)]
      rfl
    rw [← hmap]
    simp [Config.mapSecrets, Config.decryptVPNPeerSecrets]

/-! ## Save -/

/-- The backing arrays of the slices that hold secrets. -/
structure Heap where
  targets : Nat → List BackupTarget
  tunnels : Nat → List Tunnel
  /-- Allocated references are below this one. -/
  next : Nat

/-- A `Config` in memory: three of its fields are slices. -/
structure Live (ρ : Type) where
  passphrase : Text
  serverKey : Text
  sessionSecret : Text
  apiToken : Text
  targets : Nat
  peers : Nat
  clients : Nat
  rest : ρ

/-- What a reader of the config sees. -/
def Live.view (h : Heap) (l : Live ρ) : Config ρ :=
  ⟨l.passphrase, l.serverKey, l.sessionSecret, l.apiToken, h.targets l.targets, h.tunnels l.peers,
    h.tunnels l.clients, l.rest⟩

/-- The memory of the process, and the config the services share. -/
structure Process (ρ : Type) where
  heap : Heap
  cfg : Live ρ
  allocated : cfg.targets < heap.next ∧ cfg.peers < heap.next ∧ cfg.clients < heap.next

def Process.config (p : Process ρ) : Config ρ :=
  p.cfg.view p.heap

/-- `out := *cfg`, with its slices cloned. -/
def cloneSlices (h : Heap) (cfg : Live ρ) : Heap × Live ρ :=
  ({ targets := fun r => if r = h.next then h.targets cfg.targets else h.targets r
     tunnels := fun r => if r = h.next + 1 then h.tunnels cfg.peers
       else if r = h.next + 2 then h.tunnels cfg.clients else h.tunnels r
     next := h.next + 3 },
   { cfg with targets := h.next, peers := h.next + 1, clients := h.next + 2 })

/-- `*f = v` through every pointer of `out.secretFields()`. -/
def writeFields (h : Heap) (out : Live ρ) (c : Config ρ) : Heap × Live ρ :=
  ({ h with
     targets := fun r => if r = out.targets then c.targets else h.targets r
     tunnels := fun r => if r = out.peers then c.peers
       else if r = out.clients then c.clients else h.tunnels r },
   { out with
     passphrase := c.passphrase, serverKey := c.serverKey, sessionSecret := c.sessionSecret
     apiToken := c.apiToken })

inductive SaveError
  | key
  | encrypt
  | write

def withEncryptedSecrets (env : Env ρ) (h : Heap) (cfg : Live ρ) :
    Heap × Except SaveError (Live ρ) :=
  if !(cfg.view h).hasSecrets then (h, .ok cfg)
  else
    match env.key with
    | none => (h, .error .key)
    | some key =>
      let (h, out) := cloneSlices h cfg
      match (out.view h).forSecrets (encryptSecret env key) 0 with
      | none => (h, .error .encrypt)
      | some (c, _) =>
        let (h, out) := writeFields h out c
        (h, .ok out)

/-- `Save`: the memory afterwards, and the file it wrote. -/
def save (env : Env ρ) (p : Process ρ) : Heap × Except SaveError (Config ρ) :=
  let (h, out) := withEncryptedSecrets env p.heap p.cfg
  match out with
  | .error e => (h, .error e)
  | .ok out => if !env.written then (h, .error .write) else (h, .ok (out.view h))

theorem view_cloneSlices (h : Heap) (cfg : Live ρ) :
    (cloneSlices h cfg).2.view (cloneSlices h cfg).1 = cfg.view h := by
  simp [cloneSlices, Live.view]

/-- The copy holds what was written through its pointers. -/
theorem view_writeFields {h : Heap} {out : Live ρ} (hrefs : out.peers ≠ out.clients)
    (hrest : c.rest = out.rest) : (writeFields h out c).2.view (writeFields h out c).1 = c := by
  obtain ⟨pass, server, session, api, targets, peers, clients, rest⟩ := c
  simp_all [writeFields, Live.view, Ne.symm hrefs]

/-- Neither cloning nor writing to the clones touches what the process allocated before. -/
theorem view_of_written (p : Process ρ) (c : Config ρ) :
    let copy := cloneSlices p.heap p.cfg
    p.cfg.view copy.1 = p.config ∧ p.cfg.view (writeFields copy.1 copy.2 c).1 = p.config := by
  obtain ⟨ht, hp, hc⟩ := p.allocated
  have h1 : p.cfg.targets ≠ p.heap.next := by omega
  have h2 : p.cfg.peers ≠ p.heap.next + 1 ∧ p.cfg.peers ≠ p.heap.next + 2 := by omega
  have h3 : p.cfg.clients ≠ p.heap.next + 1 ∧ p.cfg.clients ≠ p.heap.next + 2 := by omega
  simp [cloneSlices, writeFields, Live.view, Process.config, h1, h2, h3]

theorem Config.eq_nil_of_not_hasSecrets (h : c.hasSecrets = false) :
    ∀ s ∈ c.secretFields, s = [] := by
  simpa [Config.hasSecrets] using h

/-- `withEncryptedSecrets` leaves the live config alone, and returns the config itself where
there is nothing to encrypt, and otherwise a copy with the secrets encrypted. -/
theorem withEncryptedSecrets_spec (env : Env ρ) (p : Process ρ) :
    p.cfg.view (withEncryptedSecrets env p.heap p.cfg).1 = p.config ∧
      ∀ out, (withEncryptedSecrets env p.heap p.cfg).2 = .ok out →
        (p.config.hasSecrets = false ∧
          out.view (withEncryptedSecrets env p.heap p.cfg).1 = p.config) ∨
        ∃ key, env.key = some key ∧
          p.config.Rel (Encrypts env key) (out.view (withEncryptedSecrets env p.heap p.cfg).1) := by
  unfold withEncryptedSecrets
  split
  · rename_i hnone
    have hnone' : p.config.hasSecrets = false := by simpa [Process.config] using hnone
    refine ⟨rfl, fun out hout => .inl ⟨hnone', ?_⟩⟩
    cases hout
    rfl
  · split
    · exact ⟨rfl, nofun⟩
    rename_i key hkey
    dsimp only
    split
    · exact ⟨(view_of_written p p.config).1, nofun⟩
    rename_i c n hc
    rw [view_cloneSlices] at hc
    have hrel : p.config.Rel (Encrypts env key) c :=
      p.config.forSecrets_yields (encryptSecret_yields key) 0 c n hc
    refine ⟨(view_of_written p c).2, fun out hout => .inr ⟨key, hkey, ?_⟩⟩
    cases hout
    have hrefs : (cloneSlices p.heap p.cfg).2.peers ≠ (cloneSlices p.heap p.cfg).2.clients := by
      show p.heap.next + 1 ≠ p.heap.next + 2
      omega
    rw [view_writeFields hrefs hrel.rest.symm]
    exact hrel

theorem save_spec (env : Env ρ) (p : Process ρ) :
    p.cfg.view (save env p).1 = p.config ∧
      ∀ file, (save env p).2 = .ok file →
        (p.config.hasSecrets = false ∧ file = p.config) ∨
        ∃ key, env.key = some key ∧ p.config.Rel (Encrypts env key) file := by
  obtain ⟨hlive, hout⟩ := withEncryptedSecrets_spec env p
  unfold save
  rcases hw : withEncryptedSecrets env p.heap p.cfg with ⟨h, _ | out⟩
  · rw [hw] at hlive
    exact ⟨hlive, nofun⟩
  rw [hw] at hlive hout
  dsimp only
  split
  · exact ⟨hlive, nofun⟩
  · refine ⟨hlive, fun file hfile => ?_⟩
    cases hfile
    exact hout out rfl

/-! ## The round trip -/

/-- The field of the file for a secret: the marker and a ciphertext, unless the secret is empty. -/
def Sealed (env : Env ρ) (secret field : Text) : Prop :=
  if secret = [] then field = []
  else ∃ key nonce, env.key = some key ∧ field = secretPrefix ++ env.encipher key nonce secret

/-- Loading the file returns every secret of the config. The file holds each of them encrypted,
and none as it is. -/
structure RoundTrip (env : Env ρ) (c file : Config ρ) : Prop where
  returns : ∃ c', load env file = .ok c' ∧ { c' with rest := c.rest } = c
  encrypted : List.Forall₂ (Sealed env) c.secretFields file.secretFields
  hidden : ∀ s ∈ c.secretFields, s ≠ [] → s ∉ file.secretFields

theorem sealed_of_encrypts (hkey : env.key = some key) {s q : Text}
    (h : Encrypts env key s q) (hs : isEncrypted s = false) : Sealed env s q := by
  unfold Sealed
  cases h with
  | keep hkeep =>
    rcases hkeep with hnil | hmark
    · rw [if_pos hnil, hnil]
    · cases hs.symm.trans hmark
  | encipher nonce hne _ => rw [if_neg hne]; exact ⟨key, nonce, hkey, rfl⟩

theorem sealed_of_rel (hkey : env.key = some key) {ss qs : List Text}
    (h : List.Forall₂ (Encrypts env key) ss qs) (hss : ∀ s ∈ ss, isEncrypted s = false) :
    List.Forall₂ (Sealed env) ss qs := by
  induction h with
  | nil => exact .nil
  | cons hq _ ih =>
    rw [forall_mem_cons] at hss
    exact .cons (sealed_of_encrypts hkey hq hss.1) (ih hss.2)

theorem rest_decryptSecretsInPlace (env : Env ρ) (c : Config ρ) :
    (c.decryptSecretsInPlace env).rest = c.rest := by
  unfold Config.decryptSecretsInPlace
  split
  · rfl
  · split <;> rfl

theorem load_ok_iff {env : Env ρ} {file c : Config ρ} :
    load env file = .ok c ↔ env.validate (env.migrate file.rest) ∧
      ({ file with rest := env.migrate file.rest } : Config ρ).decryptSecretsInPlace env = c := by
  unfold load
  simp only [rest_decryptSecretsInPlace]
  split
  · rename_i hv
    simp_all
  · rename_i hv
    simp_all

/-- A config without secrets is read back as it is. -/
theorem decryptSecretsInPlace_of_nil (env : Env ρ) (h : ∀ s ∈ c.secretFields, s = []) :
    c.decryptSecretsInPlace env = c := by
  have hnone : c.hasEncryptedSecrets = false := by
    rw [Config.hasEncryptedSecrets, any_eq_false]
    intro s hs
    rw [h s hs]
    decide
  rw [Config.decryptSecretsInPlace, hnone]
  rfl

/-- **Credentials at rest.** `Save` never changes the live config. After it has written a file,
the secrets come back from that file and are encrypted in it exactly if `Validate` accepts the
config and no secret starts with the marker. -/
theorem save_load_iff (env : Env ρ) (p : Process ρ) :
    p.cfg.view (save env p).1 = p.config ∧
      ∀ file, (save env p).2 = .ok file →
        (RoundTrip env p.config file ↔ env.validate (env.migrate p.config.rest) ∧
          ∀ s ∈ p.config.secretFields, isEncrypted s = false) := by
  obtain ⟨hlive, hsave⟩ := save_spec env p
  refine ⟨hlive, fun file hfile => ?_⟩
  generalize p.config = c at *
  rcases hsave file hfile with ⟨hnone, rfl⟩ | ⟨key, hkey, hrel⟩
  · have hnil := Config.eq_nil_of_not_hasSecrets hnone
    constructor
    · intro h
      obtain ⟨c', hload, -⟩ := h.returns
      refine ⟨(load_ok_iff.mp hload).1, fun s hs => ?_⟩
      rw [hnil s hs]
      decide
    · rintro ⟨hvalid, -⟩
      have hsame := decryptSecretsInPlace_of_nil env
        (c := { file with rest := env.migrate file.rest }) hnil
      refine ⟨⟨_, load_ok_iff.mpr ⟨hvalid, hsame⟩, rfl⟩, ?_, fun s hs hne => absurd (hnil s hs) hne⟩
      exact forall₂_same.mpr fun s hs => by rw [Sealed, if_pos (hnil s hs), hnil s hs]
  · constructor
    · intro h
      obtain ⟨c', hload, -⟩ := h.returns
      rw [hrel.rest]
      refine ⟨(load_ok_iff.mp hload).1, fun s hs => ?_⟩
      -- a secret with the marker is written as it is
      by_contra hmark
      have hmark' : isEncrypted s := by simpa using hmark
      have hne : s ≠ [] := by
        rintro rfl
        exact absurd hmark' (by decide)
      obtain ⟨q, hq, henc⟩ := exists_right_of_mem hrel.secretFields hs
      cases henc with
      | keep _ => exact h.hidden s hs hne hq
      | encipher nonce _ hplain =>
        cases hplain.symm.trans hmark'
    · rintro ⟨hvalid, hplain⟩
      refine ⟨?_, ?_, ?_⟩
      · have hmigrated : ({ c with rest := env.migrate c.rest } : Config ρ).Rel (Encrypts env key)
            { file with rest := env.migrate file.rest } :=
          { hrel with rest := by rw [hrel.rest] }
        refine ⟨_, load_ok_iff.mpr ⟨by rwa [← hrel.rest],
          decryptSecretsInPlace_of_rel hkey hmigrated hplain⟩, rfl⟩
      · exact sealed_of_rel hkey hrel.secretFields hplain
      · intro s hs hne hmem
        obtain ⟨t, ht, henc⟩ := exists_right_of_mem hrel.secretFields.flip hmem
        cases henc with
        | keep hkeep =>
          rcases hkeep with rfl | hmark
          · exact hne rfl
          · rw [hplain s hs] at hmark
            cases hmark
        | encipher nonce _ _ =>
          have hfalse := hplain _ hs
          rw [isEncrypted_append] at hfalse
          cases hfalse

/-- A stand-in for the encryption, on a system where everything works. -/
def sampleEnv : Env Unit where
  Key := Unit
  Nonce := Unit
  encipher _ _ p := '#' :: p.reverse
  decipher _ t := if t.head? = some '#' then some t.tail.reverse else none
  decipher_encipher _ _ p := by simp
  key := some ()
  random _ := some ()
  written := true
  migrate := id
  validate _ := true

/-- A config with a backup passphrase, one backup target and one peer. -/
def sampleProcess (passphrase : Text) : Process Unit where
  heap :=
    { targets := fun _ => [⟨"s3", "AKIA", []⟩]
      tunnels := fun r => if r = 0 then [⟨"phone", "kEy=", "pSk="⟩] else []
      next := 2 }
  cfg := ⟨passphrase, [], "cookie", [], 0, 0, 1, ()⟩
  allocated := by simp

/-- Ordinary secrets come back, those in the lists among them. -/
theorem hunter2_returns :
    ∃ file, (save sampleEnv (sampleProcess "hunter2")).2 = .ok file ∧
      RoundTrip sampleEnv (sampleProcess "hunter2").config file :=
  ⟨_, rfl, ((save_load_iff sampleEnv (sampleProcess "hunter2")).2 _ rfl).mpr
    ⟨rfl, by decide⟩⟩

/-- A passphrase that starts with the marker is written to the file as it is, and is empty
after the next load. -/
theorem marked_passphrase_lost :
    ∃ file c, (save sampleEnv (sampleProcess "enc:v1:tulip")).2 = .ok file ∧
      file.passphrase = "enc:v1:tulip" ∧ load sampleEnv file = .ok c ∧ c.passphrase = [] ∧
      ¬ RoundTrip sampleEnv (sampleProcess "enc:v1:tulip").config file := by
  refine ⟨_, _, rfl, by decide, rfl, by decide, fun h => ?_⟩
  exact h.hidden "enc:v1:tulip" (by decide) (by decide) (by decide)

end Lankeeper.Secrets
