import Lankeeper.Lib.Text

/-!
# Lankeeper.Config.TLSPair — replacing a certificate and its key

`InstallTLSPair` and `generateSelfSigned` of `internal/config/tls.go`. Both replace two
files one after the other, the first with the key in front and the second with the
certificate, and do something more behind that: the mode of the key is restricted, and the
certificate is read back. Each of these steps can fail, and nothing is undone then. Of the
two texts it is given, `InstallTLSPair` checks each by itself.

`atomicWrite` is all or nothing for one file: it renames a finished copy. The cryptography
is a `Crypto`, which says what certificate and key a text holds.

`pair_kept_iff` says when a failure leaves the old pair and a success a pair that matches.
-/

namespace Lankeeper.TLSPair

open Lib Text

/-! ## Certificates and keys -/

/-- How texts are read; `κ` is what a certificate and its private key have in common, such
as the public key. -/
structure Crypto (κ : Type) where
  /-- `pem.Decode` and `x509.ParseCertificate` -/
  parseCert : Bytes → Option κ
  /-- `pem.Decode` finds a block -/
  isPEM : Bytes → Bool
  /-- the private key that a text holds -/
  parseKey : Bytes → Option κ

variable {κ : Type} (c : Crypto κ)

/-- The key is the private key of the certificate. -/
def Crypto.Matches (cert key : Bytes) : Prop :=
  ∃ k, c.parseCert cert = some k ∧ c.parseKey key = some k

/-- What `ecdsa.GenerateKey` and `x509.CreateCertificate` bring about, in PEM. -/
structure Generated where
  certPEM : Bytes
  keyPEM : Bytes
  pair : c.Matches certPEM keyPEM

/-! ## Files -/

abbrev Disk := Text → Option Bytes

/-- `atomicWrite`, where it succeeds. -/
def atomicWrite (path : Text) (data : Bytes) (d : Disk) : Disk :=
  fun q => if q = path then some data else d q

/-- The two files, as `certPaths` has them. -/
structure Paths where
  cert : Text
  key : Text

/-- Which steps of a call succeed. -/
structure Steps where
  /-- `certPaths` creates the directory -/
  mkdir : Bool
  writeKey : Bool
  chmodKey : Bool
  writeCert : Bool
  /-- `readCertInfo` can read the file -/
  readCert : Bool

inductive TLSError
  | parseCert
  | decodeKey
  | mkdir
  | generate
  | writeKey
  | chmodKey
  | writeCert
  | readCert
deriving DecidableEq

variable (paths : Paths) (steps : Steps)

/-- `readCertInfo`, as far as it can fail. -/
def readCertInfo (d : Disk) : Except TLSError Unit :=
  if steps.readCert ∧ ((d paths.cert).bind c.parseCert).isSome then .ok () else .error .readCert

def installTLSPair (certPEM keyPEM : Bytes) (d : Disk) : Except TLSError Unit × Disk :=
  if (c.parseCert certPEM).isNone then (.error .parseCert, d)
  else if !c.isPEM keyPEM then (.error .decodeKey, d)
  else if !steps.mkdir then (.error .mkdir, d)
  else if !steps.writeKey then (.error .writeKey, d)
  else
    let d := atomicWrite paths.key keyPEM d
    if !steps.chmodKey then (.error .chmodKey, d)
    else if !steps.writeCert then (.error .writeCert, d)
    else
      let d := atomicWrite paths.cert certPEM d
      (readCertInfo c paths steps d, d)

def writeKeyPair (g : Generated c) (d : Disk) : Except TLSError Unit × Disk :=
  if !steps.writeCert then (.error .writeCert, d)
  else
    let d := atomicWrite paths.cert g.certPEM d
    if !steps.writeKey then (.error .writeKey, d)
    else
      let d := atomicWrite paths.key g.keyPEM d
      if !steps.chmodKey then (.error .chmodKey, d) else (.ok (), d)

/-- `generateSelfSigned`; there may be no pair to write, for want of random numbers or
because of the names asked for. -/
def generateSelfSigned (g : Option (Generated c)) (d : Disk) : Except TLSError Unit × Disk :=
  match g with
  | none => (.error .generate, d)
  | some g =>
    match writeKeyPair c paths steps g d with
    | (.error e, d) => (.error e, d)
    | (.ok (), d) => (readCertInfo c paths steps d, d)

/-! ## Keeping a pair -/

/-- The key on disk is the private key of the certificate on disk. -/
def PairMatches (d : Disk) : Prop :=
  ∃ cert key, d paths.cert = some cert ∧ d paths.key = some key ∧ c.Matches cert key

/-- After an error the pair is the one from before, after a success it matches. -/
structure Keeps (d : Disk) (r : Except TLSError Unit × Disk) : Prop where
  failed : ∀ e, r.1 = .error e → r.2 paths.cert = d paths.cert ∧ r.2 paths.key = d paths.key
  succeeded : r.1 = .ok () → PairMatches c paths r.2

/-- These texts are on disk. -/
def Holds (d : Disk) (certPEM keyPEM : Bytes) : Prop :=
  d paths.cert = some certPEM ∧ d paths.key = some keyPEM

/-- What is left of the text written first: nothing, if both go to one file. -/
def leaves (first second : Bytes) : Bytes :=
  if paths.cert = paths.key then second else first

/-- A call of `InstallTLSPair` whose checks pass, and which replaces the key: where a step
fails behind that, the disk held the same texts before, and where none does, the key is that
of the certificate. -/
def InstallFits (certPEM keyPEM : Bytes) (d : Disk) : Prop :=
  (c.parseCert certPEM).isSome → c.isPEM keyPEM → steps.mkdir → steps.writeKey →
    if steps.chmodKey ∧ steps.writeCert then
      if steps.readCert then c.Matches certPEM (leaves paths keyPEM certPEM)
      else Holds paths d certPEM (leaves paths keyPEM certPEM)
    else d paths.key = some keyPEM

/-- A call of `generateSelfSigned` that replaces the certificate: where a step fails behind
that, the disk held the same texts before. The new pair matches, if it has two files. -/
def SelfSignedFits (g : Option (Generated c)) (d : Disk) : Prop :=
  ∀ made, g = some made → steps.writeCert →
    if steps.writeKey then
      if steps.chmodKey ∧ steps.readCert ∧
          (c.parseCert (leaves paths made.certPEM made.keyPEM)).isSome then
        c.Matches (leaves paths made.certPEM made.keyPEM) made.keyPEM
      else Holds paths d (leaves paths made.certPEM made.keyPEM) made.keyPEM
    else d paths.cert = some made.certPEM

variable {c paths steps}

variable {d d' : Disk} {certPEM keyPEM : Bytes}

theorem keeps_error_iff {e : TLSError} :
    Keeps c paths d (.error e, d') ↔ d' paths.cert = d paths.cert ∧ d' paths.key = d paths.key := by
  constructor
  · intro h
    exact h.failed e rfl
  · intro h
    exact ⟨fun _ _ => h, nofun⟩

theorem keeps_ok_iff : Keeps c paths d (.ok (), d') ↔ PairMatches c paths d' := by
  constructor
  · intro h
    exact h.succeeded rfl
  · intro h
    exact ⟨nofun, fun _ => h⟩

/-- Nothing was written. -/
theorem keeps_self {e : TLSError} : Keeps c paths d (.error e, d) :=
  keeps_error_iff.mpr ⟨rfl, rfl⟩

theorem atomicWrite_self (p : Text) (t : Bytes) (d : Disk) : atomicWrite p t d p = some t :=
  if_pos rfl

theorem atomicWrite_of_ne {p q : Text} (h : q ≠ p) (t : Bytes) (d : Disk) :
    atomicWrite p t d q = d q :=
  if_neg h

/-- One file written: two files are as before if that one is. -/
theorem same_of_write {p q : Text} {t : Bytes} :
    (atomicWrite p t d q = d q ∧ atomicWrite p t d p = d p) ↔ d p = some t := by
  rw [atomicWrite_self, eq_comm (a := some t)]
  refine ⟨And.right, fun h => ⟨?_, h⟩⟩
  by_cases hp : q = p
  · rw [hp, atomicWrite_self, h]
  · exact atomicWrite_of_ne hp t d

/-- Two files written, and the first read. -/
theorem atomicWrite_twice (p q : Text) (first second : Bytes) (d : Disk) :
    atomicWrite q second (atomicWrite p first d) p = some (if p = q then second else first) := by
  split
  · rename_i hp
    rw [hp, atomicWrite_self]
  · rename_i hp
    rw [atomicWrite_of_ne hp, atomicWrite_self]

/-- Both files written, the certificate last. -/
theorem holds_key_cert (certPEM keyPEM : Bytes) (d : Disk) :
    Holds paths (atomicWrite paths.cert certPEM (atomicWrite paths.key keyPEM d)) certPEM
      (leaves paths keyPEM certPEM) := by
  refine ⟨atomicWrite_self .., ?_⟩
  simp only [leaves, eq_comm (a := paths.cert)]
  exact atomicWrite_twice ..

/-- Both files written, the key last. -/
theorem holds_cert_key (certPEM keyPEM : Bytes) (d : Disk) :
    Holds paths (atomicWrite paths.key keyPEM (atomicWrite paths.cert certPEM d))
      (leaves paths certPEM keyPEM) keyPEM :=
  ⟨atomicWrite_twice .., atomicWrite_self ..⟩

theorem Holds.same_iff (h : Holds paths d' certPEM keyPEM) :
    (d' paths.cert = d paths.cert ∧ d' paths.key = d paths.key) ↔ Holds paths d certPEM keyPEM := by
  unfold Holds
  rw [h.1, h.2]
  exact and_congr eq_comm eq_comm

theorem Holds.matches_iff (h : Holds paths d certPEM keyPEM) :
    PairMatches c paths d ↔ c.Matches certPEM keyPEM := by
  unfold PairMatches
  rw [h.1, h.2]
  simp

/-- Behind the last write of a call only the certificate is read back. -/
theorem keeps_readCertInfo_iff (h : Holds paths d' certPEM keyPEM) :
    Keeps c paths d (readCertInfo c paths steps d', d') ↔
      if steps.readCert ∧ (c.parseCert certPEM).isSome then c.Matches certPEM keyPEM
      else Holds paths d certPEM keyPEM := by
  unfold readCertInfo
  rw [h.1, Option.bind_some]
  split
  · rw [keeps_ok_iff, h.matches_iff]
  · rw [keeps_error_iff, h.same_iff]

theorem keeps_installTLSPair_iff :
    Keeps c paths d (installTLSPair c paths steps certPEM keyPEM d) ↔
      InstallFits c paths steps certPEM keyPEM d := by
  unfold installTLSPair InstallFits
  -- up to the write of the key an error leaves the disk alone
  cases hcert : c.parseCert certPEM with
  | none => simp [keeps_self]
  | some k =>
  cases hkey : c.isPEM keyPEM with
  | false => simp [keeps_self]
  | true =>
  cases hdir : steps.mkdir with
  | false => simp [keeps_self]
  | true =>
  cases hwk : steps.writeKey with
  | false => simp [keeps_self]
  | true =>
  cases hmode : steps.chmodKey with
  | false => simp [keeps_error_iff, same_of_write]
  | true =>
  cases hwc : steps.writeCert with
  | false => simp [keeps_error_iff, same_of_write]
  | true =>
    have h : Keeps c paths d (readCertInfo c paths steps _, _) ↔ _ :=
      keeps_readCertInfo_iff (holds_key_cert certPEM keyPEM d)
    simpa [hcert] using h

theorem keeps_generateSelfSigned_iff {g : Option (Generated c)} :
    Keeps c paths d (generateSelfSigned c paths steps g d) ↔ SelfSignedFits c paths steps g d := by
  unfold generateSelfSigned SelfSignedFits
  cases g with
  | none => simp [keeps_self]
  | some made =>
  unfold writeKeyPair
  cases hwc : steps.writeCert with
  | false => simp [keeps_self]
  | true =>
  cases hwk : steps.writeKey with
  | false => simp [keeps_error_iff, and_comm (a := atomicWrite _ _ _ paths.cert = _), same_of_write]
  | true =>
  have hboth : Holds paths _ _ _ := holds_cert_key made.certPEM made.keyPEM d
  cases hmode : steps.chmodKey with
  | false => simp [keeps_error_iff, hboth.same_iff]
  | true =>
    have h : Keeps c paths d (readCertInfo c paths steps _, _) ↔ _ :=
      keeps_readCertInfo_iff hboth
    simpa using h

/-- What is asked of both for every text, every pair that is made and every step that may
fail holds exactly where nothing fails behind the first write, unless the same texts were
there, and the key that is installed is that of the certificate. -/
theorem pair_kept_iff {κ : Type} (c : Crypto κ) (paths : Paths) (steps : Steps) (d : Disk) :
    (∀ certPEM keyPEM, Keeps c paths d (installTLSPair c paths steps certPEM keyPEM d) ↔
      InstallFits c paths steps certPEM keyPEM d) ∧
    (∀ g, Keeps c paths d (generateSelfSigned c paths steps g d) ↔
      SelfSignedFits c paths steps g d) :=
  ⟨fun _ _ => keeps_installTLSPair_iff, fun _ => keeps_generateSelfSigned_iff⟩

/-! ## A pair that does not match -/

/-- A text is the number of its key behind a letter: `c` for a certificate, `k` for a key. -/
def numbered : Crypto UInt8 where
  parseCert t := match t with | [99, n] => some n | _ => none
  isPEM t := match t with | [_, _] => true | _ => false
  parseKey t := match t with | [107, n] => some n | _ => none

def serverPaths : Paths := ⟨"/data/tls/server.crt", "/data/tls/server.key"⟩

/-- The pair of key 0 is on disk. -/
def servedPair : Disk := fun q =>
  if q = serverPaths.cert then some [99, 0] else if q = serverPaths.key then some [107, 0] else none

/-- The certificate of key 1 is installed with key 2, and nothing is said. And where the
certificate of key 1 cannot be written, its key stands beside the certificate of key 0. -/
theorem pair_not_kept :
    PairMatches numbered serverPaths servedPair ∧
    (installTLSPair numbered serverPaths ⟨true, true, true, true, true⟩ [99, 1] [107, 2]
        servedPair).1 = .ok () ∧
    ¬ PairMatches numbered serverPaths
      (installTLSPair numbered serverPaths ⟨true, true, true, true, true⟩ [99, 1] [107, 2]
        servedPair).2 ∧
    (installTLSPair numbered serverPaths ⟨true, true, true, false, true⟩ [99, 1] [107, 1]
        servedPair).1 = .error .writeCert ∧
    ¬ PairMatches numbered serverPaths
      (installTLSPair numbered serverPaths ⟨true, true, true, false, true⟩ [99, 1] [107, 1]
        servedPair).2 := by
  have hne : serverPaths.cert ≠ serverPaths.key := by decide
  have hold : Holds serverPaths servedPair [99, 0] [107, 0] :=
    ⟨if_pos rfl, (if_neg hne.symm).trans (if_pos rfl)⟩
  -- the pair on disk after the first call, and after the second
  have hboth : Holds serverPaths _ [99, 1] [107, 2] := holds_key_cert [99, 1] [107, 2] servedPair
  have hkey : Holds serverPaths (atomicWrite serverPaths.key [107, 1] servedPair) [99, 0] [107, 1] :=
    ⟨(atomicWrite_of_ne hne ..).trans hold.1, atomicWrite_self ..⟩
  refine ⟨hold.matches_iff.mpr ⟨0, rfl, rfl⟩, rfl, ?_, rfl, ?_⟩
  · intro h
    obtain ⟨k, h₁, h₂⟩ := hboth.matches_iff.mp h
    exact absurd (h₁.trans h₂.symm) (by decide)
  · intro h
    obtain ⟨k, h₁, h₂⟩ := hkey.matches_iff.mp h
    exact absurd (h₁.trans h₂.symm) (by decide)

end Lankeeper.TLSPair
