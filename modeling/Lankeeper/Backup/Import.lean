import Lankeeper.Lib.Address
import Lankeeper.Lib.Path

/-!
# Lankeeper.Backup.Import — restoring an uploaded archive

`internal/services/backup.go`: `Import` and what it calls. The archive is read into
memory and checked member by member (`stageArchive`), the restored `router.yaml` is
validated, and only then the members are written, the credential key last. What is
wrong with the key itself shows only when it is written: `import_unchanged_iff` says
exactly when a refused archive leaves the live files as they were.

Single writes do not fail here. `ValidateBytes` is any predicate.
-/

namespace Lankeeper.Backup

open Lib Text Path

/-! ## The upload -/

/-- A tar member as the reader yields it: its header, and what can be read of it. -/
structure Entry where
  name : Text
  typeflag : Char
  data : Bytes := []
  /-- the stream ends in an error behind `data` -/
  broken : Bool := false
deriving DecidableEq

structure Upload where
  /-- was a passphrase given? -/
  encrypted : Bool
  decrypts : Bool := true
  gzipped : Bool := true
  entries : List Entry
  /-- reading a header fails behind the entries -/
  truncated : Bool := false
deriving DecidableEq

inductive BackupError
  | decrypt
  | gzip
  | header
  | tooManyEntries
  | entryLimit (name : Text)
  | totalLimit
  | unsafeMember (name : Text)
  | unsupportedType (t : Char) (name : Text)
  | readMember (name : Text)
  | plainArchiveKey
  | keyType (t : Char)
  | readKey
  | keyTooLarge
  | invalidConfig
  -- from `RestoreConfigKey`
  | decodeKey
  | keyLength (n : Nat)
deriving DecidableEq

/-- `tar.TypeReg` and `tar.TypeDir`. -/
def typeReg : Char := '0'

def typeDir : Char := '5'

/-- `io.ReadAll(io.LimitReader(tr, limit))`. -/
def readAll (limit : Nat) (e : Entry) (err : BackupError) : Except BackupError Bytes :=
  if e.broken ∧ e.data.length < limit then .error err else .ok (e.data.take limit)

/-! ## The budget -/

def maxImportEntryBytes : Nat := 10 <<< 20

def maxImportTotalBytes : Nat := 256 <<< 20

def maxImportEntries : Nat := 10000

structure ImportBudget where
  entries : Nat := 0
  total : Nat := 0
deriving DecidableEq

def ImportBudget.countEntry (b : ImportBudget) : Except BackupError ImportBudget :=
  if b.entries + 1 > maxImportEntries then .error .tooManyEntries
  else .ok { b with entries := b.entries + 1 }

def ImportBudget.countBytes (b : ImportBudget) (name : Text) (n : Nat) :
    Except BackupError ImportBudget :=
  if n > maxImportEntryBytes then .error (.entryLimit name)
  else if b.total + n > maxImportTotalBytes then .error .totalLimit
  else .ok { b with total := b.total + n }

/-! ## Staging -/

structure BackupService where
  configDir : Text
  /-- `config.ValidateBytes` reports no error -/
  validateBytes : Bytes → Bool

structure StagedMember where
  target : Text
  isDir : Bool := false
  data : Bytes := []
deriving DecidableEq

def backupExtraDirs : List Text :=
  ["/etc/unbound", "/etc/openvpn"]

/-- The map from top-level names, a later directory in place of an earlier one. -/
def restoreRoots (configDir : Text) (extraDirs : List Text) (top : Text) : Option Text :=
  (configDir :: extraDirs).reverse.find? fun dir => base dir == top

def resolveRestoreTarget (roots : Text → Option Text) (clean : Text) : Option Text :=
  let top := clean.takeWhile (· ≠ '/')
  (roots top).bind fun root =>
    let rest := trimPrefix ['/'] (trimPrefix top clean)
    let target := if rest = [] then root else join root rest
    if target ≠ root ∧ ¬ (root ++ ['/']) <+: target then none else some target

/-- `strings.Contains(s, "..")`. -/
def containsDots : Text → Bool
  | '.' :: '.' :: _ => true
  | _ :: s => containsDots s
  | [] => false

def readMember (e : Entry) (b : ImportBudget) : Except BackupError (Bytes × ImportBudget) :=
  (readAll (maxImportEntryBytes + 1) e (.readMember e.name)).bind fun data =>
    (b.countBytes e.name data.length).map fun b => (data, b)

/-- No member for an entry that this binary does not restore. -/
def stageMember (roots : Text → Option Text) (e : Entry) (b : ImportBudget) :
    Except BackupError (Option StagedMember × ImportBudget) :=
  b.countEntry.bind fun b =>
    let clean := clean e.name
    if containsDots clean ∨ isAbs clean then .error (.unsafeMember e.name)
    else match resolveRestoreTarget roots clean with
      | none => .ok (none, b)
      | some target =>
        if e.typeflag = typeDir then .ok (some { target := target, isDir := true }, b)
        else if e.typeflag = typeReg then
          (readMember e b).map fun p => (some { target := target, data := p.1 }, p.2)
        else .error (.unsupportedType e.typeflag e.name)

def archiveKeyMember : Text := "credentials/config.key"

def maxArchivedKeyBytes : Nat := 128

def readArchivedKey (e : Entry) (encrypted : Bool) (b : ImportBudget) :
    Except BackupError (Bytes × ImportBudget) :=
  b.countEntry.bind fun b =>
    if ¬ encrypted then .error .plainArchiveKey
    else if e.typeflag ≠ typeReg then .error (.keyType e.typeflag)
    else (readAll (maxArchivedKeyBytes + 1) e .readKey).bind fun key =>
      if key.length > maxArchivedKeyBytes then .error .keyTooLarge else .ok (key, b)

/-- The loop of `stageArchive`: `members` and `key` are what was read so far. -/
def stageFrom (roots : Text → Option Text) (u : Upload) :
    ImportBudget → List StagedMember → Option Bytes → List Entry →
    Except BackupError (List StagedMember × Option Bytes)
  | _, members, key, [] => if u.truncated then .error .header else .ok (members, key)
  | b, members, key, e :: es =>
    if clean e.name = archiveKeyMember then
      (readArchivedKey e u.encrypted b).bind fun p => stageFrom roots u p.2 members (some p.1) es
    else
      (stageMember roots e b).bind fun p => stageFrom roots u p.2 (members ++ p.1.toList) key es

def stageArchive (svc : BackupService) (u : Upload) :
    Except BackupError (List StagedMember × Option Bytes) :=
  stageFrom (restoreRoots svc.configDir backupExtraDirs) u {} [] none u.entries

def validateStagedConfig (svc : BackupService) (members : List StagedMember) :
    Except BackupError Unit :=
  let cfgPath := join svc.configDir "router.yaml"
  if members.all fun m => m.isDir || m.target != cfgPath || svc.validateBytes m.data then .ok ()
  else .error .invalidConfig

/-! ## Writing -/

inductive Node
  | dir
  | file (data : Bytes) (mode : Nat)
deriving DecidableEq

/-- The live files and directories, and the credential key. -/
structure Live where
  node : Text → Option Node
  key : Option Bytes

def restoreFileMode : Nat := 0o600

/-- The path and the directories above it. -/
def ancestors : Nat → Text → List Text
  | 0, _ => []
  | n + 1, p => p :: (if dir p = p then [] else ancestors n (dir p))

def mkdirAll (p : Text) (s : Live) : Live where
  node q := if s.node q = none ∧ q ∈ ancestors (p.length + 1) p then some .dir else s.node q
  key := s.key

/-- A file that is there keeps its mode. -/
def writeFile (p : Text) (data : Bytes) (s : Live) : Live where
  node q :=
    if q = p then
      match s.node p with
      | some (.file _ mode) => some (.file data mode)
      | _ => some (.file data restoreFileMode)
    else (mkdirAll (dir p) s).node q
  key := s.key

def installMember (s : Live) (m : StagedMember) : Live :=
  if m.isDir then mkdirAll m.target s else writeFile m.target m.data s

/-- `hex.DecodeString`. -/
def hexDecode : Text → Option Bytes
  | [] => some []
  | [_] => none
  | a :: b :: r =>
    (Address.hexDigit a).bind fun x => (Address.hexDigit b).bind fun y =>
      (hexDecode r).map (UInt8.ofNat (x * 16 + y) :: ·)

/-- The checks of `RestoreConfigKey`. -/
def decodeConfigKey (encoded : Bytes) : Except BackupError Bytes :=
  match hexDecode (trimSpace (ofBytes encoded)) with
  | none => .error .decodeKey
  | some key => if key.length ≠ 32 then .error (.keyLength key.length) else .ok key

def restoreConfigKey (encoded : Bytes) (s : Live) : Except BackupError Unit × Live :=
  match decodeConfigKey encoded with
  | .error e => (.error e, s)
  | .ok key => (.ok (), { s with key := some key })

def installArchivedKey (key : Option Bytes) (s : Live) : Except BackupError Unit × Live :=
  match key with
  | none => (.ok (), s)
  | some encoded => restoreConfigKey encoded s

def restoreArchive (svc : BackupService) (u : Upload) (s : Live) :
    Except BackupError Unit × Live :=
  match stageArchive svc u with
  | .error e => (.error e, s)
  | .ok (members, key) =>
    match validateStagedConfig svc members with
    | .error e => (.error e, s)
    | .ok () => installArchivedKey key (members.foldl installMember s)

/-- `Import`. -/
def importArchive (svc : BackupService) (u : Upload) (s : Live) : Except BackupError Unit × Live :=
  if u.encrypted ∧ ¬ u.decrypts then (.error .decrypt, s)
  else if ¬ u.gzipped then (.error .gzip, s)
  else restoreArchive svc u s

/-! ## What was archived as the key -/

/-- The content of the last key member. -/
def archivedKey (es : List Entry) : Option Bytes :=
  (es.reverse.find? fun e => clean e.name == archiveKeyMember).map (·.data)

/-- A key that is not too large is read whole. -/
theorem readArchivedKey_data {e : Entry} {encrypted : Bool} {b b' : ImportBudget} {key : Bytes}
    (h : readArchivedKey e encrypted b = .ok (key, b')) : key = e.data := by
  unfold readArchivedKey at h
  obtain ⟨b₁, -, h⟩ := exists_of_bind_ok h
  split_ifs at h
  obtain ⟨data, hread, h⟩ := exists_of_bind_ok h
  unfold readAll at hread
  split_ifs at hread
  cases hread
  split_ifs at h with hlen
  cases h
  have hmin : min (maxArchivedKeyBytes + 1) e.data.length ≤ maxArchivedKeyBytes := by
    rw [List.length_take] at hlen
    omega
  exact List.take_of_length_le (by omega)

/-- Of several key members the last one counts. -/
theorem stageFrom_key {roots : Text → Option Text} {u : Upload} {b : ImportBudget}
    {members ms : List StagedMember} {key k : Option Bytes} {es : List Entry}
    (h : stageFrom roots u b members key es = .ok (ms, k)) : k = (archivedKey es).or key := by
  induction es generalizing b members key with
  | nil =>
    rw [stageFrom] at h
    split_ifs at h
    cases h
    rfl
  | cons e es ih =>
    have hlast : archivedKey (e :: es) = (archivedKey es).or
        (if clean e.name = archiveKeyMember then some e.data else none) := by
      unfold archivedKey
      rw [List.reverse_cons, List.find?_append]
      cases hfind : es.reverse.find? fun e => clean e.name == archiveKeyMember with
      | some x => simp
      | none => by_cases hc : clean e.name = archiveKeyMember <;> simp [hc]
    rw [stageFrom] at h
    rw [hlast]
    split_ifs at h with hclean
    · obtain ⟨⟨key', b'⟩, hkey, h⟩ := exists_of_bind_ok h
      rw [ih h, readArchivedKey_data hkey, if_pos hclean, Option.or_assoc]
      rfl
    · obtain ⟨⟨m, b'⟩, -, h⟩ := exists_of_bind_ok h
      rw [ih h, if_neg hclean, Option.or_assoc]
      rfl

/-! ## Refused archives -/

/-- The checks that come before the first write pass, and these members are to be written. -/
def Staged (svc : BackupService) (u : Upload) (members : List StagedMember) : Prop :=
  (u.encrypted → u.decrypts) ∧ u.gzipped ∧
    (∃ key, stageArchive svc u = .ok (members, key)) ∧ validateStagedConfig svc members = .ok ()

theorem importArchive_cases (svc : BackupService) (u : Upload) (s : Live) :
    ((∀ members, ¬ Staged svc u members) ∧ (importArchive svc u s).2 = s) ∨
    ∃ members, Staged svc u members ∧ (∀ ms, Staged svc u ms → ms = members) ∧
      importArchive svc u s =
        installArchivedKey (archivedKey u.entries) (members.foldl installMember s) := by
  unfold importArchive
  split_ifs with hdec hgz
  · refine .inl ⟨?_, rfl⟩
    rintro members ⟨h, -⟩
    exact hdec.2 (h hdec.1)
  · unfold restoreArchive
    rcases hstage : stageArchive svc u with e | ⟨members, key⟩
    · refine .inl ⟨?_, rfl⟩
      rintro members ⟨-, -, ⟨key, h⟩, -⟩
      cases hstage.symm.trans h
    have honly : ∀ ms, Staged svc u ms → ms = members := by
      rintro ms ⟨-, -, ⟨key', h⟩, -⟩
      rw [hstage] at h
      exact (Prod.mk.inj (Except.ok.inj h)).1.symm
    rcases hcfg : validateStagedConfig svc members with e | ⟨⟩
    · refine .inl ⟨?_, by simp [hcfg]⟩
      intro ms hms
      have hok := hms.2.2.2
      rw [honly ms hms, hcfg] at hok
      cases hok
    · have hkey : key = archivedKey u.entries := by
        have h := stageFrom_key hstage
        rwa [Option.or_none] at h
      refine .inr ⟨members, ⟨?_, hgz, ⟨key, hstage⟩, hcfg⟩, honly, ?_⟩
      · intro henc
        by_contra hno
        exact hdec ⟨henc, by simpa using hno⟩
      · simp [hcfg, hkey]
  · refine .inl ⟨?_, rfl⟩
    rintro members ⟨-, h, -⟩
    exact hgz h

/-- A refused archive leaves the live files as they were, exactly if its key is not what it
is refused for, or if writing the members changes nothing. -/
theorem import_unchanged_iff (svc : BackupService) (u : Upload) (s : Live) :
    (∀ e, (importArchive svc u s).1 = .error e → (importArchive svc u s).2 = s) ↔
      ∀ members key e, Staged svc u members → archivedKey u.entries = some key →
        decodeConfigKey key = .error e → members.foldl installMember s = s := by
  rcases importArchive_cases svc u s with ⟨hrefused, hsame⟩ | ⟨members, hstaged, honly, heq⟩
  · -- refused before the first write
    constructor
    · intro _ members key e hstaged
      exact absurd hstaged (hrefused members)
    · intro _ e _
      exact hsame
  · rw [heq]
    constructor
    · intro h ms key e hms hkey hbad
      rw [honly ms hms]
      have hinst : installArchivedKey (archivedKey u.entries) (members.foldl installMember s) =
          (.error e, members.foldl installMember s) := by
        simp [hkey, installArchivedKey, restoreConfigKey, hbad]
      rw [hinst] at h
      exact h e rfl
    · intro h e herr
      rcases hkey : archivedKey u.entries with _ | key
      · rw [hkey] at herr
        cases herr
      rw [hkey] at herr
      unfold installArchivedKey restoreConfigKey at herr ⊢
      rcases hdec : decodeConfigKey key with e' | k
      · simp only [hdec]
        exact h members key e' hstaged hkey hdec
      · simp only [hdec] at herr
        cases herr

/-! A key that was cut to one byte. -/

def lankeeperService : BackupService where
  configDir := "/etc/lankeeper"
  validateBytes := fun _ => true

def configPath : Text := "/etc/lankeeper/router.yaml"

def shortKeyUpload : Upload where
  encrypted := true
  entries :=
    [{ name := "lankeeper/router.yaml", typeflag := '0', data := [0x61] },
      { name := "credentials/config.key", typeflag := '0', data := [0x30, 0x30] }]

def oneFile : Live where
  node p := if p = configPath then some (.file [0x62] 0o640) else none
  key := none

theorem short_key_replaces_config :
    (importArchive lankeeperService shortKeyUpload oneFile).1 = .error (.keyLength 1) ∧
    oneFile.node configPath = some (.file [0x62] 0o640) ∧
    (importArchive lankeeperService shortKeyUpload oneFile).2.node configPath =
      some (.file [0x61] 0o640) := by
  decide +kernel

end Lankeeper.Backup
