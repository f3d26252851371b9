import Mathlib.Data.List.Nodup
import Lankeeper.Agent.PathRules
import Lankeeper.Agent.Requests
import Lankeeper.Backup.Containment

/-!
# Lankeeper.Backup.RoundTrip — importing what was exported

`Export` of `internal/services/backup.go` lets tar pack the config directory and the
directories of Unbound and OpenVPN, whatever is in them. `Import` has rules of its own for
names, sizes and numbers, it looks into `router.yaml`, and each of its writes may be refused
by the agent. `round_trip_iff` puts together what a tree has to be like for its archive to
be restored.

Tar and the encryption give back what was put in. The trees have regular files and
directories only.
-/

namespace Lankeeper.Backup

open Lib Text List Path
open Lib.Path (Loc Name Comp)

/-! ## The sources -/

inductive Item
  | dir
  | file (data : Bytes)
deriving DecidableEq

/-- What lies below a directory, in the order in which tar reads it. -/
structure Tree where
  items : List (Loc × Item)
  below : ∀ i ∈ items, i.1 ≠ []
  distinct : (items.map Prod.fst).Nodup

/-- The directories that are archived, the last two if they exist, and the credential key. -/
structure Sources where
  config : Tree
  unbound : Option Tree := none
  openvpn : Option Tree := none
  key : Option Bytes := none

def etc : Name := ⟨"etc", by decide⟩

def lankeeperDir : Name := ⟨"lankeeper", by decide⟩

def unboundDir : Name := ⟨"unbound", by decide⟩

def openvpnDir : Name := ⟨"openvpn", by decide⟩

/-- A file or directory at `/etc/top/loc`. -/
structure Place where
  top : Name
  loc : Loc
  item : Item
deriving DecidableEq

def Place.path (p : Place) : Text :=
  toText (etc :: p.top :: p.loc)

/-- A directory and what is in it. -/
def placesOf (top : Name) (t : Tree) : List Place :=
  ⟨top, [], .dir⟩ :: t.items.map fun i => ⟨top, i.1, i.2⟩

def Sources.places (src : Sources) : List Place :=
  placesOf lankeeperDir src.config ++ src.unbound.toList.flatMap (placesOf unboundDir) ++
    src.openvpn.toList.flatMap (placesOf openvpnDir)

/-! ## Export -/

/-- How tar stores a file or directory that was named relative to `/etc`. -/
def Place.entry (p : Place) : Entry :=
  match p.item with
  | .dir => { name := relText (p.top :: p.loc) ++ ['/'], typeflag := typeDir }
  | .file data => { name := relText (p.top :: p.loc), typeflag := typeReg, data := data }

/-- `appendConfigKey`: the member it adds if there is a key. -/
def keyEntries (key : Option Bytes) : List Entry :=
  key.toList.map fun k => { name := archiveKeyMember, typeflag := typeReg, data := k }

/-- Only an encrypted archive carries the key. -/
def Sources.exportedKey (src : Sources) (encrypted : Bool) : Option Bytes :=
  if encrypted then src.key else none

/-- `Export`. -/
def exportArchive (encrypted : Bool) (src : Sources) : Upload where
  encrypted := encrypted
  entries := src.places.map Place.entry ++ keyEntries (src.exportedKey encrypted)

/-! ## Import, with writes that may be refused -/

/-- Who writes the members: the process itself, if it has no agent client, or the agent.
The rules of the agent were resolved when the tree was `boot`, the tree is `fs` now, and
`requests` were sent before. -/
inductive Writer
  | direct
  | agent (boot fs : FileTree) (requests : Nat)

/-- The write of a member, the `k`-th in this import, is not refused. The directories and
files written before it add no links to the agent's tree. -/
def Writer.Takes (w : Writer) (k : Nat) (m : StagedMember) : Prop :=
  match w with
  | .direct => True
  | .agent boot fs requests =>
    Agent.checkPathRules fs m.target (Agent.allowedWriteRules boot) ∧
      (m.isDir = false → Agent.Fits (requests + k + 1) ⟨m.target, m.data, restoreFileMode⟩)

instance (w : Writer) (k : Nat) (m : StagedMember) : Decidable (w.Takes k m) :=
  match w with
  | .direct => isTrue trivial
  | .agent _ _ _ => inferInstanceAs (Decidable (_ ∧ (_ → _ ≤ _)))

inductive RestoreError
  | refused (e : BackupError)
  | notWritten (target : Text)
deriving DecidableEq

/-- The loop over the members, which stops at the first one that is not written. -/
def installAll (w : Writer) : Nat → List StagedMember → Live → Except RestoreError Unit × Live
  | _, [], s => (.ok (), s)
  | k, m :: ms, s =>
    if w.Takes k m then installAll w (k + 1) ms (installMember s m)
    else (.error (.notWritten m.target), s)

def restoreThrough (w : Writer) (svc : BackupService) (u : Upload) (s : Live) :
    Except RestoreError Unit × Live :=
  match stageArchive svc u with
  | .error e => (.error (.refused e), s)
  | .ok (members, key) =>
    match validateStagedConfig svc members with
    | .error e => (.error (.refused e), s)
    | .ok () =>
      match installAll w 0 members s with
      | (.error e, s) => (.error e, s)
      | (.ok (), s) => ((installArchivedKey key s).1.mapError .refused, (installArchivedKey key s).2)

/-- `Import`. -/
def importThrough (w : Writer) (svc : BackupService) (u : Upload) (s : Live) :
    Except RestoreError Unit × Live :=
  if u.encrypted ∧ ¬ u.decrypts then (.error (.refused .decrypt), s)
  else if ¬ u.gzipped then (.error (.refused .gzip), s)
  else restoreThrough w svc u s

variable {w : Writer} {members : List StagedMember} {s : Live} {n : Name} {p : Place}

theorem installAll_ok_iff {k : Nat} :
    (installAll w k members s).1 = .ok () ↔ ∀ i m, members[i]? = some m → w.Takes (k + i) m := by
  induction members generalizing k s with
  | nil => simp [installAll]
  | cons m ms ih =>
    rw [installAll, ← Nat.and_forall_add_one]
    split
    · rename_i htakes
      simp [ih, htakes, Nat.add_right_comm, Nat.add_assoc]
    · rename_i hnot
      simp [hnot]

theorem installAll_of_ok {k : Nat} (h : (installAll w k members s).1 = .ok ()) :
    (installAll w k members s).2 = members.foldl installMember s := by
  induction members generalizing k s with
  | nil => rfl
  | cons m ms ih =>
    rw [installAll] at h ⊢
    split at h
    · rename_i htakes
      rw [if_pos htakes, ih h]
      rfl
    · cases h

/-! ## Staging what was exported -/

/-- The roots of the service that `serve` sets up. -/
def lankeeperRoots : Text → Option Text :=
  restoreRoots "/etc/lankeeper" backupExtraDirs

/-- The name of a directory that is archived. -/
def IsTop (n : Name) : Prop :=
  n = lankeeperDir ∨ n = unboundDir ∨ n = openvpnDir

theorem lankeeperRoots_top (h : IsTop n) : lankeeperRoots n.text = some (toText [etc, n]) := by
  rcases h with rfl | rfl | rfl <;> decide

/-- What was packed from below `/etc` goes back there. -/
theorem resolveRestoreTarget_place (h : IsTop p.top) :
    resolveRestoreTarget lankeeperRoots (relText (p.top :: p.loc)) = some p.path := by
  rw [resolveRestoreTarget_relText, lankeeperRoots_top h, Option.bind_some, Place.path]
  by_cases hloc : p.loc = []
  · simp [hloc]
  have hjoin := join_toText_relText [etc, p.top] p.loc
  have htext : toText (etc :: p.top :: p.loc) =
      toText [etc, p.top] ++ '/' :: relText p.loc :=
    congrArg ('/' :: ·) (relText_append (cons_ne_nil etc [p.top]) hloc)
  have hbeneath : toText [etc, p.top] ++ ['/'] <+: toText (etc :: p.top :: p.loc) :=
    ⟨relText p.loc, by rw [htext, append_assoc, singleton_append]⟩
  simp only [if_neg hloc, hjoin, cons_append, nil_append]
  rw [if_neg]
  rintro ⟨-, hout⟩
  exact hout hbeneath

theorem clean_entry (p : Place) : clean p.entry.name = relText (p.top :: p.loc) := by
  have hne : p.top :: p.loc ≠ [] := cons_ne_nil _ _
  unfold Place.entry
  cases p.item with
  | dir => exact clean_relText_slash hne
  | file data => exact clean_relText hne

def Place.size (p : Place) : Nat :=
  match p.item with
  | .dir => 0
  | .file data => data.length

/-- The member an entry is staged as. -/
def Place.member (p : Place) : StagedMember :=
  match p.item with
  | .dir => { target := p.path, isDir := true }
  | .file data => { target := p.path, data := data }

/-- No name on the way has two dots side by side, and a file is not too large. -/
structure Place.Sound (p : Place) : Prop where
  names : ∀ n ∈ p.loc, containsDots n.text = false
  size : p.size ≤ maxImportEntryBytes

theorem IsTop.noDots (h : IsTop n) : containsDots n.text = false := by
  rcases h with rfl | rfl | rfl <;> decide

theorem containsDots_place (h : IsTop p.top) :
    containsDots (relText (p.top :: p.loc)) ↔ ∃ n ∈ p.loc, containsDots n.text := by
  rw [containsDots_relText, any_cons, h.noDots, Bool.false_or, any_eq_true]

variable {b : ImportBudget} {key : Option Bytes} {r : List StagedMember × Option Bytes}

theorem readMember_file {name : Text} {data : Bytes} {r : Bytes × ImportBudget} :
    readMember { name := name, typeflag := typeReg, data := data } b = .ok r ↔
      data.length ≤ maxImportEntryBytes ∧ b.total + data.length ≤ maxImportTotalBytes ∧
        r = (data, { b with total := b.total + data.length }) := by
  have hread : readAll (maxImportEntryBytes + 1) { name := name, typeflag := typeReg, data := data }
      (.readMember name) = .ok (data.take (maxImportEntryBytes + 1)) := by
    simp [readAll]
  obtain ⟨read, b'⟩ := r
  rw [readMember_ok_iff, hread, Except.ok.injEq]
  dsimp only
  constructor
  · rintro ⟨rfl, hlen, htotal, rfl⟩
    rw [length_take] at hlen
    have hshort : data.length ≤ maxImportEntryBytes := by omega
    rw [take_of_length_le (by omega)] at htotal ⊢
    exact ⟨hshort, htotal, rfl⟩
  · rintro ⟨hlen, htotal, ⟨⟩⟩
    exact ⟨take_of_length_le (by omega), hlen, htotal, rfl⟩

/-- The budget after an entry. -/
def ImportBudget.spend (b : ImportBudget) (p : Place) : ImportBudget where
  entries := b.entries + 1
  total := b.total + p.size

theorem stageMember_entry (htop : IsTop p.top) (hb : b.total ≤ maxImportTotalBytes)
    {r : Option StagedMember × ImportBudget} :
    stageMember lankeeperRoots p.entry b = .ok r ↔
      p.Sound ∧ b.entries + 1 ≤ maxImportEntries ∧ b.total + p.size ≤ maxImportTotalBytes ∧
        r = (some p.member, b.spend p) := by
  have hsafe : (containsDots (relText (p.top :: p.loc)) ∨
      isAbs (relText (p.top :: p.loc))) ↔ ∃ n ∈ p.loc, containsDots n.text := by
    rw [isAbs_relText, containsDots_place htop]
    simp
  have hnames : (¬ ∃ n ∈ p.loc, containsDots n.text) ↔
      ∀ n ∈ p.loc, containsDots n.text = false := by simp
  refine bind_ok_iff.trans ?_
  simp only [countEntry_ok_iff, clean_entry, ite_error_ok_iff, hsafe, hnames,
    resolveRestoreTarget_place htop]
  obtain ⟨top, loc, item⟩ := p
  cases item with
  | dir =>
    simp only [Place.entry, if_true, Except.ok.injEq]
    constructor
    · rintro ⟨_, ⟨hcount, rfl⟩, hloc, rfl⟩
      exact ⟨⟨hloc, Nat.zero_le _⟩, hcount, hb, rfl⟩
    · rintro ⟨hsound, hcount, -, rfl⟩
      exact ⟨_, ⟨hcount, rfl⟩, hsound.names, rfl⟩
  | file data =>
    have htype : ¬ typeReg = typeDir := by decide
    simp only [Place.entry, if_neg htype, if_true, map_ok_iff, readMember_file]
    constructor
    · rintro ⟨_, ⟨hcount, rfl⟩, hloc, _, ⟨hlen, htotal, rfl⟩, rfl⟩
      exact ⟨⟨hloc, hlen⟩, hcount, htotal, rfl⟩
    · rintro ⟨hsound, hcount, htotal, rfl⟩
      exact ⟨_, ⟨hcount, rfl⟩, hsound.names, _, ⟨hsound.size, htotal, rfl⟩, rfl⟩

/-- The bytes of the files. -/
def bytesOf (ps : List Place) : Nat :=
  ps.foldr (fun p n => p.size + n) 0

theorem entry_not_key (htop : IsTop p.top) : clean p.entry.name ≠ archiveKeyMember := by
  rw [clean_entry]
  intro h
  have hhead := congrArg (List.takeWhile (· ≠ '/')) h
  rw [takeWhile_relText] at hhead
  rcases htop with htop | htop | htop <;> rw [htop] at hhead <;> exact absurd hhead (by decide)

theorem stageFrom_places {ps : List Place} (htops : ∀ p ∈ ps, IsTop p.top) {u : Upload}
    (he : b.entries ≤ maxImportEntries) (hb : b.total ≤ maxImportTotalBytes) {rest : List Entry} :
    stageFrom lankeeperRoots u b members key (ps.map Place.entry ++ rest) = .ok r ↔
      (∀ p ∈ ps, p.Sound) ∧ b.entries + ps.length ≤ maxImportEntries ∧
        b.total + bytesOf ps ≤ maxImportTotalBytes ∧
        stageFrom lankeeperRoots u ⟨b.entries + ps.length, b.total + bytesOf ps⟩
          (members ++ ps.map Place.member) key rest = .ok r := by
  induction ps generalizing b members with
  | nil => simp [bytesOf, he, hb]
  | cons p ps ih =>
    rw [forall_mem_cons] at htops
    have hnext : ∀ b' : ImportBudget, b' = b.spend p →
        (⟨b'.entries + ps.length, b'.total + bytesOf ps⟩ : ImportBudget) =
          ⟨b.entries + (p :: ps).length, b.total + bytesOf (p :: ps)⟩ := by
      rintro _ rfl
      simp only [ImportBudget.spend, length_cons, bytesOf, foldr_cons, ImportBudget.mk.injEq]
      omega
    rw [map_cons, cons_append, stageFrom, if_neg (entry_not_key htops.1)]
    constructor
    · intro h
      obtain ⟨⟨m, b'⟩, hstage, h⟩ := exists_of_bind_ok h
      obtain ⟨hsound, hentries, htotal, heq⟩ := (stageMember_entry htops.1 hb).mp hstage
      obtain ⟨rfl, rfl⟩ := Prod.mk.inj heq
      obtain ⟨hsounds, hcount, hbytes, hrest⟩ := (ih htops.2 hentries htotal).mp h
      rw [hnext _ rfl] at hrest
      simp only [ImportBudget.spend] at hcount hbytes
      refine ⟨forall_mem_cons.mpr ⟨hsound, hsounds⟩, ?_, ?_, ?_⟩
      · rw [length_cons]
        omega
      · simp only [bytesOf, foldr_cons] at hbytes ⊢
        omega
      · simpa using hrest
    · rintro ⟨hsounds, hcount, hbytes, hrest⟩
      rw [forall_mem_cons] at hsounds
      simp only [length_cons, bytesOf, foldr_cons] at hcount hbytes
      have hentries : b.entries + 1 ≤ maxImportEntries := by omega
      have htotal : b.total + p.size ≤ maxImportTotalBytes := by omega
      rw [(stageMember_entry htops.1 hb).mpr ⟨hsounds.1, hentries, htotal, rfl⟩]
      refine (ih htops.2 hentries htotal).mpr ⟨hsounds.2, ?_, ?_, ?_⟩
      · simp only [ImportBudget.spend]
        omega
      · simp only [ImportBudget.spend, bytesOf]
        omega
      · rw [hnext _ rfl]
        simpa using hrest

theorem readArchivedKey_entry {k : Bytes} {r : Bytes × ImportBudget} :
    readArchivedKey { name := archiveKeyMember, typeflag := typeReg, data := k } true b = .ok r ↔
      b.entries + 1 ≤ maxImportEntries ∧ k.length ≤ maxArchivedKeyBytes ∧
        r = (k, { b with entries := b.entries + 1 }) := by
  have hread : readAll (maxArchivedKeyBytes + 1)
      { name := archiveKeyMember, typeflag := typeReg, data := k } .readKey =
        .ok (k.take (maxArchivedKeyBytes + 1)) := by
    simp [readAll]
  refine bind_ok_iff.trans ?_
  simp only [countEntry_ok_iff, not_true_eq_false, if_false, ne_eq, hread, Except.bind,
    ite_error_ok_iff, length_take]
  constructor
  · rintro ⟨_, ⟨hcount, rfl⟩, hlen, ⟨⟩⟩
    exact ⟨hcount, by omega, by rw [take_of_length_le (by omega)]⟩
  · rintro ⟨hcount, hlen, rfl⟩
    exact ⟨_, ⟨hcount, rfl⟩, by omega, by rw [take_of_length_le (by omega)]⟩

/-- Behind the places, the key. -/
theorem stageFrom_keyEntries {u : Upload} (hwhole : u.truncated = false)
    (he : b.entries ≤ maxImportEntries) (henc : key ≠ none → u.encrypted) :
    stageFrom lankeeperRoots u b members none (keyEntries key) = .ok r ↔
      b.entries + key.toList.length ≤ maxImportEntries ∧
        (∀ k, key = some k → k.length ≤ maxArchivedKeyBytes) ∧ r = (members, key) := by
  cases key with
  | none =>
    simp only [keyEntries, Option.toList_none, map_nil, stageFrom, hwhole, Bool.false_eq_true,
      if_false, Except.ok.injEq, length_nil, Nat.add_zero]
    constructor
    · rintro rfl
      exact ⟨he, by simp, rfl⟩
    · rintro ⟨-, -, rfl⟩
      rfl
  | some k =>
    have hname : clean archiveKeyMember = archiveKeyMember := by decide
    simp only [keyEntries, Option.toList_some, map_cons, map_nil, stageFrom, hname,
      if_true, henc (Option.some_ne_none k), hwhole, Bool.false_eq_true, if_false,
      Option.some.injEq, forall_eq', length_singleton]
    constructor
    · intro h
      obtain ⟨q, hkey, h⟩ := exists_of_bind_ok h
      obtain ⟨hcount, hlen, rfl⟩ := readArchivedKey_entry.mp hkey
      exact ⟨hcount, hlen, (Except.ok.inj h).symm⟩
    · rintro ⟨hcount, hlen, rfl⟩
      rw [readArchivedKey_entry.mpr ⟨hcount, hlen, rfl⟩]
      rfl

/-! ## What is restored -/

/-- The service `serve` sets up, with any check of `router.yaml`. -/
def serviceWith (validateBytes : Bytes → Bool) : BackupService where
  configDir := "/etc/lankeeper"
  validateBytes := validateBytes

theorem top_of_mem_placesOf {t : Tree} (h : p ∈ placesOf n t) : p.top = n := by
  rcases mem_cons.mp h with rfl | h
  · rfl
  · obtain ⟨i, -, rfl⟩ := mem_map.mp h
    rfl

variable {src : Sources} {validate : Bytes → Bool} {encrypted : Bool}

theorem Sources.mem_places :
    p ∈ src.places ↔ p ∈ placesOf lankeeperDir src.config ∨
      (∃ t, src.unbound = some t ∧ p ∈ placesOf unboundDir t) ∨
      ∃ t, src.openvpn = some t ∧ p ∈ placesOf openvpnDir t := by
  simp [Sources.places]

theorem Sources.isTop (src : Sources) : ∀ p ∈ src.places, IsTop p.top := by
  intro p hp
  rcases Sources.mem_places.mp hp with h | ⟨t, -, h⟩ | ⟨t, -, h⟩
  · exact .inl (top_of_mem_placesOf h)
  · exact .inr (.inl (top_of_mem_placesOf h))
  · exact .inr (.inr (top_of_mem_placesOf h))

/-- The archive is staged as the places it was made of. -/
theorem stageArchive_export :
    stageArchive (serviceWith validate) (exportArchive encrypted src) = .ok r ↔
      (∀ p ∈ src.places, p.Sound) ∧
      src.places.length + (src.exportedKey encrypted).toList.length ≤ maxImportEntries ∧
      bytesOf src.places ≤ maxImportTotalBytes ∧
      (∀ k, src.exportedKey encrypted = some k → k.length ≤ maxArchivedKeyBytes) ∧
      r = (src.places.map Place.member, src.exportedKey encrypted) := by
  have henc : src.exportedKey encrypted ≠ none → encrypted := by
    unfold Sources.exportedKey
    cases encrypted <;> simp
  have hstage : stageArchive (serviceWith validate) (exportArchive encrypted src) =
      stageFrom lankeeperRoots (exportArchive encrypted src) {} [] none
        (src.places.map Place.entry ++ keyEntries (src.exportedKey encrypted)) := rfl
  rw [hstage, stageFrom_places src.isTop (Nat.zero_le _) (Nat.zero_le _)]
  simp only [Nat.zero_add, nil_append]
  constructor
  · rintro ⟨hsound, hcount, hbytes, hrest⟩
    obtain ⟨hall, hkey, rfl⟩ := (stageFrom_keyEntries rfl hcount henc).mp hrest
    exact ⟨hsound, hall, hbytes, hkey, rfl⟩
  · rintro ⟨hsound, hall, hbytes, hkey, rfl⟩
    have hcount : src.places.length ≤ maxImportEntries := by omega
    exact ⟨hsound, hcount, hbytes, (stageFrom_keyEntries rfl hcount henc).mpr ⟨hall, hkey, rfl⟩⟩

def routerYAML : Name := ⟨"router.yaml", by decide⟩

theorem Place.path_inj {q : Place} : p.path = q.path ↔ p.top = q.top ∧ p.loc = q.loc := by
  unfold Place.path
  rw [toText_injective.eq_iff]
  simp

/-- The check concerns the file `router.yaml` at the top of the config directory. -/
theorem validateStagedConfig_export :
    validateStagedConfig (serviceWith validate) (src.places.map Place.member) = .ok () ↔
      ∀ data, ⟨lankeeperDir, [routerYAML], .file data⟩ ∈ src.places → validate data := by
  have hpath : join "/etc/lankeeper" "router.yaml" =
      (⟨lankeeperDir, [routerYAML], .dir⟩ : Place).path := by decide
  have hall : validateStagedConfig (serviceWith validate) (src.places.map Place.member) = .ok () ↔
      ∀ p ∈ src.places, (p.member.isDir || p.member.target !=
        (⟨lankeeperDir, [routerYAML], .dir⟩ : Place).path || validate p.member.data) := by
    unfold validateStagedConfig serviceWith
    simp only [hpath]
    rw [all_map]
    split <;> simp_all [all_eq_true]
  rw [hall]
  constructor
  · intro h data hmem
    have hp := h _ hmem
    simpa [Place.member, Place.path] using hp
  intro h p hp
  obtain ⟨top, loc, item⟩ := p
  cases item with
  | dir => rfl
  | file data =>
    simp only [Place.member, Bool.false_or, Bool.or_eq_true, bne_iff_ne]
    by_cases hcfg : (⟨top, loc, .file data⟩ : Place).path =
        (⟨lankeeperDir, [routerYAML], .dir⟩ : Place).path
    · obtain ⟨htop, hloc⟩ := Place.path_inj.mp hcfg
      simp only at htop hloc
      subst htop hloc
      exact .inr (h data hp)
    · exact .inl hcfg

theorem nodup_placesOf (n : Name) (t : Tree) :
    ((placesOf n t).map fun p => (p.top, p.loc)).Nodup := by
  have hitems : ((t.items.map fun i => (⟨n, i.1, i.2⟩ : Place)).map fun p => (p.top, p.loc)) =
      (t.items.map Prod.fst).map fun l => (n, l) := by
    simp [map_map, Function.comp_def]
  rw [placesOf, map_cons, hitems, nodup_cons]
  constructor
  · intro h
    simp only [mem_map, Prod.mk.injEq, true_and, exists_eq_right] at h
    obtain ⟨i, hi, hnil⟩ := h
    exact t.below i hi hnil
  · exact t.distinct.map (fun a b h => (Prod.mk.inj h).2)

/-- No two places have one path. -/
theorem Sources.distinct (src : Sources) : (src.places.map fun p => (p.top, p.loc)).Nodup := by
  have hopt : ∀ (n : Name) (t : Option Tree),
      ((t.toList.flatMap (placesOf n)).map fun p => (p.top, p.loc)).Nodup := by
    intro n t
    cases t with
    | none => exact nodup_nil
    | some t => simpa using nodup_placesOf n t
  have hone : ∀ {n t q}, q ∈ (placesOf n t).map (fun p => (p.top, p.loc)) → q.1 = n := by
    intro n t q hq
    obtain ⟨p, hp, rfl⟩ := mem_map.mp hq
    exact top_of_mem_placesOf hp
  have htop : ∀ {n} {t : Option Tree} {q},
      q ∈ (t.toList.flatMap (placesOf n)).map (fun p => (p.top, p.loc)) → q.1 = n := by
    intro n t q hq
    rw [map_flatMap] at hq
    obtain ⟨t', -, hq⟩ := mem_flatMap.mp hq
    exact hone hq
  unfold Sources.places
  rw [map_append, map_append]
  refine nodup_append.mpr ⟨nodup_append.mpr ⟨nodup_placesOf _ _, hopt _ _, ?_⟩, hopt _ _, ?_⟩
  · rintro q hq q' hq' rfl
    exact absurd ((hone hq).symm.trans (htop hq')) (by decide)
  · rintro q hq q' hq' rfl
    rcases mem_append.mp hq with hq | hq
    · exact absurd ((hone hq).symm.trans (htop hq')) (by decide)
    · exact absurd ((htop hq).symm.trans (htop hq')) (by decide)

/-- A file whose target is no other member's is there in the end, with its content. -/
theorem foldl_installMember_file {m : StagedMember} (hm : m ∈ members) (hfile : m.isDir = false)
    (honly : ∀ m' ∈ members, m'.target = m.target → m' = m) (s : Live) :
    ∃ mode, (members.foldl installMember s).node m.target = some (.file m.data mode) := by
  induction members generalizing s with
  | nil => cases hm
  | cons x xs ih =>
    rw [foldl_cons]
    by_cases hlater : m ∈ xs
    · exact ih hlater (fun m' hm' => honly m' (mem_cons_of_mem _ hm')) _
    obtain rfl : m = x := (mem_cons.mp hm).resolve_right hlater
    have hwritten : ∃ mode, (installMember s m).node m.target = some (.file m.data mode) := by
      unfold installMember writeFile
      rw [if_neg (by simp [hfile])]
      simp only [if_true]
      split <;> exact ⟨_, rfl⟩
    obtain ⟨mode, hmode⟩ := hwritten
    rcases foldl_installMember_node xs (installMember s m) m.target with h | ⟨m', hm', h⟩ | ⟨h, -⟩
    · exact ⟨mode, h.trans hmode⟩
    · exact absurd (honly m' (mem_cons_of_mem _ hm') h.symm ▸ hm') hlater
    · cases hmode.symm.trans h

theorem member_target (p : Place) : p.member.target = p.path := by
  unfold Place.member
  cases p.item <;> rfl

theorem Sources.eq_of_path {q : Place} (hp : p ∈ src.places) (hq : q ∈ src.places)
    (h : p.path = q.path) : p = q := by
  refine inj_on_of_nodup_map src.distinct hp hq ?_
  obtain ⟨htop, hloc⟩ := Place.path_inj.mp h
  rw [htop, hloc]

/-- Writing the members puts every file of the sources in its place. -/
theorem restored_of_install (hp : p ∈ src.places) {data : Bytes} (hitem : p.item = .file data)
    (s : Live) :
    ∃ mode, ((src.places.map Place.member).foldl installMember s).node p.path =
      some (.file data mode) := by
  have hmember : p.member = { target := p.path, data := data } := by
    unfold Place.member
    rw [hitem]
  have honly : ∀ m' ∈ src.places.map Place.member, m'.target = p.member.target → m' = p.member := by
    intro m' hm' htarget
    obtain ⟨q, hq, rfl⟩ := mem_map.mp hm'
    rw [member_target, member_target] at htarget
    rw [Sources.eq_of_path hq hp htarget]
  have hfile := foldl_installMember_file (mem_map_of_mem hp) (by rw [hmember]) honly s
  rwa [member_target, hmember] at hfile

/-! ## The round trip -/

/-- Importing the archive of the sources succeeds, and restores every file. -/
def RoundTrips (w : Writer) (validate : Bytes → Bool) (encrypted : Bool) (src : Sources)
    (s : Live) : Prop :=
  (importThrough w (serviceWith validate) (exportArchive encrypted src) s).1 = .ok () ∧
    ∀ p ∈ src.places, ∀ data, p.item = .file data → ∃ mode,
      (importThrough w (serviceWith validate) (exportArchive encrypted src) s).2.node p.path =
        some (.file data mode)

/-- What `Import` asks of the trees and the key. -/
structure Restorable (validate : Bytes → Bool) (encrypted : Bool) (src : Sources) : Prop where
  names : ∀ p ∈ src.places, ∀ n ∈ p.loc, containsDots n.text = false
  sizes : ∀ p ∈ src.places, p.size ≤ maxImportEntryBytes
  count : src.places.length + (src.exportedKey encrypted).toList.length ≤ maxImportEntries
  total : bytesOf src.places ≤ maxImportTotalBytes
  config : ∀ data, ⟨lankeeperDir, [routerYAML], .file data⟩ ∈ src.places → validate data
  key : ∀ k, src.exportedKey encrypted = some k →
    k.length ≤ maxArchivedKeyBytes ∧ ∃ key, decodeConfigKey k = .ok key

theorem installArchivedKey_ok_iff :
    (installArchivedKey key s).1.mapError RestoreError.refused = .ok () ↔
      ∀ k, key = some k → ∃ dec, decodeConfigKey k = .ok dec := by
  cases key with
  | none => simp [installArchivedKey, Except.mapError]
  | some k =>
    rcases hdec : decodeConfigKey k with e | dec <;>
      simp [installArchivedKey, restoreConfigKey, hdec, Except.mapError]

theorem importThrough_export (w : Writer) (validate : Bytes → Bool) (encrypted : Bool)
    (src : Sources) (s : Live) :
    importThrough w (serviceWith validate) (exportArchive encrypted src) s =
      restoreThrough w (serviceWith validate) (exportArchive encrypted src) s := by
  simp [importThrough, exportArchive]

/-- A successful import passed every check, and every member was taken. -/
theorem restorable_of_ok
    (h : (importThrough w (serviceWith validate) (exportArchive encrypted src) s).1 = .ok ()) :
    Restorable validate encrypted src ∧ ∀ k p, src.places[k]? = some p → w.Takes k p.member := by
  rw [importThrough_export, restoreThrough] at h
  rcases hstage : stageArchive (serviceWith validate) (exportArchive encrypted src) with e | r
  · rw [hstage] at h
    cases h
  rw [hstage] at h
  obtain ⟨hsound, hcount, htotal, hkeyLen, rfl⟩ := stageArchive_export.mp hstage
  rcases hcfg : validateStagedConfig (serviceWith validate) (src.places.map Place.member) with
    e | ⟨⟩
  · simp only [hcfg] at h
    cases h
  simp only [hcfg] at h
  rcases hinst : installAll w 0 (src.places.map Place.member) s with ⟨e | ⟨⟩, s'⟩
  · simp only [hinst] at h
    cases h
  simp only [hinst] at h
  have hkey := installArchivedKey_ok_iff.mp h
  have htakes := installAll_ok_iff.mp (congrArg Prod.fst hinst)
  refine ⟨⟨fun p hp => (hsound p hp).names, fun p hp => (hsound p hp).size, hcount, htotal,
    validateStagedConfig_export.mp hcfg, fun k hk => ⟨hkeyLen k hk, hkey k hk⟩⟩, ?_⟩
  intro k p hp
  have hk := htakes k p.member (by rw [getElem?_map, hp]; rfl)
  rwa [Nat.zero_add] at hk

/-- Where every check passes and every member is taken, the import writes the members and
installs the key. -/
theorem importThrough_of_restorable (hres : Restorable validate encrypted src)
    (htakes : ∀ k p, src.places[k]? = some p → w.Takes k p.member) (s : Live) :
    importThrough w (serviceWith validate) (exportArchive encrypted src) s =
      ((installArchivedKey (src.exportedKey encrypted)
          ((src.places.map Place.member).foldl installMember s)).1.mapError .refused,
        (installArchivedKey (src.exportedKey encrypted)
          ((src.places.map Place.member).foldl installMember s)).2) := by
  have hstage : stageArchive (serviceWith validate) (exportArchive encrypted src) =
      .ok (src.places.map Place.member, src.exportedKey encrypted) :=
    stageArchive_export.mpr ⟨fun p hp => ⟨hres.names p hp, hres.sizes p hp⟩, hres.count,
      hres.total, fun k hk => (hres.key k hk).1, rfl⟩
  have hcfg := validateStagedConfig_export.mpr hres.config
  have hinst : (installAll w 0 (src.places.map Place.member) s).1 = .ok () := by
    refine installAll_ok_iff.mpr ?_
    intro i m hm
    rw [getElem?_map, Option.map_eq_some_iff] at hm
    obtain ⟨p, hp, rfl⟩ := hm
    rw [Nat.zero_add]
    exact htakes i p hp
  rw [importThrough_export, restoreThrough]
  simp only [hstage, hcfg]
  rw [← installAll_of_ok hinst]
  rcases hpair : installAll w 0 (src.places.map Place.member) s with ⟨res, s'⟩
  rw [hpair] at hinst
  obtain rfl : res = .ok () := hinst
  rfl

/-- An archive is restored exactly if no name in it has two dots side by side, the files
and their number and sum keep to the limits of the import, `router.yaml` is valid, the key
is one, and whoever writes the members refuses none of them. -/
theorem round_trip_iff (w : Writer) (validate : Bytes → Bool) (encrypted : Bool) (src : Sources)
    (s : Live) :
    RoundTrips w validate encrypted src s ↔
      Restorable validate encrypted src ∧ ∀ k p, src.places[k]? = some p → w.Takes k p.member := by
  constructor
  · intro h
    exact restorable_of_ok h.1
  rintro ⟨hres, htakes⟩
  unfold RoundTrips
  rw [importThrough_of_restorable hres htakes s]
  refine ⟨installArchivedKey_ok_iff.mpr fun k hk => (hres.key k hk).2, ?_⟩
  intro p hp data hitem
  rw [(installArchivedKey_cases _ _).1]
  exact restored_of_install hp hitem s

/-! ## The agent and the top directories

A rule for a directory is a path with a slash behind it, which the directory itself does
not start with. The first member of every archive is such a directory. -/

/-- Without links, the agent makes none of the top directories. -/
theorem agent_refuses_top {boot fs : FileTree} (hboot : boot.NoLinks) (hfs : fs.NoLinks)
    (hn : IsTop n) (requests k : Nat) :
    ¬ (Writer.agent boot fs requests).Takes k (⟨n, [], .dir⟩ : Place).member := by
  rintro ⟨hrules, -⟩
  have htarget : (⟨n, [], .dir⟩ : Place).member.target = toText [etc, n] := rfl
  rw [htarget, Agent.allowedWriteRules_noLinks hboot,
    Agent.checkPathRules_noLinks hfs (isAbs_toText _) (clean_toText _)] at hrules
  have hnone : ∀ r ∈ Agent.writeRuleTable, ∀ n ∈ [lankeeperDir, unboundDir, openvpnDir],
      r.admits (toText [etc, n]) = false := by
    unfold Agent.writeRuleTable Agent.mkcertCARoot Agent.dhcp6cScript
    repeat rw [String.toList_ofList]
    decide +kernel
  obtain ⟨r, hr, hadmits⟩ := any_eq_true.mp hrules
  have hmem : n ∈ [lankeeperDir, unboundDir, openvpnDir] := by
    simpa [IsTop] using hn
  rw [hnone r hr n hmem] at hadmits
  cases hadmits

/-- So that with such an agent no archive is restored at all. -/
theorem not_ok_of_agent {boot fs : FileTree} (hboot : boot.NoLinks) (hfs : fs.NoLinks)
    (requests : Nat) (validate : Bytes → Bool) (encrypted : Bool) (src : Sources) (s : Live) :
    (importThrough (.agent boot fs requests) (serviceWith validate) (exportArchive encrypted src)
      s).1 ≠ .ok () := by
  intro h
  have htakes := (restorable_of_ok h).2 0 ⟨lankeeperDir, [], .dir⟩ rfl
  exact agent_refuses_top hboot hfs (.inl rfl) requests 0 htakes

/-! A key file that was renamed away, and a config directory with nothing but the config. -/

def configTree : Tree where
  items := [([routerYAML], .file [0x61])]
  below := by decide
  distinct := by decide

/-- `ca..key`. -/
def dottedTree : Tree where
  items := [([⟨"ca..key", by decide⟩], .file [0x62])]
  below := by decide
  distinct := by decide

/-- The tree of a router that was just set up. -/
def plainTree : FileTree :=
  FileTree.ofList
    [("/etc", .dir), ("/etc/lankeeper", .dir),
      ("/etc/lankeeper/router.yaml", .file)] (by decide)

/-- The archive with the dotted name is refused, and through the agent not even the
archive of the config alone is restored. -/
theorem archives_not_restored :
    (importThrough .direct (serviceWith fun _ => true)
        (exportArchive false { config := configTree, openvpn := some dottedTree }) oneFile).1 =
      .error (.refused (.unsafeMember "openvpn/ca..key")) ∧
    ¬ RoundTrips (.agent plainTree plainTree 0) (fun _ => true) false { config := configTree }
      oneFile := by
  have hlinks : plainTree.NoLinks := FileTree.ofList_noLinks _ (by simp)
  refine ⟨by decide +kernel, ?_⟩
  intro h
  exact not_ok_of_agent hlinks hlinks 0 _ _ _ _ h.1

end Lankeeper.Backup
