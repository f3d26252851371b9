import Lankeeper.Lib.Basic
import Lankeeper.Lib.Path
import Mathlib.Data.List.Infix

/-!
# Lankeeper.Update.Checksum — the archive against SHA256SUMS

`verifyChecksum` of `internal/services/update.go`, as `ApplyUpdate` calls it. The checksum
file is read line by line, and the first line whose second field contains the name of the
archive gives the hash to compare with.

The signature check and the hash function are arguments. `verifyChecksum_sound_iff` says
when a success means what it should, an entry for exactly this asset with exactly this
hash: the first line that contains the name has to be the asset's own.
-/

namespace Lankeeper.Update

open Lib Text

/-! ## The checksum file -/

/-- A line of the checksum file: its hash in lower case, and its second field. -/
structure Entry where
  hash : Text
  file : Text
deriving DecidableEq

def entryOf (line : Text) : Option Entry :=
  match fields isSpace line with
  | hash :: file :: _ => some ⟨hash.map Char.toLower, file⟩
  | _ => none

def entries (body : Text) : List Entry :=
  (body.splitOn '\n').filterMap entryOf

/-- The line that `expectedChecksum` stops at. -/
def firstMatch (body archiveName : Text) : Option Entry :=
  (entries body).find? fun e => archiveName <:+: e.file

def expectedChecksum (body archiveName : Text) : Text :=
  match firstMatch body archiveName with
  | some e => e.hash
  | none => []

/-- The entry is for the file of that name; `sha256sum -b` puts a star before it. -/
def Entry.Names (e : Entry) (name : Text) : Prop :=
  e.file = name ∨ e.file = '*' :: name

instance (e : Entry) (name : Text) : Decidable (e.Names name) :=
  inferInstanceAs (Decidable (_ ∨ _))

/-- The checksum file has an entry for exactly this file with exactly this hash. -/
def Listed (body name hash : Text) : Prop :=
  ∃ e ∈ entries body, e.Names name ∧ e.hash = hash

/-! ## The check -/

def safeUpdateFileName (name : Text) : Text :=
  let name := Path.base (trimSpace name)
  if name = ['.'] ∨ name = ['/'] ∨ name = [] then "lankeeper-update.tar.gz" else name

/-- The base name of the path that `ApplyUpdate` downloads the archive to. -/
def archiveName (assetName : Text) : Text :=
  Path.base (Path.join "/tmp" (safeUpdateFileName assetName))

/-- What `verifyChecksum` meets: the fields of `UpdateInfo` it reads, and what the download
of the checksum file, the signature check (which a release without a signature fails) and
the hashing of the archive come to. -/
structure Verification where
  checksumURL : Text
  latestVersion : Text
  assetName : Text
  sums : Option Text
  signed : Text → Bool
  digest : Option Text

inductive ChecksumError
  | noChecksumAsset
  | otherRelease (asset version : Text)
  | download
  | signature
  | notListed (archive : Text)
  | unreadable
  | mismatch (expected actual : Text)

def verifyChecksum (v : Verification) : Except ChecksumError Unit :=
  if v.checksumURL = [] then .error .noChecksumAsset
  else if ¬ ("-".toList ++ v.latestVersion ++ "-linux-".toList <:+: v.assetName) then
    .error (.otherRelease v.assetName v.latestVersion)
  else
    match v.sums with
    | none => .error .download
    | some body =>
      if !v.signed body then .error .signature
      else
        let name := archiveName v.assetName
        let expected := expectedChecksum body name
        if expected = [] then .error (.notListed name)
        else
          match v.digest with
          | none => .error .unreadable
          | some actual => if actual ≠ expected then .error (.mismatch expected actual) else .ok ()

/-! ## What a success means -/

/-- The checks before the checksum file is searched pass. -/
structure Verification.Reaches (v : Verification) (body : Text) : Prop where
  asset : v.checksumURL ≠ []
  release : "-".toList ++ v.latestVersion ++ "-linux-".toList <:+: v.assetName
  sums : v.sums = some body
  signed : v.signed body

theorem hash_ne_nil {line : Text} {e : Entry} (h : entryOf line = some e) : e.hash ≠ [] := by
  unfold entryOf at h
  split at h
  · rename_i hash file rest hfields
    cases h
    have hmem : hash ∈ fields isSpace line := by
      rw [hfields]
      exact List.mem_cons_self ..
    have hne : hash ≠ [] := by
      unfold fields at hmem
      simpa using (List.mem_filter.mp hmem).2
    simpa using hne
  · cases h

theorem firstMatch_mem {body name : Text} {e : Entry} (h : firstMatch body name = some e) :
    e ∈ entries body :=
  List.mem_of_find?_eq_some h

theorem expectedChecksum_eq {body name : Text} {e : Entry} (h : firstMatch body name = some e) :
    expectedChecksum body name = e.hash ∧ e.hash ≠ [] := by
  constructor
  · unfold expectedChecksum
    rw [h]
  · obtain ⟨line, -, hline⟩ := List.mem_filterMap.mp (firstMatch_mem h)
    exact hash_ne_nil hline

theorem verifyChecksum_ok_iff (v : Verification) :
    verifyChecksum v = .ok () ↔
      ∃ body e, v.Reaches body ∧ firstMatch body (archiveName v.assetName) = some e ∧
        v.digest = some e.hash := by
  constructor
  · intro h
    unfold verifyChecksum at h
    split at h
    · cases h
    rename_i hasset
    split at h
    · cases h
    rename_i hrelease
    split at h
    · cases h
    rename_i body hsums
    split at h
    · cases h
    rename_i hsigned
    dsimp only at h
    split at h
    · cases h
    rename_i hexpected
    split at h
    · cases h
    rename_i actual hdigest
    split at h
    · cases h
    rename_i hactual
    rcases hfirst : firstMatch body (archiveName v.assetName) with _ | e
    · unfold expectedChecksum at hexpected
      rw [hfirst] at hexpected
      exact absurd rfl hexpected
    · refine ⟨body, e, ⟨hasset, not_not.mp hrelease, hsums, by simpa using hsigned⟩, hfirst, ?_⟩
      rw [hdigest, not_not.mp hactual, (expectedChecksum_eq hfirst).1]
  · rintro ⟨body, e, hreach, hfirst, hdigest⟩
    obtain ⟨hexpected, hne⟩ := expectedChecksum_eq hfirst
    unfold verifyChecksum
    rw [if_neg hreach.asset, if_neg (not_not.mpr hreach.release), hreach.sums]
    dsimp only
    rw [hreach.signed, if_neg (by decide), hexpected, if_neg hne, hdigest]
    exact if_neg (not_not.mpr rfl)

/-- A success means an entry for exactly this asset with the hash of the archive. -/
def Verification.Sound (v : Verification) : Prop :=
  verifyChecksum v = .ok () →
    ∃ body hash, v.sums = some body ∧ v.digest = some hash ∧ Listed body v.assetName hash

/-- **Checksum entries.** A success means what it should exactly if the first line that
contains the name of the archive is an entry for exactly this asset, or has another hash
than the archive, or an entry for exactly this asset has the same hash. -/
theorem verifyChecksum_sound_iff (v : Verification) :
    v.Sound ↔ ∀ body e, v.Reaches body → firstMatch body (archiveName v.assetName) = some e →
      e.Names v.assetName ∨ v.digest ≠ some e.hash ∨
        ∃ e' ∈ entries body, e'.Names v.assetName ∧ e'.hash = e.hash := by
  constructor
  · intro hsound body e hreach hfirst
    by_cases hdigest : v.digest = some e.hash
    · have hok := (verifyChecksum_ok_iff v).mpr ⟨body, e, hreach, hfirst, hdigest⟩
      obtain ⟨body', hash, hsums, hdigest', e', hmem, hnames, rfl⟩ := hsound hok
      rw [hreach.sums, Option.some.injEq] at hsums
      rw [hdigest, Option.some.injEq] at hdigest'
      rw [← hsums] at hmem
      exact .inr (.inr ⟨e', hmem, hnames, hdigest'.symm⟩)
    · exact .inr (.inl hdigest)
  · intro hcond hok
    obtain ⟨body, e, hreach, hfirst, hdigest⟩ := (verifyChecksum_ok_iff v).mp hok
    refine ⟨body, e.hash, hreach.sums, hdigest, ?_⟩
    rcases hcond body e hreach hfirst with hnames | hne | hlisted
    · exact ⟨e, firstMatch_mem hfirst, hnames, rfl⟩
    · exact absurd hdigest hne
    · exact hlisted

/-- Two entries, the second for the archive, the first for a file whose name contains the
archive's. -/
def bundledSums : Text :=
  "aa  a-v1-linux-amd64.tar.gz.sbom\nbb  a-v1-linux-amd64.tar.gz\n"

/-- A release with these checksums; `hash` is the hash of what was downloaded as the
archive. -/
def bundledRelease (hash : Text) : Verification where
  checksumURL := "SHA256SUMS"
  latestVersion := "v1"
  assetName := "a-v1-linux-amd64.tar.gz"
  sums := some bundledSums
  signed _ := true
  digest := some hash

theorem entries_bundledSums :
    entries bundledSums = [⟨"aa", "a-v1-linux-amd64.tar.gz.sbom"⟩,
      ⟨"bb", "a-v1-linux-amd64.tar.gz"⟩] := by
  decide

theorem firstMatch_bundledSums :
    firstMatch bundledSums (archiveName "a-v1-linux-amd64.tar.gz") =
      some ⟨"aa", "a-v1-linux-amd64.tar.gz.sbom"⟩ := by
  have hname : archiveName "a-v1-linux-amd64.tar.gz" = "a-v1-linux-amd64.tar.gz" := by
    decide
  rw [firstMatch, hname, entries_bundledSums]
  exact List.find?_cons_of_pos (by decide)

/-- The file listed first is accepted as the archive, although no entry for the archive has
its hash; the archive itself is refused. -/
theorem longer_name_accepted :
    verifyChecksum (bundledRelease "aa") = .ok () ∧
      ¬ (bundledRelease "aa").Sound ∧
      verifyChecksum (bundledRelease "bb") ≠ .ok () := by
  have hrelease : "-" ++ "v1" ++ "-linux-" <:+:
      "a-v1-linux-amd64.tar.gz".toList :=
    ⟨"a".toList, "amd64.tar.gz".toList, by decide⟩
  have hreach : (bundledRelease "aa".toList).Reaches bundledSums :=
    ⟨by decide, hrelease, rfl, rfl⟩
  have hok : verifyChecksum (bundledRelease "aa") = .ok () :=
    (verifyChecksum_ok_iff _).mpr ⟨bundledSums, _, hreach, firstMatch_bundledSums, rfl⟩
  refine ⟨hok, fun hsound => ?_, fun hok' => ?_⟩
  · obtain ⟨body, hash, hsums, hdigest, e, hmem, hnames, hhash⟩ := hsound hok
    cases hsums
    cases hdigest
    rw [entries_bundledSums] at hmem
    revert hnames hhash
    rcases hmem with _ | ⟨_, _ | ⟨_, hmem⟩⟩
    · decide
    · decide
    · cases hmem
  · obtain ⟨body, e, hreach', hfirst, hdigest⟩ := (verifyChecksum_ok_iff _).mp hok'
    have hsums : some bundledSums = some body := hreach'.sums
    cases hsums
    have hfirst' := firstMatch_bundledSums.symm.trans hfirst
    cases hfirst'
    exact absurd hdigest (by decide)

end Lankeeper.Update
