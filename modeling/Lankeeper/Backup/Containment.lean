import Lankeeper.Backup.Import

/-!
# Lankeeper.Backup.Containment — where an import writes, and how much

The checks of `stageArchive` in `internal/services/backup.go` over every sequence of tar
members. A member's name is cleaned and must be relative and without `..` anywhere; its
first segment selects a root, and what follows is joined to that root. `Within` is what
comes of it: a staged target is a root, or a root, a slash, and names. The budget is an
invariant of the loop over the members.

Two things are written elsewhere: directories that are missing above a target, and the
credential key, which an encrypted archive brings along. `import_contained` says so.
-/

namespace Lankeeper.Backup

open Lib Text List Path
open Lib.Path (Loc Name Comp)

/-! ## Names without two dots -/

theorem containsDots_append_slash (a b : Text) :
    containsDots (a ++ '/' :: b) = (containsDots a || containsDots b) := by
  fun_induction containsDots a with
  | case1 s => simp [containsDots]
  | case2 c s hnot ih =>
    rw [cons_append, containsDots, ih]
    -- the slash does not complete a pair of dots
    intro t hc ht
    cases s with
    | nil => cases ht
    | cons d s => exact hnot s hc (by rw [(List.cons.inj ht).1])
  | case3 => simp [containsDots]

theorem containsDots_intercalate (ts : List Text) :
    containsDots (['/'].intercalate ts) = ts.any containsDots := by
  induction ts with
  | nil => rfl
  | cons t ts ih =>
    cases ts with
    | nil => simp [List.intercalate]
    | cons t' ts =>
      have hcons : ['/'].intercalate (t :: t' :: ts) = t ++ '/' :: ['/'].intercalate (t' :: ts) := by
        simp [List.intercalate]
      rw [hcons, containsDots_append_slash, ih]
      rfl

theorem containsDots_relText (l : Loc) :
    containsDots (relText l) = l.any fun n => containsDots n.text := by
  rw [relText, containsDots_intercalate, any_map]
  rfl

variable {name : Text} {roots : Text → Option Text} {b' : ImportBudget}

/-- A cleaned name that is relative and has no two dots in it is the current directory, or
a path of names. -/
theorem clean_of_safe (hrel : isAbs (clean name) = false)
    (hdots : containsDots (clean name) = false) :
    clean name = ['.'] ∨ ∃ l, l ≠ [] ∧ clean name = relText l := by
  rw [isAbs_clean] at hrel
  rcases clean_of_not_isAbs hrel with hdot | ⟨cs, hne, hskip, hclean⟩
  · exact .inl hdot
  have hup : .up ∉ cs := by
    intro hmem
    rw [hclean, containsDots_intercalate, any_map, any_eq_false] at hdots
    exact hdots .up hmem rfl
  obtain ⟨l, rfl⟩ := exists_names hskip hup
  refine .inr ⟨l, by simpa using hne, ?_⟩
  rw [hclean, map_map]
  rfl

/-! ## Targets -/

/-- `p` is `root`, or lies beneath it. -/
def Within (root p : Text) : Prop :=
  p = root ∨ ∃ l : Loc, l ≠ [] ∧ p = root ++ '/' :: relText l

/-- The first segment of a cleaned name, which selects the root. -/
def topLevel (name : Text) : Text :=
  (clean name).takeWhile (· ≠ '/')

theorem takeWhile_relText (n : Name) (l : Loc) :
    (relText (n :: l)).takeWhile (· ≠ '/') = n.text := by
  cases l with
  | nil =>
    simp only [relText, map_cons, map_nil, intercalate_singleton]
    exact Text.takeWhile_ne_self n.ok.2.2.2
  | cons m l => rw [relText_cons_cons, Text.takeWhile_ne n.ok.2.2.2]

/-- What a name leads to: the root its first segment selects, and the rest beneath it. -/
theorem resolveRestoreTarget_relText (roots : Text → Option Text) (n : Name) (l : Loc) :
    resolveRestoreTarget roots (relText (n :: l)) = (roots n.text).bind fun root =>
      let target := if l = [] then root else join root (relText l)
      if target ≠ root ∧ ¬ (root ++ ['/']) <+: target then none else some target := by
  have hrest : trimPrefix ['/'] (trimPrefix n.text (relText (n :: l))) = relText l := by
    cases l with
    | nil => simp [relText, trimPrefix]
    | cons m l =>
      rw [relText_cons_cons]
      simp [trimPrefix]
  have hnil : relText l = [] ↔ l = [] := by
    constructor
    · intro h
      by_contra hl
      exact relText_ne_nil hl h
    · rintro rfl
      rfl
  unfold resolveRestoreTarget
  simp only [takeWhile_relText, hrest, hnil]

theorem resolveRestoreTarget_within {target : Text} (hrel : isAbs (clean name) = false)
    (hdots : containsDots (clean name) = false)
    (h : resolveRestoreTarget roots (clean name) = some target) :
    ∃ root, roots (topLevel name) = some root ∧ Within root target := by
  rcases clean_of_safe hrel hdots with hdot | ⟨l, hl, hname⟩
  · -- the name is a single dot, and there is no rest
    unfold topLevel
    rw [hdot] at h ⊢
    obtain ⟨root, hroot, htarget⟩ := Option.bind_eq_some_iff.mp h
    refine ⟨root, hroot, .inl ?_⟩
    have hrest : trimPrefix ['/'] (trimPrefix ['.'] ['.']) = [] := by decide
    simpa [hrest] using htarget.symm
  · obtain ⟨n, l, rfl⟩ := exists_cons_of_ne_nil hl
    unfold topLevel
    rw [hname, takeWhile_relText]
    rw [hname, resolveRestoreTarget_relText] at h
    obtain ⟨root, hroot, htarget⟩ := Option.bind_eq_some_iff.mp h
    refine ⟨root, hroot, ?_⟩
    by_cases hnil : l = []
    · simp only [if_pos hnil, ne_eq, not_true_eq_false, false_and, if_false] at htarget
      exact .inl (Option.some.inj htarget).symm
    simp only [if_neg hnil] at htarget
    split_ifs at htarget with hout
    rw [not_and_or, not_not, not_not] at hout
    cases htarget
    rcases hout with hsame | ⟨t, ht⟩
    · exact .inl hsame
    · right
      rw [append_assoc, singleton_append] at ht
      obtain ⟨l', hl', rfl⟩ := join_relText_beneath hnil ht.symm
      exact ⟨l', hl', ht.symm⟩

/-! ## The budget -/

/-- The bytes of the staged files. -/
def stagedBytes (members : List StagedMember) : Nat :=
  members.foldr (fun m n => m.data.length + n) 0

theorem stagedBytes_append (a b : List StagedMember) :
    stagedBytes (a ++ b) = stagedBytes a + stagedBytes b := by
  induction a with
  | nil => simp [stagedBytes]
  | cons m a ih =>
    simp only [stagedBytes, cons_append, foldr_cons] at ih ⊢
    omega

/-- The staged files keep to the limits. -/
structure WithinLimits (members : List StagedMember) : Prop where
  count : members.length ≤ maxImportEntries
  each : ∀ m ∈ members, m.data.length ≤ maxImportEntryBytes
  total : stagedBytes members ≤ maxImportTotalBytes

/-- An entry that this binary restores to a place of its own. -/
def restores (roots : Text → Option Text) (e : Entry) : Bool :=
  clean e.name != archiveKeyMember && (resolveRestoreTarget roots (clean e.name)).isSome

/-- `m` is what `e` is staged as: it goes where the name of `e` leads, which is within the
root that the first segment of that name selects, with the content of `e`. -/
structure StagedFrom (roots : Text → Option Text) (e : Entry) (m : StagedMember) : Prop where
  target : resolveRestoreTarget roots (clean e.name) = some m.target
  within : ∃ root, roots (topLevel e.name) = some root ∧ Within root m.target
  content : if m.isDir then e.typeflag = typeDir
    else readAll (maxImportEntryBytes + 1) e (.readMember e.name) = .ok m.data

/-- What the loop knows of the members it has staged from the entries `es`. -/
structure StageInv (roots : Text → Option Text) (es : List Entry) (b : ImportBudget)
    (members : List StagedMember) : Prop where
  count : members.length ≤ b.entries
  entries : b.entries ≤ maxImportEntries
  each : ∀ m ∈ members, m.data.length ≤ maxImportEntryBytes
  counted : stagedBytes members = b.total
  total : b.total ≤ maxImportTotalBytes
  contained : Forall₂ (StagedFrom roots) (es.filter (restores roots)) members

variable {es : List Entry} {b : ImportBudget} {members : List StagedMember}

theorem StageInv.limits (h : StageInv roots es b members) : WithinLimits members where
  count := Nat.le_trans h.count h.entries
  each := h.each
  total := h.counted ▸ h.total

theorem countEntry_ok_iff :
    b.countEntry = .ok b' ↔
      b.entries + 1 ≤ maxImportEntries ∧ { b with entries := b.entries + 1 } = b' := by
  rw [ImportBudget.countEntry, ite_error_ok_iff, Nat.not_lt, Except.ok.injEq]

variable {e : Entry} {r : Bytes × ImportBudget} {u : Upload} {key : Option Bytes}

theorem readMember_ok_iff :
    readMember e b = .ok r ↔
      readAll (maxImportEntryBytes + 1) e (.readMember e.name) = .ok r.1 ∧
        r.1.length ≤ maxImportEntryBytes ∧ b.total + r.1.length ≤ maxImportTotalBytes ∧
        r.2 = { b with total := b.total + r.1.length } := by
  refine bind_ok_iff.trans ?_
  simp only [map_ok_iff, ImportBudget.countBytes, ite_error_ok_iff, Nat.not_lt, Except.ok.injEq]
  constructor
  · rintro ⟨_, hread, _, ⟨hlen, htotal, rfl⟩, rfl⟩
    exact ⟨hread, hlen, htotal, rfl⟩
  · rintro ⟨hread, hlen, htotal, heq⟩
    exact ⟨_, hread, _, ⟨hlen, htotal, heq.symm⟩, rfl⟩

/-- An entry is staged as nothing, as a directory, or as a file that was counted. -/
theorem stageMember_ok {m : Option StagedMember} (h : stageMember roots e b = .ok (m, b')) :
    b.entries + 1 ≤ maxImportEntries ∧ b'.entries = b.entries + 1 ∧
      ((m = none ∧ restores roots e = false ∧ b'.total = b.total) ∨
        ∃ s, m = some s ∧ StagedFrom roots e s ∧ b'.total = b.total + s.data.length ∧
          s.data.length ≤ maxImportEntryBytes ∧
          (b.total ≤ maxImportTotalBytes → b'.total ≤ maxImportTotalBytes)) := by
  obtain ⟨_, hentry, h⟩ := bind_ok_iff.mp h
  obtain ⟨hcount, rfl⟩ := countEntry_ok_iff.mp hentry
  obtain ⟨hsafe, h⟩ := ite_error_ok_iff.mp h
  rw [not_or] at hsafe
  refine ⟨hcount, ?_⟩
  split at h
  · rename_i hnone
    cases h
    exact ⟨rfl, .inl ⟨rfl, by simp [restores, hnone], rfl⟩⟩
  rename_i target htarget
  have hwithin := resolveRestoreTarget_within (by simpa using hsafe.2) (by simpa using hsafe.1)
    htarget
  split_ifs at h with hdir hreg
  · cases h
    exact ⟨rfl, .inr ⟨_, rfl, ⟨htarget, hwithin, hdir⟩, rfl, Nat.zero_le _, id⟩⟩
  · obtain ⟨_, hread, heq⟩ := map_ok_iff.mp h
    obtain ⟨rfl, rfl⟩ := Prod.mk.inj heq
    obtain ⟨hdata, hlen, htotal, hb⟩ := readMember_ok_iff.mp hread
    rw [hb]
    exact ⟨rfl, .inr ⟨_, rfl, ⟨htarget, hwithin, hdata⟩, rfl, hlen, fun _ => htotal⟩⟩

/-! ## The loop over the members -/

theorem StageInv.stageMember {m : Option StagedMember} (hinv : StageInv roots es b members)
    (hkey : clean e.name ≠ archiveKeyMember) (h : stageMember roots e b = .ok (m, b')) :
    StageInv roots (es ++ [e]) b' (members ++ m.toList) := by
  have hcount := hinv.count
  obtain ⟨hentry, hentries, ⟨rfl, hskip, htotal⟩ | ⟨s, rfl, hfrom, htotal, hlen, hle⟩⟩ :=
    stageMember_ok h
  · rw [Option.toList_none, append_nil]
    refine ⟨?_, ?_, hinv.each, ?_, ?_, ?_⟩
    · omega
    · omega
    · rw [htotal, hinv.counted]
    · exact htotal ▸ hinv.total
    · rw [filter_append, filter_singleton, hskip]
      simpa using hinv.contained
  · have hrestores : restores roots e := by simp [restores, hkey, hfrom.target]
    rw [Option.toList_some]
    refine ⟨?_, ?_, ?_, ?_, hle hinv.total, ?_⟩
    · rw [length_append, length_singleton]
      omega
    · omega
    · exact forall_mem_append.mpr ⟨hinv.each, forall_mem_singleton.mpr hlen⟩
    · rw [stagedBytes_append, hinv.counted, htotal]
      rfl
    · rw [filter_append, filter_singleton, hrestores]
      exact rel_append hinv.contained (.cons hfrom .nil)

theorem StageInv.readArchivedKey {encrypted : Bool} {key : Bytes}
    (hinv : StageInv roots es b members) (hkey : clean e.name = archiveKeyMember)
    (h : readArchivedKey e encrypted b = .ok (key, b')) :
    StageInv roots (es ++ [e]) b' members := by
  have hskip : restores roots e = false := by simp [restores, hkey]
  obtain ⟨_, hentry, h⟩ := bind_ok_iff.mp h
  obtain ⟨hcount, rfl⟩ := countEntry_ok_iff.mp hentry
  split_ifs at h
  obtain ⟨data, -, h⟩ := bind_ok_iff.mp h
  split_ifs at h
  cases h
  refine ⟨Nat.le_succ_of_le hinv.count, hcount, hinv.each, hinv.counted, hinv.total, ?_⟩
  rw [filter_append, filter_singleton, hskip]
  simpa using hinv.contained

/-- The loop keeps the invariant; `done` are the entries before. -/
theorem StageInv.stageFrom {done : List Entry} {ms : List StagedMember} {k : Option Bytes}
    (hinv : StageInv roots done b members) (h : stageFrom roots u b members key es = .ok (ms, k)) :
    ∃ b', StageInv roots (done ++ es) b' ms := by
  induction es generalizing done b members key with
  | nil =>
    rw [Backup.stageFrom] at h
    split_ifs at h
    cases h
    rw [append_nil]
    exact ⟨b, hinv⟩
  | cons e es ih =>
    rw [Backup.stageFrom] at h
    rw [append_cons]
    split_ifs at h with hname
    · obtain ⟨⟨key', b'⟩, hkey, h⟩ := exists_of_bind_ok h
      exact ih (hinv.readArchivedKey hname hkey) h
    · obtain ⟨⟨m, b'⟩, hm, h⟩ := exists_of_bind_ok h
      exact ih (hinv.stageMember hname hm) h

theorem stageArchive_inv {svc : BackupService} (h : stageArchive svc u = .ok (members, key)) :
    ∃ b, StageInv (restoreRoots svc.configDir backupExtraDirs) u.entries b members := by
  have hstart : StageInv (restoreRoots svc.configDir backupExtraDirs) [] {} [] :=
    ⟨Nat.le_refl _, Nat.zero_le _, by simp, rfl, Nat.zero_le _, .nil⟩
  exact hstart.stageFrom h

/-! ## What the writes change -/

/-- `q` is `p` or a directory above it. -/
def OnTheWay (p q : Text) : Prop :=
  ∃ n, q ∈ ancestors n p

theorem OnTheWay.of_dir {p q : Text} (h : OnTheWay (dir p) q) : OnTheWay p q := by
  by_cases hdir : dir p = p
  · rwa [hdir] at h
  · obtain ⟨n, hn⟩ := h
    refine ⟨n + 1, ?_⟩
    rw [ancestors, if_neg hdir]
    exact mem_cons_of_mem _ hn

theorem mkdirAll_node (p : Text) (s : Live) (q : Text) :
    (mkdirAll p s).node q = s.node q ∨
      (s.node q = none ∧ (mkdirAll p s).node q = some .dir ∧ OnTheWay p q) := by
  unfold mkdirAll
  by_cases h : s.node q = none ∧ q ∈ ancestors (p.length + 1) p
  · exact .inr ⟨h.1, if_pos h, _, h.2⟩
  · exact .inl (if_neg h)

theorem installMember_node (s : Live) (m : StagedMember) (q : Text) :
    (installMember s m).node q = s.node q ∨ q = m.target ∨
      (s.node q = none ∧ (installMember s m).node q = some .dir ∧ OnTheWay m.target q) := by
  unfold installMember
  split
  · rcases mkdirAll_node m.target s q with h | h
    · exact .inl h
    · exact .inr (.inr h)
  by_cases hq : q = m.target
  · exact .inr (.inl hq)
  have hnode : (writeFile m.target m.data s).node q =
      (mkdirAll (dir m.target) s).node q := if_neg hq
  rw [hnode]
  rcases mkdirAll_node (dir m.target) s q with h | ⟨hnone, hdir, hway⟩
  · exact .inl h
  · exact .inr (.inr ⟨hnone, hdir, hway.of_dir⟩)

/-- Writing the members changes their targets, and makes the directories that are missing
on the way to them. -/
theorem foldl_installMember_node (members : List StagedMember) (s : Live) (q : Text) :
    (members.foldl installMember s).node q = s.node q ∨ (∃ m ∈ members, q = m.target) ∨
      (s.node q = none ∧ (members.foldl installMember s).node q = some .dir ∧
        ∃ m ∈ members, OnTheWay m.target q) := by
  induction members generalizing s with
  | nil => exact .inl rfl
  | cons m members ih =>
    rw [foldl_cons]
    rcases installMember_node s m q with hsame | htarget | ⟨hnone, hdir, hway⟩
    · rcases ih (installMember s m) with h | ⟨m', hm', h⟩ | ⟨h₁, h₂, m', hm', h₃⟩
      · exact .inl (h.trans hsame)
      · exact .inr (.inl ⟨m', mem_cons_of_mem _ hm', h⟩)
      · exact .inr (.inr ⟨hsame ▸ h₁, h₂, m', mem_cons_of_mem _ hm', h₃⟩)
    · exact .inr (.inl ⟨m, mem_cons_self, htarget⟩)
    · rcases ih (installMember s m) with h | ⟨m', hm', h⟩ | ⟨h₁, -, -⟩
      · exact .inr (.inr ⟨hnone, h.trans hdir, m, mem_cons_self, hway⟩)
      · exact .inr (.inl ⟨m', mem_cons_of_mem _ hm', h⟩)
      · -- the directory made for `m` is there
        cases hdir.symm.trans h₁

theorem foldl_installMember_key (members : List StagedMember) (s : Live) :
    (members.foldl installMember s).key = s.key := by
  induction members generalizing s with
  | nil => rfl
  | cons m members ih =>
    rw [foldl_cons, ih]
    unfold installMember
    split <;> rfl

theorem installArchivedKey_cases (key : Option Bytes) (s : Live) :
    (installArchivedKey key s).2.node = s.node ∧
      ((installArchivedKey key s).2.key = s.key ∨ ∃ encoded, key = some encoded) := by
  cases key with
  | none => exact ⟨rfl, .inl rfl⟩
  | some encoded =>
    refine ⟨?_, .inr ⟨encoded, rfl⟩⟩
    rcases hdec : decodeConfigKey encoded with e | key <;>
      simp [installArchivedKey, restoreConfigKey, hdec]

/-- A key member is read only from an encrypted archive. -/
theorem encrypted_of_stageFrom {ms : List StagedMember} {k : Option Bytes}
    (h : stageFrom roots u b members key es = .ok (ms, k)) (he : e ∈ es)
    (hname : clean e.name = archiveKeyMember) : u.encrypted := by
  induction es generalizing b members key with
  | nil => cases he
  | cons x es ih =>
    rw [stageFrom] at h
    split_ifs at h with hx
    · obtain ⟨⟨key', b'⟩, hkey, h⟩ := exists_of_bind_ok h
      obtain ⟨b₁, -, hkey⟩ := exists_of_bind_ok hkey
      split_ifs at hkey with hplain
      exact hplain
    · obtain ⟨⟨m, b'⟩, -, h⟩ := exists_of_bind_ok h
      rcases mem_cons.mp he with rfl | he
      · exact absurd hname hx
      · exact ih h he

theorem exists_key_member {key : Bytes} (h : archivedKey es = some key) :
    ∃ e ∈ es, clean e.name = archiveKeyMember := by
  obtain ⟨e, he, -⟩ := Option.map_eq_some_iff.mp h
  exact ⟨e, mem_reverse.mp (mem_of_find?_eq_some he), by simpa using List.find?_some he⟩

/-- `p` is the target of a member that one of the entries is staged as. -/
def Selected (svc : BackupService) (es : List Entry) (p : Text) : Prop :=
  ∃ e ∈ es, ∃ m, StagedFrom (restoreRoots svc.configDir backupExtraDirs) e m ∧ p = m.target

theorem StageInv.selected {svc : BackupService} {m : StagedMember}
    (hinv : StageInv (restoreRoots svc.configDir backupExtraDirs) es b members)
    (hm : m ∈ members) : Selected svc es m.target := by
  obtain ⟨i, hi, rfl⟩ := getElem_of_mem hm
  have hlen := hinv.contained.length_eq
  exact ⟨_, (mem_filter.mp (getElem_mem (hlen ▸ hi))).1, _, hinv.contained.get (hlen ▸ hi) hi, rfl⟩

/-- Whatever the members are named: what was staged of them at any time keeps to the
limits, and each entry that is restored is staged within the root its own name selects.
An import changes nothing but the targets of members so staged, missing directories on the
way to a target, and the credential key of an encrypted archive. -/
theorem import_contained (svc : BackupService) (u : Upload) (s : Live) :
    (∀ done, done <+: u.entries → ∀ members key,
      stageArchive svc { u with entries := done, truncated := false } = .ok (members, key) →
        WithinLimits members ∧
        Forall₂ (StagedFrom (restoreRoots svc.configDir backupExtraDirs))
          (done.filter (restores (restoreRoots svc.configDir backupExtraDirs))) members) ∧
    (∀ p, (importArchive svc u s).2.node p = s.node p ∨ Selected svc u.entries p ∨
      (s.node p = none ∧ (importArchive svc u s).2.node p = some .dir ∧
        ∃ target, Selected svc u.entries target ∧ OnTheWay target p)) ∧
    ((importArchive svc u s).2.key = s.key ∨
      (u.encrypted ∧ ∃ e ∈ u.entries, clean e.name = archiveKeyMember)) := by
  refine ⟨?_, ?_⟩
  · intro done _ members key hstage
    obtain ⟨b, hinv⟩ := stageArchive_inv hstage
    exact ⟨hinv.limits, hinv.contained⟩
  rcases importArchive_cases svc u s with ⟨-, hsame⟩ | ⟨members, hstaged, -, heq⟩
  · rw [hsame]
    exact ⟨fun p => .inl rfl, .inl rfl⟩
  obtain ⟨key, hstage⟩ := hstaged.2.2.1
  obtain ⟨b, hinv⟩ := stageArchive_inv hstage
  obtain ⟨hnode, hkey⟩ := installArchivedKey_cases (archivedKey u.entries)
    (members.foldl installMember s)
  rw [heq, hnode]
  constructor
  · intro p
    rcases foldl_installMember_node members s p with h | ⟨m, hm, rfl⟩ | ⟨h₁, h₂, m, hm, h₃⟩
    · exact .inl h
    · exact .inr (.inl (hinv.selected hm))
    · exact .inr (.inr ⟨h₁, h₂, m.target, hinv.selected hm, h₃⟩)
  · rcases hkey with hkey | ⟨encoded, hkey⟩
    · exact .inl (hkey.trans (foldl_installMember_key members s))
    · obtain ⟨e, he, hname⟩ := exists_key_member hkey
      exact .inr ⟨encrypted_of_stageFrom hstage he hname, e, he, hname⟩

/-! An encrypted archive brings its key along. -/

/-- `defaultConfigKeyPath`: the file `Live.key` stands for. -/
def defaultConfigKeyPath : Text := "/var/lib/lankeeper/credentials/config.key"

def keyUpload : Upload where
  encrypted := true
  entries := [{ name := archiveKeyMember, typeflag := '0', data := List.replicate 64 0x30 }]

theorem key_outside_roots :
    (importArchive lankeeperService keyUpload oneFile).1 = .ok () ∧
    oneFile.key = none ∧
    (importArchive lankeeperService keyUpload oneFile).2.key = some (List.replicate 32 0) ∧
    ∀ top root, restoreRoots lankeeperService.configDir backupExtraDirs top = some root →
      ¬ Within root defaultConfigKeyPath := by
  refine ⟨by decide +kernel, rfl, by decide +kernel, ?_⟩
  intro top root hroot hwithin
  have hprefix : root <+: defaultConfigKeyPath := by
    rcases hwithin with h | ⟨l, -, h⟩
    · exact ⟨[], by rw [h, append_nil]⟩
    · exact ⟨_, h.symm⟩
  have hmem := mem_of_find?_eq_some hroot
  rw [mem_reverse] at hmem
  have hnone : ∀ dir ∈ lankeeperService.configDir :: backupExtraDirs,
      ¬ dir <+: defaultConfigKeyPath := by decide
  exact hnone root hmem hprefix

end Lankeeper.Backup
