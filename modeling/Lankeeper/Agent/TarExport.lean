import Lankeeper.Agent.ArgRules
import Lankeeper.Lib.Detour

/-!
# Lankeeper.Agent.TarExport — what root's tar makes of an accepted argv

`validateTarArgs` judges `filepath.Join(PARENT, NAME)`; tar gets the two raw
texts. This file reads an argument vector the way tar does (`tarItems`,
`tarReads`) and says for which spellings the two agree.

* `Straight` — the spelling leaves no room: the path tar opens has no `..` after
  a name, and it cleans to a backup directory;
* `Straight.denotes` — then every tree shows tar a backup directory;
* `not_straight_escapes` — otherwise some tree shows it another place.
-/

namespace Lankeeper.Agent

open Lib Text Path List

/-! ## tar's reading of its arguments -/

/-- What tar takes one argument after `czf OUT` for. -/
inductive TarItem where
  | chdir (dir : Text)
  | option (arg : Text)
  | operand (name : Text)
deriving DecidableEq

/-- An argument that is not the value of `-C`: everything that begins with a
dash is an option. -/
def tarWord (a : Text) : TarItem :=
  if a.head? = some '-' then .option a else .operand a

def tarItems : List Text → List TarItem
  | [] => []
  | [a] => [tarWord a]
  | a :: b :: rest =>
    if a = "-C" then .chdir b :: tarItems rest
    else tarWord a :: tarItems (b :: rest)

/-- The directory `-C` changes to. -/
def tarChdir (fs : FileTree) (cwd : Loc) (dir : Text) : Option Loc :=
  match fs.lookup false cwd dir with
  | .ok d => if fs.node d = some .dir then some d else none
  | .error _ => none

/-- The places tar archives. A failing `-C` ends the run; an operand that cannot
be opened is reported and skipped. -/
def tarReads (fs : FileTree) : Loc → List TarItem → List Loc
  | _, [] => []
  | cwd, .chdir dir :: items =>
    match tarChdir fs cwd dir with
    | some d => tarReads fs d items
    | none => []
  | cwd, .option _ :: items => tarReads fs cwd items
  | cwd, .operand name :: items =>
    match fs.lookup false cwd name with
    | .ok l => l :: tarReads fs cwd items
    | .error _ => tarReads fs cwd items

/-- The place `-C PARENT NAME` makes tar archive. -/
def tarTarget (fs : FileTree) (cwd : Loc) (parent name : Text) : Option Loc :=
  match tarChdir fs cwd parent with
  | some d => (fs.lookup false d name).toOption
  | none => none

/-- The PARENT and NAME of every triple. -/
def tarTriples : List Text → List (Text × Text)
  | _ :: parent :: name :: rest => (parent, name) :: tarTriples rest
  | _ => []

/-- `d` is the path of the place `l`. -/
def Denotes (fs : FileTree) (d : Text) (l : Loc) : Prop :=
  fs.Reaches [] (comps d) l

/-- An argv makes tar archive the backup directories, and do nothing else. -/
structure ArchivesOnly (boot fs : FileTree) (args : List Text) : Prop where
  /-- the archive is written to a writable path -/
  out : writablePath boot fs (args.getD 1 [])
  /-- no argument is an option to tar -/
  no_option : ∀ a, .option a ∉ tarItems (args.drop 2)
  /-- every triple stands for one backup directory, in every tree -/
  denotes : ∀ t ∈ tarTriples (args.drop 2), ∃ d ∈ backupSourceDirs,
    ∀ (tree : FileTree) (cwd l : Loc), tarTarget tree cwd t.1 t.2 = some l → Denotes tree d l
  /-- a whole run reads backup directories only -/
  reads : ∀ (tree : FileTree) (cwd : Loc), ∀ l ∈ tarReads tree cwd (tarItems (args.drop 2)),
    ∃ d ∈ backupSourceDirs, Denotes tree d l

/-! ## Spellings -/

/-- The path tar opens for `-C PARENT NAME`. -/
def opened (parent name : Text) : Text :=
  if isAbs name then name else parent ++ '/' :: name

/-- PARENT or NAME is empty, so that tar opens nothing, or the path it opens does
not climb and cleans to a backup directory. -/
def Straight (parent name : Text) : Prop :=
  parent = [] ∨ name = [] ∨
    (climbs (comps (opened parent name)) = false ∧ clean (opened parent name) ∈ backupSourceDirs)

instance (parent name : Text) : Decidable (Straight parent name) :=
  inferInstanceAs (Decidable (_ ∨ _ ∨ _))

/-! ## What acceptance says -/

theorem backupSourceDirs_clean {d : Text} (h : d ∈ backupSourceDirs) :
    d = toText (lexWalk [] (comps d)) := by
  have hall : ∀ d ∈ backupSourceDirs, d = toText (lexWalk [] (comps d)) := by decide
  exact hall d h

theorem checkTarTriples_spec {rest : List Text} (hlen : rest.length % 3 = 0)
    (h : checkTarTriples rest = .ok ()) :
    rest = (tarTriples rest).flatMap (fun t => ["-C".toList, t.1, t.2]) ∧
      ∀ t ∈ tarTriples rest, join t.1 t.2 ∈ backupSourceDirs := by
  fun_induction tarTriples rest with
  | case1 flag parent name rest ih =>
    simp only [checkTarTriples] at h
    split_ifs at h
    next hok =>
    push Not at hok
    obtain ⟨hrest, hall⟩ := ih (by simp at hlen; omega) h
    constructor
    · rw [flatMap_cons, ← hrest, hok.1]
      rfl
    · intro t ht
      rcases mem_cons.mp ht with rfl | ht
      · exact hok.2
      · exact hall t ht
  | case2 rest hshort =>
    -- one or two arguments are left over only if the length is not a multiple of three
    rcases rest with _ | ⟨a, _ | ⟨b, _ | ⟨c, rest⟩⟩⟩
    · simp
    · simp at hlen
    · simp at hlen
    · exact absurd rfl (hshort a b c rest)

variable {fs : FileTree} {parent name : Text} {cwd l : Loc}

theorem validateTarArgs_spec {boot : FileTree} {args : List Text}
    (h : validateTarArgs boot fs args = .ok ()) :
    writablePath boot fs (args.getD 1 []) ∧
      args.drop 2 = (tarTriples (args.drop 2)).flatMap (fun t => ["-C".toList, t.1, t.2]) ∧
      ∀ t ∈ tarTriples (args.drop 2), join t.1 t.2 ∈ backupSourceDirs := by
  unfold validateTarArgs at h
  split at h
  · next mode out rest =>
    split at h
    · cases h
    · next hshape =>
      push Not at hshape
      split at h
      · next hout => exact ⟨hout, checkTarTriples_spec hshape.2.2 h⟩
      · cases h
  · cases h

/-- A joined path that names a backup directory is rooted where its first
non-empty part is. -/
theorem isAbs_of_join (hne : parent ≠ []) (h : join parent name ∈ backupSourceDirs) :
    isAbs parent := by
  have habs : isAbs (join parent name) := by
    rw [backupSourceDirs_clean h]
    exact isAbs_toText _
  unfold join at habs
  rw [if_pos hne, isAbs_clean] at habs
  obtain ⟨c, t, rfl⟩ := exists_cons_of_ne_nil hne
  exact habs

/-- A NAME that starts with a dash is the end of no backup directory: it can be
accepted only by climbing out of what follows the dash. -/
theorem head_ne_dash (hne : parent ≠ []) (hj : join parent name ∈ backupSourceDirs)
    (hc : climbs (comps (parent ++ '/' :: name)) = false) : name.head? ≠ some '-' := by
  intro hdash
  rcases name with _ | ⟨c, t⟩
  · cases hdash
  obtain rfl : c = '-' := by simpa using hdash
  obtain ⟨n, cs, hn, hcs⟩ := comps_cons (by decide : '-' ≠ '.') (by decide) t
  have habs : isAbs (parent ++ '/' :: '-' :: t) := by
    have := isAbs_of_join hne hj
    obtain ⟨c, r, rfl⟩ := exists_cons_of_ne_nil hne
    exact this
  have hmem : n ∈ lexWalk [] (comps (join parent ('-' :: t))) := by
    unfold join
    rw [if_pos hne, clean_eq_toText habs, lexWalk_comps_toText, nil_append,
      lexWalk_of_not_climbs hc, comps_append_slash, hcs, names_append]
    simp
  -- no backup directory has a component with a dash in front
  have hall : ∀ d ∈ backupSourceDirs, ∀ m ∈ lexWalk [] (comps d), m.text.head? ≠ some '-' := by
    decide
  exact hall _ hj n hmem hn

theorem Straight.head_ne_dash (hj : join parent name ∈ backupSourceDirs) (h : Straight parent name) :
    name.head? ≠ some '-' := by
  intro hdash
  have hrel : isAbs name = false := by simp [isAbs, hdash]
  by_cases hp : parent = []
  · -- an empty PARENT leaves NAME to be the whole path
    have hne : name ≠ [] := by
      rintro rfl
      cases hdash
    have habs : isAbs (join parent name) := by
      rw [backupSourceDirs_clean hj]
      exact isAbs_toText _
    unfold join at habs
    rw [if_neg (by simp [hp]), if_pos hne, isAbs_clean, hrel] at habs
    cases habs
  · rcases h with hp' | rfl | ⟨hc, _⟩
    · exact hp hp'
    · cases hdash
    · unfold opened at hc
      rw [hrel] at hc
      exact Agent.head_ne_dash hp hj hc hdash

/-! ## Straight triples -/

theorem tarTarget_eq_some (h : tarTarget fs cwd parent name = some l) :
    ∃ d, fs.lookup false cwd parent = .ok d ∧ fs.node d = some .dir ∧
      fs.lookup false d name = .ok l := by
  unfold tarTarget tarChdir at h
  rcases hd : fs.lookup false cwd parent with e | d
  · simp [hd] at h
  simp only [hd] at h
  by_cases hdir : fs.node d = some .dir
  · rcases hl : fs.lookup false d name with e | l'
    · simp [hdir, hl, Except.toOption] at h
    · obtain rfl : l' = l := by simpa [hdir, hl, Except.toOption] using h
      exact ⟨d, rfl, hdir, hl⟩
  · simp [hdir] at h

/-- The path tar opens is walked in one go. -/
theorem tarTarget_reaches (habs : isAbs parent) (h : tarTarget fs cwd parent name = some l) :
    fs.Reaches [] (comps (opened parent name)) l := by
  obtain ⟨d, hd, hdir, hl⟩ := tarTarget_eq_some h
  have hk := (FileTree.lookup_eq_ok_iff.mp hd).2
  have hm := (FileTree.lookup_eq_ok_iff.mp hl).2
  unfold FileTree.linkStart at hk hm
  rw [if_pos habs] at hk
  unfold opened
  split
  · next hname =>
    rw [if_pos hname] at hm
    exact ⟨_, hm⟩
  · next hname =>
    rw [if_neg hname] at hm
    rw [comps_append_slash]
    exact ⟨_, hk.trans hdir hm⟩

theorem isAbs_opened (name : Text) (h : isAbs parent) : isAbs (opened parent name) := by
  unfold opened
  split
  · next hname => exact hname
  · rcases parent with _ | ⟨c, t⟩
    · cases h
    · exact h

/-- **A straight triple stands for one backup directory in every tree.** -/
theorem Straight.denotes (hj : join parent name ∈ backupSourceDirs) (h : Straight parent name) :
    ∃ d ∈ backupSourceDirs,
      ∀ (tree : FileTree) (cwd l : Loc), tarTarget tree cwd parent name = some l →
        Denotes tree d l := by
  by_cases hempty : parent = [] ∨ name = []
  · -- tar opens nothing
    refine ⟨_, hj, ?_⟩
    intro tree cwd l htar
    obtain ⟨d, hd, _, hl⟩ := tarTarget_eq_some htar
    rcases hempty with hp | hn
    · exact absurd hp (FileTree.lookup_eq_ok_iff.mp hd).1
    · exact absurd hn (FileTree.lookup_eq_ok_iff.mp hl).1
  · push Not at hempty
    rcases h with hp | hn | ⟨hc, hclean⟩
    · exact absurd hp hempty.1
    · exact absurd hn hempty.2
    have habs := isAbs_of_join hempty.1 hj
    refine ⟨_, hclean, ?_⟩
    intro tree cwd l htar
    show tree.Reaches [] _ l
    rw [clean_eq_toText (isAbs_opened name habs), FileTree.reaches_toText, lexWalk_of_not_climbs hc]
    exact (tarTarget_reaches habs htar).straight hc

/-! ## Other triples -/

/-- In a tree where the opened path leads to `l` and PARENT to a directory, over
few links, tar archives `l`. -/
theorem tarTarget_of_walks (hp : isAbs parent) (hn : name ≠ [])
    (hpar : ∃ mid, fs.Walks false 1 [] (comps parent) mid ∧ fs.node mid = some .dir)
    (hw : fs.Walks false 1 [] (comps (opened parent name)) l) :
    tarTarget fs [] parent name = some l := by
  have hpne : parent ≠ [] := by
    rintro rfl
    cases hp
  have hlookup : ∀ {cwd mid : Loc} {p : Text} {k : Nat}, p ≠ [] → k ≤ 1 →
      fs.Walks false k (FileTree.linkStart cwd p) (comps p) mid →
      fs.lookup false cwd p = .ok mid := by
    intro cwd mid p k hpn hk h
    exact FileTree.lookup_eq_ok_iff.mpr ⟨hpn, h.mono (by unfold FileTree.maxLinks; omega)⟩
  -- the directory tar changes to, and the walk of NAME from there
  obtain ⟨mid, hdir, hparent, j, hj, hname⟩ : ∃ mid, fs.node mid = some .dir ∧
      fs.lookup false [] parent = .ok mid ∧
      ∃ j, j ≤ 1 ∧ fs.Walks false j (FileTree.linkStart mid name) (comps name) l := by
    have hstart := FileTree.linkStart_nil parent
    by_cases habs : isAbs name
    · obtain ⟨mid, hmid, hdir⟩ := hpar
      refine ⟨mid, hdir, hlookup hpne le_rfl (by rw [hstart]; exact hmid), 1, le_rfl, ?_⟩
      unfold FileTree.linkStart
      unfold opened at hw
      rw [if_pos habs] at hw ⊢
      exact hw
    · unfold opened at hw
      rw [if_neg habs, comps_append_slash] at hw
      obtain ⟨mid, j, hj, hdir, hmid, hrest⟩ := hw.split (by simp [comps]) fs.root_dir
      refine ⟨mid, hdir, hlookup hpne le_rfl (by rw [hstart]; exact hmid), j, hj, ?_⟩
      unfold FileTree.linkStart
      rw [if_neg habs]
      exact hrest
  unfold tarTarget tarChdir
  simp only [hparent, hdir, if_true, hlookup hn hj hname]
  rfl

/-- **A triple that is not straight has a tree in which tar archives a place that
is no backup directory.** -/
theorem not_straight_escapes (hj : join parent name ∈ backupSourceDirs) (h : ¬ Straight parent name) :
    ∃ (tree : FileTree) (l : Loc),
      tarTarget tree [] parent name = some l ∧ ∀ d ∈ backupSourceDirs, ¬ Denotes tree d l := by
  unfold Straight at h
  push Not at h
  obtain ⟨hp, hn, hbad⟩ := h
  have habs := isAbs_of_join hp hj
  -- backup directories by location
  have hloc : ∀ (tree : FileTree) (l : Loc),
      (∀ d ∈ backupSourceDirs.map (fun d => lexWalk [] (comps d)),
        ¬ tree.Reaches [] (d.map .name) l) → ∀ d ∈ backupSourceDirs, ¬ Denotes tree d l := by
    intro tree l hl d hd hden
    unfold Denotes at hden
    rw [backupSourceDirs_clean hd, FileTree.reaches_toText] at hden
    exact hl _ (mem_map.mpr ⟨d, hd, rfl⟩) hden
  rcases hc : climbs (comps (opened parent name)) with _ | _
  · -- not a backup directory even without links
    have hw := FileTree.plain_walks [] (comps (opened parent name))
    refine ⟨FileTree.plain, _, tarTarget_of_walks habs hn
      ⟨_, (FileTree.plain_walks [] (comps parent)).mono (by omega), rfl⟩ (hw.mono (by omega)), ?_⟩
    intro d hd hden
    obtain ⟨k, hk⟩ := hden
    have heq := hk.unique (FileTree.plain_walks [] (comps d))
    apply hbad hc
    rw [clean_eq_toText (isAbs_opened name habs), heq, ← backupSourceDirs_clean hd]
    exact hd
  · rcases FileTree.exists_detour hc (comps parent)
      (backupSourceDirs.map fun d => lexWalk [] (comps d)) with ⟨tree, hpar, l, hw, hl⟩
    exact ⟨tree, l, tarTarget_of_walks habs hn hpar hw, hloc tree l hl⟩

/-! ## Whole argument vectors -/

theorem tarItems_cons {a : Text} (ha : a ≠ "-C") (rest : List Text) :
    tarItems (a :: rest) = tarWord a :: tarItems rest := by
  cases rest with
  | nil => rfl
  | cons b rest => rw [tarItems, if_neg ha]

/-- Without dashes in front of a NAME, tar sees the triples the validator saw. -/
theorem tarItems_triples {ts : List (Text × Text)} (h : ∀ t ∈ ts, t.2.head? ≠ some '-') :
    tarItems (ts.flatMap fun t => ["-C", t.1, t.2]) =
      ts.flatMap fun t => [.chdir t.1, .operand t.2] := by
  induction ts with
  | nil => rfl
  | cons t ts ih =>
    have hdash := h t (mem_cons_self ..)
    have hname : t.2 ≠ "-C" := by
      intro heq
      rw [heq] at hdash
      exact hdash rfl
    have hword : tarWord t.2 = .operand t.2 := by
      unfold tarWord
      rw [if_neg hdash]
    rw [flatMap_cons, flatMap_cons, ← ih fun t' ht' => h t' (mem_cons_of_mem _ ht'), ← hword]
    show tarItems ("-C" :: t.1 :: t.2 :: _) = _
    rw [tarItems, if_pos rfl, tarItems_cons hname]
    rfl

/-- A run archives the targets of its triples. -/
theorem mem_tarReads {ts : List (Text × Text)}
    (h : l ∈ tarReads fs cwd (ts.flatMap fun t => [.chdir t.1, .operand t.2])) :
    ∃ t ∈ ts, ∃ cwd', tarTarget fs cwd' t.1 t.2 = some l := by
  induction ts generalizing cwd with
  | nil => cases h
  | cons t ts ih =>
    rw [flatMap_cons] at h
    simp only [cons_append, nil_append, tarReads] at h
    rcases hd : tarChdir fs cwd t.1 with _ | d
    · simp [hd] at h
    simp only [hd] at h
    have hrest : l ∈ tarReads fs d (ts.flatMap fun t => [.chdir t.1, .operand t.2]) →
        ∃ t' ∈ t :: ts, ∃ cwd', tarTarget fs cwd' t'.1 t'.2 = some l := by
      intro hmem
      obtain ⟨t', ht', hcwd⟩ := ih hmem
      exact ⟨t', mem_cons_of_mem _ ht', hcwd⟩
    rcases hl : fs.lookup false d t.2 with e | l'
    · simp only [hl] at h
      exact hrest h
    simp only [hl] at h
    rcases mem_cons.mp h with rfl | hmem
    · refine ⟨t, mem_cons_self .., cwd, ?_⟩
      unfold tarTarget
      simp only [hd, hl]
      rfl
    · exact hrest hmem

/-- **The accepted argvs that archive backup directories only** are those whose
triples are all spelled straight. -/
theorem accepted_tar_archivesOnly_iff {boot fs : FileTree} {args : List Text}
    (h : validateTarArgs boot fs args = .ok ()) :
    ArchivesOnly boot fs args ↔ ∀ t ∈ tarTriples (args.drop 2), Straight t.1 t.2 := by
  obtain ⟨hout, hshape, hjoin⟩ := validateTarArgs_spec h
  constructor
  · intro hsafe t ht
    by_contra hbent
    obtain ⟨d, hd, hden⟩ := hsafe.denotes t ht
    obtain ⟨tree, l, htar, hno⟩ := not_straight_escapes (hjoin t ht) hbent
    exact hno d hd (hden tree [] l htar)
  · intro hstraight
    have hdash : ∀ t ∈ tarTriples (args.drop 2), t.2.head? ≠ some '-' :=
      fun t ht => (hstraight t ht).head_ne_dash (hjoin t ht)
    have hitems := tarItems_triples hdash
    rw [← hshape] at hitems
    have hden : ∀ t ∈ tarTriples (args.drop 2), ∃ d ∈ backupSourceDirs,
        ∀ (tree : FileTree) (cwd l : Loc), tarTarget tree cwd t.1 t.2 = some l →
          Denotes tree d l := fun t ht => (hstraight t ht).denotes (hjoin t ht)
    refine ⟨hout, ?_, hden, ?_⟩
    · intro a ha
      rw [hitems] at ha
      simp at ha
    · intro tree cwd l hl
      rw [hitems] at hl
      obtain ⟨t, ht, cwd', htar⟩ := mem_tarReads hl
      obtain ⟨d, hd, hall⟩ := hden t ht
      exact ⟨d, hd, hall tree cwd' l htar⟩

/-- The tree of a fresh installation, as far as a backup is concerned. -/
def installedTree : FileTree :=
  FileTree.ofList
    [("/etc", .dir), ("/etc/lankeeper", .dir), ("/var", .dir),
      ("/var/lib", .dir), ("/var/lib/lankeeper", .dir)] (by decide)

/-- The argv of a backup of the configuration alone. -/
def exportArgs : List Text :=
  ["czf", "/var/lib/lankeeper/b.tgz", "-C", "/etc", "lankeeper"]

theorem archive_writable :
    writablePath installedTree installedTree "/var/lib/lankeeper/b.tgz" = true :=
  writablePath_of_rule stateRule_mem (by decide +kernel) (by decide +kernel)

theorem export_archivesOnly :
    validateTarArgs installedTree installedTree exportArgs = .ok () ∧
      ArchivesOnly installedTree installedTree exportArgs := by
  have hok : validateTarArgs installedTree installedTree exportArgs = .ok () := by
    rw [exportArgs, validateTarArgs, if_neg (by decide), if_pos archive_writable]
    decide +kernel
  exact ⟨hok, (accepted_tar_archivesOnly_iff hok).mpr (by decide)⟩

/-- A NAME that climbs out of an option: `filepath.Join` cleans it to
`/etc/lankeeper`, tar takes it for `--checkpoint-action`. -/
def checkpointArgs : List Text :=
  ["czf", "/var/lib/lankeeper/b.tgz", "-C", "/etc",
    "--checkpoint-action=exec=x/../lankeeper"]

theorem checkpoint_accepted_not_archivesOnly :
    validateTarArgs installedTree installedTree checkpointArgs = .ok () ∧
      .option "--checkpoint-action=exec=x/../lankeeper" ∈ tarItems (checkpointArgs.drop 2) ∧
      ¬ ArchivesOnly installedTree installedTree checkpointArgs := by
  have hopt : .option "--checkpoint-action=exec=x/../lankeeper" ∈
      tarItems (checkpointArgs.drop 2) := by decide
  refine ⟨?_, hopt, fun h => h.no_option _ hopt⟩
  rw [checkpointArgs, validateTarArgs, if_neg (by decide), if_pos archive_writable]
  decide +kernel

end Lankeeper.Agent
