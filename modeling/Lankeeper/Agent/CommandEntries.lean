import Lankeeper.Agent.WriteTargets

/-!
# Lankeeper.Agent.CommandEntries — the entries cp, rm and chmod touch

The validators judge where a path leads; a command acts on directory entries.
`chmod` changes what the path leads to, `rm` removes the entry the path names
without following it, and `cp` writes through links but into an existing
directory writes `DST/basename(SRC)`.

`touches` lists the entries a command may create, overwrite, remove or re-mode,
`blindSpots` those of them the validator never looked at, and
`accepted_command_permitted_iff` reduces the one to the other.
-/

namespace Lankeeper.Agent

open Lib Text Path FileTree List

/-- A location the agent may change: a write rule admits it, or it is the
installed binary, its backup or a pre-update snapshot. -/
def Permitted (boot : FileTree) (l : Loc) : Prop :=
  Admitted (allowedWriteRules boot) l ∨ FixedName (toText l)

instance (boot : FileTree) (l : Loc) : Decidable (Permitted boot l) :=
  inferInstanceAs (Decidable (_ ∨ _))

/-! ## The commands -/

def isLink (fs : FileTree) (l : Loc) : Bool :=
  match fs.node l with
  | some (.symlink _) => true
  | _ => false

/-- `chmod MODE PATH`. -/
def chmodTouches (fs : FileTree) (p : Text) : List Loc :=
  (fs.stat p).toOption.toList

/-- `rm -f PATH`: the entry itself, which must not be a directory. -/
def rmTouches (fs : FileTree) (p : Text) : List Loc :=
  (fs.lstat p).toList.filter fun e => fs.node e ≠ some .dir

/-- What cp does to a destination path that is no directory, copying the file
`src`. An existing file is overwritten where the links lead; `-f` removes the
entry itself when that file cannot be opened, and a link that leads in circles.
cp does not write through a dangling link. -/
def cpWrites (fs : FileTree) (force : Bool) (src : Loc) (dst : Text) : List Loc :=
  match fs.stat dst with
  | .ok g =>
    if fs.node g = some .file ∧ g ≠ src then
      g :: (if force then (fs.lstat dst).toList else [])
    else []
  | .error e =>
    match fs.lstat dst with
    | some l => if force ∧ e = .eloop then [l] else []
    | none => (fs.openCreat dst).toOption.toList

/-- DST is an existing directory. -/
def intoDirectory (fs : FileTree) (dst : Text) : Bool :=
  match fs.stat dst with
  | .ok d => fs.node d == some .dir
  | .error _ => false

/-- `cp FLAG SRC DST`; cp omits a SRC that is no file. -/
def cpTouches (fs : FileTree) (flag src dst : Text) : List Loc :=
  match fs.stat src with
  | .ok s =>
    if fs.node s = some .file then
      cpWrites fs (flag = "-f") s
        (if intoDirectory fs dst then dst ++ '/' :: base src else dst)
    else []
  | .error _ => []

/-- The commands that change files, with their argument rules. -/
inductive FileCommand where
  | cp
  | rm
  | chmod
deriving DecidableEq

def FileCommand.validate (boot fs : FileTree) : FileCommand → List Text → Except Text Unit
  | .cp, args => validateCpArgs boot fs args
  | .rm, args => validateRmArgs boot fs args
  | .chmod, args => validateChmodArgs boot fs args

/-- The entries a command may change. -/
def FileCommand.touches (fs : FileTree) : FileCommand → List Text → List Loc
  | .cp, [flag, src, dst] => cpTouches fs flag src dst
  | .rm, _ :: paths => (rmPaths paths).flatMap (rmTouches fs)
  | .chmod, [_, p] => chmodTouches fs p
  | _, _ => []

/-! ## Blind spots -/

/-- A fixed name that links lead away from its own text. -/
def ledAway (p : Text) (l : Loc) : Bool :=
  decide (FixedName (clean p) ∧ toText l ≠ clean p)

/-- The entries of `touches` that the check of the argument says nothing about:
a link itself, what a fixed name is led to, what cp writes into a directory. -/
def FileCommand.blindSpots (fs : FileTree) : FileCommand → List Text → List Loc
  | .cp, [flag, src, dst] =>
    (cpTouches fs flag src dst).filter fun l =>
      intoDirectory fs dst || isLink fs l || ledAway dst l
  | .rm, _ :: paths =>
    (rmPaths paths).flatMap fun p =>
      (rmTouches fs p).filter fun e => isLink fs e || ledAway p e
  | .chmod, [_, p] => (chmodTouches fs p).filter (ledAway p)
  | _, _ => []

/-! ## What the check of a path vouches for -/

variable {fs boot : FileTree} {p : Text} {l : Loc} {args : List Text}

/-- An entry that is no link is what the path leads to. -/
theorem stat_of_lstat {e : Loc} (h : fs.lstat p = some e) (hlink : isLink fs e = false) :
    fs.stat p = .ok e := by
  obtain ⟨init, n, d, hcs, hd, hsome, rfl⟩ := lstat_eq_some_iff.mp h
  have hp : p ≠ [] := by
    rintro rfl
    rcases init with _ | ⟨c, init⟩ <;> simp at hcs
  have hentry : fs.Walks false 0 d [.name n] (d ++ [n]) := by
    unfold isLink at hlink
    rcases hnode : fs.node (d ++ [n]) with _ | _ | _ | t
    · simp [hnode] at hsome
    · exact .dir hnode (.nil 0 _)
    · exact .file 0 hnode
    · simp [hnode] at hlink
  have hw := hd.trans (fs.parent_dir d n hsome) hentry
  rw [← hcs] at hw
  exact stat_eq_ok_iff.mpr ⟨hp, hw⟩

/-- A writable path vouches for what the kernel opens, unless that is a fixed
name led away or a dangling link. -/
theorem permitted_of_open (hw : writablePath boot fs p) (hopen : fs.openCreat p = .ok l)
    (haway : ledAway p l = false) (hdangle : ¬ DanglesTo fs p l) : Permitted boot l := by
  by_cases hfix : FixedName (clean p)
  · right
    have htext : toText l = clean p := by
      by_contra hne
      simp [ledAway, hfix, hne] at haway
    rw [htext]
    exact hfix
  · left
    obtain ⟨habs, hup, hrules⟩ := writablePath_spec hw
    have hiff := (open_cases habs hup hopen (allowedWriteRules boot)).resolve_right hdangle
    exact hiff.mp (hrules.resolve_left hfix)

theorem permitted_of_stat (hw : writablePath boot fs p) (hstat : fs.stat p = .ok l)
    (haway : ledAway p l = false) : Permitted boot l := by
  apply permitted_of_open hw (openCreat_of_stat hstat) haway
  intro hd
  have hex := (stat_eq_ok_iff.mp hstat).2.exists fs.root_dir
  rw [hd.missing] at hex
  cases hex

theorem writablePath_installedBinary (boot fs : FileTree) :
    writablePath boot fs installedBinary := by
  have hc : cleanAbs installedBinary = some installedBinary := by decide
  unfold writablePath
  simp [hc, FixedName]

/-! ## Command by command -/

theorem chmod_permitted (h : validateChmodArgs boot fs args = .ok ())
    (hl : l ∈ FileCommand.chmod.touches fs args) (hseen : l ∉ FileCommand.chmod.blindSpots fs args) :
    Permitted boot l := by
  obtain ⟨mode, p, rfl, hp⟩ := validateChmodArgs_spec h
  have hw : writablePath boot fs p := by
    rcases hp with hp | rfl
    · exact hp
    · exact writablePath_installedBinary boot fs
  simp only [FileCommand.touches, FileCommand.blindSpots, mem_filter, not_and,
    Bool.not_eq_true] at hl hseen
  have hstat : fs.stat p = .ok l := by
    unfold chmodTouches at hl
    rcases hs : fs.stat p with e | l'
    · simp [hs, Except.toOption] at hl
    · obtain rfl : l = l' := by simpa [hs, Except.toOption] using hl
      rfl
  exact permitted_of_stat hw hstat (hseen hl)

theorem rm_permitted (h : validateRmArgs boot fs args = .ok ())
    (hl : l ∈ FileCommand.rm.touches fs args) (hseen : l ∉ FileCommand.rm.blindSpots fs args) :
    Permitted boot l := by
  obtain ⟨paths, rfl, hall⟩ := validateRmArgs_spec h
  simp only [FileCommand.touches, FileCommand.blindSpots, mem_flatMap, mem_filter,
    not_exists, not_and, Bool.not_eq_true, Bool.or_eq_false_iff] at hl hseen
  obtain ⟨p, hp, hl⟩ := hl
  obtain ⟨hlink, haway⟩ := hseen p hp hl
  have hentry : fs.lstat p = some l := by
    unfold rmTouches at hl
    simpa using (mem_filter.mp hl).1
  exact permitted_of_stat (hall p hp) (stat_of_lstat hentry hlink) haway

/-- What cp writes outside a directory is where DST leads, or a link. -/
theorem cpWrites_cases {force : Bool} {src : Loc} {dst : Text} (hl : l ∈ cpWrites fs force src dst) :
    isLink fs l ∨ fs.stat dst = .ok l ∨ (fs.lstat dst = none ∧ fs.openCreat dst = .ok l) := by
  unfold cpWrites at hl
  split at hl
  · next g hg =>
    split at hl
    · rcases mem_cons.mp hl with rfl | hl
      · exact .inr (.inl hg)
      -- the entry that `-f` removes: a link, or the file itself
      split at hl
      · have hentry : fs.lstat dst = some l := by simpa using hl
        rcases hlink : isLink fs l with _ | _
        · exact .inr (.inl (stat_of_lstat hentry hlink))
        · exact .inl rfl
      · cases hl
    · cases hl
  · next e hstat =>
    split at hl
    · next l' hentry =>
      split at hl
      · obtain rfl := mem_singleton.mp hl
        rcases hlink : isLink fs l with _ | _
        · cases hstat.symm.trans (stat_of_lstat hentry hlink)
        · exact .inl rfl
      · cases hl
    · next hnone =>
      refine .inr (.inr ⟨hnone, ?_⟩)
      rcases ho : fs.openCreat dst with e | l'
      · simp [ho, Except.toOption] at hl
      · obtain rfl : l = l' := by simpa [ho, Except.toOption] using hl
        rfl

theorem cp_permitted (h : validateCpArgs boot fs args = .ok ())
    (hl : l ∈ FileCommand.cp.touches fs args) (hseen : l ∉ FileCommand.cp.blindSpots fs args) :
    Permitted boot l := by
  obtain ⟨flag, src, dst, rfl, _, _, hw⟩ := validateCpArgs_spec h
  simp only [FileCommand.touches, FileCommand.blindSpots, mem_filter, not_and,
    Bool.not_eq_true, Bool.or_eq_false_iff] at hl hseen
  obtain ⟨⟨hinto, hlink⟩, haway⟩ := hseen hl
  have hwrites : ∃ force s, l ∈ cpWrites fs force s dst := by
    unfold cpTouches at hl
    rw [hinto] at hl
    split at hl
    · next s _ =>
      split at hl
      · exact ⟨_, s, by simpa using hl⟩
      · cases hl
    · cases hl
  obtain ⟨force, s, hl⟩ := hwrites
  rcases cpWrites_cases hl with hl | hstat | ⟨hnone, hopen⟩
  · cases hlink.symm.trans hl
  · exact permitted_of_stat hw hstat haway
  · apply permitted_of_open hw hopen haway
    intro hd
    have hlink' := hd.link
    simp [namesLink, hnone] at hlink'

theorem blindSpots_subset {c : FileCommand} (h : c.validate boot fs args = .ok ()) :
    c.blindSpots fs args ⊆ c.touches fs args := by
  intro l hl
  cases c with
  | cp =>
    obtain ⟨flag, src, dst, rfl, _⟩ := validateCpArgs_spec h
    exact (mem_filter.mp hl).1
  | rm =>
    obtain ⟨paths, rfl, _⟩ := validateRmArgs_spec h
    obtain ⟨p, hp, hl⟩ := mem_flatMap.mp hl
    exact mem_flatMap.mpr ⟨p, hp, (mem_filter.mp hl).1⟩
  | chmod =>
    obtain ⟨mode, p, rfl, _⟩ := validateChmodArgs_spec h
    exact (mem_filter.mp hl).1

/-- **The accepted commands that touch permitted entries only** are those whose
blind spots are permitted. -/
theorem accepted_command_permitted_iff {boot fs : FileTree} {c : FileCommand} {args : List Text}
    (h : c.validate boot fs args = .ok ()) :
    (∀ l ∈ c.touches fs args, Permitted boot l) ↔ ∀ l ∈ c.blindSpots fs args, Permitted boot l := by
  constructor
  · intro hall l hl
    exact hall l (blindSpots_subset h hl)
  intro hall l hl
  by_cases hblind : l ∈ c.blindSpots fs args
  · exact hall l hblind
  · cases c with
    | cp => exact cp_permitted h hl hblind
    | rm => exact rm_permitted h hl hblind
    | chmod => exact chmod_permitted h hl hblind

/-- The mkcert directory with the key of the CA, and a file of the web process. -/
def mkcertTree : FileTree :=
  FileTree.ofList
    [("/var", .dir), ("/var/lib", .dir), ("/var/lib/lankeeper", .dir),
      ("/var/lib/lankeeper/rootCA-key.pem", .file),
      ("/var/lib/lankeeper-mkcert", .dir),
      ("/var/lib/lankeeper-mkcert/rootCA-key.pem", .file)] (by decide)

theorem rm_state_file_permitted :
    FileCommand.rm.validate mkcertTree mkcertTree
        ["-f", "/var/lib/lankeeper/rootCA-key.pem"] = .ok () ∧
      ∀ l ∈ FileCommand.rm.touches mkcertTree
          ["-f", "/var/lib/lankeeper/rootCA-key.pem"], Permitted mkcertTree l := by
  have hw : writablePath mkcertTree mkcertTree "/var/lib/lankeeper/rootCA-key.pem" = true :=
    writablePath_of_rule stateRule_mem (by decide +kernel) (by decide +kernel)
  have hok : FileCommand.rm.validate mkcertTree mkcertTree
      ["-f", "/var/lib/lankeeper/rootCA-key.pem"] = .ok () := by
    rw [FileCommand.validate]
    exact validateRmArgs_force (by decide) hw
  have hnone : FileCommand.rm.blindSpots mkcertTree
      ["-f", "/var/lib/lankeeper/rootCA-key.pem"] = [] := by decide +kernel
  refine ⟨hok, (accepted_command_permitted_iff hok).mpr ?_⟩
  rw [hnone]
  simp

/-- The rule for the mkcert directory names the directory itself, so that cp may
be told to write into it: here, over the key of the CA. -/
theorem cp_overwrites_ca_key :
    FileCommand.cp.validate mkcertTree mkcertTree
        ["-f", "/var/lib/lankeeper/rootCA-key.pem", mkcertCARoot] = .ok () ∧
      lexWalk [] (comps "/var/lib/lankeeper-mkcert/rootCA-key.pem") ∈
        FileCommand.cp.touches mkcertTree
          ["-f", "/var/lib/lankeeper/rootCA-key.pem", mkcertCARoot] ∧
      ¬ Permitted mkcertTree (lexWalk [] (comps "/var/lib/lankeeper-mkcert/rootCA-key.pem")) := by
  have hr : readablePath mkcertTree mkcertTree "/var/lib/lankeeper/rootCA-key.pem" = true :=
    readablePath_of_rule (r := ⟨"/var/lib/lankeeper/", .dirPrefix⟩)
      (mem_of_getElem? (i := 13) rfl) (by decide +kernel) (by decide +kernel)
  have hw : writablePath mkcertTree mkcertTree mkcertCARoot :=
    writablePath_of_rule (r := ⟨mkcertCARoot, .exactFile⟩) (mem_of_getElem? (i := 24) rfl)
      (by decide +kernel) (by decide +kernel)
  have hlinks : mkcertTree.NoLinks := FileTree.ofList_noLinks _ (by simp)
  refine ⟨?_, ?_, ?_⟩
  · rw [FileCommand.validate]
    exact validateCpArgs_force hr hw
  · decide +kernel
  · unfold Permitted
    rw [allowedWriteRules_noLinks hlinks]
    unfold writeRuleTable mkcertCARoot dhcp6cScript
    repeat rw [String.toList_ofList]
    decide +kernel

end Lankeeper.Agent
