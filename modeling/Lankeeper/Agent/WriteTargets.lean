import Lankeeper.Agent.ArgRules

/-!
# Lankeeper.Agent.WriteTargets — where an accepted path is opened

The path rules judge `resolveExistingPrefix path`; the kernel, opening the path
with `O_CREAT`, follows every link. `resolveExistingPrefix_eq_or_dangles` compares
the two for an arbitrary tree: they part in one case only, a last component that is
a dangling link. `EvalSymlinks` fails there, so the loop keeps the link's own name,
while the kernel creates the link's target. Names that `writablePath` accepts without
asking the rules are a second way out.
-/

namespace Lankeeper.Agent

open Lib Text Path FileTree

/-- The entry a path names is itself a link. -/
def namesLink (fs : FileTree) (p : Text) : Bool :=
  match fs.lstat p with
  | some e =>
    match fs.node e with
    | some (.symlink _) => true
    | _ => false
  | none => false

variable {fs : FileTree} {p : Text}

theorem namesLink_of_lstat {p t : Text} {e : Loc} (he : fs.lstat p = some e)
    (ht : fs.node e = some (.symlink t)) : namesLink fs p := by
  simp [namesLink, he, ht]

/-- `p` is a link to a place that does not exist yet, and opening `p` with
`O_CREAT` creates that place. -/
structure DanglesTo (fs : FileTree) (p : Text) (loc : Loc) : Prop where
  link : namesLink fs p
  missing : fs.node loc = none
  creates : fs.openCreat p = .ok loc

/-! ## A clean path -/

/-- The kernel opens a path where the rules looked, unless it is a dangling link. -/
theorem resolveExistingPrefix_eq_or_dangles {l loc : Loc}
    (hopen : fs.openCreat (toText l) = .ok loc) :
    resolveExistingPrefix fs (toText l) = toText loc ∨ DanglesTo fs (toText l) loc := by
  obtain ⟨a, b, d, rfl, ⟨hd, hstop⟩, hres⟩ := resolveExistingPrefix_spec fs l
  rw [hres]
  have hw : fs.Walks true maxLinks [] ((a ++ b).map .name) loc :=
    walks_toText.mp (openCreat_eq_ok_iff.mp hopen).2
  have hlinks : maxLinks ≤ 255 := by decide
  rcases b with _ | ⟨n, b'⟩
  · -- the whole path resolves, to where the kernel goes
    left
    rw [List.append_nil] at hw ⊢
    rw [hw.unique hd.toCreate]
  · have hunres : ¬ ∃ d', fs.Walks false 255 [] ((a ++ [n]).map .name) d' := hstop n b' rfl
    have hsplit : (a ++ n :: b').map Comp.name = (a ++ [n]).map .name ++ b'.map .name := by simp
    rcases b' with _ | ⟨m, b'⟩
    · -- the last component is the one that does not resolve
      have hmissing : fs.node loc = none := by
        by_contra hsome
        exact hunres ⟨loc, (hw.ofCreate (Option.isSome_iff_ne_none.mpr hsome)).mono hlinks⟩
      rw [List.map_append] at hw
      obtain ⟨mid, j, _, _, hmid, hlast⟩ := hw.split (by simp) fs.root_dir
      obtain rfl : mid = d := hmid.unique hd
      rcases walk_name_cases hlast.walk_eq with ⟨_, _, _, rfl⟩ | ⟨hn, hnil⟩ | ⟨hn, _, rfl⟩ |
        ⟨t, i, hn, _, _⟩
      · exact .inl rfl
      · obtain rfl : mid ++ [n] = loc := by simpa using hnil
        cases hn.symm.trans hmissing
      · cases hn.symm.trans hmissing
      right
      refine ⟨?_, hmissing, hopen⟩
      have hentry : fs.lstat (toText (a ++ [n])) = some (mid ++ [n]) := by
        refine lstat_eq_some_iff.mpr ⟨.skip :: a.map .name, n, mid, ?_, .skip hmid, by simp [hn], rfl⟩
        rw [comps_toText, if_neg (by simp), List.map_append]
        rfl
      exact namesLink_of_lstat hentry hn
    · -- the kernel gives up earlier than at the end
      rw [hsplit] at hw
      obtain ⟨mid, _, _, _, hmid, _⟩ := hw.split (by simp) fs.root_dir
      exact absurd ⟨mid, hmid.mono hlinks⟩ hunres

/-! ## A path as the services send it -/

/-- Doubled slashes and `.` components do not change what is opened. -/
theorem openCreat_clean (habs : isAbs p) (hup : .up ∉ comps p)
    {loc : Loc} (h : fs.openCreat p = .ok loc) : fs.openCreat (clean p) = .ok loc := by
  have hw := (openCreat_eq_ok_iff.mp h).2
  rw [clean_eq_toText habs, lexWalk_of_no_up [] hup, List.nil_append]
  exact openCreat_eq_ok_iff.mpr ⟨by simp [toText], walks_toText.mpr (hw.dropSkips (x := []) hup)⟩

/-- A path that creates something ends in a name, and cleaning it does not change
the entry it names. -/
theorem lstat_of_clean (habs : isAbs p) (hup : .up ∉ comps p)
    {loc e : Loc} (hopen : fs.openCreat p = .ok loc) (hmissing : fs.node loc = none)
    (h : fs.lstat (clean p) = some e) : fs.lstat p = some e := by
  have hw := (openCreat_eq_ok_iff.mp hopen).2
  rcases List.eq_nil_or_concat (comps p) with hnil | ⟨init, c, hc⟩
  · exact absurd hnil (by simp [comps])
  rw [List.concat_eq_append] at hc
  rw [hc] at hw
  obtain ⟨mid, j, _, hmid, hinit, hlast⟩ := hw.split (by simp) fs.root_dir
  rcases c with _ | _ | n
  · -- a trailing slash asks for an existing directory
    have hloc := (walks_skip_iff.mp hlast).walk_eq
    rw [walk_nil] at hloc
    rw [← Except.ok.inj hloc, hmid] at hmissing
    cases hmissing
  · exact absurd (by rw [hc]; simp) hup
  · have hinit' : fs.Walks false maxLinks [] ((names init).map .name) mid := by
      refine hinit.dropSkips (x := []) ?_
      intro hm
      exact hup (by rw [hc]; exact List.mem_append_left _ hm)
    rw [clean_eq_toText habs, lexWalk_of_no_up [] hup, hc, names_append] at h
    obtain ⟨init', n', d, hcs, hd, hsome, rfl⟩ := lstat_eq_some_iff.mp h
    rw [comps_toText, if_neg (by simp), List.nil_append, names_name, names_nil, List.map_append,
      ← List.cons_append] at hcs
    obtain ⟨hi, hn⟩ := List.append_inj' hcs rfl
    obtain rfl : n = n' := by simpa using hn
    rw [← hi] at hd
    obtain rfl : d = mid := (walks_skip_iff.mp hd).unique hinit'
    exact lstat_eq_some_iff.mpr ⟨init, n, d, hc, hinit, hsome, rfl⟩

/-- The same path, cleaned, dangles to the same place. -/
theorem DanglesTo.of_clean {loc : Loc} (habs : isAbs p)
    (hup : .up ∉ comps p) (hopen : fs.openCreat p = .ok loc) (h : DanglesTo fs (clean p) loc) :
    DanglesTo fs p loc := by
  refine ⟨?_, h.missing, hopen⟩
  have hlink := h.link
  unfold namesLink at hlink ⊢
  rcases he : fs.lstat (clean p) with _ | e
  · simp [he] at hlink
  · rw [lstat_of_clean habs hup hopen h.missing he]
    rw [he] at hlink
    exact hlink

/-- Where a path without `..` is opened, the rules admit it exactly if they accept the
path, unless it is a dangling link. -/
theorem open_cases (habs : isAbs p) (hup : .up ∉ comps p)
    {loc : Loc} (hopen : fs.openCreat p = .ok loc) (rules : List PathRule) :
    (checkPathRules fs (clean p) rules ↔ Admitted rules loc) ∨ DanglesTo fs p loc := by
  have hclean : clean p = toText (lexWalk [] (comps p)) := clean_eq_toText habs
  have hopen' : fs.openCreat (toText (lexWalk [] (comps p))) = .ok loc := by
    rw [← hclean]
    exact openCreat_clean habs hup hopen
  rcases resolveExistingPrefix_eq_or_dangles hopen' with hres | hdangle
  · left
    rw [checkPathRules_iff, hclean, hres, clean_toText]
    exact ⟨fun h => h.2.2, fun h => ⟨isAbs_toText _, rfl, h⟩⟩
  · rw [← hclean] at hdangle
    exact .inr (hdangle.of_clean habs hup hopen)

theorem up_not_mem_comps_toText (l : Loc) : .up ∉ comps (toText l) := by
  rw [comps_toText]
  split <;> simp

/-- A path that may be written, by the write rules or as a command's argument. -/
def Accepted (boot fs : FileTree) (p : Text) : Prop :=
  checkPathRules fs p (allowedWriteRules boot) ∨ writablePath boot fs p

theorem Accepted.spec {boot fs : FileTree} (h : Accepted boot fs p) : isAbs p ∧ .up ∉ comps p := by
  rcases h with h | h
  · obtain ⟨habs, hclean, -⟩ := checkPathRules_iff.mp h
    refine ⟨habs, ?_⟩
    rw [← hclean, clean_eq_toText habs]
    exact up_not_mem_comps_toText _
  · exact ⟨(writablePath_spec h).1, (writablePath_spec h).2.1⟩

/-- **Where an accepted path is opened.** The kernel stays inside the write rules
exactly if a dangling link that the path names does, and a path accepted by its name
alone, which the rules refuse, opens nothing but what such a link leads to. -/
theorem open_admitted_iff {boot fs : FileTree} {p : Text} (h : Accepted boot fs p) :
    (∀ loc, fs.openCreat p = .ok loc → Admitted (allowedWriteRules boot) loc) ↔
      (∀ loc, DanglesTo fs p loc → Admitted (allowedWriteRules boot) loc) ∧
      (FixedName (clean p) → checkPathRules fs (clean p) (allowedWriteRules boot) = false →
        ∀ loc, fs.openCreat p = .ok loc → DanglesTo fs p loc) := by
  obtain ⟨habs, hup⟩ := h.spec
  constructor
  · intro hall
    refine ⟨fun loc hdangle => hall loc hdangle.creates, ?_⟩
    intro _ hrefused loc hopen
    rcases open_cases habs hup hopen (allowedWriteRules boot) with hiff | hdangle
    · rw [hiff.mpr (hall loc hopen)] at hrefused
      cases hrefused
    · exact hdangle
  · rintro ⟨hdangles, hfixed⟩ loc hopen
    by_cases hdangle : DanglesTo fs p loc
    · exact hdangles loc hdangle
    have hiff := (open_cases habs hup hopen (allowedWriteRules boot)).resolve_right hdangle
    apply hiff.mp
    rcases h with h | h
    · rwa [(checkPathRules_iff.mp h).2.1]
    · rcases (writablePath_spec h).2.2 with hname | hrules
      · by_contra hrefused
        exact hdangle (hfixed hname (by simpa using hrefused) loc hopen)
      · exact hrules

/-- The state directory holds a link into `/etc/cron.d` whose target is missing. -/
def danglingTree : FileTree :=
  FileTree.ofList
    [("/etc", .dir), ("/etc/cron.d", .dir), ("/usr", .dir), ("/usr/local", .dir),
      ("/usr/local/bin", .dir), ("/var", .dir),
      ("/var/lib", .dir), ("/var/lib/lankeeper", .dir),
      ("/var/lib/lankeeper/state", .symlink "/etc/cron.d/job")] (by decide)

theorem fresh_file_admitted :
    Accepted danglingTree danglingTree "/var/lib/lankeeper/new" ∧
      ∀ loc, danglingTree.openCreat "/var/lib/lankeeper/new" = .ok loc →
        Admitted (allowedWriteRules danglingTree) loc := by
  have hok : Accepted danglingTree danglingTree "/var/lib/lankeeper/new" :=
    .inl (checkPathRules_of_rule stateRule_mem (by decide +kernel) (by decide +kernel)
      (by decide +kernel))
  refine ⟨hok, (open_admitted_iff hok).mpr ⟨?_, ?_⟩⟩
  · intro loc hdangle
    exact absurd hdangle.link (by decide +kernel)
  · intro hfixed
    exact absurd hfixed (by decide)

/-- A dangling link, and a name that no rule is asked about. -/
theorem dangling_link_escapes :
    (checkPathRules danglingTree "/var/lib/lankeeper/state"
        (allowedWriteRules danglingTree) ∧
      danglingTree.openCreat "/var/lib/lankeeper/state" =
        .ok (lexWalk [] (comps "/etc/cron.d/job")) ∧
      ¬ Admitted (allowedWriteRules danglingTree)
        (lexWalk [] (comps "/etc/cron.d/job"))) ∧
    writablePath danglingTree danglingTree installedBinary ∧
      danglingTree.openCreat installedBinary = .ok (lexWalk [] (comps installedBinary)) ∧
      ¬ Admitted (allowedWriteRules danglingTree) (lexWalk [] (comps installedBinary)) := by
  refine ⟨⟨?_, by decide +kernel, ?_⟩, by decide +kernel, by decide +kernel, ?_⟩
  · exact checkPathRules_of_rule stateRule_mem (by decide +kernel) (by decide +kernel)
      (by decide +kernel)
  all_goals
    unfold allowedWriteRules writeRuleTable mkcertCARoot dhcp6cScript
    repeat rw [String.toList_ofList]
    decide +kernel

end Lankeeper.Agent
