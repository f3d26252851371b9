import Lankeeper.Agent.PathRules

/-!
# Lankeeper.Agent.ArgRules — argument rules of the file commands

The command name alone does not bound what a caller can do with `cp`, `rm`,
`chmod` or `tar`, so `internal/agent/argrules.go` checks the argument vector
against the shapes the services send. `boot` is the tree when the agent process
started (the rule patterns are resolved then), `fs` the tree at the request.
-/

namespace Lankeeper.Agent

open Lib Text Path

def installedBinary : Text := "/usr/local/bin/lankeeper"

/-- `UpdateGuardBinary`: the backup of the previous binary. -/
def updateGuardBinary : Text := "/usr/local/bin/lankeeper.bak"

def preUpdateSnapshotPrefix : Text := "/var/backups/lankeeper-pre-update-"

/-- The directories a backup archive may carry. -/
def backupSourceDirs : List Text :=
  ["/etc/lankeeper", "/etc/unbound", "/etc/openvpn"]

/-- `cleanAbs`: the cleaned path, unless it is relative or climbs. -/
def cleanAbs (p : Text) : Option Text :=
  if isAbs p = false ∨ ['.', '.'] ∈ p.splitOn '/' then none
  else some (clean p)

/-- The names `writablePath` accepts without asking the path rules. -/
def FixedName (c : Text) : Prop :=
  c = installedBinary ∨ c = updateGuardBinary ∨ preUpdateSnapshotPrefix <+: c

instance (c : Text) : Decidable (FixedName c) :=
  inferInstanceAs (Decidable (_ ∨ _ ∨ _))

/-- `writablePath`: may a command create, change or remove `p`? -/
def writablePath (boot fs : FileTree) (p : Text) : Bool :=
  match cleanAbs p with
  | none => false
  | some c => decide (FixedName c) || checkPathRules fs c (allowedWriteRules boot)

/-- `readablePath`: may a command read `p`? -/
def readablePath (boot fs : FileTree) (p : Text) : Bool :=
  match cleanAbs p with
  | none => false
  | some c =>
    decide (c = installedBinary ∨ c = updateGuardBinary) ||
      checkPathRules fs c (allowedReadRules boot)

/-! ## The validators -/

/-- `validateCpArgs` accepts `cp -f SRC DST` and `cp -- SRC DST`. -/
def validateCpArgs (boot fs : FileTree) : List Text → Except Text Unit
  | [flag, src, dst] =>
    if flag ≠ "-f" ∧ flag ≠ "--" then
      .error "cp: expected -f or -- and two paths"
    else if readablePath boot fs src && writablePath boot fs dst then .ok ()
    else .error ("cp: " ++ src ++ " -> " ++ dst ++
      " is outside the permitted paths")
  | _ => .error "cp: expected -f or -- and two paths"

/-- The loop of `validateRmArgs` over the paths. -/
def checkRmPaths (boot fs : FileTree) : List Text → Except Text Unit
  | [] => .ok ()
  | p :: ps =>
    if writablePath boot fs p then checkRmPaths boot fs ps
    else .error ("rm: " ++ p ++ " is outside the permitted paths")

/-- The paths of `rm -f [--] PATH...`, after the flag. -/
def rmPaths : List Text → List Text
  | p :: ps => if p = "--" then ps else p :: ps
  | [] => []

/-- `validateRmArgs` accepts `rm -f [--] PATH...`. -/
def validateRmArgs (boot fs : FileTree) : List Text → Except Text Unit
  | flag :: p :: ps =>
    if flag ≠ "-f" then .error "rm: expected -f and at least one path"
    else if rmPaths (p :: ps) = [] then .error "rm: no path given"
    else checkRmPaths boot fs (rmPaths (p :: ps))
  | _ => .error "rm: expected -f and at least one path"

/-- `validateChmodArgs` accepts 600 and 640 on a writable path, and +x only on
the installed binary. -/
def validateChmodArgs (boot fs : FileTree) : List Text → Except Text Unit
  | [mode, p] =>
    if (mode = "600" ∨ mode = "640") ∧ writablePath boot fs p then .ok ()
    else if mode = "+x" ∧ p = installedBinary then .ok ()
    else .error ("chmod: " ++ mode ++ " " ++ p ++ " is not permitted")
  | _ => .error "chmod: expected a mode and one path"

/-- The loop of `validateTarArgs` over the `-C PARENT NAME` triples. -/
def checkTarTriples : List Text → Except Text Unit
  | flag :: parent :: name :: rest =>
    let src := join parent name
    if flag ≠ "-C" ∨ src ∉ backupSourceDirs then
      .error ("tar: " ++ src ++ " is not a backup source directory")
    else checkTarTriples rest
  | _ => .ok ()

/-- `validateTarArgs` accepts `czf OUT (-C PARENT NAME)...`. -/
def validateTarArgs (boot fs : FileTree) : List Text → Except Text Unit
  | mode :: out :: rest =>
    if rest.length < 3 ∨ mode ≠ "czf" ∨ rest.length % 3 ≠ 0 then
      .error "tar: only the backup export shape is permitted"
    else if writablePath boot fs out then checkTarTriples rest
    else .error ("tar: " ++ out ++ " is outside the permitted paths")
  | _ => .error "tar: only the backup export shape is permitted"

/-! ## What acceptance says -/

variable {p : Text} {boot fs : FileTree} {args : List Text}

theorem up_not_mem_comps (h : ['.', '.'] ∉ p.splitOn '/') : .up ∉ comps p := by
  intro hup
  obtain ⟨s, hs, hcomp⟩ := List.mem_map.mp hup
  have hdots : s = ['.', '.'] := by
    unfold comp at hcomp
    split at hcomp
    · cases hcomp
    · split at hcomp
      · next h => exact h
      · cases hcomp
  exact h (hdots ▸ hs)

/-- `cleanAbs` lets through absolute paths without a `..` component only. -/
theorem cleanAbs_spec {c : Text} (h : cleanAbs p = some c) :
    isAbs p ∧ c = clean p ∧ .up ∉ comps p := by
  unfold cleanAbs at h
  split_ifs at h
  next hshape =>
  push Not at hshape
  exact ⟨by simpa using hshape.1, (Option.some.inj h).symm, up_not_mem_comps hshape.2⟩

/-- A writable path is a fixed name or passes the write rules. -/
theorem writablePath_spec (h : writablePath boot fs p) :
    isAbs p ∧ .up ∉ comps p ∧
      (FixedName (clean p) ∨ checkPathRules fs (clean p) (allowedWriteRules boot)) := by
  unfold writablePath at h
  split at h
  · cases h
  · next c hc =>
    obtain ⟨habs, rfl, hup⟩ := cleanAbs_spec hc
    exact ⟨habs, hup, by simpa using h⟩

theorem writablePath_of_rule {r : PathRule} (hr : r ∈ writeRuleTable) (hc : cleanAbs p = some p)
    (hadm : (resolvePattern boot r).admits (resolveExistingPrefix fs p)) :
    writablePath boot fs p := by
  obtain ⟨habs, hclean, -⟩ := cleanAbs_spec hc
  have hrules : checkPathRules fs p (allowedWriteRules boot) :=
    checkPathRules_of_rule hr habs hclean.symm hadm
  simp [writablePath, hc, hrules]

theorem readablePath_of_rule {r : PathRule} (hr : r ∈ readRuleTable) (hc : cleanAbs p = some p)
    (hadm : (resolvePattern boot r).admits (resolveExistingPrefix fs p)) :
    readablePath boot fs p := by
  obtain ⟨habs, hclean, -⟩ := cleanAbs_spec hc
  have hrules : checkPathRules fs p (allowedReadRules boot) :=
    checkPathRules_of_rule hr habs hclean.symm hadm
  simp [readablePath, hc, hrules]

theorem validateCpArgs_spec (h : validateCpArgs boot fs args = .ok ()) :
    ∃ flag src dst, args = [flag, src, dst] ∧ (flag = "-f" ∨ flag = "--") ∧
      readablePath boot fs src ∧ writablePath boot fs dst := by
  unfold validateCpArgs at h
  split at h
  · next flag src dst =>
    split at h
    · cases h
    next hflag =>
    split at h
    · next hperm =>
      rw [Bool.and_eq_true] at hperm
      refine ⟨flag, src, dst, rfl, ?_, hperm⟩
      by_cases hf : flag = "-f"
      · exact .inl hf
      · exact .inr (not_not.mp fun hdash => hflag ⟨hf, hdash⟩)
    · cases h
  · cases h

theorem validateCpArgs_force {src dst : Text} (hr : readablePath boot fs src)
    (hw : writablePath boot fs dst) : validateCpArgs boot fs ["-f", src, dst] = .ok () := by
  rw [validateCpArgs, if_neg (fun h => h.1 rfl), hr, hw]
  rfl

theorem validateRmArgs_force (hp : p ≠ "--") (hw : writablePath boot fs p = true) :
    validateRmArgs boot fs ["-f", p] = .ok () := by
  have hpaths : rmPaths [p] = [p] := if_neg hp
  rw [validateRmArgs, if_neg (fun h => h rfl), hpaths, if_neg (List.cons_ne_nil p []),
    checkRmPaths, if_pos hw]
  rfl

theorem checkRmPaths_spec {ps : List Text} (h : checkRmPaths boot fs ps = .ok ()) :
    ∀ p ∈ ps, writablePath boot fs p := by
  induction ps with
  | nil => simp
  | cons p ps ih =>
    unfold checkRmPaths at h
    split at h
    · next hp =>
      intro q hq
      rcases List.mem_cons.mp hq with rfl | hq
      · exact hp
      · exact ih h q hq
    · cases h

theorem validateRmArgs_spec (h : validateRmArgs boot fs args = .ok ()) :
    ∃ ps, args = "-f".toList :: ps ∧ ∀ p ∈ rmPaths ps, writablePath boot fs p := by
  unfold validateRmArgs at h
  split at h
  · next flag p ps =>
    split at h
    · cases h
    · next hflag =>
      split_ifs at h
      exact ⟨p :: ps, by rw [not_not.mp hflag], checkRmPaths_spec h⟩
  · cases h

theorem validateChmodArgs_spec (h : validateChmodArgs boot fs args = .ok ()) :
    ∃ mode p, args = [mode, p] ∧ (writablePath boot fs p ∨ p = installedBinary) := by
  unfold validateChmodArgs at h
  split at h
  · next mode p =>
    split at h
    · next hmode => exact ⟨mode, p, rfl, .inl hmode.2⟩
    · split at h
      · next hx => exact ⟨mode, p, rfl, .inr hx.2⟩
      · cases h
  · cases h

end Lankeeper.Agent
