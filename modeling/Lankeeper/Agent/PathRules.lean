import Lankeeper.Lib.FileTree

/-!
# Lankeeper.Agent.PathRules — which paths the root agent touches

The path rules of `internal/agent/operations.go`. A request names a path; the
agent resolves the links in the longest prefix of it that exists
(`resolveExistingPrefix`) and compares the result with a table of rules whose
patterns were resolved the same way when the process started.

`resolveExistingPrefix_spec` is the one fact the later modules use about the
loop: the path splits into a prefix that resolves and a tail whose first
component is where resolution stopped.
-/

namespace Lankeeper.Agent

open Lib Text Path List

/-! ## The rule table -/

inductive PathRuleKind where
  | dirPrefix
  | exactFile
  | filenamePrefix
deriving DecidableEq

structure PathRule where
  pattern : Text
  kind : PathRuleKind
deriving DecidableEq

/-- `MkcertCARoot`: the directory mkcert keeps its CA and the staged pair in. -/
def mkcertCARoot : Text := "/var/lib/lankeeper-mkcert"

/-- `dhcp6cScript`: the one file the services write with execute bits. -/
def dhcp6cScript : Text := "/etc/wide-dhcpv6/dhcp6c-script"

/-- The literal `allowedWriteRules` table, before `init` resolves it. -/
def writeRuleTable : List PathRule :=
  [⟨"/etc/ppp/options", .exactFile⟩,
   ⟨"/etc/ppp/peers/wan", .exactFile⟩,
   ⟨"/etc/ppp/chap-secrets", .exactFile⟩,
   ⟨"/etc/ppp/pap-secrets", .exactFile⟩,
   ⟨"/etc/openvpn/", .dirPrefix⟩,
   ⟨"/etc/nftables.conf", .exactFile⟩,
   ⟨"/etc/unbound/", .dirPrefix⟩,
   ⟨"/etc/dnsmasq.conf", .exactFile⟩,
   ⟨"/etc/dnsmasq.d/lankeeper-ipv6-ra.conf", .exactFile⟩,
   ⟨"/etc/wireguard/", .dirPrefix⟩,
   ⟨"/etc/samba/", .dirPrefix⟩,
   ⟨"/etc/chrony/", .dirPrefix⟩,
   ⟨"/etc/rsyslog.d/", .dirPrefix⟩,
   ⟨"/etc/lankeeper/", .dirPrefix⟩,
   ⟨"/etc/default/grub.d/lankeeper.cfg", .exactFile⟩,
   ⟨"/etc/wide-dhcpv6/dhcp6c.conf", .exactFile⟩,
   ⟨dhcp6cScript, .exactFile⟩,
   ⟨"/etc/wide-dhcpv6/lankeeper-dhcp6c.env", .exactFile⟩,
   ⟨"/etc/dnscrypt-proxy/", .dirPrefix⟩,
   ⟨"/etc/fstab", .exactFile⟩,
   ⟨"/etc/pppoe-server-options", .exactFile⟩,
   ⟨"/var/lib/lankeeper/", .dirPrefix⟩,
   ⟨"/var/log/", .dirPrefix⟩,
   ⟨"/var/backups/lankeeper-pre-update-", .filenamePrefix⟩,
   ⟨mkcertCARoot, .exactFile⟩,
   ⟨mkcertCARoot ++ "/staged.crt", .exactFile⟩,
   ⟨mkcertCARoot ++ "/staged.key", .exactFile⟩]

/-- The literal `allowedReadRules` table, before `init` resolves it. -/
def readRuleTable : List PathRule :=
  [⟨"/etc/ppp/", .dirPrefix⟩,
   ⟨"/etc/openvpn/", .dirPrefix⟩,
   ⟨"/etc/wireguard/", .dirPrefix⟩,
   ⟨"/etc/lankeeper/", .dirPrefix⟩,
   ⟨"/etc/unbound/", .dirPrefix⟩,
   ⟨"/etc/dnsmasq.conf", .exactFile⟩,
   ⟨"/etc/dnsmasq.d/", .dirPrefix⟩,
   ⟨"/etc/samba/", .dirPrefix⟩,
   ⟨"/etc/chrony/", .dirPrefix⟩,
   ⟨"/etc/rsyslog.d/", .dirPrefix⟩,
   ⟨"/etc/wide-dhcpv6/", .dirPrefix⟩,
   ⟨"/etc/dnscrypt-proxy/", .dirPrefix⟩,
   ⟨"/etc/fstab", .exactFile⟩,
   ⟨"/var/lib/lankeeper/", .dirPrefix⟩,
   ⟨"/var/log/", .dirPrefix⟩,
   ⟨"/var/run/", .dirPrefix⟩,
   ⟨mkcertCARoot ++ "/staged.crt", .exactFile⟩,
   ⟨mkcertCARoot ++ "/staged.key", .exactFile⟩,
   ⟨mkcertCARoot ++ "/rootCA.pem", .exactFile⟩,
   ⟨"/proc/mdstat", .exactFile⟩]

/-! ## Resolution -/

/-- `filepath.EvalSymlinks` of an absolute path: every component must exist, and
Go gives up after 255 links. -/
def evalSymlinks (fs : FileTree) (p : Text) : Option Text :=
  match fs.walk false 255 [] (comps p) with
  | .ok l => some (toText l)
  | .error _ => none

/-- The loop of `resolveExistingPrefix`. The fuel bounds the number of parents
taken; `resolveLoop_eq` shows the length of the path is enough. -/
def resolveLoop (fs : FileTree) (path : Text) : Nat → Text → Text → Text
  | 0, _, _ => path
  | fuel + 1, cur, rest =>
    match evalSymlinks fs cur with
    | some resolved => join resolved rest
    | none =>
      let parent := dir cur
      if parent = cur then path
      else resolveLoop fs path fuel parent (join (base cur) rest)

/-- `resolveExistingPrefix`. -/
def resolveExistingPrefix (fs : FileTree) (path : Text) : Text :=
  resolveLoop fs path (path.length + 1) path []

/-- `strings.TrimSuffix(p, "/")`. -/
def trimSlash (p : Text) : Text :=
  if p.getLast? = some '/' then p.dropLast else p

/-- `resolveRulePatterns`, on one rule. -/
def resolvePattern (fs : FileTree) (r : PathRule) : PathRule :=
  match r.kind with
  | .dirPrefix => { r with pattern := resolveExistingPrefix fs (trimSlash r.pattern) ++ ['/'] }
  | .exactFile => { r with pattern := resolveExistingPrefix fs r.pattern }
  | .filenamePrefix =>
    { r with pattern := join (resolveExistingPrefix fs (dir r.pattern)) (base r.pattern) }

/-- `allowedWriteRules` of a process started while the tree was `boot`. -/
def allowedWriteRules (boot : FileTree) : List PathRule :=
  writeRuleTable.map (resolvePattern boot)

/-- `allowedReadRules` of a process started while the tree was `boot`. -/
def allowedReadRules (boot : FileTree) : List PathRule :=
  readRuleTable.map (resolvePattern boot)

/-! ## Matching -/

/-- `pathRule.admits`. -/
def PathRule.admits (r : PathRule) (p : Text) : Bool :=
  match r.kind with
  | .exactFile => p == r.pattern
  | _ => r.pattern.isPrefixOf p

/-- `pathRule.base`: the directory a rule confines access to. -/
def PathRule.base (r : PathRule) : Text :=
  match r.kind with
  | .dirPrefix => trimSlash r.pattern
  | _ => dir r.pattern

/-- `ruleMatch`: the resolved path and the base of the first rule that admits
it. A path that is not absolute and clean is refused. -/
def ruleMatch (fs : FileTree) (path : Text) (rules : List PathRule) : Option (Text × Text) :=
  if isAbs path = false ∨ path ≠ clean path then none
  else
    let resolved := resolveExistingPrefix fs path
    (rules.find? (·.admits resolved)).map fun r => (resolved, r.base)

/-- `checkPathRules`. -/
def checkPathRules (fs : FileTree) (path : Text) (rules : List PathRule) : Bool :=
  (ruleMatch fs path rules).isSome

/-- A location some rule admits. -/
def Admitted (rules : List PathRule) (l : Loc) : Prop :=
  ∃ r ∈ rules, r.admits (toText l)

instance (rules : List PathRule) (l : Loc) : Decidable (Admitted rules l) :=
  inferInstanceAs (Decidable (∃ r ∈ rules, _))

/-! ## What the resolution loop computes -/

theorem length_le_toText (l : Loc) : l.length ≤ (toText l).length := by
  induction l using reverseRecOn with
  | nil => simp
  | append_singleton l n ih =>
    rw [toText_concat]
    split
    · next h => simp [h]
    · simp only [length_append, length_cons, length_nil]
      omega

/-- Where `resolveExistingPrefix` stops: `a` is a prefix that resolves, and no
longer one does. -/
def StopsAt (fs : FileTree) (a b : Loc) (d : Loc) : Prop :=
  fs.Walks false 255 [] (a.map .name) d ∧
    ∀ n b', b = n :: b' → ¬ ∃ d', fs.Walks false 255 [] ((a ++ [n]).map .name) d'

theorem evalSymlinks_toText (fs : FileTree) (l : Loc) {d : Loc}
    (h : fs.Walks false 255 [] (l.map .name) d) : evalSymlinks fs (toText l) = some (toText d) := by
  unfold evalSymlinks
  rw [FileTree.walk_comps_toText, h.walk_eq]

theorem evalSymlinks_toText_none (fs : FileTree) (l : Loc)
    (h : ¬ ∃ d, fs.Walks false 255 [] (l.map .name) d) : evalSymlinks fs (toText l) = none := by
  unfold evalSymlinks
  rw [FileTree.walk_comps_toText]
  split
  · next d hd => exact absurd ⟨d, FileTree.walks_of_walk_eq hd⟩ h
  · rfl

/-- The loop from any point of it: `a` is still to be tried, the tail `b` has
been given up. -/
theorem resolveLoop_eq (fs : FileTree) (path : Text) (a b : Loc) (fuel : Nat)
    (hfuel : a.length < fuel)
    (hb : ∀ n b', b = n :: b' → ¬ ∃ d', fs.Walks false 255 [] ((a ++ [n]).map .name) d') :
    ∃ a' b' d, a ++ b = a' ++ b' ∧ StopsAt fs a' b' d ∧
      resolveLoop fs path fuel (toText a) (relText b) = toText (d ++ b') := by
  induction a using reverseRecOn generalizing b fuel with
  | nil =>
    -- the root always resolves
    obtain ⟨fuel, rfl⟩ : ∃ f, fuel = f + 1 := ⟨fuel - 1, by simp at hfuel; omega⟩
    have hroot : fs.Walks false 255 [] (([] : Loc).map .name) [] := .nil _ _
    refine ⟨[], b, [], rfl, ⟨hroot, hb⟩, ?_⟩
    rw [resolveLoop, evalSymlinks_toText fs [] hroot]
    exact join_toText_relText [] b
  | append_singleton a n ih =>
    obtain ⟨fuel, rfl⟩ : ∃ f, fuel = f + 1 := ⟨fuel - 1, by simp at hfuel; omega⟩
    by_cases hex : ∃ d, fs.Walks false 255 [] ((a ++ [n]).map .name) d
    · obtain ⟨d, hd⟩ := hex
      refine ⟨a ++ [n], b, d, rfl, ⟨hd, hb⟩, ?_⟩
      rw [resolveLoop, evalSymlinks_toText fs _ hd]
      exact join_toText_relText d b
    · have hparent : toText a ≠ toText (a ++ [n]) := by
        intro h
        have := congrArg length (toText_injective h)
        simp at this
      obtain ⟨a', b', d, hsplit, hstop, hres⟩ := ih (n :: b) fuel
        (by simp at hfuel; omega) (by
          rintro m b' hmb
          obtain ⟨rfl, rfl⟩ := cons.inj hmb
          exact hex)
      refine ⟨a', b', d, by simpa using hsplit, hstop, ?_⟩
      rw [resolveLoop, evalSymlinks_toText_none fs _ hex]
      simp only [dir_toText_concat, if_neg hparent, base_toText_concat, join_name_relText]
      exact hres

/-- **What `resolveExistingPrefix` returns**: the resolved location of the
longest prefix that exists, with the rest of the path appended as it is. -/
theorem resolveExistingPrefix_spec (fs : FileTree) (l : Loc) :
    ∃ a b d, l = a ++ b ∧ StopsAt fs a b d ∧
      resolveExistingPrefix fs (toText l) = toText (d ++ b) := by
  obtain ⟨a, b, d, hsplit, hstop, hres⟩ := resolveLoop_eq fs (toText l) l []
    ((toText l).length + 1) (Nat.lt_succ_of_le (length_le_toText l)) (by simp)
  refine ⟨a, b, d, by simpa using hsplit, hstop, ?_⟩
  exact hres

variable {fs : FileTree} {p : Text}

theorem checkPathRules_iff {rules : List PathRule} :
    checkPathRules fs p rules ↔ isAbs p ∧ clean p = p ∧
      ∃ r ∈ rules, r.admits (resolveExistingPrefix fs p) := by
  unfold checkPathRules ruleMatch
  split_ifs with hshape
  · simp only [Option.isSome_none, Bool.false_eq_true, false_iff]
    rintro ⟨habs, hclean, -⟩
    rcases hshape with h | h
    · rw [habs] at h
      cases h
    · exact h hclean.symm
  · push Not at hshape
    have habs : isAbs p := by simpa using hshape.1
    simp only [Option.isSome_map, find?_isSome, habs, ← hshape.2, true_and]

/-- One rule that admits what the path resolves to is enough. -/
theorem checkPathRules_of_rule {boot fs : FileTree} {table : List PathRule}
    {r : PathRule} (hr : r ∈ table) (habs : isAbs p) (hclean : clean p = p)
    (hadm : (resolvePattern boot r).admits (resolveExistingPrefix fs p)) :
    checkPathRules fs p (table.map (resolvePattern boot)) := by
  exact checkPathRules_iff.mpr ⟨habs, hclean, _, mem_map_of_mem hr, hadm⟩

theorem stateRule_mem : (⟨"/var/lib/lankeeper/", .dirPrefix⟩ : PathRule) ∈ writeRuleTable :=
  mem_of_getElem? (i := 21) rfl

/-! ## Without links -/

theorem resolveExistingPrefix_noLinks (h : fs.NoLinks)
    (habs : isAbs p) (hclean : clean p = p) : resolveExistingPrefix fs p = p := by
  have hp : p = toText (lexWalk [] (comps p)) := by
    rw [← clean_eq_toText habs, hclean]
  obtain ⟨a, b, d, hl, hstop, hres⟩ := resolveExistingPrefix_spec fs (lexWalk [] (comps p))
  have hd : d = a := by simpa using h.walks_eq hstop.1 rfl
  rw [← hp] at hres
  rw [hres, hd, ← hl, ← hp]

/-- The pattern is clean: what of it is resolved when the process starts, and the pattern
put together again. -/
def PathRule.isClean (r : PathRule) : Bool :=
  match r.kind with
  | .dirPrefix => isAbs (trimSlash r.pattern) && clean (trimSlash r.pattern) == trimSlash r.pattern &&
      trimSlash r.pattern ++ ['/'] == r.pattern
  | .exactFile => isAbs r.pattern && clean r.pattern == r.pattern
  | .filenamePrefix => isAbs (dir r.pattern) && clean (dir r.pattern) == dir r.pattern &&
      join (dir r.pattern) (Path.base r.pattern) == r.pattern

theorem resolvePattern_noLinks {boot : FileTree} (h : boot.NoLinks) {r : PathRule}
    (hr : r.isClean) : resolvePattern boot r = r := by
  obtain ⟨pattern, kind⟩ := r
  unfold resolvePattern
  cases kind with
  | dirPrefix =>
    simp only [PathRule.isClean, Bool.and_eq_true, beq_iff_eq] at hr
    simp only [resolveExistingPrefix_noLinks h hr.1.1 hr.1.2, hr.2]
  | exactFile =>
    simp only [PathRule.isClean, Bool.and_eq_true, beq_iff_eq] at hr
    simp only [resolveExistingPrefix_noLinks h hr.1 hr.2]
  | filenamePrefix =>
    simp only [PathRule.isClean, Bool.and_eq_true, beq_iff_eq] at hr
    simp only [resolveExistingPrefix_noLinks h hr.1.1 hr.1.2, hr.2]

/-- Without links the rules mean what the table says. -/
theorem allowedWriteRules_noLinks {boot : FileTree} (h : boot.NoLinks) :
    allowedWriteRules boot = writeRuleTable := by
  have htable : ∀ r ∈ writeRuleTable, r.isClean := by
    unfold writeRuleTable mkcertCARoot dhcp6cScript
    repeat rw [String.toList_ofList]
    decide +kernel
  unfold allowedWriteRules
  refine (map_congr_left ?_).trans (map_id writeRuleTable)
  intro r hr
  exact resolvePattern_noLinks h (htable r hr)

theorem checkPathRules_noLinks (h : fs.NoLinks)
    (habs : isAbs p) (hclean : clean p = p) (rules : List PathRule) :
    checkPathRules fs p rules = rules.any fun r => r.admits p := by
  unfold checkPathRules ruleMatch
  rw [if_neg (by simp [habs, hclean]), resolveExistingPrefix_noLinks h habs hclean,
    Option.isSome_map, isSome_find?]

end Lankeeper.Agent
