import Lankeeper.Lib.Nft.MarkLines
import Lankeeper.Routing.Service

/-!
# Lankeeper.Routing.Submission — from the policy form to the nft script

`internal/web/handlers/routing.go` reads a policy from a form. The entries of a list are
checked after trimming them and kept untrimmed, and a prefix may be one of IPv6. The
name, the tunnel and the domains are checked by `ValidateRoutingPolicy`. The script is
put together from these values as they are.

`loadMarks_generateFullNftChain` reads the script back as the rules of the chain, and
`script_sound_iff` says for which policies each line of the script is a command.
-/

namespace Lankeeper.Routing

open Lib Nft Text List

/-! ## The form -/

structure PolicyForm where
  name : Text
  tunnel : Text
  srcMacs : Text := []
  srcIps : Text := []
  dstIps : Text := []
  domains : Text := []
deriving DecidableEq

/-- The locale keys of the errors, each with the entry as submitted. -/
inductive FormError
  | invalidMAC (bad : Text)
  | invalidCIDR (bad : Text)
deriving DecidableEq

/-- `ValidateMAC`: six groups of two hexadecimal digits. -/
def isMAC (t : Text) : Bool :=
  (t.splitOn ':').length = 6 ∧
    (t.splitOn ':').all fun g => g.length = 2 ∧ g.all fun c => (Address.hexDigit c).isSome

/-- `ValidateCIDR`. -/
def isCIDR (t : Text) : Bool :=
  (Prefix.parseCIDR t).isSome

/-- `splitChecked`: the entries, or the first one that is not valid. -/
def splitChecked (raw : Text) (valid : Text → Bool) : Except Text (List Text) :=
  if raw = [] then .ok []
  else
    match (raw.splitOn ',').find? fun item => ¬ valid (trimSpace item) with
    | some item => .error item
    | none => .ok (raw.splitOn ',')

/-- `nonEmptyLines`. -/
def nonEmptyLines (raw : Text) : List Text :=
  ((raw.splitOn '\n').map trimSpace).filter (· ≠ [])

/-- `parsePolicyForm`. -/
def parsePolicyForm (form : PolicyForm) : Except FormError RoutingPolicy := do
  let macs ← (splitChecked form.srcMacs isMAC).mapError .invalidMAC
  let srcIPs ← (splitChecked form.srcIps isCIDR).mapError .invalidCIDR
  let dstIPs ← (splitChecked form.dstIps isCIDR).mapError .invalidCIDR
  return { name := form.name, enabled := true, tunnel := form.tunnel, srcMACs := macs
           srcIPs := srcIPs, dstIPs := dstIPs, domains := nonEmptyLines form.domains }

/-- A request of the web interface, and whether the file gets written. -/
inductive Submission
  | add (saved : Bool) (form : PolicyForm)
  | delete (saved : Bool) (name : Text)
  | toggle (saved : Bool) (name : Text) (enabled : Bool)
  | reorder (saved : Bool) (names : List Text)

/-- `HandleAddPolicy` and the other handlers: the policies after a request. -/
def Submission.handle (ps : List RoutingPolicy) : Submission → List RoutingPolicy
  | .add saved form =>
    match parsePolicyForm form with
    | .error _ => ps
    | .ok p => (addPolicy saved p ps).2
  | .delete saved name => (removePolicy saved name ps).2
  | .toggle saved name enabled => (togglePolicy saved name enabled ps).2
  | .reorder saved names => (updatePriorities saved names ps).2

/-- The policies after a number of requests, from none. -/
def submitted (xs : List Submission) : List RoutingPolicy :=
  xs.foldl Submission.handle []

/-! ### What is accepted -/

theorem splitChecked_ok {raw : Text} {valid : Text → Bool} {items : List Text}
    (h : splitChecked raw valid = .ok items) : ∀ v ∈ items, valid (trimSpace v) := by
  unfold splitChecked at h
  split_ifs at h
  · cases h
    simp
  split at h
  · cases h
  · rename_i hnone
    cases h
    intro v hv
    simpa using List.find?_eq_none.mp hnone v hv

/-- The fields that the form does not have are empty, and the entries of the lists are valid once
they are trimmed. -/
structure FromForm (p : RoutingPolicy) : Prop where
  macs : ∀ v ∈ p.srcMACs, isMAC (trimSpace v)
  prefixes : ∀ v ∈ p.srcIPs ++ p.dstIPs, isCIDR (trimSpace v)
  dstPorts : p.dstPorts = []
  killSwitch : p.killSwitch = false
  schedule : p.schedule = []
  name : isPolicyName p.name

variable {p : RoutingPolicy}

theorem FromForm.parsed {form : PolicyForm} (h : parsePolicyForm form = .ok p)
    (hvalid : validateRoutingPolicy p = .ok ()) : FromForm p := by
  have hname : isPolicyName p.name := by
    obtain ⟨⟨⟩, hname, -⟩ := exists_of_bind_ok hvalid
    simpa using failIf_ok hname
  simp only [parsePolicyForm, bind_ok_iff, mapError_ok_iff] at h
  obtain ⟨macs, hmacs, srcIPs, hsrc, dstIPs, hdst, ⟨⟩⟩ := h
  refine ⟨splitChecked_ok hmacs, ?_, rfl, rfl, rfl, hname⟩
  rw [forall_mem_append]
  exact ⟨splitChecked_ok hsrc, splitChecked_ok hdst⟩

/-- Edits change the priority and whether a policy is enabled. -/
theorem FromForm.edited (h : FromForm p) (priority : Int) (enabled : Bool) :
    FromForm { p with priority := priority, enabled := enabled } :=
  ⟨h.macs, h.prefixes, h.dstPorts, h.killSwitch, h.schedule, h.name⟩

theorem mem_setPriority {name : Text} {priority : Int} {ps : List RoutingPolicy}
    (h : p ∈ setPriority name priority ps) :
    p ∈ ps ∨ ∃ q ∈ ps, p = { q with priority := priority } := by
  induction ps with
  | nil => cases h
  | cons q ps ih =>
    rw [setPriority] at h
    split_ifs at h
    · rcases mem_cons.mp h with rfl | h
      · exact .inr ⟨q, mem_cons_self, rfl⟩
      · exact .inl (mem_cons_of_mem _ h)
    · rcases mem_cons.mp h with rfl | h
      · exact .inl mem_cons_self
      · rcases ih h with h | ⟨q', hq', rfl⟩
        · exact .inl (mem_cons_of_mem _ h)
        · exact .inr ⟨q', mem_cons_of_mem _ hq', rfl⟩

/-- One request. -/
theorem handle_fromForm {ps : List RoutingPolicy} (h : ∀ p ∈ ps, FromForm p) (x : Submission) :
    ∀ p ∈ x.handle ps, FromForm p := by
  cases x with
  | add saved form =>
    rw [Submission.handle]
    split
    · exact h
    rename_i q hq
    rw [addPolicy]
    split
    · exact h
    rename_i hvalid
    have hform := FromForm.parsed hq hvalid
    intro p hp
    rcases mem_append.mp hp with hp | hp
    · exact h p hp
    · rw [mem_singleton.mp hp]
      split_ifs
      · exact hform.edited _ _
      · exact hform
  | delete saved name =>
    rw [Submission.handle, removePolicy]
    split_ifs
    · exact fun p hp => h p (mem_of_mem_eraseP hp)
    · exact h
  | toggle saved name enabled =>
    rw [Submission.handle, togglePolicy]
    split
    · exact h
    · rename_i q hq
      intro p hp
      rcases mem_or_eq_of_mem_set hp with hp | rfl
      · exact h p hp
      · exact (h q (mem_of_find?_eq_some hq)).edited _ _
  | reorder saved names =>
    rw [Submission.handle, updatePriorities]
    generalize names.zipIdx = steps
    dsimp only
    induction steps generalizing ps with
    | nil => exact h
    | cons step steps ih =>
      rw [foldl_cons]
      refine ih fun p hp => ?_
      rcases mem_setPriority hp with hp | ⟨q, hq, rfl⟩
      · exact h p hp
      · exact (h q hq).edited _ _

theorem submitted_fromForm (xs : List Submission) : ∀ p ∈ submitted xs, FromForm p := by
  unfold submitted
  induction xs using reverseRecOn with
  | nil => exact fun p hp => absurd hp not_mem_nil
  | append_singleton xs x ih =>
    rw [foldl_append]
    exact handle_fromForm ih x

/-! ## The script -/

/-- The lines of the script are the commands written, each complete and with operands of the right
kind. -/
structure ScriptSound (ts : Tunnels) (policies : List RoutingPolicy) : Prop where
  lines : (generateFullNftChain ts policies).splitOn '\n' =
    (chainCommands ts policies).map (fun c => unwords c.words) ++ [[]]
  sound : ∀ c ∈ chainCommands ts policies, Sound (unwords c.words)

/-- Is the trimmed entry an IPv4 prefix? -/
def isIPv4 (v : Text) : Bool :=
  (Prefix.parse (trimSpace v)).any (·.family == .ip4)

/-- The white space around the entries is blanks, their prefixes are of IPv4, and the mark has 32
bits. -/
@[mk_iff] structure Plain (p : RoutingPolicy) (fwmark : Int) : Prop where
  blanks : ∀ v ∈ p.srcMACs ++ p.srcIPs ++ p.dstIPs, ∀ c ∈ v, isSpace c → blank c
  family : ∀ v ∈ p.srcIPs ++ p.dstIPs, isIPv4 v
  fwmark : sources p ++ destinations p ++ domainMatches p ≠ [] → 0 ≤ fwmark ∧ fwmark ≤ 4294967295

theorem scriptSound_iff (ts : Tunnels) (policies : List RoutingPolicy) :
    ScriptSound ts policies ↔ ∀ c ∈ chainCommands ts policies, Sound (unwords c.words) := by
  refine ⟨fun h => h.sound, fun h => ⟨?_, h⟩⟩
  have hlines := (splitOn_lines_iff '\n'
    ((chainCommands ts policies).map fun c => unwords c.words)).mpr ?_
  · rw [flatMap_map] at hlines
    exact hlines
  · intro l hl
    obtain ⟨c, hc, rfl⟩ := mem_map.mp hl
    exact (h c hc).1

/-! ### The lines of one policy -/

theorem readMAC_of_isMAC {t : Text} (h : isMAC t) : (readMAC t).isSome := by
  simp only [isMAC, decide_eq_true_eq, all_eq_true] at h
  have hgroups : ∀ g ∈ t.splitOn ':', (Address.hexGroup g).isSome := by
    intro g hg
    obtain ⟨hlen, hdigits⟩ := h.2 g hg
    obtain ⟨ds, hds⟩ := exists_mapM_iff.mpr hdigits
    rw [Address.hexGroup, if_pos (by omega), hds]
    rfl
  obtain ⟨ns, hns⟩ := exists_mapM_iff.mpr hgroups
  have hshort : (t.splitOn ':').all (·.length ≤ 2) := by
    rw [all_eq_true]
    intro g hg
    rw [decide_eq_true_eq, (h.2 g hg).1]
  rw [readMAC, if_pos ⟨h.1, hshort⟩, hns]
  rfl

theorem prefix_of_isCIDR {t : Text} (h : isCIDR t) :
    (∀ d ∈ t, Address.isAddressChar d) ∧ '/' ∈ t := by
  obtain ⟨q, hq⟩ := Option.isSome_iff_exists.mp h
  exact ⟨Prefix.parseCIDR_chars hq, Prefix.slash_mem hq⟩

/-- The characters of set names. -/
def isSetChar (c : Char) : Bool :=
  c.isAlphanum || c == '_'

theorem setName_chars (h : isPolicyName p.name) : ∀ c ∈ setName p, isSetChar c := by
  simp only [isPolicyName, decide_eq_true_eq, all_eq_true] at h
  unfold setName sanitizeName
  rw [forall_mem_append]
  refine ⟨all_eq_true.mp (by decide), ?_⟩
  intro c hc
  obtain ⟨d, hd, rfl⟩ := mem_map.mp hc
  have hchar := h.2.2 d hd
  split_ifs with hsub
  · rfl
  · simp only [not_or] at hsub
    simpa [isSetChar, hsub.2.1] using hchar

theorem setName_unbroken (h : isPolicyName p.name) : ∀ c ∈ setName p, breaks c = false :=
  fun c hc => breaks_eq_false (f := isSetChar) (by decide) (setName_chars h c hc)

theorem setName_proper (h : isPolicyName p.name) : (Token.word (setName p)).Proper := by
  have hunder : '_' ∈ setName p := mem_append_left _ (by decide)
  exact word_proper (f := isSetChar) (by decide) (ne_nil_of_mem hunder) (setName_chars h)
    (ofWord_eq_word (.inl ⟨'_', hunder, rfl⟩))

theorem pbrPolicies_proper : pbrPolicies.Proper := by
  unfold ChainName.Proper
  decide +kernel

/-- The commands of a policy that came from a form. -/
theorem forall_writePolicyRules (h : FromForm p) (fwmark : Int) (P : MarkCommand → Prop) :
    (∀ c ∈ writePolicyRules p fwmark, P c) ↔
      (∀ v ∈ p.srcMACs, P (.addRule pbrPolicies (valueRule .etherSaddr v fwmark))) ∧
      (∀ v ∈ p.srcIPs, P (.addRule pbrPolicies (valueRule (.address .source) v fwmark))) ∧
      (∀ v ∈ p.dstIPs, P (.addRule pbrPolicies (valueRule (.address .destination) v fwmark))) ∧
      (p.domains ≠ [] → P (.addSet "inet" "filter" (setName p) "ipv4_addr" "timeout") ∧
        P (.addRule pbrPolicies ⟨[.inSet (setName p)], .setMark fwmark⟩)) := by
  have hrule : ∀ m, markRule p fwmark m = ⟨[m], .setMark fwmark⟩ := by
    intro m
    simp [markRule, schedulePrefix, h.schedule]
  unfold writePolicyRules dropRules
  rw [h.killSwitch]
  by_cases hdom : p.domains = [] <;>
    simp [addRules, sources, destinations, h.dstPorts, hrule, hdom, valueRule, Operand.with,
      or_imp, forall_and]

theorem sound_etherSaddr_iff {v : Text} (h : isMAC (trimSpace v)) (x : Int) :
    Sound (unwords (MarkCommand.addRule pbrPolicies (valueRule .etherSaddr v x)).words) ↔
      (∀ c ∈ v, isSpace c → blank c) ∧ 0 ≤ x ∧ x ≤ 4294967295 := by
  have hmac := readMAC_of_isMAC h
  obtain ⟨n, hn⟩ := Option.isSome_iff_exists.mp hmac
  obtain ⟨hcolon, hchars⟩ := readMAC_chars hn
  rw [sound_valueRule_iff pbrPolicies_proper x .etherSaddr hchars ⟨':', hcolon, rfl⟩]
  simp [Operand.with, MarkMatch.typed, hmac]

theorem sound_address_iff {v : Text} (h : isCIDR (trimSpace v)) (s : Side) (x : Int) :
    Sound (unwords (MarkCommand.addRule pbrPolicies (valueRule (.address s) v x)).words) ↔
      (∀ c ∈ v, isSpace c → blank c) ∧ isIPv4 v ∧ 0 ≤ x ∧ x ≤ 4294967295 := by
  obtain ⟨hchars, hslash⟩ := prefix_of_isCIDR h
  exact sound_valueRule_iff pbrPolicies_proper x (.address s) hchars ⟨'/', hslash, rfl⟩

theorem addSet_readBack (h : isPolicyName p.name) :
    (MarkCommand.addSet "inet" "filter" (setName p) "ipv4_addr" "timeout").ReadBack := by
  have hfixed : ∀ w ∈ ["inet".toList, "filter".toList, "ipv4_addr".toList, "timeout".toList],
      (Token.word w).Proper := by decide +kernel
  apply readBack_addSet
  simp only [forall_mem_cons] at hfixed ⊢
  exact ⟨hfixed.1, hfixed.2.1, setName_proper h, hfixed.2.2⟩

theorem sound_setName_iff (h : isPolicyName p.name) (x : Int) :
    Sound (unwords (MarkCommand.addRule pbrPolicies ⟨[.inSet (setName p)], .setMark x⟩).words) ↔
      0 ≤ x ∧ x ≤ 4294967295 :=
  sound_setRule_iff pbrPolicies_proper x (setName_unbroken h)

/-- The lines of one policy. -/
theorem policy_sound_iff (h : FromForm p) (fwmark : Int) :
    (∀ c ∈ writePolicyRules p fwmark, Sound (unwords c.words)) ↔ Plain p fwmark := by
  have hprefixes := forall_mem_append.mp h.prefixes
  -- some line sets the mark
  have hmark : sources p ++ destinations p ++ domainMatches p ≠ [] ↔
      p.srcMACs ≠ [] ∨ p.srcIPs ≠ [] ∨ p.dstIPs ≠ [] ∨ p.domains ≠ [] := by
    simp [sources, destinations, domainMatches, h.dstPorts, or_iff_not_imp_left]
  rw [forall_writePolicyRules h, plain_iff, hmark,
    forall₂_congr fun v hv => sound_etherSaddr_iff (h.macs v hv) fwmark,
    forall₂_congr fun v hv => sound_address_iff (hprefixes.1 v hv) .source fwmark,
    forall₂_congr fun v hv => sound_address_iff (hprefixes.2 v hv) .destination fwmark]
  simp only [(addSet_readBack h.name).sound rfl, sound_setName_iff h.name, true_and]
  generalize (0 ≤ fwmark ∧ fwmark ≤ 4294967295) = InRange
  have hnil : ∀ l : List Text, (∀ v ∈ l, InRange) ↔ (l ≠ [] → InRange) := by
    intro l
    cases l <;> simp +contextual
  simp only [forall_mem_append, or_imp, imp_and, forall_and, hnil]
  tauto

/-! ### The whole script -/

theorem mem_chainCommands {ts : Tunnels} {policies : List RoutingPolicy} {c : MarkCommand} :
    c ∈ chainCommands ts policies ↔
      c ∈ [MarkCommand.addChain pbrPolicies "filter" "forward" "-1",
        .flushChain pbrPolicies, .addRule pbrPolicies ⟨[], .saveMark⟩] ∨
      ∃ q ∈ routed ts policies, c ∈ writePolicyRules q.1 q.2 := by
  have hpolicy : c ∈ policies.flatMap (policyCommands ts) ↔
      ∃ q ∈ routed ts policies, c ∈ writePolicyRules q.1 q.2 := by
    rw [mem_flatMap]
    constructor
    · rintro ⟨p, hp, hc⟩
      unfold policyCommands at hc
      split_ifs at hc with hen
      · split at hc
        · rename_i n hn
          exact ⟨(p, n), mem_routed.mpr ⟨hp, hen, hn⟩, hc⟩
        · cases hc
      · cases hc
    · rintro ⟨q, hq, hc⟩
      obtain ⟨hp, hen, hn⟩ := mem_routed.mp hq
      exact ⟨q.1, hp, by rw [policyCommands, if_pos hen, hn]; exact hc⟩
  unfold chainCommands
  rw [mem_append, mem_append, hpolicy]
  simp only [mem_cons, not_mem_nil, or_false]
  rw [or_right_comm]
  simp only [or_assoc]

/-- The lines that every script has. -/
theorem fixed_readBack : ∀ c ∈ [MarkCommand.addChain pbrPolicies "filter" "forward"
      "-1", .flushChain pbrPolicies, .addRule pbrPolicies ⟨[], .saveMark⟩],
    c.ReadBack ∧ c.typed := by
  intro c hc
  have hall : [MarkCommand.addChain pbrPolicies "filter" "forward" "-1",
      .flushChain pbrPolicies, .addRule pbrPolicies ⟨[], .saveMark⟩].all (fun c =>
      !(unwords c.words).contains '\n' && MarkCommand.read (unwords c.words) == some c &&
        c.typed) := by
    decide +kernel
  have hline := all_eq_true.mp hall c hc
  simp only [Bool.and_eq_true, Bool.not_eq_true', contains_eq_mem, decide_eq_false_iff_not,
    beq_iff_eq] at hline
  exact hline

/-- **The rules of the script.** Where every value is one word of its kind, `nft` reads the script
as the rules of the chain. -/
theorem loadMarks_generateFullNftChain {ts : Tunnels} {policies : List RoutingPolicy}
    (h : ∀ q ∈ routed ts policies, isPolicyName q.1.name ∧ 0 ≤ q.2 ∧ q.2 ≤ 4294967295 ∧
      ∀ m ∈ schedulePrefix q.1 ++ sources q.1 ++ destinations q.1, m.Clear) :
    loadMarks (generateFullNftChain ts policies) = some (policyChain ts policies) := by
  refine loadMarks_scriptOf fun c hc => ?_
  rcases mem_chainCommands.mp hc with hc | ⟨⟨p, x⟩, hq, hc⟩
  · exact (fixed_readBack c hc).1
  obtain ⟨hname, hx0, hx, hclear⟩ := h _ hq
  simp only [forall_mem_append] at hclear
  obtain ⟨⟨hsched, hsrc⟩, hdst⟩ := hclear
  have hmark : ∀ m, m.Clear → (MarkCommand.addRule pbrPolicies (markRule p x m)).ReadBack := by
    intro m hm
    refine readBack_addRule pbrPolicies_proper ⟨?_, hx0, hx⟩
    exact forall_mem_append.mpr ⟨hsched, forall_mem_singleton.mpr hm⟩
  have hdrop : ∀ m ∈ sources p, (MarkCommand.addRule pbrPolicies (dropRule x m)).ReadBack := by
    intro m hm
    refine readBack_addRule pbrPolicies_proper ⟨?_, trivial⟩
    exact forall_mem_cons.mpr ⟨hsrc m hm, forall_mem_singleton.mpr ⟨hx0, hx⟩⟩
  simp only [writePolicyRules, addRules, map_map, mem_append] at hc
  rcases hc with (hc | hc) | hc
  · obtain ⟨m, hm, rfl⟩ := mem_map.mp hc
    exact hmark m (forall_mem_append.mpr ⟨hsrc, hdst⟩ m hm)
  · split_ifs at hc
    · cases hc
    · rcases mem_cons.mp hc with rfl | hc
      · exact addSet_readBack hname
      · rw [mem_singleton.mp hc]
        exact hmark _ (proper_inSet (setName_unbroken hname))
  · unfold dropRules at hc
    split_ifs at hc
    · simp only [map_map, mem_map] at hc
      obtain ⟨m, hm, rfl⟩ := hc
      exact hdrop m hm
    · cases hc

/-- **The script.** With the policies that the web interface lets in, sorted in any way by
priority, each line of the script is one complete command with operands of the right kind exactly
if the entries of each policy in the script have nothing but blanks around them, its prefixes are
of IPv4 and its fwmark has 32 bits. -/
theorem script_sound_iff (ts : Tunnels) (xs : List Submission) (sorter : Sorter) :
    ScriptSound ts (sorter.sort (submitted xs)) ↔
      ∀ q ∈ routed ts (submitted xs), Plain q.1 q.2 := by
  have hperm := (sorter.sorts (submitted xs)).1
  have hrouted : ∀ q, q ∈ routed ts (sorter.sort (submitted xs)) ↔ q ∈ routed ts (submitted xs) := by
    intro q
    rw [mem_routed, mem_routed, hperm.mem_iff]
  have hform : ∀ q ∈ routed ts (submitted xs), FromForm q.1 :=
    fun q hq => submitted_fromForm xs q.1 (mem_routed.mp hq).1
  rw [scriptSound_iff]
  constructor
  · intro h q hq
    refine (policy_sound_iff (hform q hq) q.2).mp fun c hc => h c ?_
    exact mem_chainCommands.mpr (.inr ⟨q, (hrouted q).mpr hq, hc⟩)
  · intro h c hc
    rcases mem_chainCommands.mp hc with hc | ⟨q, hq, hc⟩
    · obtain ⟨hread, htyped⟩ := fixed_readBack c hc
      exact hread.sound htyped
    · have hq' := (hrouted q).mp hq
      exact (policy_sound_iff (hform q hq') q.2).mpr (h q hq') c hc

/-! A prefix of IPv6, and a line break behind a hardware address. -/

def prefixForm : PolicyForm where
  name := "office"
  tunnel := "nl"
  srcIps := "fd00:1::/64"

def brokenForm : PolicyForm where
  name := "laptop"
  tunnel := "nl"
  srcMacs := "aa:bb:cc:dd:ee:ff\n"

/-- The line that the prefix gives. -/
def prefixLine : Text :=
  unwords (MarkCommand.addRule pbrPolicies (valueRule (.address .source) "fd00:1::/64" 100)).words

theorem form_entries_unsound :
    ¬ ScriptSound twoTunnels (byInsertion.sort (submitted [.add true prefixForm])) ∧
    ¬ ScriptSound twoTunnels (byInsertion.sort (submitted [.add true brokenForm])) := by
  constructor
  · intro h
    have hmem : prefixLine ∈ (chainCommands twoTunnels
        (byInsertion.sort (submitted [.add true prefixForm]))).map (fun c => unwords c.words) := by
      decide +kernel
    obtain ⟨c, hc, hline⟩ := mem_map.mp hmem
    obtain ⟨-, cmd, hread, -⟩ := h.sound c hc
    rw [hline] at hread
    have hnone : MarkCommand.read prefixLine = none := by decide +kernel
    cases hnone.symm.trans hread
  · intro h
    exact absurd h.lines (by decide +kernel)

end Lankeeper.Routing
