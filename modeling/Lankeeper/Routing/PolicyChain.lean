import Lankeeper.Lib.Nft.Marking
import Mathlib.Data.List.Pairwise

/-!
# Lankeeper.Routing.PolicyChain — the mark chain of the routing policies

`internal/services/routing.go`. `Apply` sorts the policies by priority and loads one
nft chain that marks the packets of each policy with the fwmark of its tunnel; the
kernel then looks up the route by the mark. The mark rules of a policy do not stop the
evaluation, the drop rules of its kill switch do.

* `generateFullNftChain` — the script, and `policyChain` the rules in it;
* `runMarks_writePolicyRules` — what the rules of one policy do to a packet;
* `runMarks_policyChain` — the last policy that matches decides the mark, and a kill
  switch drops what reaches it with another mark.
-/

namespace Lankeeper.Routing

open Lib Nft Text List

/-! ## Policies and tunnels -/

/-- `config.RoutingPolicy`. -/
structure RoutingPolicy where
  name : Text
  enabled : Bool := true
  priority : Int := 0
  srcMACs : List Text := []
  srcIPs : List Text := []
  dstIPs : List Text := []
  dstPorts : List Int := []
  domains : List Text := []
  protocol : Text := []
  tunnel : Text
  killSwitch : Bool := false
  schedule : Text := []
deriving DecidableEq

/-- What the service reads of a WireGuard or OpenVPN client. -/
structure Tunnel where
  name : Text
  fwmark : Int
  /-- the routing table that its fwmark stands for -/
  table : Int := 0
deriving DecidableEq

structure Tunnels where
  wireGuard : List Tunnel
  openVPN : List Tunnel := []
deriving DecidableEq

def findTunnel (ts : Tunnels) (name : Text) : Option Tunnel :=
  match ts.wireGuard.find? (·.name == name) with
  | some t => some t
  | none => ts.openVPN.find? (·.name == name)

/-- `Apply` sorts with `sort.Slice`, which leaves policies of equal priority in any order. -/
def SortedByPriority (policies sorted : List RoutingPolicy) : Prop :=
  sorted.Perm policies ∧ sorted.Pairwise (·.priority ≤ ·.priority)

/-! ## The script -/

def sanitizeName (s : Text) : Text :=
  s.map fun c => if c = ' ' ∨ c = '-' ∨ c = '.' then '_' else c

def setName (p : RoutingPolicy) : Text :=
  "pbr_" ++ sanitizeName p.name

def buildScheduleMatch (schedule : Text) : List MarkMatch :=
  match schedule.splitOn '-' with
  | [a, b] =>
    if trimSpace a = [] ∨ trimSpace b = [] then []
    else [.hourFrom (trimSpace a), .hourBefore (trimSpace b)]
  | _ => []

def schedulePrefix (p : RoutingPolicy) : List MarkMatch :=
  if p.schedule = [] then [] else buildScheduleMatch p.schedule

def pbrPolicies : ChainName where
  family := "inet"
  table := "filter"
  name := "pbr_policies"

/-- `mark`, the closure of `writePolicyRules`. -/
def markRule (p : RoutingPolicy) (fwmark : Int) (m : MarkMatch) : MarkRule :=
  ⟨schedulePrefix p ++ [m], .setMark fwmark⟩

/-- A drop of the kill switch, which has no schedule. -/
def dropRule (fwmark : Int) (m : MarkMatch) : MarkRule :=
  ⟨[m, .markNot fwmark], .drop⟩

/-- The matches on the sender. -/
def sources (p : RoutingPolicy) : List MarkMatch :=
  p.srcMACs.map .etherSaddr ++ p.srcIPs.map (.address .source)

/-- The matches on the destination, the domain set apart. -/
def destinations (p : RoutingPolicy) : List MarkMatch :=
  p.dstIPs.map (.address .destination) ++
    p.dstPorts.map (.dport (if p.protocol = [] then "tcp" else p.protocol))

/-- The rules of the kill switch. -/
def dropRules (p : RoutingPolicy) (fwmark : Int) : List MarkRule :=
  if p.killSwitch then (sources p).map (dropRule fwmark) else []

def addRules (rs : List MarkRule) : List MarkCommand :=
  rs.map (.addRule pbrPolicies)

def writePolicyRules (p : RoutingPolicy) (fwmark : Int) : List MarkCommand :=
  addRules ((sources p ++ destinations p).map (markRule p fwmark)) ++
  (if p.domains = [] then []
    else
      .addSet "inet" "filter" (setName p) "ipv4_addr" "timeout" ::
        addRules [markRule p fwmark (.inSet (setName p))]) ++
  addRules (dropRules p fwmark)

/-- The fwmark of a policy's tunnel, if the tunnel is there. -/
def fwmarkOf (ts : Tunnels) (p : RoutingPolicy) : Option Int :=
  (findTunnel ts p.tunnel).map (·.fwmark)

def policyCommands (ts : Tunnels) (p : RoutingPolicy) : List MarkCommand :=
  if p.enabled then
    match fwmarkOf ts p with
    | some fwmark => writePolicyRules p fwmark
    | none => []
  else []

def chainCommands (ts : Tunnels) (policies : List RoutingPolicy) : List MarkCommand :=
  [.addChain pbrPolicies "filter" "forward" "-1", .flushChain pbrPolicies] ++
  policies.flatMap (policyCommands ts) ++
  [.addRule pbrPolicies ⟨[], .saveMark⟩]

def generateFullNftChain (ts : Tunnels) (policies : List RoutingPolicy) : Text :=
  scriptOf (chainCommands ts policies)

/-- The rules of the chain. -/
def policyChain (ts : Tunnels) (policies : List RoutingPolicy) : List MarkRule :=
  rulesIn (chainCommands ts policies)

/-! ## One policy -/

/-- The matches on the domain set. -/
def domainMatches (p : RoutingPolicy) : List MarkMatch :=
  if p.domains = [] then [] else [.inSet (setName p)]

/-- The rules of a policy that mark. -/
def markRules (p : RoutingPolicy) (fwmark : Int) : List MarkRule :=
  (sources p ++ destinations p ++ domainMatches p).map (markRule p fwmark)

@[simp] theorem rulesIn_addRules (rs : List MarkRule) : rulesIn (addRules rs) = rs :=
  rulesIn_map_addRule _ rs

theorem rulesIn_writePolicyRules (p : RoutingPolicy) (fwmark : Int) :
    rulesIn (writePolicyRules p fwmark) = markRules p fwmark ++ dropRules p fwmark := by
  unfold writePolicyRules markRules domainMatches
  split <;> simp

variable {p : RoutingPolicy} {m : MarkMatch} {q : RoutingPolicy × Int} {ts : Tunnels}

theorem mem_schedulePrefix (hm : m ∈ schedulePrefix p) :
    ∃ t, m = .hourFrom t ∨ m = .hourBefore t := by
  unfold schedulePrefix buildScheduleMatch at hm
  split_ifs at hm
  · cases hm
  split at hm
  · split_ifs at hm
    · cases hm
    · rcases mem_pair.mp hm with rfl | rfl
      · exact ⟨_, .inl rfl⟩
      · exact ⟨_, .inr rfl⟩
  · cases hm

theorem mem_matches (hm : m ∈ sources p ++ destinations p) :
    (∃ mac, m = .etherSaddr mac) ∨ (∃ s w, m = .address s w) ∨ ∃ proto n, m = .dport proto n := by
  simp only [sources, destinations, mem_append, mem_map] at hm
  rcases hm with (⟨mac, -, rfl⟩ | ⟨w, -, rfl⟩) | ⟨w, -, rfl⟩ | ⟨n, -, rfl⟩
  · exact .inl ⟨mac, rfl⟩
  · exact .inr (.inl ⟨_, w, rfl⟩)
  · exact .inr (.inl ⟨_, w, rfl⟩)
  · exact .inr (.inr ⟨_, n, rfl⟩)

theorem mem_domainMatches (hm : m ∈ domainMatches p) : m = .inSet (setName p) := by
  unfold domainMatches at hm
  split_ifs at hm
  · cases hm
  · exact mem_singleton.mp hm

section Run

variable (out : Outside) (f : Frame)

/-- Does the packet come from a sender of the policy? -/
def sourceMatches (p : RoutingPolicy) : Bool :=
  (sources p).any (·.holds out f 0)

/-- Does the policy's schedule admit the packet, and one of its matches cover it? -/
def policyMatches (p : RoutingPolicy) : Bool :=
  (schedulePrefix p).all (·.holds out f 0) &&
    (sources p ++ destinations p ++ domainMatches p).any (·.holds out f 0)

variable {out f}

variable {p : RoutingPolicy} {m : MarkMatch}

/-- The matches of a policy do not look at the mark. -/
theorem holds_mark (hm : m ∈ schedulePrefix p ∨ m ∈ sources p ++ destinations p ++ domainMatches p)
    (mark : Int) : m.holds out f mark = m.holds out f 0 := by
  rcases hm with hm | hm
  · rcases mem_schedulePrefix hm with ⟨t, rfl | rfl⟩ <;> rfl
  · rcases mem_append.mp hm with hm | hm
    · rcases mem_matches hm with ⟨mac, rfl⟩ | ⟨s, w, rfl⟩ | ⟨proto, n, rfl⟩ <;> rfl
    · rw [mem_domainMatches hm]
      rfl

theorem markRule_applies (hm : m ∈ sources p ++ destinations p ++ domainMatches p)
    (fwmark mark : Int) :
    (markRule p fwmark m).applies out f mark =
      ((schedulePrefix p).all (·.holds out f 0) && m.holds out f 0) := by
  have hall : (schedulePrefix p).all (·.holds out f mark) =
      (schedulePrefix p).all (·.holds out f 0) := by
    rw [Bool.eq_iff_iff, all_eq_true, all_eq_true]
    constructor
    · intro h x hx
      rw [← holds_mark (.inl hx) mark]
      exact h x hx
    · intro h x hx
      rw [holds_mark (.inl hx) mark]
      exact h x hx
  simp [MarkRule.applies, markRule, hall, holds_mark (.inr hm) mark]

theorem runMarks_markRules (p : RoutingPolicy) (fwmark mark : Int) :
    runMarks out f mark (markRules p fwmark) =
      some (if policyMatches out f p then fwmark else mark) := by
  have hset : ∀ r ∈ markRules p fwmark, r.action = .setMark fwmark := by
    intro r hr
    obtain ⟨m, -, rfl⟩ := mem_map.mp hr
    rfl
  have hmark : ∀ r ∈ markRules p fwmark, ∀ m m', r.applies out f m = r.applies out f m' := by
    intro r hr m m'
    obtain ⟨x, hx, rfl⟩ := mem_map.mp hr
    rw [markRule_applies hx, markRule_applies hx]
  have hany : (markRules p fwmark).any (·.applies out f mark) = policyMatches out f p := by
    rw [Bool.eq_iff_iff, any_eq_true, policyMatches, Bool.and_eq_true, any_eq_true]
    constructor
    · rintro ⟨r, hr, happ⟩
      obtain ⟨m, hm, rfl⟩ := mem_map.mp hr
      rw [markRule_applies hm, Bool.and_eq_true] at happ
      exact ⟨happ.1, m, hm, happ.2⟩
    · rintro ⟨hall, m, hm, hold⟩
      refine ⟨_, mem_map_of_mem hm, ?_⟩
      rw [markRule_applies hm, hall, hold]
      rfl
  rw [runMarks_setMark hset hmark, hany]

theorem dropRule_applies (hm : m ∈ sources p) (fwmark mark : Int) :
    (dropRule fwmark m).applies out f mark = (m.holds out f 0 && mark != fwmark) := by
  have happ : (dropRule fwmark m).applies out f mark =
      (m.holds out f mark && (mark != fwmark && true)) := rfl
  rw [happ, holds_mark (p := p) (.inr (by simp [hm])), Bool.and_true]

theorem runMarks_dropRules (p : RoutingPolicy) (fwmark mark : Int) :
    runMarks out f mark (dropRules p fwmark) =
      if p.killSwitch ∧ sourceMatches out f p ∧ mark ≠ fwmark then none else some mark := by
  unfold dropRules
  by_cases hkill : p.killSwitch
  · have hdrop : ∀ r ∈ (sources p).map (dropRule fwmark), r.action = .drop := by
      intro r hr
      obtain ⟨m, -, rfl⟩ := mem_map.mp hr
      rfl
    have hany : ((sources p).map (dropRule fwmark)).any (·.applies out f mark) ↔
        sourceMatches out f p ∧ mark ≠ fwmark := by
      rw [any_map, any_eq_true, sourceMatches, any_eq_true]
      constructor
      · rintro ⟨m, hm, happ⟩
        rw [Function.comp_apply, dropRule_applies hm, Bool.and_eq_true, bne_iff_ne] at happ
        exact ⟨⟨m, hm, happ.1⟩, happ.2⟩
      · rintro ⟨⟨m, hm, hold⟩, hne⟩
        refine ⟨m, hm, ?_⟩
        rw [Function.comp_apply, dropRule_applies hm, Bool.and_eq_true, bne_iff_ne]
        exact ⟨hold, hne⟩
    rw [if_pos hkill, runMarks_drop hdrop]
    simp only [hany, hkill, true_and]
  · simp [hkill, runMarks]

/-- A policy that matches marks the packet. Otherwise its kill switch drops what comes
from its senders with another mark. -/
theorem runMarks_writePolicyRules (p : RoutingPolicy) (fwmark mark : Int) :
    runMarks out f mark (rulesIn (writePolicyRules p fwmark)) =
      if policyMatches out f p then some fwmark
      else if p.killSwitch ∧ sourceMatches out f p ∧ mark ≠ fwmark then none else some mark := by
  rw [rulesIn_writePolicyRules, runMarks_append, runMarks_markRules, Option.bind_some,
    runMarks_dropRules]
  by_cases h : policyMatches out f p <;> simp [h]

end Run

/-! ## The chain -/

/-- The enabled policies whose tunnel is there, with its fwmark. -/
def routed (ts : Tunnels) (policies : List RoutingPolicy) : List (RoutingPolicy × Int) :=
  policies.filterMap fun p => if p.enabled then (fwmarkOf ts p).map (p, ·) else none

theorem mem_routed {policies : List RoutingPolicy} :
    q ∈ routed ts policies ↔ q.1 ∈ policies ∧ q.1.enabled ∧ fwmarkOf ts q.1 = some q.2 := by
  unfold routed
  rw [mem_filterMap]
  constructor
  · rintro ⟨p, hp, h⟩
    split_ifs at h with hen
    obtain ⟨m, hm, rfl⟩ := Option.map_eq_some_iff.mp h
    exact ⟨hp, hen, hm⟩
  · rintro ⟨hp, hen, hm⟩
    exact ⟨q.1, hp, by rw [if_pos hen, hm]; rfl⟩

theorem rulesIn_policies (ts : Tunnels) (policies : List RoutingPolicy) :
    rulesIn (policies.flatMap (policyCommands ts)) =
      (routed ts policies).flatMap fun q => rulesIn (writePolicyRules q.1 q.2) := by
  induction policies with
  | nil => rfl
  | cons p policies ih =>
    rw [flatMap_cons, rulesIn_append, ih]
    unfold routed policyCommands
    by_cases hen : p.enabled
    · cases hm : fwmarkOf ts p <;> simp [hen, hm]
    · simp [hen]

section Run

variable (out : Outside) (f : Frame)

/-- With `mark` on the way in, the last of the policies that match has the fwmark `n`;
if none matches, the packet came with it. -/
def Carries (mark : Int) (qs : List (RoutingPolicy × Int)) (n : Int) : Prop :=
  (∃ before q after, qs = before ++ q :: after ∧ policyMatches out f q.1 ∧
    (∀ r ∈ after, policyMatches out f r.1 = false) ∧ q.2 = n) ∨
  ((∀ r ∈ qs, policyMatches out f r.1 = false) ∧ mark = n)

/-- One of the policies has its kill switch on, covers the packet's sender without
matching the packet, and the packet reaches it with another mark. -/
def Caught (mark : Int) (qs : List (RoutingPolicy × Int)) : Prop :=
  ∃ before q after, qs = before ++ q :: after ∧ q.1.killSwitch ∧
    sourceMatches out f q.1 ∧ policyMatches out f q.1 = false ∧
    ¬ Carries out f mark before q.2

/-- The mark that the policies leave, each one that matches setting it anew. -/
def lastMark (mark : Int) (qs : List (RoutingPolicy × Int)) : Int :=
  qs.foldl (fun m q => if policyMatches out f q.1 then q.2 else m) mark

variable {out f} {mark : Int} {qs : List (RoutingPolicy × Int)}

theorem lastMark_append (ps qs : List (RoutingPolicy × Int)) :
    lastMark out f mark (ps ++ qs) = lastMark out f (lastMark out f mark ps) qs :=
  foldl_append

theorem lastMark_eq_self (h : ∀ r ∈ qs, policyMatches out f r.1 = false) :
    lastMark out f mark qs = mark := by
  induction qs with
  | nil => rfl
  | cons q qs ih =>
    have hq := h q mem_cons_self
    have hstep : lastMark out f mark (q :: qs) = lastMark out f mark qs := by
      simp [lastMark, hq]
    rw [hstep, ih fun r hr => h r (mem_cons_of_mem _ hr)]

variable (out f) in
/-- Either no policy matches, or there is a last one that does. -/
theorem exists_last_match (qs : List (RoutingPolicy × Int)) :
    (∀ r ∈ qs, policyMatches out f r.1 = false) ∨
    ∃ before q after, qs = before ++ q :: after ∧ policyMatches out f q.1 ∧
      ∀ r ∈ after, policyMatches out f r.1 = false := by
  induction qs with
  | nil => exact .inl (by simp)
  | cons q qs ih =>
    rcases ih with hnone | ⟨before, r, after, rfl, hr, hafter⟩
    · by_cases hq : policyMatches out f q.1
      · exact .inr ⟨[], q, qs, rfl, hq, hnone⟩
      · refine .inl ?_
        intro r hr
        rcases mem_cons.mp hr with rfl | hr
        · simpa using hq
        · exact hnone r hr
    · exact .inr ⟨q :: before, r, after, rfl, hr, hafter⟩

variable {before after : List (RoutingPolicy × Int)} {p : RoutingPolicy}

theorem lastMark_split (hq : policyMatches out f q.1)
    (hafter : ∀ r ∈ after, policyMatches out f r.1 = false) :
    lastMark out f mark (before ++ q :: after) = q.2 := by
  have hstep : ∀ m, lastMark out f m (q :: after) = lastMark out f q.2 after := by
    intro m
    simp [lastMark, hq]
  rw [lastMark_append, hstep, lastMark_eq_self hafter]

theorem carries_iff (n : Int) : Carries out f mark qs n ↔ lastMark out f mark qs = n := by
  constructor
  · rintro (⟨before, q, after, rfl, hq, hafter, hn⟩ | ⟨hnone, hn⟩)
    · rw [lastMark_split hq hafter, hn]
    · rw [lastMark_eq_self hnone, hn]
  · intro hn
    rcases exists_last_match out f qs with hnone | ⟨before, q, after, rfl, hq, hafter⟩
    · rw [lastMark_eq_self hnone] at hn
      exact .inr ⟨hnone, hn⟩
    · rw [lastMark_split hq hafter] at hn
      exact .inl ⟨before, q, after, rfl, hq, hafter, hn⟩

theorem caught_concat (q : RoutingPolicy × Int) :
    Caught out f mark (qs ++ [q]) ↔ Caught out f mark qs ∨
      (q.1.killSwitch ∧ sourceMatches out f q.1 ∧
        policyMatches out f q.1 = false ∧ ¬ Carries out f mark qs q.2) := by
  constructor
  · rintro ⟨before, r, after, heq, hr⟩
    rcases eq_nil_or_concat after with rfl | ⟨after, x, rfl⟩
    · obtain ⟨rfl, hqr⟩ := append_inj' heq rfl
      obtain rfl := singleton_inj.mp hqr
      exact .inr hr
    · rw [concat_eq_append, ← cons_append, ← append_assoc] at heq
      exact .inl ⟨before, r, after, (append_inj' heq rfl).1, hr⟩
  · rintro (⟨before, r, after, rfl, hr⟩ | hq)
    · exact ⟨before, r, after ++ [q], by simp, hr⟩
    · exact ⟨qs, q, [], rfl, hq⟩

/-- The policies one after the other, by induction on the list from its end. -/
theorem runMarks_routed (mark : Int) (qs : List (RoutingPolicy × Int)) :
    (runMarks out f mark (qs.flatMap fun q => rulesIn (writePolicyRules q.1 q.2)) = none ∧
      Caught out f mark qs) ∨
    (runMarks out f mark (qs.flatMap fun q => rulesIn (writePolicyRules q.1 q.2)) =
      some (lastMark out f mark qs) ∧ ¬ Caught out f mark qs) := by
  induction qs using reverseRecOn with
  | nil =>
    refine .inr ⟨rfl, ?_⟩
    rintro ⟨before, q, after, h, -⟩
    simp at h
  | append_singleton qs q ih =>
    rw [flatMap_append, flatMap_singleton, runMarks_append]
    simp only [caught_concat, carries_iff, lastMark_append]
    rcases ih with ⟨hrun, hcaught⟩ | ⟨hrun, hfree⟩
    · exact .inl ⟨by rw [hrun]; rfl, .inl hcaught⟩
    have hlast : ∀ m, lastMark out f m [q] = if policyMatches out f q.1 then q.2 else m :=
      fun _ => rfl
    rw [hrun, Option.bind_some, runMarks_writePolicyRules, hlast]
    by_cases hq : policyMatches out f q.1
    · exact .inr ⟨by simp [hq], by simp [hfree, hq]⟩
    by_cases hdrop : q.1.killSwitch ∧ sourceMatches out f q.1 ∧
        lastMark out f mark qs ≠ q.2
    · exact .inl ⟨by simp [hq, hdrop], .inr ⟨hdrop.1, hdrop.2.1, by simpa using hq, hdrop.2.2⟩⟩
    · refine .inr ⟨by rw [if_neg hq, if_neg hdrop, if_neg hq], ?_⟩
      rintro (h | ⟨hkill, hsrc, -, hne⟩)
      · exact hfree h
      · exact hdrop ⟨hkill, hsrc, hne⟩

variable (out f) in
/-- The chain drops what a kill switch catches; everything else leaves it with the mark
of the last policy that matches. -/
theorem runMarks_policyChain (ts : Tunnels) (policies : List RoutingPolicy) (mark : Int) :
    (runMarks out f mark (policyChain ts policies) = none ∧
      Caught out f mark (routed ts policies)) ∨
    (runMarks out f mark (policyChain ts policies) =
      some (lastMark out f mark (routed ts policies)) ∧
      ¬ Caught out f mark (routed ts policies)) := by
  have hsave : ∀ m : Int, runMarks out f m [⟨[], .saveMark⟩] = some m := by
    intro m
    simp [runMarks]
  have hrules : policyChain ts policies =
      ((routed ts policies).flatMap fun q => rulesIn (writePolicyRules q.1 q.2)) ++
        [⟨[], .saveMark⟩] := by
    unfold policyChain chainCommands
    rw [rulesIn_append, rulesIn_append, rulesIn_policies]
    rfl
  have hchain : runMarks out f mark (policyChain ts policies) =
      runMarks out f mark ((routed ts policies).flatMap fun q =>
        rulesIn (writePolicyRules q.1 q.2)) := by
    rw [hrules, runMarks_append]
    simp [hsave]
  rw [hchain]
  exact runMarks_routed mark _

/-! ## Kill switches -/

theorem routed_append (ts : Tunnels) (ps qs : List RoutingPolicy) :
    routed ts (ps ++ qs) = routed ts ps ++ routed ts qs :=
  filterMap_append

/-- A packet that gets past a kill switch for its sender has the mark of its tunnel there. -/
theorem carries_of_not_caught {k : RoutingPolicy × Int} (hkill : k.1.killSwitch)
    (hsrc : sourceMatches out f k.1) (hfree : ¬ Caught out f mark (before ++ k :: after)) :
    lastMark out f mark (before ++ [k]) = k.2 := by
  by_cases hk : policyMatches out f k.1
  · exact lastMark_split hk (by simp)
  have hcarry : Carries out f mark before k.2 := by
    by_contra hne
    exact hfree ⟨before, k, after, rfl, hkill, hsrc, by simpa using hk, hne⟩
  have hnone : ∀ m, lastMark out f m [k] = m :=
    fun m => lastMark_eq_self (by simpa using hk)
  rw [lastMark_append, hnone]
  exact (carries_iff _).mp hcarry

/-- For a policy with its kill switch on and a packet from one of its senders: the packet
is dropped or leaves with the policy's fwmark exactly if a kill switch catches it, or the
policy's tunnel is there and the policies behind it leave its mark as it is. -/
theorem kill_switch_iff (ts : Tunnels) (before after : List RoutingPolicy) (k : RoutingPolicy)
    (mark : Int) (hen : k.enabled) (hkill : k.killSwitch) (hsrc : sourceMatches out f k) :
    (runMarks out f mark (policyChain ts (before ++ k :: after)) = none ∨
      ∃ n, fwmarkOf ts k = some n ∧
        runMarks out f mark (policyChain ts (before ++ k :: after)) = some n) ↔
    (Caught out f mark (routed ts (before ++ k :: after)) ∨
      ∃ n, fwmarkOf ts k = some n ∧ Carries out f n (routed ts after) n) := by
  rcases runMarks_policyChain out f ts (before ++ k :: after) mark with
    ⟨hrun, hcaught⟩ | ⟨hrun, hfree⟩
  · simp [hrun, hcaught]
  have hmark : ∀ n, fwmarkOf ts k = some n →
      lastMark out f mark (routed ts (before ++ k :: after)) =
        lastMark out f n (routed ts after) := by
    intro n hn
    have hsplit : routed ts (before ++ k :: after) =
        routed ts before ++ (k, n) :: routed ts after := by
      rw [routed_append]
      simp [routed, hen, hn]
    rw [hsplit] at hfree ⊢
    rw [append_cons, lastMark_append, carries_of_not_caught (k := (k, n)) hkill hsrc hfree]
  simp only [hrun, hfree, reduceCtorEq, Option.some.injEq, false_or, carries_iff]
  constructor
  · rintro ⟨n, hn, heq⟩
    exact ⟨n, hn, by rw [← hmark n hn, heq]⟩
  · rintro ⟨n, hn, heq⟩
    exact ⟨n, hn, by rw [hmark n hn, heq]⟩

/-! A laptop behind a kill switch opens a connection to a network that another policy
sends through another tunnel. -/

def twoTunnels : Tunnels where
  wireGuard := [⟨"nl", 100, 100⟩, ⟨"us", 101, 101⟩]

def laptopPolicy : RoutingPolicy where
  name := "laptop"
  priority := 10
  srcMACs := ["aa:bb:cc:dd:ee:ff"]
  tunnel := "nl"
  killSwitch := true

def videoPolicy : RoutingPolicy where
  name := "video"
  priority := 20
  dstIPs := ["198.51.100.0/24"]
  tunnel := "us"

-- the lines of a policy, as the source prints them
example : scriptOf (writePolicyRules laptopPolicy 100) =
    ("add rule inet filter pbr_policies ether saddr aa:bb:cc:dd:ee:ff meta mark set 100\n" ++
      "add rule inet filter pbr_policies ether saddr aa:bb:cc:dd:ee:ff meta mark != 100 drop\n").toList := by
  decide +kernel

def noHosts : Outside where
  host := fun _ _ _ => false
  underLimit := fun _ => true

/-- From the laptop to 198.51.100.7. -/
def laptopToVideo : Frame where
  packet :=
    { iif := "br0", oif := none, family := .ip4, src := 0xc0a80102, dst := 0xc6336407,
      proto := 6, nexthdr := 0, sport := 50000, dport := 443, icmpType := [], syn := true,
      state := .new }
  etherSrc := 0xaabbccddeeff
  inSet := fun _ => false
  hourFrom := fun _ => true
  hourBefore := fun _ => true

theorem laptop_kept_behind_video :
    runMarks noHosts laptopToVideo 0 (policyChain twoTunnels ([videoPolicy] ++ laptopPolicy :: [])) =
        none ∨
      ∃ n, fwmarkOf twoTunnels laptopPolicy = some n ∧
        runMarks noHosts laptopToVideo 0
          (policyChain twoTunnels ([videoPolicy] ++ laptopPolicy :: [])) = some n := by
  have hsrc : sourceMatches noHosts laptopToVideo laptopPolicy := by decide +kernel
  have hmark : fwmarkOf twoTunnels laptopPolicy = some 100 := by decide +kernel
  apply (kill_switch_iff twoTunnels [videoPolicy] [] laptopPolicy 0 rfl rfl hsrc).mpr
  exact .inr ⟨100, hmark, .inr ⟨by simp [routed], rfl⟩⟩

theorem video_overrides_kill_switch :
    laptopPolicy.enabled ∧ laptopPolicy.killSwitch ∧
    sourceMatches noHosts laptopToVideo laptopPolicy ∧
    fwmarkOf twoTunnels laptopPolicy = some 100 ∧
    runMarks noHosts laptopToVideo 0 (policyChain twoTunnels [laptopPolicy, videoPolicy]) =
      some 101 := by
  decide +kernel

/-! ## Precedence -/

/-- The policy is enabled and covers the packet. -/
def Covers (out : Outside) (f : Frame) (policies : List RoutingPolicy) (q : RoutingPolicy) : Prop :=
  q ∈ policies ∧ q.enabled ∧ policyMatches out f q

/-- The first in priority order that covers the packet. -/
def First (out : Outside) (f : Frame) (policies : List RoutingPolicy) (p : RoutingPolicy) : Prop :=
  Covers out f policies p ∧ ∀ q, Covers out f policies q → p.priority ≤ q.priority

/-- The last in priority order that covers the packet and has a tunnel. -/
def Last (out : Outside) (f : Frame) (ts : Tunnels) (policies : List RoutingPolicy)
    (p : RoutingPolicy) : Prop :=
  Covers out f policies p ∧ fwmarkOf ts p ≠ none ∧
    ∀ q, Covers out f policies q → fwmarkOf ts q ≠ none → q.priority ≤ p.priority

variable {policies : List RoutingPolicy}

theorem not_caught (hkill : ∀ q ∈ policies, q.enabled → q.killSwitch →
      sourceMatches out f q = false) : ¬ Caught out f mark (routed ts policies) := by
  rintro ⟨before, q, after, heq, hq, hsrc, -⟩
  have hmem : q ∈ routed ts policies := by simp [heq]
  obtain ⟨hp, hen, -⟩ := mem_routed.mp hmem
  rw [hkill q.1 hp hen hq] at hsrc
  cases hsrc

theorem eq_of_priority
    (hdistinct : (policies.filter (·.enabled)).Pairwise (·.priority ≠ ·.priority))
    {q : RoutingPolicy} (hp : Covers out f policies p) (hq : Covers out f policies q)
    (heq : p.priority = q.priority) : p = q := by
  by_contra hne
  have : Std.Symm fun a b : RoutingPolicy => a.priority ≠ b.priority := ⟨fun _ _ h => h.symm⟩
  exact hdistinct.forall (mem_filter.mpr ⟨hp.1, hp.2.1⟩) (mem_filter.mpr ⟨hq.1, hq.2.1⟩)
    hne heq

/-- The last policy of the chain that matches is the last in priority order. -/
theorem last_of_split {sorted : List RoutingPolicy} (hsorted : SortedByPriority policies sorted)
    (hsplit : routed ts sorted = before ++ q :: after) (hq : policyMatches out f q.1)
    (hafter : ∀ r ∈ after, policyMatches out f r.1 = false) : Last out f ts policies q.1 := by
  have hmem : ∀ r, r ∈ routed ts sorted → r.1 ∈ policies ∧ r.1.enabled ∧
      fwmarkOf ts r.1 = some r.2 := by
    intro r hr
    obtain ⟨hp, hen, hm⟩ := mem_routed.mp hr
    exact ⟨hsorted.1.mem_iff.mp hp, hen, hm⟩
  have hpairs : (routed ts sorted).Pairwise (·.1.priority ≤ ·.1.priority) := by
    unfold routed
    rw [pairwise_filterMap]
    refine hsorted.2.imp ?_
    intro a b hab x hx y hy
    split_ifs at hx hy
    obtain ⟨_, -, rfl⟩ := Option.map_eq_some_iff.mp hx
    obtain ⟨_, -, rfl⟩ := Option.map_eq_some_iff.mp hy
    exact hab
  obtain ⟨hp, hen, hm⟩ := hmem q (by simp [hsplit])
  refine ⟨⟨hp, hen, hq⟩, by simp [hm], ?_⟩
  intro r hr hrm
  obtain ⟨n, hn⟩ := Option.ne_none_iff_exists'.mp hrm
  have hin : (r, n) ∈ routed ts sorted :=
    mem_routed.mpr ⟨hsorted.1.mem_iff.mpr hr.1, hr.2.1, hn⟩
  rw [hsplit, mem_append, mem_cons] at hin
  rw [hsplit] at hpairs
  rcases hin with hin | rfl | hin
  · exact (pairwise_append.mp hpairs).2.2 _ hin q mem_cons_self
  · exact Int.le_refl _
  · -- what stands behind the last match does not cover the packet
    have hcov : policyMatches out f r := hr.2.2
    rw [hafter (r, n) hin] at hcov
    cases hcov

/-- Policies of distinct priorities, a packet that at least one of them covers, no kill
switch for its sender: the packet leaves with the fwmark of the first policy that covers it
exactly if the last one that does has the same fwmark. -/
theorem first_policy_iff (ts : Tunnels) {policies sorted : List RoutingPolicy}
    (hsorted : SortedByPriority policies sorted)
    (hdistinct : (policies.filter (·.enabled)).Pairwise (·.priority ≠ ·.priority))
    (hkill : ∀ q ∈ policies, q.enabled → q.killSwitch →
      sourceMatches out f q = false)
    (mark : Int) {p : RoutingPolicy} (hp : First out f policies p) :
    runMarks out f mark (policyChain ts sorted) = fwmarkOf ts p ↔
      ∃ n, fwmarkOf ts p = some n ∧ ∀ q, Last out f ts policies q → fwmarkOf ts q = some n := by
  have hfree : ¬ Caught out f mark (routed ts sorted) :=
    not_caught fun q hq => hkill q (hsorted.1.mem_iff.mp hq)
  have hrun : runMarks out f mark (policyChain ts sorted) =
      some (lastMark out f mark (routed ts sorted)) := by
    rcases runMarks_policyChain out f ts sorted mark with ⟨-, h⟩ | ⟨h, -⟩
    · exact absurd h hfree
    · exact h
  rw [hrun]
  rcases hm : fwmarkOf ts p with _ | n
  · simp
  -- the first policy has a tunnel, so there is a last one that has
  rcases exists_last_match out f (routed ts sorted) with
    hnone | ⟨before, q, after, hsplit, hq, hafter⟩
  · have hin : (p, n) ∈ routed ts sorted :=
      mem_routed.mpr ⟨hsorted.1.mem_iff.mpr hp.1.1, hp.1.2.1, hm⟩
    have hcov := hp.1.2.2
    rw [hnone _ hin] at hcov
    cases hcov
  · have hlast := last_of_split hsorted hsplit hq hafter
    have hqm : fwmarkOf ts q.1 = some q.2 :=
      (mem_routed.mp (show q ∈ routed ts sorted by simp [hsplit])).2.2
    rw [hsplit, lastMark_split hq hafter]
    constructor
    · intro heq
      refine ⟨n, rfl, ?_⟩
      intro r hr
      have hprio : r.priority = q.1.priority :=
        Int.le_antisymm (hlast.2.2 r hr.1 hr.2.1) (hr.2.2 q.1 hlast.1 hlast.2.1)
      rw [eq_of_priority hdistinct hr.1 hlast.1 hprio, hqm, heq]
    · rintro ⟨k, hk, hall⟩
      rw [← hqm, hall q.1 hlast, hk]

/-! A tablet that the first policy sends through one tunnel opens a connection to the
network that the second policy sends through the other. -/

def tabletPolicy : RoutingPolicy where
  name := "tablet"
  priority := 10
  srcMACs := ["aa:bb:cc:dd:ee:ff"]
  tunnel := "nl"

theorem tablet_first (hp : tabletPolicy ∈ policies) (hprio : ∀ q ∈ policies, 10 ≤ q.priority) :
    First noHosts laptopToVideo policies tabletPolicy := by
  have hcov : policyMatches noHosts laptopToVideo tabletPolicy := by decide +kernel
  exact ⟨⟨hp, rfl, hcov⟩, fun q hq => hprio q hq.1⟩

theorem tablet_alone_marked :
    First noHosts laptopToVideo [tabletPolicy] tabletPolicy ∧
    runMarks noHosts laptopToVideo 0 (policyChain twoTunnels [tabletPolicy]) =
      fwmarkOf twoTunnels tabletPolicy := by
  have hfirst : First noHosts laptopToVideo [tabletPolicy] tabletPolicy :=
    tablet_first (by simp) (by decide)
  have hmark : fwmarkOf twoTunnels tabletPolicy = some 100 := by decide +kernel
  refine ⟨hfirst, (first_policy_iff twoTunnels ⟨.refl _, by simp⟩ (by decide) (by decide) 0
    hfirst).mpr ⟨100, hmark, ?_⟩⟩
  rintro q ⟨⟨hq, -⟩, -⟩
  rw [mem_singleton.mp hq, hmark]

theorem second_policy_wins :
    SortedByPriority [tabletPolicy, videoPolicy] [tabletPolicy, videoPolicy] ∧
    tabletPolicy.priority ≠ videoPolicy.priority ∧
    tabletPolicy.killSwitch = false ∧ videoPolicy.killSwitch = false ∧
    First noHosts laptopToVideo [tabletPolicy, videoPolicy] tabletPolicy ∧
    fwmarkOf twoTunnels tabletPolicy = some 100 ∧
    runMarks noHosts laptopToVideo 0 (policyChain twoTunnels [tabletPolicy, videoPolicy]) =
      some 101 := by
  refine ⟨⟨.refl _, by decide⟩, by decide, rfl, rfl, tablet_first (by simp) (by decide), ?_⟩
  decide +kernel

end Run

end Lankeeper.Routing
