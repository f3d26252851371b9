import Lankeeper.Lib.Machine
import Lankeeper.Routing.PolicyChain
import Lankeeper.VPN.Service
import Mathlib.Data.List.Sort

/-!
# Lankeeper.Routing.Service — edits, `Apply` and the state it leaves behind

`internal/services/routing.go`. Edits change the list of policies in the config. `Apply`
loads the chain of `Lankeeper.Routing.PolicyChain`, and then goes through the enabled
policies whose tunnel is there: it puts the `ip rule` for the tunnel's fwmark in place
anew, and it remembers the policy's domains and resolves them into the policy's nft set.
A ticker resolves all domains that are remembered again (`refreshDomainSets`).

Nothing that `Apply` put in place is taken away by a later one. `domain_sets_iff` and
`fwmark_rules_iff` say for which runs this makes no difference.
-/

namespace Lankeeper.Routing

open Lib Text List
open VPN (isDomain)

/-! ## Edits of the policies -/

inductive RoutingError
  | policyName
  | noTunnel (name : Text)
  | domain (name d : Text)
  | notFound (name : Text)
  -- the config file was not written
  | save
deriving DecidableEq

/-- `routingPolicyNamePattern`: `[A-Za-z0-9_-]{1,32}`. -/
def isPolicyName (t : Text) : Bool :=
  t ≠ [] ∧ t.length ≤ 32 ∧ t.all fun c => c.isAlphanum || c == '_' || c == '-'

/-- `ValidateRoutingPolicy`. -/
def validateRoutingPolicy (p : RoutingPolicy) : Except RoutingError Unit := do
  failIf (¬ isPolicyName p.name) .policyName
  failIf (p.tunnel = []) (.noTunnel p.name)
  match p.domains.find? fun d => ¬ isDomain d with
  | some d => .error (.domain p.name d)
  | none => .ok ()

/-- `persist`. A list that could not be written stays in memory. -/
def persist (saved : Bool) : Except RoutingError Unit :=
  if saved then .ok () else .error .save

/-- The priority of a policy that comes without one. -/
def nextPriority (ps : List RoutingPolicy) : Int :=
  ps.foldl (fun m p => if p.priority > m then p.priority else m) 0 + 10

def addPolicy (saved : Bool) (p : RoutingPolicy) (ps : List RoutingPolicy) :
    Except RoutingError Unit × List RoutingPolicy :=
  match validateRoutingPolicy p with
  | .error e => (.error e, ps)
  | .ok () =>
    (persist saved, ps ++ [if p.priority = 0 then { p with priority := nextPriority ps } else p])

def removePolicy (saved : Bool) (name : Text) (ps : List RoutingPolicy) :
    Except RoutingError Unit × List RoutingPolicy :=
  if ps.any (·.name = name) then (persist saved, ps.eraseP (·.name = name))
  else (.error (.notFound name), ps)

def togglePolicy (saved : Bool) (name : Text) (enabled : Bool) (ps : List RoutingPolicy) :
    Except RoutingError Unit × List RoutingPolicy :=
  match ps.find? (·.name = name) with
  | none => (.error (.notFound name), ps)
  | some p => (persist saved, ps.set (ps.findIdx (·.name = name)) { p with enabled := enabled })

/-- The last policy of a name is the one that a map from names to policies holds. -/
def setPriority (name : Text) (priority : Int) : List RoutingPolicy → List RoutingPolicy
  | [] => []
  | p :: ps =>
    if p.name = name ∧ ¬ ps.any (·.name = name) then { p with priority := priority } :: ps
    else p :: setPriority name priority ps

def updatePriorities (saved : Bool) (orderedNames : List Text) (ps : List RoutingPolicy) :
    Except RoutingError Unit × List RoutingPolicy :=
  (persist saved, orderedNames.zipIdx.foldl (fun ps x => setPriority x.1 ((x.2 + 1) * 10) ps) ps)

/-! ## The kernel's rules -/

/-- `ip rule … fwmark … lookup … priority …` -/
structure IPRule where
  fwmark : Int
  table : Int
  priority : Int
deriving DecidableEq

def IPRule.isFor (t : Tunnel) (r : IPRule) : Bool :=
  r.fwmark = t.fwmark ∧ r.table = t.table

/-- `ip rule del`, which takes one rule away if there is one. -/
def ruleDel (t : Tunnel) (rules : List IPRule) : List IPRule :=
  rules.eraseP (IPRule.isFor t)

/-- `ip rule add`, which does not add a rule twice. -/
def ruleAdd (t : Tunnel) (priority : Int) (rules : List IPRule) : List IPRule :=
  let r : IPRule := ⟨t.fwmark, t.table, priority⟩
  if r ∈ rules then rules else rules ++ [r]

/-- How many rules there are for a tunnel. -/
def ruleCount (t : Tunnel) (rules : List IPRule) : Nat :=
  rules.countP (IPRule.isFor t)

/-! ## Apply -/

/-- `sort.Slice`, by priority. -/
structure Sorter where
  sort : List RoutingPolicy → List RoutingPolicy
  sorts : ∀ ps, SortedByPriority ps (sort ps)

/-- The policies and what `Apply` changes. -/
structure RoutingState where
  /-- `cfg.Routing.Policies` -/
  policies : List RoutingPolicy
  /-- `domainSets`: the name of a set with each of its domains -/
  domainSets : List (Text × Text)
  /-- the rules in the kernel -/
  rules : List IPRule
  /-- the policies of the last `Apply`, which nothing reads -/
  applied : List RoutingPolicy
  /-- the domains resolved since then, with the set each was resolved into -/
  resolved : List (Text × Text)

/-- `resolveDomains`. -/
def resolveDomains (pairs : List (Text × Text)) (s : RoutingState) : RoutingState :=
  { s with resolved := s.resolved ++ pairs }

/-- The set of a policy, with each of its domains. -/
def domainPairs (p : RoutingPolicy) : List (Text × Text) :=
  p.domains.map (setName p, ·)

/-- `setupDomainSet`. -/
def setupDomainSet (p : RoutingPolicy) (s : RoutingState) : RoutingState :=
  resolveDomains (domainPairs p)
    { s with domainSets := (domainPairs p).foldl (fun sets x => sets.insert x) s.domainSets }

/-- What `Apply` does for one policy. -/
def applyPolicy (ts : Tunnels) (s : RoutingState) (p : RoutingPolicy) : RoutingState :=
  if p.enabled then
    match findTunnel ts p.tunnel with
    | none => s
    | some t =>
      let s := { s with rules := ruleAdd t p.priority (ruleDel t s.rules) }
      if p.domains = [] then s else setupDomainSet p s
  else s

/-- `Apply`. It stops if `nft` does not load the chain. -/
def apply (ts : Tunnels) (sorter : Sorter) (loaded : Bool) (s : RoutingState) : RoutingState :=
  if loaded then
    (sorter.sort s.policies).foldl (applyPolicy ts) { s with applied := s.policies, resolved := [] }
  else s

/-- `refreshDomainSets`. -/
def refreshDomainSets (s : RoutingState) : RoutingState :=
  resolveDomains s.domainSets s

/-- An edit, and whether the file gets written. -/
inductive PolicyEdit
  | addPolicy (saved : Bool) (p : RoutingPolicy)
  | removePolicy (saved : Bool) (name : Text)
  | togglePolicy (saved : Bool) (name : Text) (enabled : Bool)
  | updatePriorities (saved : Bool) (orderedNames : List Text)
deriving DecidableEq

def PolicyEdit.run : PolicyEdit → List RoutingPolicy → Except RoutingError Unit × List RoutingPolicy
  | .addPolicy saved p => Routing.addPolicy saved p
  | .removePolicy saved name => Routing.removePolicy saved name
  | .togglePolicy saved name enabled => Routing.togglePolicy saved name enabled
  | .updatePriorities saved names => Routing.updatePriorities saved names

inductive RoutingEvent
  | edit (e : PolicyEdit)
  | apply (loaded : Bool)
  | refresh
deriving DecidableEq

def RoutingState.step (ts : Tunnels) (sorter : Sorter) (s : RoutingState) :
    RoutingEvent → RoutingState
  | .edit e => { s with policies := (e.run s.policies).2 }
  | .apply loaded => Routing.apply ts sorter loaded s
  | .refresh => refreshDomainSets s

/-- `NewRoutingService`, with the policies of the config and the rules in the kernel. -/
def RoutingState.start (ps : List RoutingPolicy) (rules : List IPRule) : RoutingState where
  policies := ps
  domainSets := []
  rules := rules
  applied := []
  resolved := []

/-- The service under edits, `Apply` and the ticker. -/
def routing (ts : Tunnels) (sorter : Sorter) : Machine RoutingState RoutingEvent where
  Init s := ∃ ps rules, s = .start ps rules
  step := RoutingState.step ts sorter

/-! ## What one Apply does -/

/-- The enabled policies with domains and a tunnel: each uses an nft set. -/
def setUsers (ts : Tunnels) (ps : List RoutingPolicy) : List RoutingPolicy :=
  ps.filter fun p => p.enabled ∧ (findTunnel ts p.tunnel).isSome ∧ p.domains ≠ []

/-- The tunnel of an enabled policy. -/
def Uses (ts : Tunnels) (ps : List RoutingPolicy) (t : Tunnel) : Prop :=
  ∃ p ∈ ps, p.enabled ∧ findTunnel ts p.tunnel = some t

instance (ts : Tunnels) (ps : List RoutingPolicy) (t : Tunnel) : Decidable (Uses ts ps t) :=
  inferInstanceAs (Decidable (∃ p ∈ ps, _))

/-- The sets in use with the domains of the policies that use them. -/
def InUse (ts : Tunnels) (ps : List RoutingPolicy) (x : Text × Text) : Prop :=
  ∃ p ∈ setUsers ts ps, setName p = x.1 ∧ x.2 ∈ p.domains

theorem mem_domainPairs {p : RoutingPolicy} {x : Text × Text} :
    x ∈ domainPairs p ↔ setName p = x.1 ∧ x.2 ∈ p.domains := by
  unfold domainPairs
  rw [mem_map]
  constructor
  · rintro ⟨d, hd, rfl⟩
    exact ⟨rfl, hd⟩
  · rintro ⟨hset, hd⟩
    exact ⟨x.2, hd, by rw [hset]⟩

theorem inUse_nil (ts : Tunnels) (x : Text × Text) : ¬ InUse ts [] x := by
  rintro ⟨p, hp, -⟩
  cases hp

theorem inUse_cons (ts : Tunnels) (p : RoutingPolicy) (ps : List RoutingPolicy) (x : Text × Text) :
    InUse ts (p :: ps) x ↔
      (p.enabled ∧ (findTunnel ts p.tunnel).isSome ∧ x ∈ domainPairs p) ∨ InUse ts ps x := by
  have hne : x ∈ domainPairs p → p.domains ≠ [] := by
    intro hx
    exact ne_nil_of_mem (mem_domainPairs.mp hx).2
  simp only [InUse, setUsers, mem_filter, mem_cons, decide_eq_true_eq]
  constructor
  · rintro ⟨q, ⟨rfl | hq, hen, htun, hdom⟩, hx⟩
    · exact .inl ⟨hen, htun, mem_domainPairs.mpr hx⟩
    · exact .inr ⟨q, ⟨hq, hen, htun, hdom⟩, hx⟩
  · rintro (⟨hen, htun, hx⟩ | ⟨q, ⟨hq, hen, htun, hdom⟩, hx⟩)
    · exact ⟨p, ⟨.inl rfl, hen, htun, hne hx⟩, mem_domainPairs.mp hx⟩
    · exact ⟨q, ⟨.inr hq, hen, htun, hdom⟩, hx⟩

/-- The order of the policies makes no difference. -/
theorem inUse_sort (ts : Tunnels) (sorter : Sorter) (ps : List RoutingPolicy) (x : Text × Text) :
    InUse ts (sorter.sort ps) x ↔ InUse ts ps x := by
  simp only [InUse, setUsers, mem_filter, (sorter.sorts ps).1.mem_iff]

theorem uses_sort (ts : Tunnels) (sorter : Sorter) (ps : List RoutingPolicy) (t : Tunnel) :
    Uses ts (sorter.sort ps) t ↔ Uses ts ps t := by
  simp only [Uses, (sorter.sorts ps).1.mem_iff]

theorem mem_foldl_insert (x : Text × Text) (pairs sets : List (Text × Text)) :
    x ∈ pairs.foldl (fun sets y => sets.insert y) sets ↔ x ∈ sets ∨ x ∈ pairs := by
  induction pairs generalizing sets with
  | nil => simp
  | cons y pairs ih =>
    rw [foldl_cons, ih, mem_insert_iff, mem_cons]
    tauto

/-- Everything that the step for one policy does. -/
theorem applyPolicy_cases (ts : Tunnels) (s : RoutingState) (p : RoutingPolicy) :
    (¬ (p.enabled ∧ (findTunnel ts p.tunnel).isSome) ∧ applyPolicy ts s p = s) ∨
    ∃ t, p.enabled ∧ findTunnel ts p.tunnel = some t ∧
      applyPolicy ts s p =
        { setupDomainSet p s with rules := ruleAdd t p.priority (ruleDel t s.rules) } := by
  unfold applyPolicy
  by_cases hen : p.enabled
  · rcases htun : findTunnel ts p.tunnel with _ | t
    · exact .inl ⟨by simp, if_pos hen⟩
    refine .inr ⟨t, hen, rfl, ?_⟩
    rw [if_pos hen]
    dsimp only
    split_ifs with hdom
    · -- without domains there is no set
      simp [setupDomainSet, resolveDomains, domainPairs, hdom]
    · rfl
  · exact .inl ⟨fun h => hen h.1, if_neg hen⟩

theorem applyPolicy_sets (ts : Tunnels) (s : RoutingState) (p : RoutingPolicy) (x : Text × Text) :
    (x ∈ (applyPolicy ts s p).domainSets ↔ x ∈ s.domainSets ∨ InUse ts [p] x) ∧
      (x ∈ (applyPolicy ts s p).resolved ↔ x ∈ s.resolved ∨ InUse ts [p] x) := by
  rw [inUse_cons]
  simp only [inUse_nil, or_false]
  rcases applyPolicy_cases ts s p with ⟨hskip, heq⟩ | ⟨t, hen, htun, heq⟩
  · rw [heq, ← and_assoc]
    simp [hskip]
  · rw [heq]
    simp [hen, htun, setupDomainSet, resolveDomains, mem_foldl_insert]

theorem foldl_applyPolicy_sets (ts : Tunnels) (s : RoutingState) (ps : List RoutingPolicy)
    (x : Text × Text) :
    (x ∈ (ps.foldl (applyPolicy ts) s).domainSets ↔ x ∈ s.domainSets ∨ InUse ts ps x) ∧
      (x ∈ (ps.foldl (applyPolicy ts) s).resolved ↔ x ∈ s.resolved ∨ InUse ts ps x) := by
  induction ps generalizing s with
  | nil => simp [inUse_nil]
  | cons p ps ih =>
    rw [foldl_cons, (ih _).1, (ih _).2, (applyPolicy_sets ts s p x).1,
      (applyPolicy_sets ts s p x).2, inUse_cons, inUse_cons]
    simp only [inUse_nil, or_false, or_assoc, and_self]

theorem foldl_applyPolicy_applied (ts : Tunnels) (s : RoutingState) (ps : List RoutingPolicy) :
    (ps.foldl (applyPolicy ts) s).applied = s.applied := by
  induction ps generalizing s with
  | nil => rfl
  | cons p ps ih =>
    rw [foldl_cons, ih]
    rcases applyPolicy_cases ts s p with ⟨-, heq⟩ | ⟨t, -, -, heq⟩
    · rw [heq]
    · rw [heq]
      rfl

section Apply

variable (ts : Tunnels) (sorter : Sorter) (s : RoutingState)

theorem apply_applied : (apply ts sorter true s).applied = s.policies :=
  foldl_applyPolicy_applied ts _ _

theorem apply_domainSets (x : Text × Text) :
    x ∈ (apply ts sorter true s).domainSets ↔ x ∈ s.domainSets ∨ InUse ts s.policies x := by
  unfold apply
  rw [if_pos rfl, (foldl_applyPolicy_sets ts _ _ x).1, inUse_sort]

theorem apply_resolved (x : Text × Text) :
    x ∈ (apply ts sorter true s).resolved ↔ InUse ts s.policies x := by
  unfold apply
  rw [if_pos rfl, (foldl_applyPolicy_sets ts _ _ x).2, inUse_sort]
  simp

theorem apply_of_not_loaded : apply ts sorter false s = s := rfl

end Apply

/-! ## The domain sets -/

/-- Each nft set has one policy, and what has been resolved into the sets since the last `Apply`
are the domains of their policies. -/
structure SetsExact (ts : Tunnels) (s : RoutingState) : Prop where
  distinct : ((setUsers ts s.applied).map setName).Nodup
  resolved : ∀ x, x ∈ s.resolved ↔ InUse ts s.applied x

section Runs

variable (ts : Tunnels) (sorter : Sorter)

/-- A pair is remembered exactly if an `Apply` so far had a policy with it. -/
theorem mem_domainSets_iff (ps : List RoutingPolicy) (rules : List IPRule) (es : List RoutingEvent)
    (x : Text × Text) :
    x ∈ ((routing ts sorter).run (.start ps rules) es).domainSets ↔
      ∃ early, early ++ [.apply true] <+: es ∧
        InUse ts ((routing ts sorter).run (.start ps rules) early).policies x := by
  have hstep : ∀ (s : RoutingState) (e : RoutingEvent),
      x ∈ ((routing ts sorter).step s e).domainSets ↔
        x ∈ s.domainSets ∨ (e = .apply true ∧ InUse ts s.policies x) := by
    intro s e
    cases e with
    | edit e => simp [routing, RoutingState.step]
    | refresh => simp [routing, RoutingState.step, refreshDomainSets, resolveDomains]
    | apply loaded =>
      cases loaded with
      | false => simp [routing, RoutingState.step, apply_of_not_loaded]
      | true => simpa [routing, RoutingState.step] using apply_domainSets ts sorter s x
  have hrun := Machine.run_iff_brought (M := routing ts sorter)
    (P := fun s => x ∈ s.domainSets) hstep (.start ps rules) es
  rw [hrun]
  constructor
  · rintro (h | ⟨early, e, hearly, rfl, huse⟩)
    · cases h
    · exact ⟨early, hearly, huse⟩
  · rintro ⟨early, hearly, huse⟩
    exact .inr ⟨early, _, hearly, rfl, huse⟩

/-- What keeps the sets exact at one step. -/
def KeepsSets (s : RoutingState) : RoutingEvent → Prop
  | .apply true => ((setUsers ts s.policies).map setName).Nodup
  | .refresh => ∀ x ∈ s.domainSets, InUse ts s.applied x
  | _ => True

theorem step_setsExact_iff (s : RoutingState) (e : RoutingEvent) (h : SetsExact ts s) :
    SetsExact ts ((routing ts sorter).step s e) ↔ KeepsSets ts s e := by
  cases e with
  | edit e => exact iff_of_true ⟨h.distinct, h.resolved⟩ trivial
  | refresh =>
    constructor
    · intro h' x hx
      exact (h'.resolved x).mp (mem_append_right _ hx)
    · intro hkeep
      refine ⟨h.distinct, fun x => ?_⟩
      show x ∈ s.resolved ++ s.domainSets ↔ InUse ts s.applied x
      rw [mem_append, h.resolved, or_iff_left_iff_imp]
      exact hkeep x
  | apply loaded =>
    cases loaded with
    | false => exact iff_of_true h trivial
    | true =>
      show SetsExact ts (Routing.apply ts sorter true s) ↔ _
      constructor
      · intro h'
        have hdistinct := h'.distinct
        rwa [apply_applied] at hdistinct
      · intro hkeep
        refine ⟨?_, ?_⟩
        · rwa [apply_applied]
        · intro x
          rw [apply_applied, apply_resolved]

/-- **Domains and sets.** Throughout a run each nft set has one policy, and what is resolved
into it is that policy's domains, exactly if at each `Apply` no two policies with domains have
the same set, and at each refresh every domain of an earlier `Apply` is still the domain of a
policy that has the same set. -/
theorem domain_sets_iff (ps : List RoutingPolicy) (rules : List IPRule) (es : List RoutingEvent) :
    (∀ pre, pre <+: es → SetsExact ts ((routing ts sorter).run (.start ps rules) pre)) ↔
    (∀ pre, pre ++ [.apply true] <+: es →
      ((setUsers ts ((routing ts sorter).run (.start ps rules) pre).policies).map setName).Nodup) ∧
    ∀ pre, pre ++ [.refresh] <+: es → ∀ early, early ++ [.apply true] <+: pre →
      ∀ x, InUse ts ((routing ts sorter).run (.start ps rules) early).policies x →
        InUse ts ((routing ts sorter).run (.start ps rules) pre).applied x := by
  have hstart : SetsExact ts (.start ps rules) := by
    refine ⟨nodup_nil, fun x => ?_⟩
    exact iff_of_false (not_mem_nil) (inUse_nil ts x)
  rw [Machine.run_iff_guarded (step_setsExact_iff ts sorter) hstart, Machine.guarded_iff]
  constructor
  · intro h
    refine ⟨fun pre hpre => h pre _ hpre, ?_⟩
    intro pre hpre early hearly x hx
    exact h pre .refresh hpre x ((mem_domainSets_iff ts sorter ps rules pre x).mpr ⟨early, hearly, hx⟩)
  · rintro ⟨hdistinct, hfresh⟩ pre e hpre
    cases e with
    | edit e => trivial
    | refresh =>
      intro x hx
      obtain ⟨early, hearly, huse⟩ := (mem_domainSets_iff ts sorter ps rules pre x).mp hx
      exact hfresh pre hpre early hearly x huse
    | apply loaded =>
      cases loaded with
      | false => trivial
      | true => exact hdistinct pre hpre

end Runs

/-! A policy for one domain is removed again, and two policies have names that differ in a
character which set names do not have. -/

def byInsertion : Sorter where
  sort := List.insertionSort fun p q => p.priority ≤ q.priority
  sorts ps := by
    have htotal : Std.Total fun p q : RoutingPolicy => p.priority ≤ q.priority :=
      ⟨fun p q => le_total p.priority q.priority⟩
    have htrans : IsTrans RoutingPolicy fun p q => p.priority ≤ q.priority :=
      ⟨fun _ _ _ => le_trans⟩
    exact ⟨perm_insertionSort _ ps, pairwise_insertionSort _ ps⟩

def domainPolicy (name domain : Text) : RoutingPolicy where
  name := name
  priority := 10
  domains := [domain]
  tunnel := "nl"

def workPolicy : RoutingPolicy :=
  domainPolicy "work" "a.example"

def twinPolicies : List RoutingPolicy :=
  [domainPolicy "a-b" "a.example", domainPolicy "a_b" "b.example"]

theorem removed_domain_resolved :
    ¬ SetsExact twoTunnels ((routing twoTunnels byInsertion).run (.start [workPolicy] [])
      [.apply true, .edit (.removePolicy true "work".toList), .apply true, .refresh]) ∧
    ¬ SetsExact twoTunnels ((routing twoTunnels byInsertion).run (.start twinPolicies []) [.apply true]) := by
  constructor
  · intro h
    have hstale : ("pbr_work".toList, "a.example".toList) ∈
        ((routing twoTunnels byInsertion).run (.start [workPolicy] []) [.apply true,
          .edit (.removePolicy true "work".toList), .apply true, .refresh]).resolved := by
      decide +kernel
    exact inUse_nil twoTunnels _ ((h.resolved _).mp hstale)
  · intro h
    exact absurd h.distinct (by decide +kernel)

/-! ## The rules for the fwmarks -/

/-- The WireGuard and the OpenVPN clients. -/
def Tunnels.all (ts : Tunnels) : List Tunnel :=
  ts.wireGuard ++ ts.openVPN

/-- No two tunnels share a fwmark or a table. -/
structure Tunnels.Distinct (ts : Tunnels) : Prop where
  fwmarks : (ts.all.map (·.fwmark)).Nodup
  tables : (ts.all.map (·.table)).Nodup

variable {ts : Tunnels}

theorem findTunnel_mem {name : Text} {t : Tunnel} (h : findTunnel ts name = some t) :
    t ∈ ts.all := by
  unfold findTunnel at h
  split at h
  · rename_i u hu
    cases h
    exact mem_append_left _ (mem_of_find?_eq_some hu)
  · exact mem_append_right _ (mem_of_find?_eq_some h)

/-- A rule is for one tunnel only. -/
theorem Tunnels.Distinct.isFor (h : ts.Distinct) {t u : Tunnel} (ht : t ∈ ts.all)
    (hu : u ∈ ts.all) (hne : u ≠ t) {r : IPRule} (hr : r.isFor t) : r.isFor u = false := by
  have hmark : u.fwmark ≠ t.fwmark := by
    intro heq
    exact hne (inj_on_of_nodup_map h.fwmarks hu ht heq)
  simp only [IPRule.isFor, decide_eq_true_eq] at hr
  simp only [IPRule.isFor, decide_eq_false_iff_not, not_and]
  intro hru
  exact absurd (hru.symm.trans hr.1) hmark

/-- `ip rule del` takes away one of the rules for the tunnel. -/
theorem ruleCount_ruleDel (t : Tunnel) (rules : List IPRule) :
    ruleCount t (ruleDel t rules) = ruleCount t rules - 1 := by
  unfold ruleCount ruleDel
  induction rules with
  | nil => rfl
  | cons r rules ih =>
    by_cases hr : r.isFor t
    · rw [eraseP_cons_of_pos hr, countP_cons_of_pos hr, Nat.add_sub_cancel]
    · rw [eraseP_cons_of_neg hr, countP_cons_of_neg hr, countP_cons_of_neg hr, ih]

/-- After `ip rule del` and `ip rule add` there is one rule, if there was no second one before. -/
theorem ruleCount_renewed (t : Tunnel) (priority : Int) {rules : List IPRule}
    (h : ruleCount t rules ≤ 1) : ruleCount t (ruleAdd t priority (ruleDel t rules)) = 1 := by
  have hfor : IPRule.isFor t ⟨t.fwmark, t.table, priority⟩ = true := by simp [IPRule.isFor]
  have hnone : ruleCount t (ruleDel t rules) = 0 := by
    rw [ruleCount_ruleDel]
    omega
  have hnew : (⟨t.fwmark, t.table, priority⟩ : IPRule) ∉ ruleDel t rules := by
    intro hmem
    exact countP_eq_zero.mp hnone _ hmem hfor
  rw [ruleAdd, if_neg hnew, ruleCount, countP_append, ← ruleCount, hnone]
  simp [hfor]

/-- The rules of the other tunnels stay. -/
theorem ruleCount_other {t u : Tunnel}
    (hother : ∀ r : IPRule, r.isFor t → r.isFor u = false) (priority : Int) (rules : List IPRule) :
    ruleCount u (ruleAdd t priority (ruleDel t rules)) = ruleCount u rules := by
  have hfor : IPRule.isFor u ⟨t.fwmark, t.table, priority⟩ = false :=
    hother _ (by simp [IPRule.isFor])
  have hdel : ruleCount u (ruleDel t rules) = ruleCount u rules := by
    unfold ruleCount ruleDel
    induction rules with
    | nil => rfl
    | cons r rules ih =>
      by_cases hr : r.isFor t
      · rw [eraseP_cons_of_pos hr, countP_cons_of_neg (by simp [hother r hr])]
      · rw [eraseP_cons_of_neg hr, countP_cons, countP_cons, ih]
  rw [ruleAdd]
  split_ifs
  · exact hdel
  · rw [ruleCount, countP_append, ← ruleCount, hdel]
    simp [hfor]

section Rules

variable {ts : Tunnels} (hts : ts.Distinct) {u : Tunnel} (hu : u ∈ ts.all)
include hts hu

variable {s : RoutingState}

theorem applyPolicy_rules (h : ruleCount u s.rules ≤ 1) (p : RoutingPolicy) :
    (Uses ts [p] u → ruleCount u (applyPolicy ts s p).rules = 1) ∧
      (¬ Uses ts [p] u → ruleCount u (applyPolicy ts s p).rules = ruleCount u s.rules) := by
  have huses : Uses ts [p] u ↔ p.enabled ∧ findTunnel ts p.tunnel = some u := by
    simp [Uses]
  rw [huses]
  rcases applyPolicy_cases ts s p with ⟨hskip, heq⟩ | ⟨t, hen, htun, heq⟩
  · rw [heq]
    refine ⟨?_, fun _ => rfl⟩
    rintro ⟨hen, htun⟩
    exact absurd ⟨hen, by rw [htun]; rfl⟩ hskip
  · rw [heq]
    rcases eq_or_ne u t with rfl | htu
    · exact ⟨fun _ => ruleCount_renewed u p.priority h, fun hnot => absurd ⟨hen, htun⟩ hnot⟩
    · refine ⟨?_, fun _ => ?_⟩
      · rintro ⟨-, htun'⟩
        rw [htun] at htun'
        exact absurd (Option.some.inj htun').symm htu
      · exact ruleCount_other (fun r hr => hts.isFor (findTunnel_mem htun) hu htu hr) p.priority _

/-- One rule for a tunnel in use, by induction on the policies. -/
theorem foldl_applyPolicy_rules (h : ruleCount u s.rules ≤ 1) (ps : List RoutingPolicy) :
    (Uses ts ps u → ruleCount u (ps.foldl (applyPolicy ts) s).rules = 1) ∧
      (¬ Uses ts ps u → ruleCount u (ps.foldl (applyPolicy ts) s).rules = ruleCount u s.rules) := by
  induction ps generalizing s with
  | nil => exact ⟨fun ⟨p, hp, _⟩ => absurd hp not_mem_nil, fun _ => rfl⟩
  | cons p ps ih =>
    have hsplit : Uses ts (p :: ps) u ↔ Uses ts [p] u ∨ Uses ts ps u := by
      simp [Uses]
    obtain ⟨hused, hunused⟩ := applyPolicy_rules hts hu h p
    have hle : ruleCount u (applyPolicy ts s p).rules ≤ 1 := by
      by_cases hp : Uses ts [p] u
      · rw [hused hp]
      · rwa [hunused hp]
    rw [foldl_cons, hsplit]
    refine ⟨?_, ?_⟩
    · rintro (hp | hps)
      · by_cases hps : Uses ts ps u
        · exact (ih hle).1 hps
        · rw [(ih hle).2 hps, hused hp]
      · exact (ih hle).1 hps
    · intro hnot
      rw [not_or] at hnot
      rw [(ih hle).2 hnot.2, hunused hnot.1]

theorem apply_rules (sorter : Sorter) (h : ruleCount u s.rules ≤ 1) :
    (Uses ts s.policies u → ruleCount u (apply ts sorter true s).rules = 1) ∧
      (¬ Uses ts s.policies u →
        ruleCount u (apply ts sorter true s).rules = ruleCount u s.rules) := by
  have hfold := foldl_applyPolicy_rules hts hu
    (s := { s with applied := s.policies, resolved := [] }) h (sorter.sort s.policies)
  rwa [uses_sort] at hfold

/-- Every step keeps at most one rule for a tunnel, and takes none away. -/
theorem step_rules (sorter : Sorter) (s : RoutingState) (e : RoutingEvent)
    (h : ruleCount u s.rules ≤ 1) :
    ruleCount u ((routing ts sorter).step s e).rules ≤ 1 ∧
      (0 < ruleCount u ((routing ts sorter).step s e).rules ↔
        0 < ruleCount u s.rules ∨ (e = .apply true ∧ Uses ts s.policies u)) := by
  cases e with
  | edit e => exact ⟨h, by simp [routing, RoutingState.step]⟩
  | refresh => exact ⟨h, by simp [routing, RoutingState.step, refreshDomainSets, resolveDomains]⟩
  | apply loaded =>
    cases loaded with
    | false => exact ⟨h, by simp [routing, RoutingState.step, apply_of_not_loaded]⟩
    | true =>
      have hrules := apply_rules hts hu sorter h
      show ruleCount u (Routing.apply ts sorter true s).rules ≤ 1 ∧
        (0 < ruleCount u (Routing.apply ts sorter true s).rules ↔ _)
      by_cases huse : Uses ts s.policies u
      · rw [hrules.1 huse]
        simp [huse]
      · rw [hrules.2 huse]
        simp [huse, h]

end Rules

/-- There is one rule for each tunnel in use and none for any other. -/
def RulesExact (ts : Tunnels) (s : RoutingState) : Prop :=
  ∀ t ∈ ts.all, (Uses ts s.applied t → ruleCount t s.rules = 1) ∧
    (¬ Uses ts s.applied t → ruleCount t s.rules = 0)

instance (ts : Tunnels) (s : RoutingState) : Decidable (RulesExact ts s) :=
  inferInstanceAs (Decidable (∀ t ∈ ts.all, _))

/-- There is a rule for a tunnel exactly if there was one at the start or some `Apply` so far
had a policy that uses it. -/
theorem ruleCount_run (hts : ts.Distinct) (sorter : Sorter) (ps : List RoutingPolicy)
    {rules : List IPRule} {t : Tunnel} (ht : t ∈ ts.all) (hrules : ruleCount t rules ≤ 1)
    (es : List RoutingEvent) :
    ruleCount t ((routing ts sorter).run (.start ps rules) es).rules ≤ 1 ∧
    (0 < ruleCount t ((routing ts sorter).run (.start ps rules) es).rules ↔
      0 < ruleCount t rules ∨ ∃ early, early ++ [.apply true] <+: es ∧
        Uses ts ((routing ts sorter).run (.start ps rules) early).policies t) := by
  have hle : ∀ es, ruleCount t ((routing ts sorter).run (.start ps rules) es).rules ≤ 1 :=
    Machine.run_invariant (M := routing ts sorter) (P := fun s => ruleCount t s.rules ≤ 1)
      (fun s e h => (step_rules hts ht sorter s e h).1) (s := .start ps rules) hrules
  refine ⟨hle es, ?_⟩
  induction es using reverseRecOn with
  | nil => simp [Machine.run, RoutingState.start]
  | append_singleton es e ih =>
    rw [Machine.run_concat, (step_rules hts ht sorter _ e (hle es)).2, ih, or_assoc]
    apply or_congr_right
    constructor
    · rintro (⟨early, hearly, huse⟩ | ⟨rfl, huse⟩)
      · exact ⟨early, hearly.trans (prefix_append _ _), huse⟩
      · exact ⟨es, prefix_rfl, huse⟩
    · rintro ⟨early, hearly, huse⟩
      rcases prefix_concat_iff.mp hearly with heq | hearly
      · obtain ⟨rfl, he⟩ := append_inj' heq rfl
        exact .inr ⟨(singleton_inj.mp he).symm, huse⟩
      · exact .inl ⟨early, hearly, huse⟩

/-- **Rules for the fwmarks.** From any rules with at most one for each tunnel: after each
`Apply` there is one rule for each tunnel that an enabled policy uses, and none for any other
tunnel, exactly if every tunnel that had a rule at the start, or that an earlier `Apply` found in
use, is still in use. -/
theorem fwmark_rules_iff {ts : Tunnels} (hts : ts.Distinct) (sorter : Sorter)
    (ps : List RoutingPolicy) {rules : List IPRule} (hrules : ∀ t ∈ ts.all, ruleCount t rules ≤ 1)
    (es : List RoutingEvent) :
    (∀ pre, pre ++ [.apply true] <+: es →
      RulesExact ts ((routing ts sorter).run (.start ps rules) (pre ++ [.apply true]))) ↔
    ∀ pre, pre ++ [.apply true] <+: es → ∀ t ∈ ts.all,
      (0 < ruleCount t rules ∨ ∃ early, early ++ [.apply true] <+: pre ∧
        Uses ts ((routing ts sorter).run (.start ps rules) early).policies t) →
      Uses ts ((routing ts sorter).run (.start ps rules) pre).policies t := by
  refine forall_congr' fun pre => imp_congr_right fun _ => ?_
  set s := (routing ts sorter).run (.start ps rules) pre with hs
  have hstep : (routing ts sorter).run (.start ps rules) (pre ++ [.apply true]) =
      apply ts sorter true s := by rw [Machine.run_concat]; rfl
  rw [hstep, RulesExact, apply_applied]
  refine forall_congr' fun t => imp_congr_right fun ht => ?_
  obtain ⟨hle, hpos⟩ := ruleCount_run hts sorter ps ht (hrules t ht) pre
  obtain ⟨hused, hunused⟩ := apply_rules hts ht sorter hle
  rw [← hpos, ← hs]
  constructor
  · rintro ⟨-, hnone⟩ hrule
    by_contra hnot
    rw [← hunused hnot, hnone hnot] at hrule
    exact absurd hrule (Nat.lt_irrefl 0)
  · intro hkept
    refine ⟨hused, fun hnot => ?_⟩
    rw [hunused hnot]
    by_contra hne
    exact hnot (hkept (Nat.pos_of_ne_zero hne))

/-- A rule for the tunnel is there at the start, and the policy stays enabled. -/
theorem rules_of_workPolicy : twoTunnels.Distinct ∧
    ∀ pre, pre ++ [.apply true] <+: [.apply true, .apply true] →
      RulesExact twoTunnels ((routing twoTunnels byInsertion).run
        (.start [workPolicy] [⟨100, 100, 32765⟩]) (pre ++ [.apply true])) := by
  have hdistinct : twoTunnels.Distinct := ⟨by decide, by decide⟩
  refine ⟨hdistinct, (fwmark_rules_iff hdistinct byInsertion [workPolicy] (by decide) _).mpr ?_⟩
  have hstart : ∀ t ∈ twoTunnels.all, 0 < ruleCount t [⟨100, 100, 32765⟩] →
      Uses twoTunnels [workPolicy] t := by decide +kernel
  intro pre hpre t ht h
  rcases pre with _ | ⟨e, _ | ⟨e', pre⟩⟩
  · rcases h with h | ⟨early, hearly, -⟩
    · exact hstart t ht h
    · simp at hearly
  · obtain rfl : e = .apply true := by simpa [eq_comm] using hpre
    rcases h with h | ⟨early, hearly, huse⟩
    · exact hstart t ht h
    · obtain rfl : early = [] := by
        rcases early with _ | ⟨e, early⟩
        · rfl
        · simp at hearly
      exact huse
  · simp at hpre

/-- The policy is switched off, and the rule for its tunnel stays; a rule at the start for a
tunnel that no policy uses stays; and of two rules for one tunnel one stays beside the new one. -/
theorem rule_of_disabled_policy :
    twoTunnels.Distinct ∧
    ¬ RulesExact twoTunnels ((routing twoTunnels byInsertion).run (.start [workPolicy] [])
      [.apply true, .edit (.togglePolicy true "work" false), .apply true]) ∧
    ¬ RulesExact twoTunnels ((routing twoTunnels byInsertion).run
      (.start [] [⟨100, 100, 32765⟩]) [.apply true]) ∧
    ¬ RulesExact twoTunnels ((routing twoTunnels byInsertion).run
      (.start [workPolicy] [⟨100, 100, 32764⟩, ⟨100, 100, 32765⟩]) [.apply true]) := by
  refine ⟨⟨by decide, by decide⟩, ?_, ?_, ?_⟩ <;> decide +kernel

end Lankeeper.Routing
