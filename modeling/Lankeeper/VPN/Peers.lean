import Lankeeper.Lib.Machine
import Lankeeper.VPN.Ranges

/-!
# Lankeeper.VPN.Peers — concurrent changes of the peer list

The calls of the VPN service run concurrently. One that adds a peer reads the claimed
subnets, lets go of the lock, generates keys, and takes the lock again to append. The
machine `serving` has the two halves as two steps, with any number of calls between
them. A call in flight carries the remote subnets its check saw, a history variable
that nothing reads.

`peers_apart_iff` says which runs keep the remote subnets of the peers apart from each
other and from the router's own ranges.
-/

namespace Lankeeper.VPN

open Lib Text Lankeeper.Network List
open Lib.Network (Apart)

/-! ## Calls in flight -/

/-- A call that adds a peer, after its checks. -/
inductive Job
  | addPeer (r : PeerRequest)
  | createS2SInvite (r : InviteRequest)
  | consumeInvite (inv : S2SInvite)
deriving DecidableEq

/-- The remote subnets of the peer to be added. -/
def Job.remoteSubnets : Job → List Text
  | .addPeer r => r.remoteSubnets
  | .createS2SInvite r => r.expectedRemote
  | .consumeInvite inv => inv.remoteSubnets

/-- What the second half of a call gets from outside. -/
structure Env where
  saved : Bool
  now : Nat
  keys : Option PeerKeys
  psk : Option Text

/-- The second half of a call. -/
def Job.commit (env : Env) (c : Config) : Job → Config
  | .addPeer r =>
    match env.keys with
    | none => c
    | some keys => (commitPeer env.saved keys r c).2
  | .createS2SInvite r =>
    match env.psk with
    | none => c
    | some psk => (commitInvite env.saved env.now psk r c).2
  | .consumeInvite inv => (commitConsume env.saved env.now inv c).2

/-- A call between its halves. -/
structure Call where
  job : Job
  /-- the remote subnets of each peer at the time of the check -/
  seen : List (List Text)

/-- The config and the calls in flight. -/
structure Serving where
  config : Config
  calls : List Call

/-- A step of the service. -/
inductive Op
  -- first halves
  | addPeer (r : PeerRequest)
  | createS2SInvite (r : InviteRequest)
  | consumeInvite (now : Nat) (token : Token)
  -- the second half of the call with this number
  | commit (k : Nat) (env : Env)
  -- calls under the lock
  | finalizeInvite (saved : Bool) (now : Nat) (name : Text) (token : Token)
  | cancelInvite (saved : Bool) (name : Text)
  | gcExpiredInvites (now : Nat)
  | removePeer (saved : Bool) (name : Text)

/-- A call goes on to its second half if its checks pass. -/
def Serving.enter (s : Serving) : Except VPNError Job → Serving
  | .error _ => s
  | .ok job => { s with calls := s.calls ++ [⟨job, s.config.vpnServer.peers.map (·.remoteSubnets)⟩] }

/-- The second half of the call with the number. -/
def Serving.commit (s : Serving) (k : Nat) (env : Env) : Serving :=
  match s.calls[k]? with
  | none => s
  | some call => ⟨call.job.commit env s.config, s.calls.eraseIdx k⟩

def Serving.step (s : Serving) : Op → Serving
  | .addPeer r => s.enter ((checkPeer s.config r).map fun _ => .addPeer r)
  | .createS2SInvite r =>
    s.enter ((validateInviteRequest s.config r).map fun _ => .createS2SInvite r)
  | .consumeInvite now token => s.enter ((checkConsume s.config now token).map .consumeInvite)
  | .commit k env => s.commit k env
  | .finalizeInvite saved now name token =>
    { s with config := (VPN.finalizeInvite saved now name token s.config).2 }
  | .cancelInvite saved name => { s with config := (VPN.cancelInvite saved name s.config).2 }
  | .gcExpiredInvites now => { s with config := (VPN.gcExpiredInvites now s.config).2 }
  | .removePeer saved name => { s with config := (VPN.removePeer saved name s.config).2 }

/-- The peers have no address in common with each other or with a local range. -/
structure PeersApart (c : Config) : Prop where
  peers : (c.vpnServer.peers.map peerRange).Pairwise Apart
  locals : ∀ p ∈ c.vpnServer.peers, ∀ range ∈ localRanges c, Apart (peerRange p) range

/-- The service under calls. -/
def serving : Machine Serving Op where
  Init s := PeersApart s.config ∧ s.calls = []
  step := Serving.step

/-! ## What the steps do to the peer list -/

/-- The peer that the second half of a call appends. -/
inductive Job.Appends (env : Env) (c : Config) : Job → WGServerPeer → Prop
  | addPeer {r keys ip p} : env.keys = some keys → nextTunnelIP c = .ok ip → Added keys r ip p →
      Appends env c (.addPeer r) p
  | createS2SInvite {r psk} : env.psk = some psk →
      Appends env c (.createS2SInvite r) (pendingPeer env.now psk r)
  | consumeInvite {inv} : Appends env c (.consumeInvite inv) (joinedPeer inv)

variable {c : Config} {p : WGServerPeer}

theorem Job.Appends.remoteSubnets {env : Env} {job : Job}
    (h : job.Appends env c p) : p.remoteSubnets = job.remoteSubnets := by
  cases h with
  | addPeer _ _ hp => exact hp.remoteSubnets
  | createS2SInvite _ => rfl
  | consumeInvite => rfl

/-- A second half that changes anything appends a peer with a new name. -/
theorem Job.commit_cases (env : Env) (c : Config) (job : Job) :
    job.commit env c = c ∨ ∃ p, job.Appends env c p ∧
      (∀ q ∈ c.vpnServer.peers, q.name ≠ p.name) ∧
      job.commit env c = withPeers c (c.vpnServer.peers ++ [p]) := by
  -- both invite calls append through `appendPeer`
  have happend : ∀ p : WGServerPeer, job.Appends env c p →
      (appendPeer env.saved p c).2 = c ∨ ∃ q, job.Appends env c q ∧
        (∀ q' ∈ c.vpnServer.peers, q'.name ≠ q.name) ∧
        (appendPeer env.saved p c).2 = withPeers c (c.vpnServer.peers ++ [q]) := by
    intro p hp
    rcases appendPeer_cases env.saved p c with h | ⟨hfree, h⟩
    · exact .inl (by rw [h])
    · exact .inr ⟨p, hp, hfree, by rw [h]⟩
  cases job with
  | addPeer r =>
    unfold commit
    cases hkeys : env.keys with
    | none => exact .inl rfl
    | some keys =>
      rcases commitPeer_cases env.saved keys r c with h | ⟨ip, p, hip, hp, hfree, h⟩
      · exact .inl h
      · exact .inr ⟨p, .addPeer hkeys hip hp, hfree, h⟩
  | createS2SInvite r =>
    unfold commit
    cases hpsk : env.psk with
    | none => exact .inl rfl
    | some psk => exact happend (pendingPeer env.now psk r) (.createS2SInvite hpsk)
  | consumeInvite inv => exact happend (joinedPeer inv) .consumeInvite

/-- The checks that a call has passed when it goes on to its second half. -/
inductive Job.Passed (c : Config) : Job → Prop
  | addPeer {r} : checkPeer c r = .ok () → Passed c (.addPeer r)
  | createS2SInvite {r} : validateInviteRequest c r = .ok () → Passed c (.createS2SInvite r)
  | consumeInvite {now token inv} : checkConsume c now token = .ok inv →
      Passed c (.consumeInvite inv)

theorem checkPeer_ok {r : PeerRequest} (h : checkPeer c r = .ok ()) :
    checkRemoteSubnets c r.remoteSubnets = .ok () := by
  obtain ⟨⟨⟩, hcheck, -⟩ := exists_of_bind_ok h
  exact hcheck

theorem validateInviteRequest_ok {r : InviteRequest}
    (h : validateInviteRequest c r = .ok ()) : checkRemoteSubnets c r.expectedRemote = .ok () := by
  simp only [validateInviteRequest, bind_ok_iff] at h
  obtain ⟨⟨⟩, -, ⟨⟩, -, ⟨⟩, -, ⟨⟩, -, h⟩ := h
  exact h

/-- Every call that goes on to its second half has passed the overlap check. -/
theorem Job.Passed.remoteSubnets {job : Job} (h : job.Passed c) :
    checkRemoteSubnets c job.remoteSubnets = .ok () := by
  cases h with
  | addPeer h => exact checkPeer_ok h
  | createS2SInvite h => exact validateInviteRequest_ok h
  | consumeInvite h => exact (checkConsume_ok h).2.2.2

/-- Nothing but the peer list has changed, which has lost peers or none. -/
def Removes (c c' : Config) : Prop :=
  ∃ ps, c' = withPeers c ps ∧ List.Sublist ps c.vpnServer.peers

theorem Removes.refl (c : Config) : Removes c c :=
  ⟨c.vpnServer.peers, rfl, List.Sublist.refl _⟩

/-- One peer less. -/
theorem Removes.of_split {front back : List WGServerPeer}
    (h : c.vpnServer.peers = front ++ p :: back) : Removes c (withPeers c (front ++ back)) := by
  refine ⟨_, rfl, ?_⟩
  rw [h]
  exact (List.Sublist.refl front).append (sublist_cons_self p back)

theorem cancelInvite_removes (saved : Bool) (name : Text) (c : Config) :
    Removes c (cancelInvite saved name c).2 := by
  rcases cancelInvite_cases saved name c with h | ⟨p, front, back, -, hpeers, h⟩
  · rw [h]
    exact Removes.refl c
  · rw [h]
    exact Removes.of_split hpeers

theorem removePeer_removes (saved : Bool) (name : Text) (c : Config) :
    Removes c (removePeer saved name c).2 := by
  rcases removePeer_cases saved name c with h | ⟨p, front, back, -, hpeers, h⟩
  · rw [h]
    exact Removes.refl c
  · rw [h]
    exact Removes.of_split hpeers

theorem gcExpiredInvites_removes (now : Nat) (c : Config) : Removes c (gcExpiredInvites now c).2 :=
  ⟨_, rfl, filter_sublist⟩

/-- What a step can come to. -/
inductive Serving.Outcome (s : Serving) (op : Op) : Serving → Prop
  -- a first half
  | enter {job} : job.Passed s.config → Outcome s op
      { s with calls := s.calls ++ [⟨job, s.config.vpnServer.peers.map (·.remoteSubnets)⟩] }
  -- a second half
  | append {k env call p} : op = .commit k env → s.calls[k]? = some call →
      call.job.Appends env s.config p → (∀ q ∈ s.config.vpnServer.peers, q.name ≠ p.name) →
      Outcome s op ⟨withPeers s.config (s.config.vpnServer.peers ++ [p]), s.calls.eraseIdx k⟩
  | finalize {saved now name token body p front back} :
      op = .finalizeInvite saved now name token →
      checkFinalize now name token s.config = .ok (body, p) →
      s.config.vpnServer.peers = front ++ p :: back → Outcome s op
      { s with config := withPeers s.config (front ++ finalized body.publicKey p :: back) }
  -- peers are removed, or nothing happens to them
  | remove {ps calls} : List.Sublist ps s.config.vpnServer.peers → List.Sublist calls s.calls →
      Outcome s op ⟨withPeers s.config ps, calls⟩

theorem Serving.Outcome.same (s : Serving) (op : Op) : s.Outcome op s :=
  .remove (List.Sublist.refl _) (List.Sublist.refl _)

theorem Serving.Outcome.removed {s : Serving} {op : Op} {c' : Config} (h : Removes s.config c') :
    s.Outcome op { s with config := c' } := by
  obtain ⟨ps, rfl, hsub⟩ := h
  exact .remove hsub (List.Sublist.refl _)

theorem Serving.enter_outcome (s : Serving) (op : Op) {result : Except VPNError Job}
    (h : ∀ job, result = .ok job → job.Passed s.config) : s.Outcome op (s.enter result) := by
  cases result with
  | error e => exact .same s op
  | ok job => exact .enter (h job rfl)

theorem Serving.step_outcome (s : Serving) (op : Op) : s.Outcome op (serving.step s op) := by
  cases op with
  | addPeer r =>
    refine s.enter_outcome _ fun job hjob => ?_
    obtain ⟨⟨⟩, hcheck, rfl⟩ := map_ok_iff.mp hjob
    exact .addPeer hcheck
  | createS2SInvite r =>
    refine s.enter_outcome _ fun job hjob => ?_
    obtain ⟨⟨⟩, hcheck, rfl⟩ := map_ok_iff.mp hjob
    exact .createS2SInvite hcheck
  | consumeInvite now token =>
    refine s.enter_outcome _ fun job hjob => ?_
    obtain ⟨inv, hcheck, rfl⟩ := map_ok_iff.mp hjob
    exact .consumeInvite hcheck
  | commit k env =>
    change s.Outcome _ (s.commit k env)
    unfold Serving.commit
    split
    · exact .same s _
    rename_i call hcall
    rcases call.job.commit_cases env s.config with heq | ⟨p, hp, hfree, heq⟩
    · rw [heq]
      exact .remove (List.Sublist.refl _) (eraseIdx_sublist _ _)
    · rw [heq]
      exact .append rfl hcall hp hfree
  | finalizeInvite saved now name token =>
    change s.Outcome _ { s with config := (VPN.finalizeInvite saved now name token s.config).2 }
    rcases finalizeInvite_cases saved now name token s.config with
      ⟨e, -, h⟩ | ⟨body, p, front, back, hcheck, hpeers, h⟩
    · rw [h]
      exact .same s _
    · rw [h]
      exact .finalize rfl hcheck hpeers
  | cancelInvite saved name => exact .removed (cancelInvite_removes saved name s.config)
  | gcExpiredInvites now => exact .removed (gcExpiredInvites_removes now s.config)
  | removePeer saved name => exact .removed (removePeer_removes saved name s.config)

/-- The remote subnets of the peers after a change are among those before it. -/
def Shrinks (c c' : Config) : Prop :=
  ∃ ps, c' = withPeers c ps ∧
    List.Sublist (ps.map (·.remoteSubnets)) (c.vpnServer.peers.map (·.remoteSubnets))

theorem Shrinks.refl (c : Config) : Shrinks c c :=
  ⟨c.vpnServer.peers, rfl, List.Sublist.refl _⟩

theorem Removes.shrinks {c c' : Config} (h : Removes c c') : Shrinks c c' := by
  obtain ⟨ps, rfl, hsub⟩ := h
  exact ⟨ps, rfl, hsub.map _⟩

theorem finalizeInvite_shrinks (saved : Bool) (now : Nat) (name : Text) (token : Token) (c : Config) :
    Shrinks c (finalizeInvite saved now name token c).2 := by
  rcases finalizeInvite_cases saved now name token c with ⟨e, -, h⟩ | ⟨body, p, front, back, -, hpeers, h⟩
  · rw [h]
    exact Shrinks.refl c
  rw [h]
  refine ⟨_, rfl, ?_⟩
  -- the peer keeps its subnets
  have hsame : (finalized body.publicKey p).remoteSubnets = p.remoteSubnets := rfl
  rw [hpeers]
  simp [hsame]

/-! ## Peers apart -/

theorem peerRange_map (ps : List WGServerPeer) :
    ps.map peerRange = (ps.map (·.remoteSubnets)).map subnetRange := by
  rw [map_map]
  rfl

theorem PeersApart.shrink {c c' : Config} (h : PeersApart c) (hs : Shrinks c c') : PeersApart c' := by
  obtain ⟨ps, rfl, hsub⟩ := hs
  have hranges : List.Sublist (ps.map peerRange) (c.vpnServer.peers.map peerRange) := by
    rw [peerRange_map, peerRange_map]
    exact hsub.map _
  constructor
  · exact h.peers.sublist hranges
  · intro p hp range hrange
    obtain ⟨q, hq, heq⟩ := mem_map.mp (hranges.subset (mem_map_of_mem hp))
    rw [← heq]
    exact h.locals q hq range hrange

theorem PeersApart.append_iff (h : PeersApart c) (p : WGServerPeer) :
    PeersApart (withPeers c (c.vpnServer.peers ++ [p])) ↔
      (∀ q ∈ c.vpnServer.peers, Apart (peerRange q) (peerRange p)) ∧
        ∀ range ∈ localRanges c, Apart (peerRange p) range := by
  constructor
  · intro h'
    constructor
    · intro q hq
      have hpeers := h'.peers
      rw [withPeers_peers, map_append, pairwise_append] at hpeers
      exact hpeers.2.2 _ (mem_map_of_mem hq) _ (by simp)
    · intro range hrange
      exact h'.locals p (by simp) range hrange
  · rintro ⟨hpeers, hlocals⟩
    constructor
    · rw [withPeers_peers, map_append, pairwise_append]
      refine ⟨h.peers, by simp, ?_⟩
      intro a ha b hb
      obtain ⟨q, hq, rfl⟩ := mem_map.mp ha
      obtain rfl : b = peerRange p := by simpa using hb
      exact hpeers q hq
    · intro q hq range hrange
      rw [withPeers_peers] at hq
      rcases mem_append.mp hq with hq | hq
      · exact h.locals q hq range hrange
      · rw [mem_singleton.mp hq]
        exact hlocals range hrange

/-! ## What a call in flight knows -/

/-- The call's subnets are apart from what its check compared them with. -/
structure Call.Checked (c : Config) (call : Call) : Prop where
  seen : ∀ subnets ∈ call.seen, Apart (subnetRange subnets) (subnetRange call.job.remoteSubnets)
  served : ∀ range ∈ servedRanges c, Apart (subnetRange call.job.remoteSubnets) range
  ovpn : c.ovpnServer.enabled → Apart (subnetRange call.job.remoteSubnets) (ovpnRange c)

theorem Call.checked_of_ok {job : Job} (h : checkRemoteSubnets c job.remoteSubnets = .ok ()) :
    Call.Checked c ⟨job, c.vpnServer.peers.map (·.remoteSubnets)⟩ where
  seen subnets hsubnets := by
    obtain ⟨p, hp, rfl⟩ := mem_map.mp hsubnets
    exact (checkRemoteSubnets_peer h hp).symm
  served := checkRemoteSubnets_served h
  ovpn := checkRemoteSubnets_ovpn h

/-- Every call in flight knows what its check gave. The steps change nothing in the
config but the peer list, so it stays true. -/
def CallsChecked (s : Serving) : Prop :=
  ∀ call ∈ s.calls, call.Checked s.config

/-- Changes of the peer list do not matter. -/
theorem CallsChecked.withPeers {s : Serving} (h : CallsChecked s) (ps : List WGServerPeer)
    {calls : List Call} (hcalls : List.Sublist calls s.calls) :
    CallsChecked ⟨VPN.withPeers s.config ps, calls⟩ := by
  intro call hcall
  have hchecked := h call (hcalls.subset hcall)
  exact ⟨hchecked.seen, hchecked.served, hchecked.ovpn⟩

theorem CallsChecked.step (s : Serving) (op : Op) (h : CallsChecked s) :
    CallsChecked (serving.step s op) := by
  have hout := s.step_outcome op
  generalize serving.step s op = s' at hout ⊢
  cases hout with
  | enter hpassed =>
    have hcall := Call.checked_of_ok hpassed.remoteSubnets
    exact forall_mem_append.mpr ⟨h, forall_mem_singleton.mpr hcall⟩
  | append _ _ _ _ => exact h.withPeers _ (eraseIdx_sublist _ _)
  | finalize _ _ _ => exact h.withPeers _ (List.Sublist.refl _)
  | remove _ hcalls => exact h.withPeers _ hcalls

/-! ## Which runs keep the peers apart -/

/-- A second half that appends a peer finds none that overlaps it among the peers that
came after its check, and the peer does not overlap the subnet of a disabled OpenVPN
server. -/
def InTime (s : Serving) : Op → Prop
  | .commit k env => ∀ call, s.calls[k]? = some call → call.job.commit env s.config ≠ s.config →
      (∀ q ∈ s.config.vpnServer.peers, q.remoteSubnets ∉ call.seen →
        Apart (peerRange q) (subnetRange call.job.remoteSubnets)) ∧
      (s.config.ovpnServer.enabled = false →
        Apart (subnetRange call.job.remoteSubnets) (ovpnRange s.config))
  | _ => True

/-- Appending keeps the peers apart exactly if what the check did not see is apart. -/
theorem Call.Checked.append_iff {call : Call} (hcall : call.Checked c)
    (h : PeersApart c) (hp : p.remoteSubnets = call.job.remoteSubnets) :
    PeersApart (withPeers c (c.vpnServer.peers ++ [p])) ↔
      (∀ q ∈ c.vpnServer.peers, q.remoteSubnets ∉ call.seen →
        Apart (peerRange q) (subnetRange call.job.remoteSubnets)) ∧
      (c.ovpnServer.enabled = false → Apart (subnetRange call.job.remoteSubnets) (ovpnRange c)) := by
  have hrange : peerRange p = subnetRange call.job.remoteSubnets := congrArg subnetRange hp
  rw [h.append_iff, hrange]
  constructor
  · rintro ⟨hpeers, hlocals⟩
    exact ⟨fun q hq _ => hpeers q hq, fun _ => hlocals _ (by simp [localRanges])⟩
  rintro ⟨hunseen, hovpn⟩
  constructor
  · intro q hq
    by_cases hseen : q.remoteSubnets ∈ call.seen
    · exact hcall.seen _ hseen
    · exact hunseen q hq hseen
  · intro range hlocal
    rcases mem_append.mp hlocal with hserved | hlast
    · exact hcall.served range hserved
    · rw [mem_singleton.mp hlast]
      rcases Bool.eq_false_or_eq_true c.ovpnServer.enabled with henabled | hdisabled
      · exact hcall.ovpn henabled
      · exact hovpn hdisabled

theorem enter_config (s : Serving) (result : Except VPNError Job) :
    (s.enter result).config = s.config := by
  cases result <;> rfl

theorem step_apart_iff (s : Serving) (op : Op) (hcalls : CallsChecked s)
    (h : PeersApart s.config) : PeersApart (serving.step s op).config ↔ InTime s op := by
  have henter : ∀ result, PeersApart (s.enter result).config := by
    intro result
    rwa [enter_config]
  cases op with
  | addPeer r => exact iff_of_true (henter _) trivial
  | createS2SInvite r => exact iff_of_true (henter _) trivial
  | consumeInvite now token => exact iff_of_true (henter _) trivial
  | commit k env =>
    show PeersApart (s.commit k env).config ↔ _
    simp only [Serving.commit, InTime]
    cases hk : s.calls[k]? with
    | none => exact iff_of_true h (fun call hcall => by cases hcall)
    | some call =>
      have hchecked := hcalls call (mem_of_getElem? hk)
      rcases call.job.commit_cases env s.config with heq | ⟨p, hp, -, heq⟩
      · simp only [Option.some.injEq, forall_eq', heq]
        exact iff_of_true h (fun hne => absurd rfl hne)
      have hne : call.job.commit env s.config ≠ s.config := by
        rw [heq]
        exact withPeers_append_ne _ _
      simp only [Option.some.injEq, forall_eq', ne_eq, hne, not_false_eq_true, true_implies]
      rw [heq]
      exact hchecked.append_iff h hp.remoteSubnets
  | finalizeInvite saved now name token =>
    exact iff_of_true (h.shrink (finalizeInvite_shrinks _ _ _ _ _)) trivial
  | cancelInvite saved name => exact iff_of_true (h.shrink (cancelInvite_removes _ _ _).shrinks) trivial
  | gcExpiredInvites now => exact iff_of_true (h.shrink (gcExpiredInvites_removes _ _).shrinks) trivial
  | removePeer saved name => exact iff_of_true (h.shrink (removePeer_removes _ _ _).shrinks) trivial

/-- **Disjoint remote subnets.** The peers stay apart all along a run of interleaved
calls exactly if every call that appends a peer is in time. -/
theorem peers_apart_iff {c : Config} (h : PeersApart c) (ops : List Op) :
    (∀ pre, pre <+: ops → PeersApart (serving.run ⟨c, []⟩ pre).config) ↔
      Machine.Guarded serving InTime ⟨c, []⟩ ops :=
  Machine.run_iff_guarded_of_invariant (M := serving) (P := fun s => PeersApart s.config)
    CallsChecked.step step_apart_iff (fun call hcall => by cases hcall) h ops

/-- A router with one LAN and a WireGuard server. -/
def officeConfig : Config where
  interfaces := [staticLAN "lan" "eth1" "192.168.1.1/24"]
  vpnServer := { publicKey := "k", address := "10.8.0.1/24" }

/-- A request for a link to a site with the LAN 10.50.0.0/16. -/
def linkTo (name : Text) : PeerRequest :=
  ⟨name, true, ["10.50.0.0/16"], []⟩

/-- Keys are generated and the file is written. -/
def fine : Env :=
  ⟨true, 0, some ⟨"priv", "pub", "psk"⟩, some "psk"⟩

theorem officeConfig_apart : PeersApart officeConfig :=
  ⟨by decide, by decide⟩

theorem officeConfig_one_link :
    PeersApart (serving.run ⟨officeConfig, []⟩ [.addPeer (linkTo "a"), .commit 0 fine]).config := by
  have hguard : Machine.Guarded serving InTime ⟨officeConfig, []⟩
      [.addPeer (linkTo "a"), .commit 0 fine] := by
    refine ⟨trivial, ?_, trivial⟩
    intro call _ _
    have hconfig := enter_config ⟨officeConfig, []⟩
      ((checkPeer officeConfig (linkTo "a")).map fun _ => .addPeer (linkTo "a"))
    constructor
    · intro q hq
      change q ∈ (Serving.enter _ _).config.vpnServer.peers at hq
      rw [hconfig] at hq
      cases hq
    · intro _
      change Apart _ (ovpnRange (Serving.enter _ _).config)
      rw [hconfig]
      exact Lib.Network.apart_nil _
  exact (peers_apart_iff officeConfig_apart _).mpr hguard _ (prefix_refl _)

/-- Two calls for the same remote LAN check before either appends, and both append. -/
theorem two_links_to_one_lan :
    ¬ PeersApart (serving.run ⟨officeConfig, []⟩ [.addPeer (linkTo "a"),
      .addPeer (linkTo "b"), .commit 0 fine, .commit 0 fine]).config := by
  intro h
  have hpeers := h.peers
  revert hpeers
  decide +kernel

end Lankeeper.VPN
