import Lankeeper.Network.Service
import Lankeeper.VPN.Peers

/-!
# Lankeeper.Network.Subnets — one address, one place

The network service and the VPN service edit one config, and each checks a new range
against a list of its own. `SetInterface` checks none. `AddVLAN` looks at the LANs,
the VLANs and the VPN servers, as far as their addresses parse as they stand, and not
at the peers. The calls that add a peer look at everything but the subnet of a
disabled OpenVPN server.

`ranges_apart_iff` says which runs of both keep all ranges of the router apart.
-/

namespace Lankeeper.Network

open Lib Text Lankeeper.VPN List
open Lib.Network (Apart nil_apart apart_nil apart_iff)

/-! ## All ranges of a config -/

/-- The ranges of every place the router serves or routes to. -/
def allRanges (c : Config) : List (List Network) :=
  localRanges c ++ c.vpnServer.peers.map peerRange

/-- No address is in the ranges of two places. -/
def NoOverlap (c : Config) : Prop :=
  (allRanges c).Pairwise Apart

variable {c c' : Config} {range : List Network} {v : VLANConfig}

theorem noOverlap_iff : NoOverlap c ↔ (localRanges c).Pairwise Apart ∧ PeersApart c := by
  rw [NoOverlap, allRanges, pairwise_append]
  constructor
  · rintro ⟨hlocal, hpeers, hboth⟩
    refine ⟨hlocal, hpeers, ?_⟩
    intro p hp range hrange
    exact (hboth range hrange _ (mem_map_of_mem hp)).symm
  · rintro ⟨hlocal, hpeers, hboth⟩
    refine ⟨hlocal, hpeers, ?_⟩
    intro range hrange r hr
    obtain ⟨p, hp, rfl⟩ := mem_map.mp hr
    exact (hboth p hp range hrange).symm

/-- A config whose ranges are those of another one and one more. -/
theorem noOverlap_of_perm (h : NoOverlap c) (hp : (allRanges c').Perm (range :: allRanges c)) :
    NoOverlap c' ↔ ∀ other ∈ allRanges c, Apart range other := by
  rw [NoOverlap, hp.pairwise_iff Lib.Network.Apart.symm, pairwise_cons]
  exact and_iff_left h

theorem NoOverlap.sublist (h : NoOverlap c) (hs : List.Sublist (allRanges c') (allRanges c)) :
    NoOverlap c' :=
  List.Pairwise.sublist hs h

theorem allRanges_interface (c : Config) {is is' : List InterfaceConfig} {i : InterfaceConfig}
    (h : is.Perm (i :: is')) :
    (allRanges { c with interfaces := is }).Perm (lanRange i :: allRanges { c with interfaces := is' }) := by
  have hmap : (is.map lanRange).Perm (lanRange i :: is'.map lanRange) := h.map lanRange
  simp only [allRanges, localRanges, servedRanges, append_assoc]
  exact hmap.append_right _

theorem allRanges_vlan (c : Config) (v : VLANConfig) :
    (allRanges { c with vlans := c.vlans ++ [v] }).Perm (vlanRange v :: allRanges c) := by
  simp only [allRanges, localRanges, servedRanges, map_append, map_cons, map_nil,
    append_assoc, singleton_append]
  rw [← append_assoc, ← append_assoc (c.interfaces.map lanRange)]
  exact perm_middle

theorem allRanges_interfaces_sublist (c : Config) {is : List InterfaceConfig}
    (h : List.Sublist is c.interfaces) :
    List.Sublist (allRanges { c with interfaces := is }) (allRanges c) := by
  simp only [allRanges, localRanges, servedRanges, append_assoc]
  exact (h.map lanRange).append_right _

theorem allRanges_vlans_sublist (c : Config) {vs : List VLANConfig} (h : List.Sublist vs c.vlans) :
    List.Sublist (allRanges { c with vlans := vs }) (allRanges c) := by
  simp only [allRanges, localRanges, servedRanges, append_assoc]
  exact (List.Sublist.refl _).append ((h.map vlanRange).append_right _)

/-! ## Edits of the network service -/

/-- The interfaces without the entry that `SetInterface` replaces. -/
def otherInterfaces (c : Config) (i : InterfaceConfig) : Config :=
  { c with interfaces := c.interfaces.eraseP fun x => x.id = i.id }

theorem setInterface_cases (saved : Bool) (i : InterfaceConfig) (c : Config) :
    (setInterface saved i c).2 = c ∨
      ∃ is, is.Perm (i :: (otherInterfaces c i).interfaces) ∧
        (setInterface saved i c).2 = { c with interfaces := is } := by
  rcases setInterface_spec saved i c with ⟨-, is, hplaced, heq⟩ | ⟨-, e, heq⟩
  · refine .inr ⟨is, ?_, by rw [heq]⟩
    unfold otherInterfaces
    generalize c.interfaces = old at hplaced ⊢
    cases hplaced with
    | last hnew =>
      rw [eraseP_of_forall_not (by simpa using hnew)]
      exact perm_append_singleton i old
    | instead hid hfront =>
      rw [eraseP_append_right _ (by simpa using hfront), eraseP_cons_of_pos (by simpa using hid)]
      exact perm_middle
  · exact .inl (by rw [heq])

/-- The ranges that `validateVLANSubnet` skips, because their text has white space around
it or no mask. -/
def unreadRanges (c : Config) : List (List Network) :=
  (c.interfaces.filter fun i => Network.parse i.address = none).map lanRange ++
  (c.vlans.filter fun v => Network.parse v.address = none).map vlanRange ++
  (if Network.parse c.vpnServer.address = none then [addressRange c.vpnServer.address] else []) ++
  if Network.parse c.ovpnServer.subnet = none then [ovpnRange c] else []

theorem validateVLAN_apart (h : validateVLAN c v = .ok ()) {used : Text}
    (hused : used ∈ servedSubnets c) {m : Network} (hm : Network.parse used = some m) :
    Apart (vlanRange v) [m] := by
  simp only [validateVLAN, bind_ok_iff] at h
  obtain ⟨⟨⟩, -, ⟨⟩, hfields, ⟨⟩, -, h⟩ := h
  by_cases hnil : v.address = []
  · have hempty : vlanRange v = [] := by
      rw [vlanRange, hnil]
      rfl
    rw [hempty]
    exact nil_apart _
  · -- the address is a CIDR, so its range is the network that is compared
    have hcidr : validateCIDR v.address = .ok () := by
      simp only [validateVLANFields, bind_ok_iff] at hfields
      obtain ⟨⟨⟩, -, ⟨⟩, -, ⟨⟩, -, ⟨⟩, haddr, -⟩ := hfields
      rwa [checkIf, if_pos hnil] at haddr
    obtain ⟨p, hp⟩ := Option.ne_none_iff_exists'.mp (failIf_ok hcidr)
    have hrange : vlanRange v = (Network.parse v.address).toList := addressRange_of_parseCIDR hp
    rw [hrange]
    unfold validateVLANSubnet at h
    rw [if_neg hnil] at h
    cases hparse : Network.parse v.address with
    | none => exact nil_apart _
    | some net =>
      rw [hparse] at h
      simp only at h
      split at h
      · cases h
      rename_i hnone
      have hfree := List.find?_eq_none.mp hnone used hused
      rw [apart_iff]
      intro n hn m' hm'
      obtain rfl : n = net := by simpa using hn
      obtain rfl : m' = m := by simpa using hm'
      simpa [hm] using hfree

theorem unreadRanges_subset (h : range ∈ unreadRanges c) : range ∈ localRanges c := by
  simp only [unreadRanges, mem_append, mem_map, mem_filter] at h
  simp only [localRanges, servedRanges, mem_append, mem_map, mem_singleton]
  rcases h with ((⟨i, ⟨hi, -⟩, rfl⟩ | ⟨w, ⟨hw, -⟩, rfl⟩) | hserver) | hovpn
  · exact .inl (.inl (.inl ⟨i, hi, rfl⟩))
  · exact .inl (.inl (.inr ⟨w, hw, rfl⟩))
  · split at hserver
    · exact .inl (.inr (mem_singleton.mp hserver))
    · cases hserver
  · split at hovpn
    · exact .inr (mem_singleton.mp hovpn)
    · cases hovpn

/-- The check of a VLAN reads every local range that is not unread. -/
theorem validateVLAN_local (h : validateVLAN c v = .ok ()) (hrange : range ∈ localRanges c) :
    range ∈ unreadRanges c ∨ Apart (vlanRange v) range := by
  simp only [unreadRanges, mem_append, mem_map, mem_filter]
  simp only [localRanges, servedRanges, mem_append, mem_map, mem_singleton] at hrange
  -- an address that parses is in the list the VLAN is compared with
  have hread : ∀ addr, (addr ≠ [] → addr ∈ servedSubnets c) → ∀ m, Network.parse addr = some m →
      Apart (vlanRange v) [m] := by
    intro addr haddr m hm
    refine validateVLAN_apart h (haddr ?_) hm
    rintro rfl
    cases hm
  rcases hrange with ((⟨i, hi, rfl⟩ | ⟨w, hw, rfl⟩) | rfl) | rfl
  · cases hparse : Network.parse i.address with
    | none => exact .inl (.inl (.inl (.inl ⟨i, ⟨hi, by simp [hparse]⟩, rfl⟩)))
    | some m =>
      refine .inr ?_
      unfold lanRange
      split
      · rename_i hrole
        rw [addressRange_of_parse hparse]
        refine hread i.address (fun hne => ?_) m hparse
        simp only [servedSubnets, mem_append, mem_map, mem_filter]
        exact .inl (.inl (.inl ⟨i, ⟨hi, by simp [hrole, hne]⟩, rfl⟩))
      · exact apart_nil _
  · cases hparse : Network.parse w.address with
    | none => exact .inl (.inl (.inl (.inr ⟨w, ⟨hw, by simp [hparse]⟩, rfl⟩)))
    | some m =>
      refine .inr ?_
      have hrange : vlanRange w = [m] := addressRange_of_parse hparse
      rw [hrange]
      refine hread w.address (fun hne => ?_) m hparse
      simp only [servedSubnets, mem_append, mem_map, mem_filter]
      exact .inl (.inl (.inr ⟨w, ⟨hw, by simp [hne]⟩, rfl⟩))
  · cases hparse : Network.parse c.vpnServer.address with
    | none => exact .inl (.inl (.inr (by simp)))
    | some m =>
      refine .inr ?_
      rw [addressRange_of_parse hparse]
      refine hread _ (fun hne => ?_) m hparse
      simp [servedSubnets, hne]
  · cases hparse : Network.parse c.ovpnServer.subnet with
    | none => exact .inl (.inr (by simp))
    | some m =>
      refine .inr ?_
      have hrange : ovpnRange c = [m] := by
        simp [ovpnRange, subnetRange, parseSubnet_of_parse hparse]
      rw [hrange]
      refine hread _ (fun hne => ?_) m hparse
      simp [servedSubnets, hne]

/-- A new VLAN is apart from all ranges exactly if it is apart from those that its check
does not look at. -/
theorem vlan_apart_iff (h : validateVLAN c v = .ok ()) :
    (∀ range ∈ allRanges c, Apart (vlanRange v) range) ↔
      (∀ p ∈ c.vpnServer.peers, Apart (vlanRange v) (peerRange p)) ∧
        ∀ range ∈ unreadRanges c, Apart (vlanRange v) range := by
  constructor
  · intro hall
    constructor
    · intro p hp
      exact hall _ (mem_append_right _ (mem_map_of_mem hp))
    · intro range hrange
      exact hall range (mem_append_left _ (unreadRanges_subset hrange))
  · rintro ⟨hpeers, hunread⟩ range hrange
    rcases mem_append.mp hrange with hlocal | hpeer
    · rcases validateVLAN_local h hlocal with hrange | hapart
      · exact hunread range hrange
      · exact hapart
    · obtain ⟨p, hp, rfl⟩ := mem_map.mp hpeer
      exact hpeers p hp

/-! ## Calls of the VPN service -/

/-- A call that adds a peer, from its check to the end, with what it gets from outside. -/
inductive PeerCall
  | addPeer (saved : Bool) (keys : Option PeerKeys) (r : PeerRequest)
  | createS2SInvite (saved : Bool) (now : Nat) (psk : Option Text) (r : InviteRequest)
  | consumeInvite (saved : Bool) (now : Nat) (token : Token)

def PeerCall.apply (c : Config) : PeerCall → Config
  | .addPeer saved keys r => (VPN.addPeer saved keys r c).2
  | .createS2SInvite saved now psk r => (VPN.createS2SInvite saved now psk r c).2
  | .consumeInvite saved now token => (VPN.consumeInvite saved now token c).2

/-- The remote subnets of the new peer. -/
def PeerCall.remoteSubnets : PeerCall → List Text
  | .addPeer _ _ r => r.remoteSubnets
  | .createS2SInvite _ _ _ r => r.expectedRemote
  | .consumeInvite _ _ (.invite inv) => inv.remoteSubnets
  | .consumeInvite _ _ _ => []

/-- A call that changes anything has passed the overlap check. -/
theorem PeerCall.apply_cases (c : Config) (call : PeerCall) :
    call.apply c = c ∨ ∃ p : WGServerPeer, p.remoteSubnets = call.remoteSubnets ∧
      checkRemoteSubnets c call.remoteSubnets = .ok () ∧
      call.apply c = withPeers c (c.vpnServer.peers ++ [p]) := by
  cases call with
  | addPeer saved keys r =>
    simp only [apply, VPN.addPeer]
    split
    · exact .inl rfl
    · exact .inl rfl
    · rename_i keys hcheck
      rcases commitPeer_cases saved keys r c with h | ⟨ip, p, -, hp, -, h⟩
      · exact .inl h
      · exact .inr ⟨p, hp.remoteSubnets, checkPeer_ok hcheck, h⟩
  | createS2SInvite saved now psk r =>
    simp only [apply, VPN.createS2SInvite]
    split
    · exact .inl rfl
    · exact .inl rfl
    · rename_i psk hcheck
      rcases appendPeer_cases saved (pendingPeer now psk r) c with h | ⟨-, h⟩
      · exact .inl (by rw [commitInvite, h])
      · exact .inr ⟨_, rfl, validateInviteRequest_ok hcheck, by rw [commitInvite, h]⟩
  | consumeInvite saved now token =>
    simp only [apply, VPN.consumeInvite]
    split
    · exact .inl rfl
    · rename_i inv hcheck
      obtain ⟨rfl, -, -, hsubnets⟩ := checkConsume_ok hcheck
      rcases appendPeer_cases saved (joinedPeer inv) c with h | ⟨-, h⟩
      · exact .inl (by rw [commitConsume, h])
      · exact .inr ⟨_, rfl, hsubnets, by rw [commitConsume, h]⟩

/-- A new peer is apart from everything but perhaps the subnet of a disabled OpenVPN
server. -/
theorem peer_noOverlap_iff (h : NoOverlap c) {p : WGServerPeer}
    (hcheck : checkRemoteSubnets c p.remoteSubnets = .ok ()) :
    NoOverlap (withPeers c (c.vpnServer.peers ++ [p])) ↔
      (c.ovpnServer.enabled = false → Apart (peerRange p) (ovpnRange c)) := by
  obtain ⟨hlocal, hpeers⟩ := noOverlap_iff.mp h
  rw [noOverlap_iff, localRanges_withPeers, and_iff_right hlocal, hpeers.append_iff]
  constructor
  · rintro ⟨-, hall⟩ -
    exact hall _ (by simp [localRanges])
  intro hovpn
  constructor
  · intro q hq
    exact (checkRemoteSubnets_peer hcheck hq).symm
  intro range hrange
  rcases mem_append.mp hrange with hserved | hlast
  · exact checkRemoteSubnets_served hcheck range hserved
  · rw [mem_singleton.mp hlast]
    rcases Bool.eq_false_or_eq_true c.ovpnServer.enabled with henabled | hdisabled
    · exact checkRemoteSubnets_ovpn hcheck henabled
    · exact hovpn hdisabled

/-! ## Runs -/

/-- A step of either service. -/
inductive Change
  | network (e : Edit)
  | vpn (call : PeerCall)

def Change.apply (c : Config) : Change → Config
  | .network e => (e.apply c).2
  | .vpn call => call.apply c

/-- The config under both services. -/
def configuring : Machine Config Change where
  Init := NoOverlap
  step := Change.apply

/-- A change brings in no range that overlaps one it is not checked against. -/
def Clear (c : Config) : Change → Prop
  | .network (.setInterface saved i) => (setInterface saved i c).2 ≠ c →
      ∀ range ∈ allRanges (otherInterfaces c i), Apart (lanRange i) range
  | .network (.addVLAN saved v) => (addVLAN saved v c).2 ≠ c →
      (∀ p ∈ c.vpnServer.peers, Apart (vlanRange v) (peerRange p)) ∧
        ∀ range ∈ unreadRanges c, Apart (vlanRange v) range
  | .vpn call => call.apply c ≠ c → c.ovpnServer.enabled = false →
      Apart (subnetRange call.remoteSubnets) (ovpnRange c)
  | _ => True

/-- A step that changes nothing is clear and keeps the ranges apart. -/
theorem noOverlap_unchanged (h : NoOverlap c) (heq : c' = c) {P : Prop} :
    NoOverlap c' ↔ (c' ≠ c → P) := by
  subst heq
  exact iff_of_true h fun hne => absurd rfl hne

theorem setInterface_noOverlap_iff (h : NoOverlap c) (saved : Bool) (i : InterfaceConfig) :
    NoOverlap (setInterface saved i c).2 ↔ Clear c (.network (.setInterface saved i)) := by
  simp only [Clear]
  by_cases hsame : (setInterface saved i c).2 = c
  · exact noOverlap_unchanged h hsame
  rcases setInterface_cases saved i c with heq | ⟨is, hperm, heq⟩
  · exact absurd heq hsame
  have hothers : NoOverlap (otherInterfaces c i) :=
    h.sublist (allRanges_interfaces_sublist c eraseP_sublist)
  have hranges : (allRanges { c with interfaces := is }).Perm
      (lanRange i :: allRanges (otherInterfaces c i)) := allRanges_interface c hperm
  rw [imp_iff_right hsame, heq]
  exact noOverlap_of_perm hothers hranges

theorem addVLAN_noOverlap_iff (h : NoOverlap c) (saved : Bool) (v : VLANConfig) :
    NoOverlap (addVLAN saved v c).2 ↔ Clear c (.network (.addVLAN saved v)) := by
  simp only [Clear]
  rcases addVLAN_cases saved v c with heq | ⟨hvalid, heq⟩
  · exact noOverlap_unchanged h heq
  have hne : (addVLAN saved v c).2 ≠ c := by
    rw [heq]
    intro hsame
    have hvlans := congrArg Config.vlans hsame
    simp at hvlans
  rw [imp_iff_right hne, heq, noOverlap_of_perm h (allRanges_vlan c v)]
  exact vlan_apart_iff hvalid

theorem peerCall_noOverlap_iff (h : NoOverlap c) (call : PeerCall) :
    NoOverlap (call.apply c) ↔ Clear c (.vpn call) := by
  simp only [Clear]
  rcases call.apply_cases c with heq | ⟨p, hp, hcheck, heq⟩
  · exact noOverlap_unchanged h heq
  have hne : call.apply c ≠ c := by
    rw [heq]
    intro hsame
    have hpeers := congrArg (fun c : Config => c.vpnServer.peers) hsame
    simp at hpeers
  rw [← hp] at hcheck ⊢
  rw [imp_iff_right hne, heq]
  exact peer_noOverlap_iff h hcheck

theorem change_noOverlap_iff (c : Config) (e : Change) (h : NoOverlap c) :
    NoOverlap (configuring.step c e) ↔ Clear c e := by
  cases e with
  | vpn call => exact peerCall_noOverlap_iff h call
  | network e =>
    cases e with
    | setInterface saved i => exact setInterface_noOverlap_iff h saved i
    | addVLAN saved v => exact addVLAN_noOverlap_iff h saved v
    | removeInterface saved id =>
      refine iff_of_true ?_ trivial
      show NoOverlap (removeInterface saved id c).2
      rcases removeInterface_eq saved id c with ⟨-, heq⟩ | ⟨-, e, heq⟩
      · rw [heq]
        exact h.sublist (allRanges_interfaces_sublist c eraseP_sublist)
      · rwa [heq]
    | removeVLAN saved id =>
      refine iff_of_true ?_ trivial
      show NoOverlap (removeVLAN saved id c).2
      obtain ⟨vs, heq, hsub⟩ := removeVLAN_sublist saved id c
      rw [heq]
      exact h.sublist (allRanges_vlans_sublist c hsub)

/-- **One place for every address.** The ranges of the LANs, the VLANs, the VPN servers
and the peers stay apart all along a run exactly if every change is clear. -/
theorem ranges_apart_iff {c : Config} (h : NoOverlap c) (es : List Change) :
    (∀ pre, pre <+: es → NoOverlap (configuring.run c pre)) ↔
      Machine.Guarded configuring Clear c es :=
  Machine.run_iff_guarded change_noOverlap_iff h es

/-- One LAN, and a VLAN that is to be added beside it. -/
def homeConfig : Config where
  interfaces := [staticLAN "lan" "eth1" "192.168.1.1/24"]
  vpnServer := { address := "10.8.0.1/24" }

def guestVLAN : VLANConfig :=
  { id := "guest", parent := "lan", vid := 20, role := "lan",
    type := "static", address := "192.168.20.1/24" }

theorem homeConfig_noOverlap : NoOverlap homeConfig := by
  unfold NoOverlap
  decide +kernel

theorem homeConfig_guest :
    NoOverlap (configuring.run homeConfig [.network (.addVLAN true guestVLAN)]) := by
  have hguard : Machine.Guarded configuring Clear homeConfig
      [.network (.addVLAN true guestVLAN)] := by
    refine ⟨fun _ => ⟨?_, ?_⟩, trivial⟩
    · intro p hp
      cases hp
    · decide +kernel
  exact (ranges_apart_iff homeConfig_noOverlap _).mpr hguard _ (prefix_refl _)

/-- `SetInterface` accepts a second LAN with the addresses of the first. -/
theorem setInterface_overlaps :
    let office : InterfaceConfig := staticLAN "office" "eth2" "192.168.1.129/25"
    (setInterface true office homeConfig).1 = .ok () ∧
    ¬ NoOverlap (configuring.run homeConfig [.network (.setInterface true office)]) := by
  unfold NoOverlap
  decide +kernel

end Lankeeper.Network
