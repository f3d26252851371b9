import Lankeeper.VPN.Service

/-!
# Lankeeper.VPN.Ranges — the address ranges of a router

Every place that the router serves or routes to has a list of networks: a LAN
interface, a VLAN, the WireGuard server, the OpenVPN server, a WireGuard peer. An
address without a mask counts as `addressToSubnet` reads it.

The last section says what the overlap check of the VPN service gives: the remote
subnets are apart from all of these, except from the OpenVPN subnet while that server
is not enabled.
-/

namespace Lankeeper.VPN

open Lib Text Lankeeper.Network List
open Lib.Network (Apart apart_nil apart_iff)

/-! ## Ranges -/

/-- The network of a local address. -/
def addressRange (addr : Text) : List Network :=
  (Network.parse (withMask (trimSpace addr))).toList

/-- The networks of a list of subnets. -/
def subnetRange (subnets : List Text) : List Network :=
  subnets.filterMap parseSubnet

def lanRange (i : InterfaceConfig) : List Network :=
  if i.role = "lan" then addressRange i.address else []

def vlanRange (v : VLANConfig) : List Network :=
  addressRange v.address

def ovpnRange (c : Config) : List Network :=
  subnetRange [c.ovpnServer.subnet]

def peerRange (p : WGServerPeer) : List Network :=
  subnetRange p.remoteSubnets

/-- The ranges of the LANs, the VLANs and the WireGuard server. -/
def servedRanges (c : Config) : List (List Network) :=
  c.interfaces.map lanRange ++ c.vlans.map vlanRange ++ [addressRange c.vpnServer.address]

/-- All ranges but those of the peers. -/
def localRanges (c : Config) : List (List Network) :=
  servedRanges c ++ [ovpnRange c]

@[simp] theorem localRanges_withPeers (c : Config) (ps : List WGServerPeer) :
    localRanges (withPeers c ps) = localRanges c := rfl

/-! ## Subnets as texts -/

variable {t : Text} {p : Prefix} {c : Config} {remote : List Text}

/-- A CIDR has no white space around it. -/
theorem trimSpace_of_parseCIDR (h : Prefix.parseCIDR t = some p) : trimSpace t = t := by
  have hchars : ∀ c ∈ t, ¬ isSpace c := by
    intro c hc hspace
    exact Address.not_isSpace_of_isAddressChar (Prefix.parseCIDR_chars h c hc) hspace
  refine trim_eq_self ?_ ?_
  · intro c hc
    exact hchars c (mem_of_mem_head? hc)
  · intro c hc
    exact hchars c (mem_of_mem_getLast? hc)

theorem parseSubnet_of_parse {n : Network} (h : Network.parse t = some n) :
    parseSubnet t = some n := by
  obtain ⟨p, hp, -⟩ := Option.bind_eq_some_iff.mp h
  rw [parseSubnet, trimSpace_of_parseCIDR hp, h]

/-- A CIDR is taken as it is. -/
theorem withMask_of_parseCIDR (h : Prefix.parseCIDR t = some p) : withMask (trimSpace t) = t := by
  rw [trimSpace_of_parseCIDR h, withMask, if_neg fun hmask => hmask.1 (Prefix.slash_mem h)]

/-- The range of a CIDR is its network. -/
theorem addressRange_of_parseCIDR (h : Prefix.parseCIDR t = some p) :
    addressRange t = (Network.parse t).toList := by
  rw [addressRange, withMask_of_parseCIDR h]

theorem addressRange_of_parse {n : Network} (h : Network.parse t = some n) :
    addressRange t = [n] := by
  obtain ⟨p, hp, -⟩ := Option.bind_eq_some_iff.mp h
  rw [addressRange_of_parseCIDR hp, h, Option.toList_some]

/-- A trimmed text with a mask behind it is trimmed. -/
theorem trimSpace_withMask (t : Text) : trimSpace (withMask (trimSpace t)) = withMask (trimSpace t) := by
  unfold withMask
  split
  · rename_i h
    have hne : trimSpace t ≠ [] := by
      intro hnil
      rw [hnil] at h
      cases h.2
    refine trim_eq_self ?_ ?_
    · intro c hc
      rw [List.head?_append_of_ne_nil _ hne] at hc
      exact head_trim hc
    · intro c hc
      rw [List.getLast?_append] at hc
      obtain rfl : '4' = c := by simpa using hc
      decide
  · exact trimSpace_trimSpace t

/-- The text that `addressToSubnet` gives reads back as the network. -/
theorem parseSubnet_addressToSubnet (addr : Text) :
    parseSubnet (addressToSubnet addr) = Network.parse (withMask (trimSpace addr)) := by
  unfold addressToSubnet
  simp only
  split
  · rename_i n hn
    rw [hn]
    exact parseSubnet_of_parse (Network.parse_toText n)
  · rename_i hnone
    rw [parseSubnet, trimSpace_withMask]

/-- `sameSubnets` compares the networks. -/
theorem sameSubnets_iff {a b : List Text} :
    sameSubnets a b ↔ ∀ n, n ∈ subnetRange a ↔ n ∈ subnetRange b := by
  -- a text is in the list exactly if its network is
  have hmem : ∀ (n : Network) (l : List Text), n.toText ∈ canon l ↔ n ∈ subnetRange l := by
    intro n l
    constructor
    · intro h
      obtain ⟨m, hm, heq⟩ := mem_map.mp h
      have hparse := Network.parse_toText m
      rw [heq, Network.parse_toText] at hparse
      rwa [Option.some.inj hparse]
    · intro h
      exact mem_map_of_mem h
  have hall : ∀ x y : List Text, (canon x).all (canon y).contains ↔
      ∀ n, n ∈ subnetRange x → n ∈ subnetRange y := by
    intro x y
    rw [all_eq_true]
    constructor
    · intro h n hn
      have ht := h _ ((hmem n x).mpr hn)
      exact (hmem n y).mp (contains_iff_mem.mp ht)
    · intro h t ht
      obtain ⟨n, hn, rfl⟩ := mem_map.mp ht
      exact contains_iff_mem.mpr ((hmem n y).mpr (h n hn))
  rw [sameSubnets, Bool.and_eq_true, hall, hall]
  constructor
  · rintro ⟨hab, hba⟩ n
    exact ⟨hab n, hba n⟩
  · intro h
    exact ⟨fun n => (h n).mp, fun n => (h n).mpr⟩

/-! ## The overlap check -/

/-- The two parts of the check, for each subnet. -/
theorem checkRemoteSubnets_eq_ok :
    checkRemoteSubnets c remote = .ok () ↔ ∀ r ∈ remote, privateLANPrefix r ∧
      ∀ n, parseSubnet r = some n → ∀ l ∈ claimedSubnets c, ∀ m, parseSubnet l = some m →
        n.overlaps m = false := by
  -- a subnet conflicts if its network overlaps the one of a claimed subnet
  have hconflict : subnetsConflict c remote = none ↔ ∀ r ∈ remote, ∀ n, parseSubnet r = some n →
      ∀ l ∈ claimedSubnets c, ∀ m, parseSubnet l = some m → n.overlaps m = false := by
    rw [subnetsConflict, List.find?_eq_none]
    refine forall₂_congr fun r _ => ?_
    cases parseSubnet r with
    | none => simp
    | some n =>
      simp only [Option.any_some, any_eq_true, not_exists, not_and, Option.some.injEq, forall_eq']
      refine forall₂_congr fun l _ => ?_
      cases parseSubnet l <;> simp
  have hprivate : (remote.find? fun r => ¬ privateLANPrefix r) = none ↔
      ∀ r ∈ remote, privateLANPrefix r := by
    simp
  unfold checkRemoteSubnets
  rw [forall₂_and, ← hprivate, ← hconflict]
  split
  · rename_i hsome
    refine iff_of_false nofun fun h => ?_
    rw [h.1] at hsome
    cases hsome
  · rename_i hnone
    split
    · rename_i hsome
      refine iff_of_false nofun fun h => ?_
      rw [h.2] at hsome
      cases hsome
    · rename_i hno
      exact iff_of_true rfl ⟨hnone, hno⟩

variable (h : checkRemoteSubnets c remote = .ok ())

include h

theorem checkRemoteSubnets_claimed {l : Text} (hl : l ∈ claimedSubnets c) :
    Apart (subnetRange remote) (parseSubnet l).toList := by
  rw [apart_iff]
  intro n hn m hm
  obtain ⟨r, hr, hparse⟩ := mem_filterMap.mp hn
  exact (checkRemoteSubnets_eq_ok.mp h r hr).2 n hparse l hl m (Option.mem_toList.mp hm)

/-- Every address that `addressToSubnet` turns into a claimed subnet. -/
theorem apart_addressRange {addr : Text} (ha : addr ≠ [] → addressToSubnet addr ∈ claimedSubnets c) :
    Apart (subnetRange remote) (addressRange addr) := by
  by_cases hnil : addr = []
  · subst hnil
    exact apart_nil _
  · have hclaimed := checkRemoteSubnets_claimed h (ha hnil)
    rwa [parseSubnet_addressToSubnet] at hclaimed

theorem checkRemoteSubnets_served : ∀ range ∈ servedRanges c, Apart (subnetRange remote) range := by
  intro range hrange
  rcases mem_append.mp hrange with hrange | hrange
  · rcases mem_append.mp hrange with hrange | hrange
    · obtain ⟨i, hi, rfl⟩ := mem_map.mp hrange
      unfold lanRange
      split
      · rename_i hrole
        refine apart_addressRange h fun hne => ?_
        have hlan : addressToSubnet i.address ∈ lanSubnets c :=
          mem_map.mpr ⟨i, mem_filter.mpr ⟨hi, by simp [hrole, hne]⟩, rfl⟩
        simp [claimedSubnets, reservedSubnets, hlan]
      · exact apart_nil _
    · obtain ⟨v, hv, rfl⟩ := mem_map.mp hrange
      refine apart_addressRange h fun hne => ?_
      have hvlan : addressToSubnet v.address ∈
          (c.vlans.filter fun v => v.address ≠ []).map fun v => addressToSubnet v.address :=
        mem_map.mpr ⟨v, mem_filter.mpr ⟨hv, by simp [hne]⟩, rfl⟩
      unfold claimedSubnets
      exact mem_append_left _ (mem_append_left _ (mem_append_right _ hvlan))
  · rw [mem_singleton.mp hrange]
    refine apart_addressRange h fun hne => ?_
    simp [claimedSubnets, reservedSubnets, hne]

theorem checkRemoteSubnets_ovpn (henabled : c.ovpnServer.enabled) :
    Apart (subnetRange remote) (ovpnRange c) := by
  by_cases hnil : c.ovpnServer.subnet = []
  · have hempty : ovpnRange c = [] := by
      rw [ovpnRange, hnil]
      rfl
    rw [hempty]
    exact apart_nil _
  · have hclaimed := checkRemoteSubnets_claimed h (l := c.ovpnServer.subnet)
      (by simp [claimedSubnets, henabled, hnil])
    intro n hn m hm
    obtain ⟨t, ht, hparse⟩ := mem_filterMap.mp hm
    rw [mem_singleton.mp ht] at hparse
    exact hclaimed n hn m (Option.mem_toList.mpr hparse)

theorem checkRemoteSubnets_peer {p : WGServerPeer} (hp : p ∈ c.vpnServer.peers) :
    Apart (subnetRange remote) (peerRange p) := by
  intro n hn m hm
  obtain ⟨r, hr, hparse⟩ := mem_filterMap.mp hm
  have hclaimed : r ∈ claimedSubnets c := by
    unfold claimedSubnets
    exact mem_append_right _
      (mem_flatMap.mpr ⟨p, hp, mem_append_right _ hr⟩)
  exact checkRemoteSubnets_claimed h hclaimed n hn m (Option.mem_toList.mpr hparse)

end Lankeeper.VPN
