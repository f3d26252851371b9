import Lankeeper.VPN.Ranges
import Mathlib.Tactic.IntervalCases

/-!
# Lankeeper.VPN.RemoteSubnets — what the check of remote subnets accepts

`checkRemoteSubnets` looks at the first and the last address of each subnet to see
that all of it is private, and at base addresses only to see that it shares none with
a claimed network. Networks are aligned, so both tests are exact:
`checkRemoteSubnets_ok_iff`.
-/

namespace Lankeeper.VPN

open Lib Text Lankeeper.Network List
open Lib.Network (contains_iff contains_iff_between contains_base
  shiftRight_eq_of_contains overlaps_eq_false_iff)

/-! ## Private addresses -/

/-- RFC 1918 and fc00::/7. -/
def privateNetworks : List Lib.Network :=
  [⟨.ip4, 0x0a000000, 8, by decide, by decide, by decide, by decide⟩,
    ⟨.ip4, 0xac100000, 12, by decide, by decide, by decide, by decide⟩,
    ⟨.ip4, 0xc0a80000, 16, by decide, by decide, by decide, by decide⟩,
    ⟨.ip6, 0xfc <<< 120, 7, by decide, by decide, by decide, by decide⟩]

/-- The private addresses. -/
def privateAddresses : Set (Family × Nat) :=
  {a | ∃ n ∈ privateNetworks, a ∈ n.addresses}

theorem isPrivate_iff {f : Family} {a : Nat} : isPrivate f a ↔ (f, a) ∈ privateAddresses := by
  change _ ↔ ∃ n ∈ privateNetworks, n.contains f a
  simp only [privateNetworks, mem_cons, not_mem_nil, or_false, exists_eq_or_imp,
    exists_eq_left, contains_iff]
  cases f with
  | ip4 => simp [isPrivate, Family.bits]
  | ip6 => simp [isPrivate, Family.bits]

/-- A block of more than 2^16 IPv4 addresses. It cannot start in one private range and
end in another, because it starts at a multiple of its size. -/
theorem isPrivate_of_wide {b a h : Nat} (hlow : 16 < h) (hhigh : h ≤ 32) (hdvd : 2 ^ h ∣ b)
    (hfirst : isPrivate .ip4 b) (hlast : isPrivate .ip4 (b + (2 ^ h - 1)))
    (hle : b ≤ a) (hlt : a < b + 2 ^ h) : isPrivate .ip4 a := by
  obtain ⟨k, hk⟩ := hdvd
  simp only [isPrivate, decide_eq_true_eq, Nat.shiftRight_eq_div_pow] at hfirst hlast ⊢
  interval_cases h <;> omega

/-- Between private ends all addresses are private. -/
theorem isPrivate_of_ends {n : Lib.Network} (hfirst : isPrivate n.family n.base)
    (hlast : isPrivate n.family (lastAddress n)) {a : Nat}
    (ha : n.contains n.family a) : isPrivate n.family a := by
  obtain ⟨-, hle, hlt⟩ := contains_iff_between.mp ha
  have hend : lastAddress n = n.base + (n.size - 1) := by
    rw [lastAddress, Nat.one_shiftLeft]
    rfl
  rw [hend] at hlast
  have hsize : n.size = 2 ^ (n.family.bits - n.len) := rfl
  have hdvd := n.size_dvd_base
  cases hfam : n.family with
  | ip4 =>
    rw [hfam] at hfirst hlast hsize
    by_cases hwide : 16 < Family.ip4.bits - n.len
    · rw [hsize] at hlast hlt hdvd
      exact isPrivate_of_wide hwide (Nat.sub_le _ _) hdvd hfirst hlast hle hlt
    -- the ranges are made of whole blocks of 2^16
    have hshift : ∀ k, 16 ≤ k → a >>> k = n.base >>> k := by
      intro k hk
      refine shiftRight_eq_of_contains ha ?_
      rw [hfam]
      omega
    simp only [isPrivate] at hfirst ⊢
    rwa [hshift 24 (by omega), hshift 20 (by omega), hshift 16 (by omega)]
  | ip6 =>
    rw [hfam] at hfirst hlast
    simp only [isPrivate, decide_eq_true_eq, Nat.shiftRight_eq_div_pow] at hfirst hlast ⊢
    omega

theorem privateLANPrefix_iff {cidr : Text} :
    privateLANPrefix cidr ↔
      ∃ n, parseSubnet cidr = some n ∧ ∀ a ∈ n.addresses, a ∈ privateAddresses := by
  unfold privateLANPrefix
  cases hparse : parseSubnet cidr with
  | none => simp
  | some n =>
    simp only [Bool.and_eq_true, Option.some.injEq, exists_eq_left']
    constructor
    · rintro ⟨hfirst, hlast⟩ ⟨f, a⟩ ha
      obtain rfl := (contains_iff.mp ha).1
      exact isPrivate_iff.mp (isPrivate_of_ends hfirst hlast ha)
    intro hall
    have hend : n.contains n.family (lastAddress n) := by
      refine contains_iff_between.mpr ⟨rfl, Nat.le_add_right _ _, ?_⟩
      have hpos := n.size_pos
      have hsize : n.size = 1 <<< (n.family.bits - n.len) := (Nat.one_shiftLeft _).symm
      rw [lastAddress, ← hsize]
      omega
    exact ⟨isPrivate_iff.mpr (hall _ (contains_base n)), isPrivate_iff.mpr (hall _ hend)⟩

/-! ## Claimed networks -/

/-- The networks a remote subnet must not overlap. -/
inductive Claimed (c : Config) : Lib.Network → Prop
  | lan {i n} : i ∈ c.interfaces → i.role = "lan" →
      Lib.Network.parse i.address = some n → Claimed c n
  | vlan {v n} : v ∈ c.vlans → Lib.Network.parse v.address = some n → Claimed c n
  | server {n} : Lib.Network.parse c.vpnServer.address = some n → Claimed c n
  | ovpn {n} : c.ovpnServer.enabled →
      Lib.Network.parse c.ovpnServer.subnet = some n → Claimed c n
  -- the entries of `AllowedIPs` are between commas, with white space around them
  | allowed {p t n} : p ∈ c.vpnServer.peers → t ∈ p.allowedIPs.splitOn ',' →
      parseSubnet t = some n → Claimed c n
  | remote {p r n} : p ∈ c.vpnServer.peers → r ∈ p.remoteSubnets →
      parseSubnet r = some n → Claimed c n

/-- Every address of the router that is set is a CIDR. -/
structure OwnCIDRs (c : Config) : Prop where
  lans : ∀ i ∈ c.interfaces, i.role = "lan" → i.address ≠ [] →
    (Prefix.parseCIDR i.address).isSome
  vlans : ∀ v ∈ c.vlans, v.address ≠ [] → (Prefix.parseCIDR v.address).isSome
  server : c.vpnServer.address ≠ [] → (Prefix.parseCIDR c.vpnServer.address).isSome
  ovpn : c.ovpnServer.enabled → c.ovpnServer.subnet ≠ [] →
    (Prefix.parseCIDR c.ovpnServer.subnet).isSome

theorem parseSubnet_of_isCIDR {t : Text} (h : (Prefix.parseCIDR t).isSome) :
    parseSubnet t = Lib.Network.parse t := by
  obtain ⟨p, hp⟩ := Option.isSome_iff_exists.mp h
  rw [parseSubnet, trimSpace_of_parseCIDR hp]

/-- The text of an address of the router is read as the address is. -/
theorem parseSubnet_own {t : Text} (h : (Prefix.parseCIDR t).isSome) :
    parseSubnet (addressToSubnet t) = Lib.Network.parse t := by
  obtain ⟨p, hp⟩ := Option.isSome_iff_exists.mp h
  rw [parseSubnet_addressToSubnet, withMask_of_parseCIDR hp]

theorem parse_ne_nil {t : Text} {n : Lib.Network} (h : Lib.Network.parse t = some n) : t ≠ [] := by
  rintro rfl
  cases h

theorem parseSubnet_trimSpace (t : Text) : parseSubnet (trimSpace t) = parseSubnet t := by
  rw [parseSubnet, parseSubnet, trimSpace_trimSpace]

/-- `claimedSubnets` lists the claimed networks. -/
theorem claimed_iff {c : Config} (hown : OwnCIDRs c) {n : Lib.Network} :
    Claimed c n ↔ ∃ l ∈ claimedSubnets c, parseSubnet l = some n := by
  simp only [claimedSubnets, reservedSubnets, lanSubnets, mem_append, mem_map,
    mem_filter, mem_flatMap, decide_eq_true_eq]
  constructor
  · intro h
    cases h with
    | @lan i n hi hrole hparse =>
      refine ⟨_, .inl (.inl (.inl (.inl ⟨i, ⟨hi, hrole, parse_ne_nil hparse⟩, rfl⟩))), ?_⟩
      rw [parseSubnet_own (hown.lans i hi hrole (parse_ne_nil hparse)), hparse]
    | @vlan v n hv hparse =>
      refine ⟨_, .inl (.inl (.inr ⟨v, ⟨hv, parse_ne_nil hparse⟩, rfl⟩)), ?_⟩
      rw [parseSubnet_own (hown.vlans v hv (parse_ne_nil hparse)), hparse]
    | server hparse =>
      have hne := parse_ne_nil hparse
      refine ⟨addressToSubnet c.vpnServer.address, .inl (.inl (.inl (.inr ?_))), ?_⟩
      · rw [if_pos hne]
        exact mem_singleton_self _
      · rw [parseSubnet_own (hown.server hne), hparse]
    | ovpn henabled hparse =>
      have hne := parse_ne_nil hparse
      refine ⟨c.ovpnServer.subnet, .inl (.inr ?_), ?_⟩
      · rw [if_pos ⟨henabled, hne⟩]
        exact mem_singleton_self _
      · rw [parseSubnet_of_isCIDR (hown.ovpn henabled hne), hparse]
    | @allowed p t n hp ht hparse =>
      refine ⟨trimSpace t, .inr ⟨p, hp, .inl ?_⟩, by rw [parseSubnet_trimSpace, hparse]⟩
      refine mem_filter.mpr ⟨mem_map_of_mem ht, ?_⟩
      have hne := parse_ne_nil hparse
      simpa using hne
    | @remote p r n hp hr hparse => exact ⟨r, .inr ⟨p, hp, .inr hr⟩, hparse⟩
  · rintro ⟨l, hl, hparse⟩
    rcases hl with ((((⟨i, ⟨hi, hrole, hne⟩, rfl⟩ | hserver) | ⟨v, ⟨hv, hne⟩, rfl⟩) | hovpn) |
      ⟨p, hp, hallowed | hr⟩)
    · rw [parseSubnet_own (hown.lans i hi hrole hne)] at hparse
      exact .lan hi hrole hparse
    · split_ifs at hserver with hne
      · rw [mem_singleton.mp hserver, parseSubnet_own (hown.server hne)] at hparse
        exact .server hparse
      · cases hserver
    · rw [parseSubnet_own (hown.vlans v hv hne)] at hparse
      exact .vlan hv hparse
    · split_ifs at hovpn with hon
      · rw [mem_singleton.mp hovpn, parseSubnet_of_isCIDR (hown.ovpn hon.1 hon.2)] at hparse
        exact .ovpn hon.1 hparse
      · cases hovpn
    · obtain ⟨t, ht, rfl⟩ := mem_map.mp (mem_filter.mp hallowed).1
      rw [parseSubnet_trimSpace] at hparse
      exact .allowed hp ht hparse
    · exact .remote hp hr hparse

/-! ## The check -/

/-- **Remote subnets.** A list passes exactly if each text, without the white space
around it, is a CIDR of private addresses only, none of them in a claimed network. -/
theorem checkRemoteSubnets_ok_iff {c : Config} (hown : OwnCIDRs c) (remote : List Text) :
    checkRemoteSubnets c remote = .ok () ↔ ∀ r ∈ remote,
      ∃ n, Lib.Network.parse (trimSpace r) = some n ∧
        (∀ a ∈ n.addresses, a ∈ privateAddresses) ∧
        ∀ m, Claimed c m → ∀ a ∈ n.addresses, a ∉ m.addresses := by
  rw [checkRemoteSubnets_eq_ok]
  refine forall₂_congr fun r _ => ?_
  rw [privateLANPrefix_iff]
  constructor
  · rintro ⟨⟨n, hparse, hprivate⟩, hclear⟩
    refine ⟨n, hparse, hprivate, fun m hm => ?_⟩
    obtain ⟨l, hl, hlm⟩ := (claimed_iff hown).mp hm
    exact overlaps_eq_false_iff.mp (hclear n hparse l hl m hlm)
  · rintro ⟨n, hparse, hprivate, hclear⟩
    refine ⟨⟨n, hparse, hprivate⟩, fun n' hn' l hl m hlm => ?_⟩
    obtain rfl : n = n' := Option.some.inj (hparse.symm.trans hn')
    exact overlaps_eq_false_iff.mpr (hclear m ((claimed_iff hown).mpr ⟨l, hl, hlm⟩))

/-- A router with a LAN, a VLAN, both VPN servers and a site-to-site peer. -/
def branchConfig : Config where
  interfaces := [staticLAN "lan" "eth1" "192.168.1.1/24"]
  vlans := [{ id := "cam", parent := "lan", vid := 20, address := "192.168.20.1/24" }]
  vpnServer :=
    { publicKey := "k", address := "10.8.0.1/24"
      peers := [{ name := "hq", allowedIPs := "10.8.0.2/32, 10.60.0.0/16"
                  remoteSubnets := ["10.60.0.0/16"] }] }
  ovpnServer := { enabled := true, subnet := "10.9.0.0/24" }

theorem branchConfig_own : OwnCIDRs branchConfig :=
  ⟨by decide +kernel, by decide +kernel, by decide +kernel, by decide +kernel⟩

theorem branchConfig_remotes : OwnCIDRs branchConfig ∧
    ∀ r ∈ ["10.50.0.0/16".toList, "fd12:3456::/32".toList],
      ∃ n, Lib.Network.parse (trimSpace r) = some n ∧
        (∀ a ∈ n.addresses, a ∈ privateAddresses) ∧
        ∀ m, Claimed branchConfig m → ∀ a ∈ n.addresses, a ∉ m.addresses :=
  ⟨branchConfig_own, (checkRemoteSubnets_ok_iff branchConfig_own _).mp (by decide +kernel)⟩

/-- A text with a blank in front passes, which no CIDR has. -/
theorem padded_remote_accepted :
    checkRemoteSubnets branchConfig [" 10.50.0.0/16"] = .ok () ∧
      Lib.Network.parse " 10.50.0.0/16" = none :=
  ⟨by decide +kernel, by decide +kernel⟩

end Lankeeper.VPN
