import Lankeeper.DHCP.Clients
import Lankeeper.Network.Service

/-!
# Lankeeper.DHCP.Ranges — the addresses a VLAN hands out

`vlanRangeBounds` of `internal/services/dhcp.go`, on VLANs that `ValidateVLAN` of
`internal/services/network.go` accepts. A range that the entry names is only known to begin
and to end in the subnet. A range by default keeps clear of both ends of the subnet, but the
router may have any address in it: `leasable_iff` says for which ones the range is good.
-/

namespace Lankeeper.DHCP

open Lib Text Option Address
open Lankeeper.Network (inNetwork validateVLAN validateVLANDHCP)
open Network (VLANConfig)

/-- The IPv4 address of a text. -/
def ip4Of (t : Text) : Option Nat :=
  (parseIP t).bind asIPv4

/-- The router's own address on the VLAN. -/
def routerOf (v : VLANConfig) : Option Nat :=
  (Prefix.parseCIDR v.address).bind fun p => asIPv4 (p.family, p.addr)

/-- The addresses from `first` to `last` can be given to clients. -/
structure Leasable (v : VLANConfig) (n : Lib.Network) (first last : Nat) : Prop where
  le : first ≤ last
  inside : ∀ a, first ≤ a → a ≤ last → n.contains .ip4 a
  /-- not the address of the network -/
  network : ∀ a, first ≤ a → a ≤ last → a ≠ n.base
  broadcast : ∀ a, first ≤ a → a ≤ last → a + 1 ≠ n.base + n.size
  router : ∀ a, first ≤ a → a ≤ last → routerOf v ≠ some a

/-- The entry names the range. -/
abbrev Named (v : VLANConfig) : Prop :=
  v.dhcp.rangeStart ≠ [] ∧ v.dhcp.rangeEnd ≠ []

/-- The router is clear of a range by default: of a /24 or wider subnet it has none of .100 to
.200, of a smaller one the network's address, the first host's or the broadcast address. -/
def ClearOfDefault (n : Lib.Network) (router : Nat) : Prop :=
  if n.len ≤ 24 then router < n.base + 100 ∨ n.base + 200 < router
  else router ≤ n.base + 1 ∨ n.base + n.size ≤ router + 1

variable {n : Lib.Network} {first last : Nat} {v : VLANConfig}

/-- The ends of a range decide, and the place of the router. -/
theorem leasable_of_ends (h4 : n.family = .ip4) (hfirst : n.contains .ip4 first)
    (hlast : n.contains .ip4 last) :
    Leasable v n first last ↔
      (first ≤ last ∧ n.base < first ∧ last + 1 < n.base + n.size) ∧
        ∀ router, routerOf v = some router → router < first ∨ last < router := by
  rw [Network.contains_iff_between] at hfirst hlast
  constructor
  · intro h
    have hle := h.le
    have hbase := h.network first le_rfl hle
    have hbroadcast := h.broadcast last hle le_rfl
    refine ⟨by omega, fun router hr => ?_⟩
    by_contra hin
    exact h.router router (by omega) (by omega) hr
  · rintro ⟨⟨hle, hbase, hbroadcast⟩, hrouter⟩
    refine ⟨hle, fun a ha hb => ?_, fun a ha hb => ?_, fun a ha hb => ?_, fun a ha hb => ?_⟩
    · exact Network.contains_iff_between.mpr ⟨h4.symm, by omega, by omega⟩
    · omega
    · omega
    · intro hr
      have hout := hrouter a hr
      omega

theorem ip4Of_uint32IP {a : Nat} (h : a < 2 ^ 32) : ip4Of (uint32IP a) = some a := by
  have hzero : a >>> 32 = 0 := by
    rw [Nat.shiftRight_eq_div_pow]
    exact Nat.div_eq_of_lt h
  have hmask : a &&& 0xffffffff = a := by
    rw [show 0xffffffff = 2 ^ 32 - 1 from rfl, Nat.and_two_pow_sub_one_eq_mod, Nat.mod_eq_of_lt h]
  rw [ip4Of, uint32IP, Nat.mod_eq_of_lt h, parseIP_dotted hzero]
  simp [asIPv4, onlyIPv6, hmask]

/-- An address that the check finds in an IPv4 subnet. -/
theorem ip4Of_inNetwork (h4 : n.family = .ip4) {t : Text} (h : inNetwork n t) :
    ∃ a, ip4Of t = some a ∧ n.contains .ip4 a := by
  unfold inNetwork at h
  split at h
  · cases h
  rename_i a ha
  simp only [ip4Of, ha, bind_some, asIPv4]
  split_ifs at h with hmapped
  · rw [if_neg hmapped.2]
    exact ⟨_, rfl, h⟩
  obtain ⟨f, x⟩ := a
  obtain rfl : f = .ip4 := (Network.contains_iff.mp h).1.trans h4
  have hlt : x < 2 ^ 32 := by
    have hbetween := (Network.contains_iff_between.mp h).2.2
    have hle := n.base_add_size_le
    rw [h4] at hle
    exact Nat.lt_of_lt_of_le hbetween hle
  refine ⟨x, ?_, h⟩
  rw [if_neg (by simp [onlyIPv6]), show 0xffffffff = 2 ^ 32 - 1 from rfl,
    Nat.and_two_pow_sub_one_eq_mod, Nat.mod_eq_of_lt hlt]

/-- The broadcast address, as the source computes it. -/
theorem base_or_host (n : Lib.Network) (h4 : n.family = .ip4) :
    n.base ||| (1 <<< (32 - n.len) - 1) = n.base + n.size - 1 := by
  have hsize : n.size = 2 ^ (32 - n.len) := by rw [Network.size, h4]; rfl
  obtain ⟨k, hk⟩ := n.size_dvd_base
  have hpos := n.size_pos
  rw [hsize] at hk hpos
  rw [hk, Nat.shiftLeft_eq, Nat.one_mul, ← Nat.two_pow_add_eq_or_of_lt (by omega), hsize]
  omega

/-- The ranges by default have their ends apart from those of the subnet. -/
theorem default_ends (hnamed : ¬ Named v) (hn : Lib.Network.parse v.address = some n)
    (h4 : n.family = .ip4) {s e : Text} (hb : vlanRangeBounds v = some (s, e)) :
    ∃ first last, ip4Of s = some first ∧ ip4Of e = some last ∧
      (first ≤ last ∧ n.base < first ∧ last + 1 < n.base + n.size) ∧
      ∀ router, (router < first ∨ last < router) ↔ ClearOfDefault n router := by
  have hsize : n.size = 2 ^ (32 - n.len) := by rw [Network.size, h4]; rfl
  have hle : n.base + n.size ≤ 2 ^ 32 := by
    have hle := n.base_add_size_le
    rwa [h4] at hle
  unfold vlanRangeBounds at hb
  rw [if_neg hnamed, hn] at hb
  simp only [h4, base_or_host n h4] at hb
  split_ifs at hb with hfamily hwide hnarrow
  · cases hb
    have hbig : 2 ^ 8 ≤ n.size := hsize ▸ Nat.pow_le_pow_right (by decide) hwide
    refine ⟨_, _, ip4Of_uint32IP (by omega), ip4Of_uint32IP (by omega), by omega, fun router => ?_⟩
    rw [ClearOfDefault, if_pos (by omega)]
  · cases hb
    have hbig : 2 ^ 2 ≤ n.size := hsize ▸ Nat.pow_le_pow_right (by decide) (by omega)
    refine ⟨_, _, ip4Of_uint32IP (by omega), ip4Of_uint32IP (by omega), by omega, fun router => ?_⟩
    rw [ClearOfDefault, if_neg (by omega)]
    omega

/-- The ends of a range that the entry names are checked. -/
theorem named_ends {c : Lankeeper.Network.Config} (hv : validateVLAN c v = .ok ())
    (hen : v.dhcp.enabled) (hnamed : Named v) (hn : Lib.Network.parse v.address = some n) :
    inNetwork n v.dhcp.rangeStart ∧ inNetwork n v.dhcp.rangeEnd := by
  simp only [validateVLAN, bind_ok_iff] at hv
  obtain ⟨⟨⟩, -, ⟨⟩, -, ⟨⟩, hdhcp, -⟩ := hv
  unfold validateVLANDHCP at hdhcp
  rw [if_neg (not_not.mpr hen), hn] at hdhcp
  dsimp only at hdhcp
  split at hdhcp
  · cases hdhcp
  · rename_i hfind
    rw [List.find?_eq_none] at hfind
    simpa [hnamed.1, hnamed.2] using hfind

/-- **Ranges.** A range that the entry names is good exactly if it is in order, keeps clear of
the ends of the subnet and leaves out the router's address; a range by default exactly if
the router's address is one that keeps clear of it. -/
theorem leasable_iff {c : Lankeeper.Network.Config} (hv : validateVLAN c v = .ok ())
    (hen : v.dhcp.enabled) (hn : Lib.Network.parse v.address = some n)
    (h4 : n.family = .ip4) {s e : Text} (hb : vlanRangeBounds v = some (s, e)) :
    ∃ first last, ip4Of s = some first ∧ ip4Of e = some last ∧
      (Leasable v n first last ↔
        if Named v then (first ≤ last ∧ n.base < first ∧ last + 1 < n.base + n.size) ∧
          ∀ router, routerOf v = some router → router < first ∨ last < router
        else ∀ router, routerOf v = some router → ClearOfDefault n router) := by
  by_cases hnamed : Named v
  · obtain ⟨rfl, rfl⟩ : v.dhcp.rangeStart = s ∧ v.dhcp.rangeEnd = e := by
      rw [vlanRangeBounds, if_pos hnamed] at hb
      exact Prod.mk.inj (some.inj hb)
    obtain ⟨hs, he⟩ := named_ends hv hen hnamed hn
    obtain ⟨first, hfirst, hin⟩ := ip4Of_inNetwork h4 hs
    obtain ⟨last, hlast, hin'⟩ := ip4Of_inNetwork h4 he
    refine ⟨first, last, hfirst, hlast, ?_⟩
    rw [leasable_of_ends h4 hin hin', if_pos hnamed]
  · obtain ⟨first, last, hfirst, hlast, hends, hclear⟩ := default_ends hnamed hn h4 hb
    refine ⟨first, last, hfirst, hlast, ?_⟩
    rw [leasable_of_ends h4 (Network.contains_iff_between.mpr ⟨h4.symm, by omega, by omega⟩)
      (Network.contains_iff_between.mpr ⟨h4.symm, by omega, by omega⟩), if_neg hnamed,
      and_iff_right hends]
    simp only [hclear]

/-- A VLAN on the LAN interface. -/
def labVLAN (address first last : Text) : VLANConfig :=
  { id := "lab", parent := "lan", vid := 30, role := "lan",
    type := "static", address := address,
    dhcp := { enabled := true, rangeStart := first, rangeEnd := last } }

/-- A router at the first address, and the range by default. -/
theorem lab_leasable : ∃ n, Lib.Network.parse "192.168.30.1/24".toList = some n ∧
    Leasable (labVLAN "192.168.30.1/24".toList [] []) n 0xc0a81e64 0xc0a81ec8 := by
  obtain ⟨n, hn⟩ := isSome_iff_exists.mp
    (show (Lib.Network.parse "192.168.30.1/24".toList).isSome by decide)
  have h4 : n.family = .ip4 := by
    have hfamily : (Lib.Network.parse "192.168.30.1/24".toList).map (·.family) = some .ip4 := by
      decide
    rw [hn] at hfamily
    exact some.inj hfamily
  have hb : vlanRangeBounds (labVLAN "192.168.30.1/24".toList [] []) =
      some ("192.168.30.100".toList, "192.168.30.200".toList) := by
    decide +kernel
  obtain ⟨first, last, hfirst, hlast, hiff⟩ :=
    leasable_iff (c := (homeConfig []).toNetwork) (by decide +kernel) rfl hn h4 hb
  obtain rfl : 0xc0a81e64 = first :=
    some.inj (Eq.trans (by decide +kernel) hfirst)
  obtain rfl : 0xc0a81ec8 = last :=
    some.inj (Eq.trans (by decide +kernel) hlast)
  rw [if_neg fun h => h.1 rfl] at hiff
  refine ⟨n, hn, hiff.mpr fun router hr => ?_⟩
  have hrouter : routerOf (labVLAN "192.168.30.1/24".toList [] []) = some 0xc0a81e01 := by
    decide +kernel
  cases hrouter.symm.trans hr
  have hshape : (Lib.Network.parse "192.168.30.1/24".toList).map (fun n => (n.len, n.base)) =
      some (24, 0xc0a81e00) := by decide
  rw [hn] at hshape
  obtain ⟨hlen, hbase⟩ := Prod.mk.inj (some.inj hshape)
  rw [ClearOfDefault, if_pos hlen.le, hbase]
  decide

/-- A router at .150 is in the range by default, and a range that runs backwards is taken. -/
theorem ranges_that_are_bad :
    (validateVLAN (homeConfig []).toNetwork (labVLAN "192.168.30.150/24" [] []) = .ok () ∧
      vlanRangeBounds (labVLAN "192.168.30.150/24" [] []) =
        some (uint32IP 0xc0a81e64, uint32IP 0xc0a81ec8) ∧
      ∀ n, ¬ Leasable (labVLAN "192.168.30.150/24" [] []) n 0xc0a81e64 0xc0a81ec8) ∧
    validateVLAN (homeConfig []).toNetwork
      (labVLAN "192.168.30.1/24" (uint32IP 0xc0a81e09) (uint32IP 0xc0a81e00)) = .ok () ∧
    ∀ n, ¬ Leasable (labVLAN "192.168.30.1/24" (uint32IP 0xc0a81e09) (uint32IP 0xc0a81e00))
      n 0xc0a81e09 0xc0a81e00 := by
  refine ⟨⟨by decide +kernel, by decide +kernel, fun n h => ?_⟩, by decide +kernel, fun n h => ?_⟩
  · exact h.router 0xc0a81e96 (by decide) (by decide) (by decide +kernel)
  · exact absurd h.le (by decide)

end Lankeeper.DHCP
