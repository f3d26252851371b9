import Lankeeper.VPN.Peers
import Mathlib.Data.List.Nodup
import Mathlib.Data.List.Perm.Subperm
import Mathlib.Data.Nat.Find
import Mathlib.Order.Bounds.Basic

/-!
# Lankeeper.VPN.Allocation — tunnel addresses

`AddPeer` gives a peer the lowest free address of the server's subnet, which
`nextTunnelIP` finds by counting up from the network address. The last address of the
subnet is known by the address after it being outside. Counting wraps around, so in
0.0.0.0/0 no address is outside, and the search does not stop there.

`allocated_iff` is about every interleaving of calls from an empty peer list: names and
tunnel addresses stay distinct, and the search gives the least free host, except for a
server with the prefix length 0 that has no free host any more.
-/

namespace Lankeeper.VPN

open Lib Text Address Lankeeper.Network List
open Lib.Network (contains_iff_between base_add_size_le overlaps_eq_false_iff)

/-! ## The search -/

/-- The loop of `nextTunnelIP`, from an address to the result it ends with. A loop that
goes on for ever has none. -/
inductive Search (pool : Lib.Network) (used : List Text) : Nat → Option Nat → Prop
  | outside {ip} : pool.contains .ip4 ip = false → Search pool used ip none
  | broadcast {ip} : pool.contains .ip4 ip → pool.contains .ip4 (nextIP .ip4 ip) = false →
      Search pool used ip none
  | free {ip} : pool.contains .ip4 ip → pool.contains .ip4 (nextIP .ip4 ip) →
      dotted ip ∉ used → Search pool used ip (some ip)
  | taken {ip r} : pool.contains .ip4 ip → pool.contains .ip4 (nextIP .ip4 ip) →
      dotted ip ∈ used → Search pool used (nextIP .ip4 ip) r → Search pool used ip r

variable {a : Nat} {pool : Lib.Network} {used : List Text} {p : WGServerPeer} {c : Config}

theorem nextIP_of_lt (h : a + 1 < 2 ^ 32) : nextIP .ip4 a = a + 1 := by
  rw [nextIP, if_pos]
  rw [Nat.shiftRight_eq_div_pow]
  exact Nat.div_eq_of_lt h

theorem nextIP_lt (a : Nat) : nextIP .ip4 a < 2 ^ 32 := by
  unfold nextIP
  split
  · rename_i h
    rw [Nat.shiftRight_eq_div_pow] at h
    exact (Nat.div_eq_zero_iff_lt (Nat.two_pow_pos _)).mp h
  · decide

theorem ipString_ip4 (a : Nat) : ipString .ip4 a = dotted a := rfl

/-- One round of the loop, with a bound on the rounds. -/
theorem freeTunnelIP_succ (hfam : pool.family = .ip4) (fuel ip : Nat) :
    freeTunnelIP pool used (fuel + 1) ip =
      if pool.contains .ip4 ip = false ∨ pool.contains .ip4 (nextIP .ip4 ip) = false then none
      else if dotted ip ∉ used then some ip else freeTunnelIP pool used fuel (nextIP .ip4 ip) := by
  have hto4 : ∀ a, to4 .ip4 a = (.ip4, a) := fun a => rfl
  rw [freeTunnelIP]
  simp only [hfam, hto4, ipString_ip4]
  cases pool.contains .ip4 ip <;> cases pool.contains .ip4 (nextIP .ip4 ip) <;> simp

section Pool

variable (hfam : pool.family = .ip4)
include hfam

theorem contains_ip4_iff : pool.contains .ip4 a ↔ pool.base ≤ a ∧ a < pool.base + pool.size := by
  rw [contains_iff_between, hfam]
  simp

theorem pool_end_le : pool.base + pool.size ≤ 2 ^ 32 := by
  have h := base_add_size_le pool
  rwa [hfam] at h

/-- In front of the last address. -/
theorem inside {ip : Nat} (hlow : pool.base ≤ ip) (hhigh : ip + 1 < pool.base + pool.size) :
    nextIP .ip4 ip = ip + 1 ∧ pool.contains .ip4 ip ∧ pool.contains .ip4 (nextIP .ip4 ip) := by
  have hend := pool_end_le hfam
  have hnext : nextIP .ip4 ip = ip + 1 := nextIP_of_lt (by omega)
  refine ⟨hnext, (contains_ip4_iff hfam).mpr ⟨hlow, by omega⟩, ?_⟩
  rw [hnext]
  exact (contains_ip4_iff hfam).mpr ⟨by omega, hhigh⟩

/-- The address after the last one is outside, also where it is 0.0.0.0. -/
theorem next_outside (hlen : 0 < pool.len) {ip : Nat} (hip : ip + 1 = pool.base + pool.size) :
    pool.contains .ip4 (nextIP .ip4 ip) = false := by
  have hend := pool_end_le hfam
  have hsize : pool.size ≤ 2 ^ 31 := by
    unfold Network.size
    rw [hfam]
    exact Nat.pow_le_pow_right (by decide) (by simp only [Family.bits]; omega)
  rw [← Bool.not_eq_true, contains_ip4_iff hfam]
  unfold nextIP
  split
  · omega
  · rename_i hwrap
    have hfull : ¬ ip + 1 < 2 ^ 32 := fun hlt => hwrap (Nat.shiftRight_eq_zero _ 32 hlt)
    omega

/-- With enough rounds the search comes to the first address that is not taken. -/
theorem freeTunnelIP_of_free {a fuel ip : Nat} (hfuel : a - ip < fuel) (hlow : pool.base ≤ ip)
    (hle : ip ≤ a) (hhigh : a + 1 < pool.base + pool.size)
    (htaken : ∀ b, ip ≤ b → b < a → dotted b ∈ used) (hfree : dotted a ∉ used) :
    freeTunnelIP pool used fuel ip = some a := by
  induction fuel generalizing ip with
  | zero => omega
  | succ fuel ih =>
    obtain ⟨hstep, hin, hnext⟩ := inside hfam hlow (by omega)
    rw [freeTunnelIP_succ hfam, if_neg (by simp [hin, hnext])]
    rcases Nat.eq_or_lt_of_le hle with rfl | hlt
    · rw [if_pos hfree]
    · rw [if_neg (not_not.mpr (htaken ip (Nat.le_refl _) hlt)), hstep]
      exact ih (by omega) (by omega) hlt fun b hb => htaken b (by omega)

/-- What the search finds, the loop ends with. -/
theorem Search.of_freeTunnelIP {a fuel ip : Nat} (h : freeTunnelIP pool used fuel ip = some a) :
    Search pool used ip (some a) := by
  induction fuel generalizing ip with
  | zero => cases h
  | succ fuel ih =>
    rw [freeTunnelIP_succ hfam] at h
    split_ifs at h with hout hused
    · rw [not_or, Bool.not_eq_false, Bool.not_eq_false] at hout
      exact .taken hout.1 hout.2 hused (ih h)
    · rw [not_or, Bool.not_eq_false, Bool.not_eq_false] at hout
      cases h
      exact .free hout.1 hout.2 hused

omit hfam in
/-- An address that the loop ends with is in the pool and not taken. -/
theorem Search.found {ip a : Nat} (h : Search pool used ip (some a)) :
    pool.contains .ip4 a ∧ dotted a ∉ used := by
  generalize hr : some a = r at h
  induction h with
  | outside _ => cases hr
  | broadcast _ _ => cases hr
  | free hin _ hfree =>
    cases hr
    exact ⟨hin, hfree⟩
  | taken _ _ _ _ ih => exact ih hr

/-- With all hosts taken, the search ends at the last address. -/
theorem search_none (hlen : 0 < pool.len) {fuel ip : Nat} (hlow : pool.base ≤ ip)
    (hhigh : ip < pool.base + pool.size)
    (htaken : ∀ b, ip ≤ b → b + 1 < pool.base + pool.size → dotted b ∈ used) :
    Search pool used ip none ∧ freeTunnelIP pool used fuel ip = none := by
  -- by induction on the distance to the end
  induction hd : pool.base + pool.size - ip generalizing fuel ip with
  | zero => omega
  | succ d ih =>
    rcases Nat.eq_or_lt_of_le hhigh with hlast | hlt
    · have hout := next_outside hfam hlen hlast
      refine ⟨.broadcast ((contains_ip4_iff hfam).mpr ⟨hlow, hhigh⟩) hout, ?_⟩
      cases fuel with
      | zero => rfl
      | succ fuel => rw [freeTunnelIP_succ hfam, if_pos (.inr hout)]
    · obtain ⟨hstep, hin, hnext⟩ := inside hfam hlow hlt
      have hused := htaken ip (Nat.le_refl _) hlt
      have hrest : ∀ fuel, Search pool used (ip + 1) none ∧
          freeTunnelIP pool used fuel (ip + 1) = none := fun fuel =>
        ih (by omega) hlt (fun b hb => htaken b (by omega)) (by omega)
      constructor
      · refine .taken hin hnext hused ?_
        rw [hstep]
        exact (hrest 0).1
      · cases fuel with
        | zero => rfl
        | succ fuel =>
          rw [freeTunnelIP_succ hfam, if_neg (by simp [hin, hnext]), if_neg (not_not.mpr hused),
            hstep]
          exact (hrest fuel).2

/-- In 0.0.0.0/0 the search never fails. -/
theorem search_ne_none (hlen : pool.len = 0) {ip : Nat} {r : Option Nat} (hlt : ip < 2 ^ 32)
    (h : Search pool used ip r) : r ≠ none := by
  have hall : ∀ a < 2 ^ 32, pool.contains .ip4 a := by
    intro a ha
    have hbase := pool_end_le hfam
    have hsize : pool.size = 2 ^ 32 := by
      rw [Network.size, hfam, hlen]
      rfl
    exact (contains_ip4_iff hfam).mpr ⟨by omega, by omega⟩
  induction h with
  | outside hout =>
    rw [hall _ hlt] at hout
    cases hout
  | broadcast _ hout =>
    rw [hall _ (nextIP_lt _)] at hout
    cases hout
  | free => exact Option.some_ne_none _
  | taken _ _ _ _ ih => exact ih (nextIP_lt _)

end Pool

/-! ## Tunnel addresses -/

/-- The text of the first address of `AllowedIPs`. -/
def firstAllowed (p : WGServerPeer) : Text :=
  (trimSpace (p.allowedIPs.takeWhile (· ≠ ','))).takeWhile (· ≠ '/')

theorem usedTunnelIPs_eq (c : Config) : usedTunnelIPs c = c.vpnServer.peers.map firstAllowed := rfl

/-- The tunnel address of a peer, the one its `AllowedIPs` starts with. A site-to-site
link starts with a remote subnet instead, which is not in the pool. -/
def tunnelIP (pool : Lib.Network) (p : WGServerPeer) : Option Nat :=
  (parseIPv4 (firstAllowed p)).filter (pool.contains .ip4 ·)

theorem tunnelIP_eq_some :
    tunnelIP pool p = some a ↔ parseIPv4 (firstAllowed p) = some a ∧ pool.contains .ip4 a := by
  rw [tunnelIP, Option.filter_eq_some_iff]

/-- The tunnel addresses of the present peers. -/
def assigned (pool : Lib.Network) (c : Config) : List Nat :=
  c.vpnServer.peers.filterMap (tunnelIP pool)

/-- The addresses that a new peer can have. -/
def freeHosts (server : Nat) (pool : Lib.Network) (c : Config) : Set Nat :=
  {a | pool.contains .ip4 a ∧ a ≠ pool.base ∧ a ≠ lastAddress pool ∧ a ≠ server ∧
    a ∉ assigned pool c}

/-- The least element, if there is one. -/
def Chosen (free : Set Nat) : Option Nat → Prop
  | some a => IsLeast free a
  | none => free = ∅

/-- What `nextTunnelIP` returns for the result of its loop. -/
def tunnelResult : Option Nat → Except VPNError Text
  | some a => .ok (dotted a ++ "/32")
  | none => .error .noFreeTunnelIP

/-- The addresses in use, as `nextTunnelIP` collects them. -/
def usedTexts (server : Nat) (c : Config) : List Text :=
  dotted server :: usedTunnelIPs c

/-- The server address is an IPv4 CIDR. -/
structure IPv4Server (c : Config) (server : Nat) (pool : Lib.Network) : Prop where
  address : ∃ len, Prefix.parseCIDR (trimSpace c.vpnServer.address) = some ⟨.ip4, server, len⟩
  network : parseSubnet c.vpnServer.address = some pool

/-- The peers have different names and tunnel addresses, and the next tunnel address is
the least that is free. -/
structure Allocated (server : Nat) (pool : Lib.Network) (c : Config) : Prop where
  names : (c.vpnServer.peers.map (·.name)).Nodup
  distinct : (assigned pool c).Nodup
  server_free : server ∉ assigned pool c
  -- the loop ends with the least free host
  next : ∃ r, Search pool (usedTexts server c) (nextIP .ip4 pool.base) r ∧
    nextTunnelIP c = tunnelResult r ∧ Chosen (freeHosts server pool c) r
  -- which a peer that `AddPeer` appends then has
  added : ∀ saved keys r p, (commitPeer saved keys r c).2 = withPeers c (c.vpnServer.peers ++ [p]) →
    ∃ a, IsLeast (freeHosts server pool c) a ∧ tunnelIP pool p = some a
  -- and a peer of an invite has none
  linked : ∀ p ∈ c.vpnServer.peers, p.allowedIPs = joinSubnets p.remoteSubnets →
    tunnelIP pool p = none

/-- Every IPv4 CIDR has a pool. -/
theorem exists_ipv4Server {server len : Nat}
    (h : Prefix.parseCIDR (trimSpace c.vpnServer.address) = some ⟨.ip4, server, len⟩) :
    ∃ pool, IPv4Server c server pool ∧ pool.len = len := by
  have hbound := Prefix.parseCIDR_ip4 h
  obtain ⟨pool, hpool⟩ := Lib.Network.exists_ofPrefix_ip4 hbound.1 hbound.2
  refine ⟨pool, ⟨⟨len, h⟩, ?_⟩, (Lib.Network.ofPrefix_ip4 hpool).2.1⟩
  rw [parseSubnet, Lib.Network.parse, h, Option.bind_some, hpool]

namespace IPv4Server

variable {c : Config} {server : Nat} (h : IPv4Server c server pool)
include h

theorem facts : pool.family = .ip4 ∧ pool.contains .ip4 server := by
  obtain ⟨len, haddr⟩ := h.address
  have hnet := h.network
  rw [parseSubnet, Lib.Network.parse, haddr, Option.bind_some] at hnet
  obtain ⟨hfam, -, hin⟩ := Lib.Network.ofPrefix_ip4 hnet
  exact ⟨hfam, hin⟩

theorem nextTunnelIP_eq : nextTunnelIP c = tunnelResult
    (freeTunnelIP pool (usedTexts server c) pool.size (nextIP .ip4 pool.base)) := by
  obtain ⟨len, haddr⟩ := h.address
  have hfam := h.facts.1
  have hsize : pool.size = 1 <<< (Family.ip4.bits - pool.len) := by
    rw [Network.size, hfam, Nat.one_shiftLeft]
  unfold nextTunnelIP
  rw [haddr, h.network]
  simp only [hfam, ipString_ip4]
  rw [hsize]
  unfold tunnelResult usedTexts
  generalize freeTunnelIP pool (dotted server :: usedTunnelIPs c)
    (1 <<< (Family.ip4.bits - pool.len)) (nextIP .ip4 pool.base) = found
  cases found with
  | none => rfl
  | some a => rfl

theorem lt_of_contains (ha : pool.contains .ip4 a) : a >>> 32 = 0 := by
  have hfam := h.facts.1
  have hend := pool_end_le hfam
  have hlt := ((contains_ip4_iff hfam).mp ha).2
  exact Nat.shiftRight_eq_zero a 32 (by omega)

theorem withPeers (ps : List WGServerPeer) : IPv4Server (withPeers c ps) server pool :=
  ⟨h.address, h.network⟩

end IPv4Server

/-! ## The search against the free hosts -/

/-- A tunnel address stands in the text as the service writes it. -/
def Written (pool : Lib.Network) (ps : List WGServerPeer) : Prop :=
  ∀ p ∈ ps, ∀ a, tunnelIP pool p = some a → firstAllowed p = dotted a

section Free

variable {c : Config} {server : Nat} (h : IPv4Server c server pool)
include h

theorem mem_usedTexts_iff (hwritten : Written pool c.vpnServer.peers) (ha : pool.contains .ip4 a) :
    dotted a ∈ usedTexts server c ↔ a = server ∨ a ∈ assigned pool c := by
  have hparse := parseIPv4_dotted (h.lt_of_contains ha)
  rw [usedTexts, mem_cons, usedTunnelIPs_eq, assigned, mem_filterMap, mem_map]
  refine or_congr ⟨?_, fun heq => by rw [heq]⟩ ⟨?_, ?_⟩
  · intro heq
    rw [heq, parseIPv4_dotted (h.lt_of_contains h.facts.2)] at hparse
    exact (Option.some.inj hparse).symm
  · rintro ⟨p, hp, heq⟩
    exact ⟨p, hp, tunnelIP_eq_some.mpr ⟨by rw [heq, hparse], ha⟩⟩
  · rintro ⟨p, hp, hip⟩
    exact ⟨p, hp, hwritten p hp a hip⟩

theorem mem_freeHosts_iff (hwritten : Written pool c.vpnServer.peers) :
    a ∈ freeHosts server pool c ↔
      pool.base < a ∧ a + 1 < pool.base + pool.size ∧ dotted a ∉ usedTexts server c := by
  have hfam := h.facts.1
  have hlast : lastAddress pool + 1 = pool.base + pool.size := by
    have hsize : pool.size = 1 <<< (pool.family.bits - pool.len) := (Nat.one_shiftLeft _).symm
    have hpos := pool.size_pos
    rw [lastAddress, ← hsize]
    omega
  constructor
  · rintro ⟨hin, hbase, hne, hserver, hfree⟩
    obtain ⟨hlow, hhigh⟩ := (contains_ip4_iff hfam).mp hin
    refine ⟨by omega, by omega, ?_⟩
    rw [mem_usedTexts_iff h hwritten hin]
    exact not_or.mpr ⟨hserver, hfree⟩
  · rintro ⟨hlow, hhigh, hunused⟩
    have hin := (contains_ip4_iff hfam (a := a)).mpr ⟨by omega, by omega⟩
    rw [mem_usedTexts_iff h hwritten hin, not_or] at hunused
    exact ⟨hin, by omega, by omega, hunused⟩

/-- The loop ends with the least free host, or fails if there is none. -/
theorem search_chosen (hwritten : Written pool c.vpnServer.peers)
    (hcond : 0 < pool.len ∨ (freeHosts server pool c).Nonempty) :
    ∃ r, Search pool (usedTexts server c) (nextIP .ip4 pool.base) r ∧
      nextTunnelIP c = tunnelResult r ∧ Chosen (freeHosts server pool c) r := by
  have hfam := h.facts.1
  have hpos := pool.size_pos
  by_cases hne : (freeHosts server pool c).Nonempty
  · -- the least free host is what the search comes to
    classical
    let a := Nat.find hne
    have hleast : IsLeast (freeHosts server pool c) a :=
      ⟨Nat.find_spec hne, fun b hb => Nat.find_min' hne hb⟩
    obtain ⟨hlow, hhigh, hunused⟩ := (mem_freeHosts_iff h hwritten).mp hleast.1
    have hstart : nextIP .ip4 pool.base = pool.base + 1 :=
      (inside hfam (Nat.le_refl _) (by omega)).1
    have hfound : freeTunnelIP pool (usedTexts server c) pool.size (nextIP .ip4 pool.base) = some a := by
      rw [hstart]
      refine freeTunnelIP_of_free hfam (by omega) (by omega) hlow hhigh ?_ hunused
      intro b hb hlt
      by_contra hfree
      have hmem := (mem_freeHosts_iff h hwritten).mpr ⟨hb, by omega, hfree⟩
      exact absurd (hleast.2 hmem) (by omega)
    refine ⟨some a, .of_freeTunnelIP hfam hfound, ?_, hleast⟩
    rw [h.nextTunnelIP_eq, hfound]
  · have hlen := hcond.resolve_right hne
    rw [Set.not_nonempty_iff_eq_empty] at hne
    refine ⟨none, ?_⟩
    rw [h.nextTunnelIP_eq]
    rcases Nat.eq_or_lt_of_le (Nat.succ_le_of_lt hpos) with hone | htwo
    · -- a single address, so the search starts outside
      have hout : pool.contains .ip4 (nextIP .ip4 pool.base) = false :=
        next_outside hfam hlen (by omega)
      refine ⟨.outside hout, ?_, hne⟩
      rw [← hone, freeTunnelIP_succ hfam, if_pos (.inl hout)]
    · have hstart : nextIP .ip4 pool.base = pool.base + 1 :=
        (inside hfam (Nat.le_refl _) (by omega)).1
      have hsearch : Search pool (usedTexts server c) (pool.base + 1) none ∧
          freeTunnelIP pool (usedTexts server c) pool.size (pool.base + 1) = none := by
        refine search_none hfam hlen (by omega) (by omega) ?_
        intro b hb hlt
        by_contra hfree
        have hmem := (mem_freeHosts_iff h hwritten).mpr ⟨hb, hlt, hfree⟩
        rw [hne] at hmem
        exact hmem
      rw [hstart]
      exact ⟨hsearch.1, by rw [hsearch.2], hne⟩

end Free

/-! ## The texts of `AllowedIPs` -/

/-- A tunnel address comes first, whatever is behind it. -/
theorem firstAllowed_of_added {keys : PeerKeys} {r : PeerRequest}
    (ha : a >>> 32 = 0) (hp : Added keys r (dotted a ++ "/32") p) : firstAllowed p = dotted a := by
  have hchars := (parseIP_chars (parseIP_dotted ha)).2
  have hplain : ∀ c ∈ dotted a ++ "/32", isAddressChar c := by
    rw [forall_mem_append]
    exact ⟨hchars, all_eq_true.mp (by decide)⟩
  have hfirst : p.allowedIPs.takeWhile (· ≠ ',') = dotted a ++ "/32" := by
    have hcomma : ',' ∉ dotted a ++ "/32" := fun hc => absurd (hplain _ hc) (by decide)
    rw [hp.allowedIPs]
    split
    · rw [append_assoc]
      exact takeWhile_ne hcomma _
    · exact takeWhile_ne_self hcomma
  have htrim : trimSpace (dotted a ++ "/32") = dotted a ++ "/32" :=
    trim_eq_self
      (fun c hc => not_isSpace_of_isAddressChar (hplain c (mem_of_mem_head? hc)))
      (fun c hc => not_isSpace_of_isAddressChar (hplain c (mem_of_mem_getLast? hc)))
  rw [firstAllowed, hfirst, htrim]
  exact takeWhile_ne (slash_not_mem_ipText .ip4 a) _

/-- Remote subnets that the check has let pass. -/
def Clear (pool : Lib.Network) (subnets : List Text) : Prop :=
  ∀ r ∈ subnets, ∃ n, parseSubnet r = some n ∧ n.overlaps pool = false

/-- The address in front of the slash is one of the subnet. -/
theorem contains_of_parseSubnet {r : Text} {n : Lib.Network} (hn : parseSubnet r = some n)
    (ha : parseIPv4 ((trimSpace r).takeWhile (· ≠ '/')) = some a) : n.contains .ip4 a := by
  obtain ⟨p, hp, hprefix⟩ := Option.bind_eq_some_iff.mp hn
  obtain ⟨⟨l, m⟩, hcut, hp⟩ := Option.bind_eq_some_iff.mp hp
  obtain ⟨⟨f, x⟩, hx, hp⟩ := Option.bind_eq_some_iff.mp hp
  obtain ⟨len, -, hp⟩ := Option.bind_eq_some_iff.mp hp
  rw [(Prefix.cutSlash_spec hcut).2] at ha
  split_ifs at hp
  · cases hp
    rcases parseIP_cases hx with ⟨rfl, hx4⟩ | ⟨-, hcolon⟩
    · obtain rfl : a = x := Option.some.inj (ha.symm.trans hx4)
      exact (Lib.Network.ofPrefix_ip4 hprefix).2.2
    · exact absurd hcolon (colon_not_mem_of_parseIPv4 ha)

theorem comma_not_mem_of_parseSubnet {r : Text} {n : Lib.Network} (hn : parseSubnet r = some n) :
    ',' ∉ r := by
  obtain ⟨p, hp, -⟩ := Option.bind_eq_some_iff.mp hn
  obtain ⟨l, m, hr, hl, hm⟩ := exists_trimSpace r
  rw [hr, mem_append, mem_append]
  rintro ((hc | hc) | hc)
  · exact absurd (hl _ hc) (by decide)
  · exact absurd (Prefix.parseCIDR_chars hp _ hc) (by decide)
  · exact absurd (hm _ hc) (by decide)

/-- Where the first remote subnet comes first there is no tunnel address. -/
theorem tunnelIP_of_joined (hclear : Clear pool p.remoteSubnets)
    (hp : p.allowedIPs = joinSubnets p.remoteSubnets) : tunnelIP pool p = none := by
  rcases hsubnets : p.remoteSubnets with _ | ⟨r, rest⟩
  · rw [hsubnets] at hp
    rw [tunnelIP, firstAllowed, hp]
    rfl
  rw [Option.eq_none_iff_forall_ne_some]
  intro a ha
  obtain ⟨hparse, hin⟩ := tunnelIP_eq_some.mp ha
  obtain ⟨n, hn, hapart⟩ := hclear r (by rw [hsubnets]; exact mem_cons_self)
  have hcomma := comma_not_mem_of_parseSubnet hn
  have hfirst : p.allowedIPs.takeWhile (· ≠ ',') = r := by
    rw [hp, hsubnets, joinSubnets]
    cases rest with
    | nil => simpa [List.intercalate] using takeWhile_ne_self hcomma
    | cons r' rest =>
      rw [intercalate_cons_cons, append_assoc]
      exact takeWhile_ne hcomma _
  rw [firstAllowed, hfirst] at hparse
  exact overlaps_eq_false_iff.mp hapart (.ip4, a) (contains_of_parseSubnet hn hparse) hin

/-! ## Runs -/

/-- What holds of the peer list all along a run. -/
structure Orderly (server : Nat) (pool : Lib.Network) (ps : List WGServerPeer) : Prop where
  names : (ps.map (·.name)).Nodup
  distinct : (ps.filterMap (tunnelIP pool)).Nodup
  server_free : server ∉ ps.filterMap (tunnelIP pool)
  written : Written pool ps
  clear : ∀ p ∈ ps, Clear pool p.remoteSubnets

namespace Orderly

variable {server : Nat} {ps : List WGServerPeer}

theorem sublist (h : Orderly server pool ps) {qs : List WGServerPeer} (hsub : List.Sublist qs ps) :
    Orderly server pool qs where
  names := h.names.sublist (hsub.map _)
  distinct := h.distinct.sublist (hsub.filterMap _)
  server_free := fun hmem => h.server_free ((hsub.filterMap _).subset hmem)
  written := fun p hp => h.written p (hsub.subset hp)
  clear := fun p hp => h.clear p (hsub.subset hp)

/-- A peer without a tunnel address, or with a new one. -/
theorem append (h : Orderly server pool ps) (hname : ∀ q ∈ ps, q.name ≠ p.name)
    (hclear : Clear pool p.remoteSubnets)
    (hip : ∀ a, tunnelIP pool p = some a →
      firstAllowed p = dotted a ∧ a ≠ server ∧ a ∉ ps.filterMap (tunnelIP pool)) :
    Orderly server pool (ps ++ [p]) where
  names := by
    rw [map_append, map_singleton, ← concat_eq_append, nodup_concat]
    refine ⟨fun hmem => ?_, h.names⟩
    obtain ⟨q, hq, heq⟩ := mem_map.mp hmem
    exact hname q hq heq
  distinct := by
    rw [filterMap_append, nodup_append]
    refine ⟨h.distinct, ?_, ?_⟩
    · cases hp : tunnelIP pool p <;> simp [hp]
    · intro a ha b hb hab
      have hb : tunnelIP pool p = some b := by simpa using hb
      exact (hip b hb).2.2 (hab ▸ ha)
  server_free := by
    rw [filterMap_append, mem_append, not_or]
    refine ⟨h.server_free, fun hmem => ?_⟩
    have hp : tunnelIP pool p = some server := by simpa using hmem
    exact (hip server hp).2.1 rfl
  written := forall_mem_append.mpr
    ⟨h.written, forall_mem_singleton.mpr fun a ha => (hip a ha).1⟩
  clear := forall_mem_append.mpr ⟨h.clear, forall_mem_singleton.mpr hclear⟩

/-- `FinalizeInvite` changes neither the name nor the addresses of a peer. -/
theorem finalize {front back : List WGServerPeer}
    (h : Orderly server pool (front ++ p :: back)) (key : Text) :
    Orderly server pool (front ++ finalized key p :: back) := by
  have hname : (finalized key p).name = p.name := rfl
  have hip : tunnelIP pool (finalized key p) = tunnelIP pool p := rfl
  have hmap : (front ++ finalized key p :: back).filterMap (tunnelIP pool) =
      (front ++ p :: back).filterMap (tunnelIP pool) := by
    simp only [filterMap_append, filterMap_cons, hip]
  obtain ⟨hnames, hdistinct, hfree, hwritten, hclear⟩ := h
  refine ⟨by simpa [hname] using hnames, hmap ▸ hdistinct, hmap ▸ hfree, ?_, ?_⟩
  · simp only [Written, forall_mem_append, forall_mem_cons] at hwritten ⊢
    exact hwritten
  · simp only [forall_mem_append, forall_mem_cons] at hclear ⊢
    exact hclear

end Orderly

/-- The check keeps remote subnets out of the pool. -/
theorem IPv4Server.clear_of_check {server : Nat} (h : IPv4Server c server pool)
    {remote : List Text} (hcheck : checkRemoteSubnets c remote = .ok ()) : Clear pool remote := by
  obtain ⟨len, haddr⟩ := h.address
  have hne : c.vpnServer.address ≠ [] := by
    intro hnil
    rw [hnil] at haddr
    cases haddr
  have hclaimed : addressToSubnet c.vpnServer.address ∈ claimedSubnets c := by
    simp [claimedSubnets, reservedSubnets, hne]
  have hpool : parseSubnet (addressToSubnet c.vpnServer.address) = some pool := by
    have hmask := withMask_of_parseCIDR haddr
    rw [trimSpace_trimSpace] at hmask
    rw [parseSubnet_addressToSubnet, hmask]
    exact h.network
  intro r hr
  obtain ⟨hprivate, hapart⟩ := checkRemoteSubnets_eq_ok.mp hcheck r hr
  cases hn : parseSubnet r with
  | none =>
    rw [privateLANPrefix, hn] at hprivate
    cases hprivate
  | some n => exact ⟨n, rfl, hapart n hn _ hclaimed pool hpool⟩

/-- The peer list in order, and what the calls in flight are going to append. -/
structure Keeping (server : Nat) (pool : Lib.Network) (s : Serving) : Prop where
  served : IPv4Server s.config server pool
  calls : ∀ call ∈ s.calls, Clear pool call.job.remoteSubnets
  peers : Orderly server pool s.config.vpnServer.peers

namespace Keeping

variable {server : Nat}

theorem appends {s : Serving} (h : Keeping server pool s) {call : Call} (hcall : call ∈ s.calls)
    {env : Env} (hp : call.job.Appends env s.config p)
    (hname : ∀ q ∈ s.config.vpnServer.peers, q.name ≠ p.name) :
    Orderly server pool (s.config.vpnServer.peers ++ [p]) := by
  have hclear : Clear pool p.remoteSubnets := hp.remoteSubnets ▸ h.calls call hcall
  refine h.peers.append hname hclear ?_
  intro a ha
  generalize call.job = job at hp
  cases hp with
  | addPeer _ hip hadded =>
    -- the address is the one that the search has found
    rw [h.served.nextTunnelIP_eq] at hip
    rcases hfound : freeTunnelIP pool (usedTexts server s.config) pool.size
        (nextIP .ip4 pool.base) with _ | b
    · rw [hfound] at hip
      cases hip
    rw [hfound] at hip
    rw [← Except.ok.inj hip] at hadded
    obtain ⟨hin, hunused⟩ := (Search.of_freeTunnelIP h.served.facts.1 hfound).found
    have hfirst := firstAllowed_of_added (h.served.lt_of_contains hin) hadded
    have hparse := (tunnelIP_eq_some.mp ha).1
    rw [hfirst, parseIPv4_dotted (h.served.lt_of_contains hin)] at hparse
    cases hparse
    rw [mem_usedTexts_iff h.served h.peers.written hin, not_or] at hunused
    exact ⟨hfirst, hunused⟩
  | createS2SInvite _ =>
    rw [tunnelIP_of_joined hclear rfl] at ha
    cases ha
  | consumeInvite =>
    rw [tunnelIP_of_joined hclear rfl] at ha
    cases ha

theorem step (s : Serving) (op : Op) (h : Keeping server pool s) :
    Keeping server pool (serving.step s op) := by
  have hout := s.step_outcome op
  generalize serving.step s op = s' at hout ⊢
  cases hout with
  | enter hpassed =>
    have hcall := h.served.clear_of_check hpassed.remoteSubnets
    exact ⟨h.served, forall_mem_append.mpr ⟨h.calls, forall_mem_singleton.mpr hcall⟩, h.peers⟩
  | append _ hcall hp hname =>
    exact ⟨h.served.withPeers _, fun call' hmem => h.calls call' (mem_of_mem_eraseIdx hmem),
      h.appends (mem_of_getElem? hcall) hp hname⟩
  | finalize _ _ hpeers =>
    refine ⟨h.served.withPeers _, h.calls, ?_⟩
    have hbefore := h.peers
    rw [hpeers] at hbefore
    exact hbefore.finalize _
  | remove hsub hcalls =>
    exact ⟨h.served.withPeers _, fun call hmem => h.calls call (hcalls.subset hmem),
      h.peers.sublist hsub⟩

theorem init (h : IPv4Server c server pool) (hempty : c.vpnServer.peers = []) :
    Keeping server pool ⟨c, []⟩ := by
  refine ⟨h, fun _ hcall => absurd hcall not_mem_nil, ?_⟩
  simp only [hempty]
  exact ⟨nodup_nil, nodup_nil, not_mem_nil,
    fun _ hp => absurd hp not_mem_nil, fun _ hp => absurd hp not_mem_nil⟩

/-- The least free host goes to the peer that `AddPeer` appends. -/
theorem added {s : Serving} (h : Keeping server pool s) {r : Option Nat}
    (hr : nextTunnelIP s.config = tunnelResult r) (hchosen : Chosen (freeHosts server pool s.config) r)
    {saved : Bool} {keys : PeerKeys} {req : PeerRequest}
    (hp : (commitPeer saved keys req s.config).2 =
      VPN.withPeers s.config (s.config.vpnServer.peers ++ [p])) :
    ∃ a, IsLeast (freeHosts server pool s.config) a ∧ tunnelIP pool p = some a := by
  rcases commitPeer_cases saved keys req s.config with hsame | ⟨ip, q, hip, hadded, -, happend⟩
  · rw [hsame] at hp
    exact absurd hp.symm (withPeers_append_ne _ _)
  have hpeers := congrArg (fun c : Config => c.vpnServer.peers) (happend.symm.trans hp)
  obtain rfl : q = p := by simpa using hpeers
  rw [hr] at hip
  cases r with
  | none => cases hip
  | some a =>
    rw [← Except.ok.inj hip] at hadded
    have hin : pool.contains .ip4 a := hchosen.1.1
    have hlt := h.served.lt_of_contains hin
    refine ⟨a, hchosen, tunnelIP_eq_some.mpr ⟨?_, hin⟩⟩
    rw [firstAllowed_of_added hlt hadded, parseIPv4_dotted hlt]

theorem allocated {s : Serving} (h : Keeping server pool s) :
    Allocated server pool s.config ↔ 0 < pool.len ∨ (freeHosts server pool s.config).Nonempty := by
  constructor
  · intro hallocated
    by_contra hno
    rw [not_or, Nat.not_lt, Nat.le_zero] at hno
    obtain ⟨r, hsearch, -, hchosen⟩ := hallocated.next
    have hne := search_ne_none h.served.facts.1 hno.1 (nextIP_lt _) hsearch
    cases r with
    | none => exact hne rfl
    | some a => exact hno.2 ⟨a, hchosen.1⟩
  · intro hcond
    have hnext := search_chosen h.served h.peers.written hcond
    refine ⟨h.peers.names, h.peers.distinct, h.peers.server_free, hnext, ?_, ?_⟩
    · intro saved keys r p hp
      obtain ⟨x, -, hx, hchosen⟩ := hnext
      exact h.added hx hchosen hp
    · intro p hp hjoined
      exact tunnelIP_of_joined (h.peers.clear p hp) hjoined

end Keeping

/-- **Tunnel addresses.** For every interleaving of calls, from an empty peer list and
with an IPv4 server address, the peers are allocated properly exactly if the prefix
length is not 0 or a host is left. -/
theorem allocated_iff {c : Config} {server len : Nat}
    (haddr : Prefix.parseCIDR (trimSpace c.vpnServer.address) = some ⟨.ip4, server, len⟩)
    (hempty : c.vpnServer.peers = []) :
    ∃ pool, parseSubnet c.vpnServer.address = some pool ∧ ∀ ops,
      (Allocated server pool (serving.run ⟨c, []⟩ ops).config ↔
        0 < len ∨ (freeHosts server pool (serving.run ⟨c, []⟩ ops).config).Nonempty) := by
  obtain ⟨pool, hserver, rfl⟩ := exists_ipv4Server haddr
  refine ⟨pool, hserver.network, fun ops => ?_⟩
  exact (Machine.run_invariant Keeping.step (Keeping.init hserver hempty) ops).allocated

theorem officeConfig_allocated : ∃ pool, parseSubnet officeConfig.vpnServer.address = some pool ∧
    Allocated 0x0a080001 pool (serving.run ⟨officeConfig, []⟩
      [.addPeer (linkTo "a"), .commit 0 fine]).config := by
  have haddr : Prefix.parseCIDR (trimSpace officeConfig.vpnServer.address) =
      some ⟨.ip4, 0x0a080001, 24⟩ := by decide +kernel
  obtain ⟨pool, hpool, hiff⟩ := allocated_iff haddr rfl
  exact ⟨pool, hpool, (hiff _).mpr (.inl (by decide))⟩

/-! ### All of 0.0.0.0/0 -/

/-- A router whose tunnel subnet is all of IPv4. -/
def wideConfig : Config where
  vpnServer := { publicKey := "k", address := "10.8.0.1/0" }

/-- A request for a road-warrior peer. -/
def warrior (k : Nat) : PeerRequest :=
  ⟨List.replicate k 'w', false, [], []⟩

/-- With a free address and a new name, `AddPeer` appends a peer. -/
theorem run_warrior {ip : Text} (hip : nextTunnelIP c = .ok ip) {k : Nat}
    (hname : ∀ p ∈ c.vpnServer.peers, p.name.length < k) :
    ∃ p, p.name.length = k ∧
      serving.run ⟨c, []⟩ [.addPeer (warrior k), .commit 0 fine] =
        ⟨withPeers c (c.vpnServer.peers ++ [p]), []⟩ ∧
      ∃ saved keys r, (commitPeer saved keys r c).2 = withPeers c (c.vpnServer.peers ++ [p]) := by
  have htaken : peerNameTaken c (warrior k).name = false := by
    rw [peerNameTaken_eq_false]
    intro p hp heq
    have hlt := hname p hp
    rw [heq, warrior, length_replicate] at hlt
    omega
  have hcommit : ∀ keys, ∃ p : WGServerPeer, p.name = (warrior k).name ∧
      (commitPeer true keys (warrior k) c).2 = withPeers c (c.vpnServer.peers ++ [p]) := by
    intro keys
    rw [commitPeer, htaken, hip]
    exact ⟨_, rfl, rfl⟩
  obtain ⟨p, hp, heq⟩ := hcommit ⟨"priv", "pub", "psk"⟩
  refine ⟨p, ?_, ?_, true, _, _, heq⟩
  · rw [hp, warrior, length_replicate]
  · rw [← heq]
    rfl

/-- When every host has a peer, the search goes on to the broadcast address. -/
theorem wide_pool_exhausted : ∃ pool, parseSubnet wideConfig.vpnServer.address = some pool ∧
    ∃ ops, ¬ Allocated 0x0a080001 pool (serving.run ⟨wideConfig, []⟩ ops).config := by
  have haddr : Prefix.parseCIDR (trimSpace wideConfig.vpnServer.address) =
      some ⟨.ip4, 0x0a080001, 0⟩ := by decide +kernel
  obtain ⟨pool, hserver, hlen⟩ := exists_ipv4Server haddr
  refine ⟨pool, hserver.network, ?_⟩
  by_contra hall
  simp only [not_exists, not_not] at hall
  -- then there is room for any number of peers
  have hroom : ∀ k, ∃ ops ps, serving.run ⟨wideConfig, []⟩ ops = ⟨withPeers wideConfig ps, []⟩ ∧
      (∀ p ∈ ps, p.name.length < k) ∧ (ps.filterMap (tunnelIP pool)).length = k := by
    intro k
    induction k with
    | zero => exact ⟨[], [], rfl, fun _ hp => absurd hp not_mem_nil, rfl⟩
    | succ k ih =>
      obtain ⟨ops, ps, hrun, hnames, hcount⟩ := ih
      have hallocated := hall ops
      have hkeeping := Machine.run_invariant Keeping.step (Keeping.init hserver rfl) ops
      have hfree := (hkeeping.allocated.mp hallocated).resolve_left (by omega)
      rw [hrun] at hallocated hfree
      obtain ⟨r, -, hnext, hchosen⟩ := hallocated.next
      cases r with
      | none =>
        rw [Chosen] at hchosen
        rw [hchosen] at hfree
        exact absurd hfree Set.not_nonempty_empty
      | some a =>
        obtain ⟨p, hp, hstep, saved, keys, r, hcommit⟩ := run_warrior hnext hnames
        obtain ⟨b, -, hb⟩ := hallocated.added saved keys r p hcommit
        refine ⟨ops ++ [.addPeer (warrior k), .commit 0 fine], ps ++ [p], ?_, ?_, ?_⟩
        · rw [Machine.run_append, hrun, hstep]
          rfl
        · rw [forall_mem_append, forall_mem_singleton, hp]
          exact ⟨fun q hq => Nat.lt_succ_of_lt (hnames q hq), Nat.lt_succ_self k⟩
        · rw [filterMap_append, length_append, hcount]
          simp [hb]
  -- but there are only 2^32 addresses, and the server has one
  obtain ⟨ops, ps, hrun, -, hcount⟩ := hroom (2 ^ 32)
  have hkeeping := Machine.run_invariant Keeping.step (Keeping.init hserver rfl) ops
  rw [hrun] at hkeeping
  have hnodup : (0x0a080001 :: ps.filterMap (tunnelIP pool)).Nodup :=
    nodup_cons.mpr ⟨hkeeping.peers.server_free, hkeeping.peers.distinct⟩
  have hsub : 0x0a080001 :: ps.filterMap (tunnelIP pool) ⊆ List.range (2 ^ 32) := by
    intro a ha
    have hend := pool_end_le hserver.facts.1
    have hin : pool.contains .ip4 a := by
      rcases mem_cons.mp ha with rfl | ha
      · exact hserver.facts.2
      · obtain ⟨p, -, hp⟩ := mem_filterMap.mp ha
        exact (tunnelIP_eq_some.mp hp).2
    have hlt := ((contains_ip4_iff hserver.facts.1).mp hin).2
    exact mem_range.mpr (by omega)
  have hle := (subperm_of_subset hnodup hsub).length_le
  rw [length_cons, hcount, length_range] at hle
  omega

end Lankeeper.VPN
