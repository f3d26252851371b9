import Lankeeper.DHCP.Ranges

/-!
# Lankeeper.DHCP.Reservations — are the reservations apart?

`HandleAddStatic` of `internal/web/handlers/dhcp.go` over `AddStaticLease`. A MAC has one
notation up to the case of its digits, and `EqualFold` sees through that. An IPv4 address has
two, and they are compared as texts. The router's own address is a host like any other, and
of several subnets only the first with the address is looked at, and only in IPv4 notation.
`reservations_apart_iff` says that nothing else goes wrong.
-/

namespace Lankeeper.DHCP

open Lib Text List Option Address

/-! ## Addresses -/

/-- The digits of a text that `macRegex` may match. -/
def macDigits : Text → Option (List Char)
  | [a, b, ':', c, d, ':', e, f, ':', g, h, ':', i, j, ':', k, l] =>
    some [a, b, c, d, e, f, g, h, i, j, k, l]
  | _ => none

/-- The 48-bit address, as its twelve hexadecimal digits. -/
def macOf (t : Text) : Option (List Nat) :=
  (macDigits t).bind (·.mapM hexDigit)

/-- What the handlers let through to the service. -/
def accepted : Call → Bool
  | .add _ mac ip hostname =>
    (macOf mac).isSome && (parseIP ip).isSome && validHostname hostname
  | .remove .. => true

/-- The address is a host of each served subnet that it belongs to, and not the router. -/
def HostAddress (site : Site) (a : Nat) : Prop :=
  ∀ cidr ∈ site.dhcpSubnets, ∀ p n, Prefix.parseCIDR cidr = some p → Network.parse cidr = some n →
    n.contains .ip4 a →
      (2 < n.size → a ≠ n.base ∧ a + 1 ≠ n.base + n.size) ∧
        asIPv4 (p.family, p.addr) ≠ some a

/-- Two reservations are for different hardware and for different addresses. -/
def Apart (l m : StaticLease) : Prop :=
  (∀ ds, macOf l.mac = some ds → macOf m.mac ≠ some ds) ∧ ∀ a, ip4Of l.ip = some a → ip4Of m.ip ≠ some a

/-- The stored reservations are in order. -/
structure Reserved (site : Site) (s : State) : Prop where
  apart : s.leases.Pairwise Apart
  hosts : ∀ l ∈ s.leases, ∀ a, ip4Of l.ip = some a → HostAddress site a

/-! ## What the checks miss -/

def hasAddress (a : Nat) (cidr : Text) : Bool :=
  (Network.parse cidr).any (·.contains .ip4 a)

/-- The address is compared with the ends of this subnet: it is the first one with the address, and
in IPv4 notation. -/
def Compared (site : Site) (a : Nat) (cidr : Text) : Prop :=
  site.dhcpSubnets.find? (hasAddress a) = some cidr ∧
    ∀ p, Prefix.parseCIDR cidr = some p → p.family = .ip4

/-- The address is not the router's, and no end of a subnet that it is not compared with. -/
def ClearOfRest (site : Site) (a : Nat) : Prop :=
  ∀ cidr ∈ site.dhcpSubnets, ∀ p n, Prefix.parseCIDR cidr = some p → Network.parse cidr = some n →
    n.contains .ip4 a →
      (¬ Compared site a cidr → 2 < n.size → a ≠ n.base ∧ a + 1 ≠ n.base + n.size) ∧
        asIPv4 (p.family, p.addr) ≠ some a

/-- A reservation that passes the checks has no address that another notation has reserved, and none
that the checks miss. -/
def ForNewHost (site : Site) (s : State) : Call → Prop
  | .add _ mac ip hostname =>
    validateStaticLease site ip hostname = .ok () → leaseConflict site mac ip s.leases = none →
      ∀ a, ip4Of ip = some a →
        ClearOfRest site a ∧ ∀ l ∈ s.leases, l.ip ≠ ip → ip4Of l.ip ≠ some a
  | .remove .. => True

variable {a : Nat} {site : Site} {s : State}

/-- The first subnet with the address decides. -/
theorem checkSubnets_ok {ip : Text} {subnets : List Text} (h : checkSubnets ip a subnets = .ok ()) :
    ∃ cidr p n, subnets.find? (hasAddress a) = some cidr ∧ Prefix.parseCIDR cidr = some p ∧
      Network.parse cidr = some n ∧ isNetworkOrBroadcast p.len n a = false := by
  induction subnets with
  | nil => cases h
  | cons cidr rest ih =>
    rw [checkSubnets] at h
    have hskip : hasAddress a cidr = false → checkSubnets ip a rest = .ok () →
        ∃ cidr' p n, (cidr :: rest).find? (hasAddress a) = some cidr' ∧
          Prefix.parseCIDR cidr' = some p ∧ Network.parse cidr' = some n ∧
          isNetworkOrBroadcast p.len n a = false := by
      intro hno hrest
      rw [find?_cons_of_neg (by simp [hno])]
      exact ih hrest
    split at h
    · rename_i p n hp hn
      split_ifs at h with hin
      · refine ⟨cidr, p, n, find?_cons_of_pos (by simp [hasAddress, hn, hin]), hp, hn, ?_⟩
        simpa using failIf_ok h
      · exact hskip (by simp [hasAddress, hn, hin]) h
    · rename_i hnone
      refine hskip ?_ h
      rcases hn : Network.parse cidr with _ | n
      · simp [hasAddress, hn]
      · obtain ⟨p, hp, -⟩ := bind_eq_some_iff.mp hn
        exact (hnone p n hp hn).elim

/-- Where the address is compared with the ends, it is neither. -/
theorem ne_ends_of_compared {site : Site} {ip cidr : Text} {n : Network}
    (hok : checkSubnets ip a site.dhcpSubnets = .ok ()) (hc : Compared site a cidr)
    (hn : Network.parse cidr = some n) (hsize : 2 < n.size) :
    a ≠ n.base ∧ a + 1 ≠ n.base + n.size := by
  obtain ⟨cidr', ⟨f, addr, len⟩, n', hfirst, hp, hn', hends⟩ := checkSubnets_ok hok
  obtain rfl : cidr = cidr' := some.inj (hc.1.symm.trans hfirst)
  obtain rfl : n = n' := some.inj (hn.symm.trans hn')
  obtain rfl : f = .ip4 := hc.2 _ hp
  rw [Network.parse, hp, bind_some] at hn
  obtain ⟨h4, rfl, -⟩ := Network.ofPrefix_ip4 hn
  have hlen : n.len < 31 := by
    by_contra hge
    have hle : n.size ≤ 2 ^ 1 := Nat.pow_le_pow_right (by decide) (by rw [h4, Family.bits]; omega)
    omega
  have hhost := base_or_host n h4
  simp only [isNetworkOrBroadcast, hlen, h4, Family.bits, decide_true, Bool.true_and,
    Bool.or_eq_false_iff, decide_eq_false_iff_not, hhost] at hends
  omega

theorem hostAddress_iff {site : Site} {ip : Text}
    (hok : checkSubnets ip a site.dhcpSubnets = .ok ()) :
    HostAddress site a ↔ ClearOfRest site a := by
  refine forall₂_congr fun cidr _ => forall₅_congr fun p n _ hn _ => and_congr_left fun _ => ?_
  refine ⟨fun h _ => h, fun h hsize => ?_⟩
  by_cases hc : Compared site a cidr
  · exact ne_ends_of_compared hok hc hn hsize
  · exact h hc hsize

/-! ## Notations of a MAC -/

/-- A digit in lower case is the one for its value. -/
theorem toLower_eq_hexChar {c : Char} {d : Nat} (h : hexDigit c = some d) :
    c.toLower = hexChar d := by
  have hlow : c.toNat < 128 := by
    have hle := isAddressChar_toNat_le (c := c) (by simp [isAddressChar, h])
    omega
  have hall : ((List.range 128).all fun n => (hexDigit (Char.ofNat n)).all fun d =>
      (Char.ofNat n).toLower == hexChar d) := by
    decide +kernel
  have hone := List.all_eq_true.mp hall c.toNat (mem_range.mpr hlow)
  rw [Char.ofNat_toNat, h] at hone
  exact eq_of_beq hone

/-- Texts for one MAC differ in the case of their digits. -/
theorem map_toLower_of_macOf {t u : Text} {ds : List Nat} (ht : macOf t = some ds)
    (hu : macOf u = some ds) : t.map Char.toLower = u.map Char.toLower := by
  have hlower : ∀ {cs : List Char}, cs.mapM hexDigit = some ds →
      cs.map Char.toLower = ds.map hexChar := by
    intro cs h
    rw [← forall₂_eq_eq_eq, forall₂_map_left_iff, forall₂_map_right_iff]
    exact (mapM_eq_some_iff.mp h).imp fun _ _ => toLower_eq_hexChar
  obtain ⟨cs, hcs, ht⟩ := bind_eq_some_iff.mp ht
  obtain ⟨cs', hcs', hu⟩ := bind_eq_some_iff.mp hu
  have hsame := (hlower ht).trans (hlower hu).symm
  unfold macDigits at hcs hcs'
  split at hcs
  · split at hcs'
    · cases hcs
      cases hcs'
      simp only [map_cons, List.cons.injEq] at hsame ⊢
      tauto
    · cases hcs'
  · cases hcs

/-! ## Calls -/

theorem addStaticLease_leases (w : Writes) (mac ip hostname : Text) :
    (addStaticLease site w mac ip hostname s).2.leases =
      if validateStaticLease site ip hostname = .ok () ∧ leaseConflict site mac ip s.leases = none then
        s.leases ++ [⟨mac, ip, hostname⟩] else s.leases := by
  unfold addStaticLease
  cases validateStaticLease site ip hostname with
  | error e => simp
  | ok u =>
    cases leaseConflict site mac ip s.leases with
    | some e => simp
    | none =>
      dsimp only
      split_ifs <;> simp_all

theorem checkSubnets_of_valid {ip hostname : Text}
    (h : validateStaticLease site ip hostname = .ok ()) (ha : ip4Of ip = some a) :
    checkSubnets ip a site.dhcpSubnets = .ok () := by
  obtain ⟨⟨⟩, -, hcheck⟩ := exists_of_bind_ok h
  rw [show (parseIP ip).bind asIPv4 = some a from ha] at hcheck
  exact hcheck

theorem Reserved.sublist (h : Reserved site s) {t : State} (hsub : t.leases.Sublist s.leases) :
    Reserved site t :=
  ⟨h.apart.sublist hsub, fun l hl => h.hosts l (hsub.subset hl)⟩

/-- One call: a MAC that is taken is always noticed. -/
theorem reserved_call_iff
    (hfold : ∀ t u : Text, t.map Char.toLower = u.map Char.toLower → site.fold t = site.fold u)
    (h : Reserved site s) (c : Call) :
    Reserved site ((service site).step s c) ↔ ForNewHost site s c := by
  cases c with
  | remove w index =>
    refine iff_of_true (h.sublist ?_) trivial
    rcases removeStaticLease_cases site w index s with ⟨-, heq⟩ | ⟨l, -, -, heq⟩
    · exact (congrArg State.leases heq).symm ▸ Sublist.refl _
    · exact (congrArg State.leases heq).symm ▸ eraseIdx_sublist ..
  | add w mac ip hostname =>
    have hleases : ((service site).step s (.add w mac ip hostname)).leases = _ :=
      addStaticLease_leases w mac ip hostname
    by_cases hstored : validateStaticLease site ip hostname = .ok () ∧
        leaseConflict site mac ip s.leases = none
    · rw [if_pos hstored] at hleases
      have hmac : ∀ l ∈ s.leases, ∀ ds, macOf l.mac = some ds → macOf mac ≠ some ds := by
        intro l hl ds hds hmac
        have hfree := findSome?_eq_none_iff.mp hstored.2 l hl
        rw [if_pos (by simp [Site.equalFold, hfold _ _ (map_toLower_of_macOf hds hmac)])] at hfree
        cases hfree
      have hip : ∀ l ∈ s.leases, l.ip ≠ ip := by
        intro l hl heq
        have hfree := findSome?_eq_none_iff.mp hstored.2 l hl
        rw [if_pos heq] at hfree
        split_ifs at hfree
      have hhost : ∀ a, ip4Of ip = some a → (HostAddress site a ↔ ClearOfRest site a) :=
        fun a ha => hostAddress_iff (checkSubnets_of_valid hstored.1 ha)
      constructor
      · intro hr _ _ a ha
        have hapart := hr.apart
        rw [hleases, pairwise_append] at hapart
        refine ⟨(hhost a ha).mp (hr.hosts ⟨mac, ip, hostname⟩ (by simp [hleases]) a ha),
          fun l hl _ hla => ?_⟩
        exact (hapart.2.2 l hl _ mem_cons_self).2 a hla ha
      · intro hnew
        have hnew := hnew hstored.1 hstored.2
        constructor
        · rw [hleases, pairwise_append]
          refine ⟨h.apart, pairwise_singleton .., fun l hl m hm => ?_⟩
          rw [mem_singleton.mp hm]
          exact ⟨hmac l hl, fun a hla ha => (hnew a ha).2 l hl (hip l hl) hla⟩
        · rw [hleases, forall_mem_append]
          exact ⟨h.hosts, forall_mem_singleton.mpr fun a ha => (hhost a ha).mpr (hnew a ha).1⟩
    · rw [if_neg hstored] at hleases
      exact iff_of_true (h.sublist (by rw [hleases])) fun hv hc => absurd ⟨hv, hc⟩ hstored

/-- **Reservations.** The stored reservations stay apart and are for hosts, all along a sequence of
calls, exactly if no new one is for an address that another notation has reserved, for the router's
address, or for an end of a subnet that is not the first with the address or is in IPv6 notation. -/
theorem reservations_apart_iff
    (hfold : ∀ t u : Text, t.map Char.toLower = u.map Char.toLower → site.fold t = site.fold u)
    (hs : Reserved site s) (calls : List Call) :
    (∀ pre, pre <+: calls → Reserved site ((service site).run s pre)) ↔
      (service site).Guarded (ForNewHost site) s calls :=
  Machine.run_iff_guarded (P := Reserved site) (fun _ c h => reserved_call_iff hfold h c) hs calls

theorem clearOfRest_home (ha : 0x0a000002 ≤ a) (hb : a < 0x0a0000ff) : ClearOfRest home a := by
  intro cidr hcidr p n hp hn _
  obtain rfl := mem_singleton.mp hcidr
  have hplace : (Network.parse "10.0.0.1/24").map (fun n => (n.base, n.size)) =
      some (0x0a000000, 256) := by
    decide +kernel
  have haddr : Prefix.parseCIDR "10.0.0.1/24" = some ⟨.ip4, 0x0a000001, 24⟩ := by
    decide +kernel
  have hrouter : asIPv4 (.ip4, 0x0a000001) = some 0x0a000001 := by decide
  rw [show Network.parse "10.0.0.1/24" = some n from hn, map_some] at hplace
  obtain ⟨hbase, hsize⟩ := Prod.mk.inj (some.inj hplace)
  cases haddr.symm.trans hp
  rw [hbase, hsize, hrouter]
  refine ⟨fun _ _ => by omega, fun heq => ?_⟩
  have heq := some.inj heq
  omega

/-- Two hosts, each with an address of its own. -/
def tvAndRadio : List Call :=
  [reserve "aa:aa:aa:aa:aa:aa" "10.0.0.2" "tv", reserve "bb:bb:bb:bb:bb:bb" "10.0.0.3" "radio"]

theorem television_reserved :
    ((service home).run ⟨[], []⟩ tvAndRadio).leases.length = 2 ∧
      Reserved home ((service home).run ⟨[], []⟩ tvAndRadio) := by
  have hiff := @reservations_apart_iff home ⟨[], []⟩ (fun _ _ => id) ⟨.nil, nofun⟩ tvAndRadio
  refine ⟨by decide +kernel, hiff.mpr ⟨fun _ _ a ha => ⟨?_, nofun⟩, ?_, trivial⟩ _ (prefix_refl _)⟩
  · obtain rfl : 0x0a000002 = a := some.inj (Eq.trans (by decide +kernel) ha)
    exact clearOfRest_home (by decide) (by decide)
  intro _ _ a ha
  obtain rfl : 0x0a000003 = a := some.inj (Eq.trans (by decide +kernel) ha)
  refine ⟨clearOfRest_home (by decide) (by decide), fun l hl _ => ?_⟩
  have hleases : ((service home).run ⟨[], []⟩ (tvAndRadio.take 1)).leases =
      [⟨"aa:aa:aa:aa:aa:aa", "10.0.0.2", "tv"⟩] := by
    decide +kernel
  obtain rfl : l = ⟨"aa:aa:aa:aa:aa:aa", "10.0.0.2", "tv"⟩ := mem_singleton.mp (hleases ▸ hl)
  decide +kernel

/-- One address in two notations, and the address of the router. -/
theorem reserved_twice :
    let calls := [reserve "aa:aa:aa:aa:aa:aa" "10.0.0.2" "tv",
      reserve "bb:bb:bb:bb:bb:bb" "::ffff:10.0.0.2" "radio", reserve "cc:cc:cc:cc:cc:cc" "10.0.0.1" "pc"]
    calls.all accepted ∧
      (((service home).run ⟨[], []⟩ calls).leases.map fun l => ip4Of l.ip) =
        [some 0x0a000002, some 0x0a000002, some 0x0a000001] ∧
      ¬ Reserved home ((service home).run ⟨[], []⟩ (calls.take 2)) ∧
      ¬ HostAddress home 0x0a000001 := by
  refine ⟨by decide +kernel, by decide +kernel, fun h => ?_, fun h => ?_⟩
  · have hleases : ((service home).run ⟨[], []⟩ ([reserve "aa:aa:aa:aa:aa:aa" "10.0.0.2" "tv",
        reserve "bb:bb:bb:bb:bb:bb" "::ffff:10.0.0.2" "radio"])).leases =
        [⟨"aa:aa:aa:aa:aa:aa", "10.0.0.2", "tv"⟩,
          ⟨"bb:bb:bb:bb:bb:bb", "::ffff:10.0.0.2", "radio"⟩] := by
      decide +kernel
    have hapart : List.Pairwise Apart _ := hleases ▸ h.apart
    exact ((pairwise_cons.mp hapart).1 _ mem_cons_self).2 0x0a000002 (by decide +kernel)
      (by decide +kernel)
  · have hsome : (Network.parse "10.0.0.1/24").all
        (·.contains .ip4 0x0a000001) ∧ (Network.parse "10.0.0.1/24").isSome := by
      decide +kernel
    obtain ⟨n, hn⟩ := isSome_iff_exists.mp hsome.2
    rw [hn] at hsome
    exact (h "10.0.0.1/24" mem_cons_self ⟨.ip4, 0x0a000001, 24⟩ n (by decide +kernel) hn
      hsome.1).2 (by decide +kernel)

end Lankeeper.DHCP
