import Lankeeper.VPN.Service

/-!
# Lankeeper.OpenVPN.Clients — the clients of the OpenVPN server

`internal/services/openvpn.go`, and the form of `internal/web/handlers/openvpn.go`. Adding a client
appends an entry whatever the others are called, revoking one disables the first entry of the name.
The subnets of the entries become routes in `server.conf`, in the files of the clients and in their
profiles, by three ways to turn a CIDR into an address and a mask.

* `revoked_iff` — when nothing of a revoked name is left;
* `routes_exact_iff` — when every rendered route is the network that was meant.
-/

namespace Lankeeper.OpenVPN

open Lib Text List Address

/-- `config.OVPNClientEntry`. -/
structure OVPNClientEntry where
  name : Text
  commonName : Text
  enabled : Bool
  isSiteToSite : Bool
  remoteSubnets : List Text
  fixedIP : Text
deriving DecidableEq

/-! ## Routes -/

/-- A route that is rendered, with the text it comes from. -/
structure RouteLine where
  source : Text
  subnetIP : Text
  subnetMask : Text
deriving DecidableEq

def cidrToIPMask (cidr : Text) : Text × Text :=
  if '/' ∉ cidr then (cidr, "255.255.255.0")
  else
    match Prefix.parseCIDR cidr with
    | none => ([], [])
    | some p =>
      (VPN.ipString p.family p.addr,
        ipText p.family (maskTo p.family (2 ^ p.family.bits - 1) p.len))

def subnetFromCIDR (cidr : Text) : Text :=
  match Prefix.parseCIDR cidr with
  | none => []
  | some p => VPN.ipString p.family (maskTo p.family p.addr p.len)

/-- A line with the mask of the CIDR, if the first text is not empty. -/
def lineIf (present ip cidr : Text) : Option RouteLine :=
  if present ≠ [] then some ⟨cidr, ip, (cidrToIPMask cidr).2⟩ else none

/-- A `route` of `server.conf`, and an `iroute`. -/
def ownRoute (cidr : Text) : Option RouteLine :=
  lineIf (cidrToIPMask cidr).1 (cidrToIPMask cidr).1 cidr

/-- A `push "route …"`. -/
def pushedRoute (cidr : Text) : Option RouteLine :=
  lineIf (cidrToIPMask cidr).1 (subnetFromCIDR cidr) cidr

def writeRoute (cidr : Text) : Option RouteLine :=
  lineIf (subnetFromCIDR cidr) (subnetFromCIDR cidr) cidr

def siteToSiteRoutes (clients : List OVPNClientEntry) : List RouteLine :=
  (clients.filter fun c => c.isSiteToSite && c.enabled).flatMap fun c =>
    c.remoteSubnets.filterMap ownRoute

def lanSubnets (interfaces : List Network.InterfaceConfig) : List Text :=
  (interfaces.filter fun i => i.role = "lan".toList ∧ i.address ≠ []).map (·.address)

/-- The routes of `ccdContent`. -/
def ccdRoutes (interfaces : List Network.InterfaceConfig) (e : OVPNClientEntry) : List RouteLine :=
  if e.isSiteToSite then
    (lanSubnets interfaces).filterMap pushedRoute ++ e.remoteSubnets.filterMap ownRoute
  else []

/-- The routes of `GenerateClientOVPN`, for the entry it finds. -/
def profileRoutes (interfaces : List Network.InterfaceConfig) (subnet : Text)
    (e : OVPNClientEntry) : List RouteLine :=
  if e.isSiteToSite then (lanSubnets interfaces ++ [subnet]).filterMap writeRoute else []

/-- `parseRemoteSubnets`: the subnets, or the first that is none. -/
def parseRemoteSubnets (raw : Text) : Except Text (List Text) :=
  let subnets := (((trimSpace raw).splitOn ',').map trimSpace).filter (· ≠ [])
  match subnets.find? fun s => Prefix.parseCIDR s = none with
  | some bad => .error bad
  | none => .ok subnets

/-- The line is the IPv4 network that its source denotes, with its mask. -/
def RouteLine.Exact (l : RouteLine) : Prop :=
  ∃ a len, Prefix.parseCIDR l.source = some ⟨.ip4, a, len⟩ ∧
    l.subnetIP = dotted (maskTo .ip4 a len) ∧ l.subnetMask = dotted (maskTo .ip4 (2 ^ 32 - 1) len)

/-- If the text is a CIDR, it is one of IPv4. -/
def NotIPv6 (cidr : Text) : Prop :=
  ∀ p ∈ Prefix.parseCIDR cidr, p.family = .ip4

/-- If the text is a CIDR, it is one of IPv4 without host bits. -/
def IPv4Network (cidr : Text) : Prop :=
  ∀ p ∈ Prefix.parseCIDR cidr, p.family = .ip4 ∧ maskTo .ip4 p.addr p.len = p.addr

variable {cidr name m : Text} {p : Prefix} {cs l : List OVPNClientEntry}

theorem ipString_ne_nil (f : Family) (a : Nat) : VPN.ipString f a ≠ [] := by
  unfold VPN.ipString
  cases (VPN.to4 f a).1 with
  | ip4 => simp [ipText, dotted, List.intercalate]
  | ip6 => exact ne_nil_of_mem (colon_mem_ip6Text _)

theorem cidrToIPMask_of_parse (h : Prefix.parseCIDR cidr = some p) :
    (cidrToIPMask cidr).1 = VPN.ipString p.family p.addr := by
  simp [cidrToIPMask, Prefix.slash_mem h, h]

theorem subnetFromCIDR_of_parse (h : Prefix.parseCIDR cidr = some p) :
    subnetFromCIDR cidr = VPN.ipString p.family (maskTo p.family p.addr p.len) := by
  simp [subnetFromCIDR, h]

/-- The line of a CIDR is exact if its address is that of an IPv4 network. -/
theorem lineIf_exact_iff (h : Prefix.parseCIDR cidr = some p) {present : Text} (hne : present ≠ [])
    (ip : Text) : (∀ l ∈ lineIf present ip cidr, l.Exact) ↔
      p.family = .ip4 ∧ ip = dotted (maskTo .ip4 p.addr p.len) := by
  obtain ⟨f, a, len⟩ := p
  simp only [lineIf, if_pos hne, Option.mem_some_iff, forall_eq', RouteLine.Exact, cidrToIPMask,
    Prefix.slash_mem h, h, not_true, if_false, Option.some.injEq, Prefix.mk.injEq]
  constructor
  · rintro ⟨a', len', ⟨rfl, rfl, rfl⟩, hip, -⟩
    exact ⟨rfl, hip⟩
  · rintro ⟨rfl, hip⟩
    exact ⟨a, len, ⟨rfl, rfl, rfl⟩, hip, rfl⟩

theorem subnetLine_exact_iff (h : Prefix.parseCIDR cidr = some p) {present : Text}
    (hne : present ≠ []) :
    (∀ l ∈ lineIf present (subnetFromCIDR cidr) cidr, l.Exact) ↔ NotIPv6 cidr := by
  rw [lineIf_exact_iff h hne, subnetFromCIDR_of_parse h, NotIPv6, h]
  simp only [Option.mem_some_iff, forall_eq']
  refine and_iff_left_of_imp fun hf => ?_
  rw [hf]
  rfl

theorem writeRoute_exact_iff (cidr : Text) : (∀ l ∈ writeRoute cidr, l.Exact) ↔ NotIPv6 cidr := by
  rcases h : Prefix.parseCIDR cidr with _ | p
  · simp [writeRoute, lineIf, subnetFromCIDR, NotIPv6, h]
  · refine subnetLine_exact_iff h ?_
    rw [subnetFromCIDR_of_parse h]
    exact ipString_ne_nil _ _

/-- Without a slash the network is missing. -/
theorem pushedRoute_exact_iff (hne : cidr ≠ []) :
    (∀ l ∈ pushedRoute cidr, l.Exact) ↔ '/' ∈ cidr ∧ NotIPv6 cidr := by
  by_cases hslash : '/' ∈ cidr
  · rw [and_iff_right hslash]
    rcases h : Prefix.parseCIDR cidr with _ | p
    · simp [pushedRoute, lineIf, cidrToIPMask, hslash, NotIPv6, h]
    · refine subnetLine_exact_iff h ?_
      rw [cidrToIPMask_of_parse h]
      exact ipString_ne_nil _ _
  · refine iff_of_false ?_ fun h => hslash h.1
    simp only [pushedRoute, lineIf, cidrToIPMask, hslash, not_false_iff, if_true, ne_eq, hne,
      Option.mem_some_iff, forall_eq']
    rintro ⟨a, len, h, -⟩
    exact hslash (Prefix.slash_mem h)

theorem ownRoute_exact_iff (h : Prefix.parseCIDR cidr = some p) :
    (∀ l ∈ ownRoute cidr, l.Exact) ↔ IPv4Network cidr := by
  have hip := cidrToIPMask_of_parse h
  rw [ownRoute, lineIf_exact_iff h (hip ▸ ipString_ne_nil _ _), hip, IPv4Network, h]
  simp only [Option.mem_some_iff, forall_eq']
  refine and_congr_right fun hf => ?_
  obtain ⟨f, a, len⟩ := p
  obtain rfl : f = .ip4 := hf
  have ha := (Prefix.parseCIDR_ip4 h).1
  constructor
  · intro (heq : dotted a = dotted (maskTo .ip4 a len))
    have hparse := congrArg parseIPv4 heq
    rw [parseIPv4_dotted (Nat.shiftRight_eq_zero a 32 ha),
      parseIPv4_dotted (Network.maskTo_ip4 ha len)] at hparse
    exact (Option.some.inj hparse).symm
  · intro heq
    rw [heq]
    rfl

theorem forall_exact {f : Text → Option RouteLine} {P : Text → Prop} {ss : List Text}
    (h : ∀ s ∈ ss, (∀ l ∈ f s, l.Exact) ↔ P s) :
    (∀ l ∈ ss.filterMap f, l.Exact) ↔ ∀ s ∈ ss, P s := by
  simp only [mem_filterMap, forall_exists_index, and_imp]
  rw [forall_comm]
  refine forall_congr' fun s => ?_
  rw [forall_comm]
  exact forall_congr' (h s)

/-- **Routes.** The routes rendered for a site-to-site client are all exact if its subnets are IPv4
networks without host bits, the addresses of the LAN have a prefix length, and neither they nor the
subnet of the server are IPv6. -/
theorem routes_exact_iff (interfaces : List Network.InterfaceConfig) (subnet : Text)
    {e : OVPNClientEntry} (hs2s : e.isSiteToSite) {raw : Text}
    (hacc : parseRemoteSubnets raw = .ok e.remoteSubnets) :
    (∀ l ∈ siteToSiteRoutes [e] ++ ccdRoutes interfaces e ++ profileRoutes interfaces subnet e,
      l.Exact) ↔
      (∀ s ∈ e.remoteSubnets, IPv4Network s) ∧ (∀ s ∈ lanSubnets interfaces, '/' ∈ s ∧ NotIPv6 s) ∧
        NotIPv6 subnet := by
  have hown : (∀ l ∈ e.remoteSubnets.filterMap ownRoute, l.Exact) ↔
      ∀ s ∈ e.remoteSubnets, IPv4Network s := by
    refine forall_exact fun s hs => ?_
    simp only [parseRemoteSubnets] at hacc
    split at hacc
    · cases hacc
    · rename_i hnone
      rw [← Except.ok.inj hacc] at hs
      obtain ⟨p, hp⟩ := Option.ne_none_iff_exists'.mp (by simpa using find?_eq_none.mp hnone s hs)
      exact ownRoute_exact_iff hp
  have hpushed : (∀ l ∈ (lanSubnets interfaces).filterMap pushedRoute, l.Exact) ↔
      ∀ s ∈ lanSubnets interfaces, '/' ∈ s ∧ NotIPv6 s := by
    refine forall_exact fun s hs => pushedRoute_exact_iff ?_
    obtain ⟨i, hi, rfl⟩ := mem_map.mp hs
    exact (of_decide_eq_true (mem_filter.mp hi).2).2
  have hserver : ∀ l ∈ siteToSiteRoutes [e], l ∈ e.remoteSubnets.filterMap ownRoute := by
    intro l hl
    obtain ⟨c, hc, hl⟩ := mem_flatMap.mp hl
    rwa [mem_singleton.mp (mem_filter.mp hc).1] at hl
  simp only [forall_mem_append, ccdRoutes, profileRoutes, hs2s, if_true, hpushed, hown,
    forall_exact fun s _ => writeRoute_exact_iff s, forall_mem_singleton]
  constructor
  · rintro ⟨⟨-, hlan, hremote⟩, -, hsubnet⟩
    exact ⟨hremote, hlan, hsubnet⟩
  · rintro ⟨hremote, hlan, hsubnet⟩
    exact ⟨⟨fun l hl => hown.mpr hremote l (hserver l hl), hlan, hremote⟩,
      fun s hs => (hlan s hs).2, hsubnet⟩

/-- A branch office with these networks, and a LAN of the router. -/
def branch (subnets : List Text) : OVPNClientEntry :=
  ⟨"branch", "branch", true, true, subnets, []⟩

def lanOf (address : Text) : List Network.InterfaceConfig :=
  [{ id := "lan", device := "eth1", role := "lan", address := address }]

theorem branch_routes_exact :
    parseRemoteSubnets "10.20.0.0/16" = .ok (branch ["10.20.0.0/16"]).remoteSubnets ∧
      ∀ l ∈ siteToSiteRoutes [branch ["10.20.0.0/16"]] ++
        ccdRoutes (lanOf "192.168.1.1/24") (branch ["10.20.0.0/16"]) ++
        profileRoutes (lanOf "192.168.1.1/24") "10.9.0.0/24" (branch ["10.20.0.0/16"]), l.Exact := by
  have hacc : parseRemoteSubnets "10.20.0.0/16" = .ok (branch ["10.20.0.0/16"]).remoteSubnets := by
    decide +kernel
  refine ⟨hacc, (routes_exact_iff _ _ rfl hacc).mpr ?_⟩
  unfold IPv4Network NotIPv6
  decide +kernel

/-- An address of the remote network, an IPv6 network, and a LAN without a prefix length. -/
theorem inexact_routes :
    parseRemoteSubnets "10.20.0.5/16, fd00::/64" = .ok ["10.20.0.5/16".toList, "fd00::/64".toList] ∧
    siteToSiteRoutes [branch ["10.20.0.5/16", "fd00::/64"]] =
      [⟨"10.20.0.5/16", "10.20.0.5", "255.255.0.0"⟩,
        ⟨"fd00::/64", "fd00::", "ffff:ffff:ffff:ffff::"⟩] ∧
    ccdRoutes (lanOf "192.168.1.1") (branch []) = [⟨"192.168.1.1", [], "255.255.255.0"⟩] := by
  decide +kernel

/-! ## Revoked clients -/

inductive ClientError
  /-- `ErrInvalidClientName` -/
  | invalidClientName
  /-- `ErrInvalidFixedIP` -/
  | invalidFixedIP
  | persist
deriving DecidableEq

def validateOpenVPNClientName (name : Text) : Except ClientError Unit :=
  failIf (name.length > 64 ∨ name = [] ∨ ¬ name.all fun c => c.isAlphanum || c == '_' || c == '-')
    .invalidClientName

/-- `validateFixedIP`. The first bytes of the mask are read, which for a network of mapped addresses
leave no host. -/
def validateFixedIP (subnet fixedIP : Text) : Except ClientError Unit :=
  checkIf (fixedIP ≠ [])
    (match (parseIP fixedIP).bind asIPv4, Prefix.parseCIDR subnet, Lib.Network.parse subnet with
    | some ip, some p, some n =>
      let size := if p.family = .ip4 then 2 ^ (32 - p.len) else 1
      failIf (n.contains .ip4 ip = false ∨ ip % size ∈ [0, 1, size - 1]) .invalidFixedIP
    | _, _, _ => .error .invalidFixedIP)

def persist (saved : Bool) : Except ClientError Unit :=
  failIf (saved = false) .persist

/-- The arguments of `AddClient`. -/
structure NewClient where
  name : Text
  siteToSite : Bool := false
  remoteSubnets : List Text := []
  fixedIP : Text := []

/-- The entry of a client that passes the checks. -/
def NewClient.entry (subnet : Text) (r : NewClient) : Except ClientError OVPNClientEntry := do
  validateOpenVPNClientName r.name
  validateFixedIP subnet r.fixedIP
  return ⟨r.name, r.name, true, r.siteToSite, r.remoteSubnets, r.fixedIP⟩

/-- `AddClient`, with an easy-rsa that succeeds. -/
def addClient (subnet : Text) (saved : Bool) (r : NewClient) (cs : List OVPNClientEntry) :
    Except ClientError Unit × List OVPNClientEntry :=
  match r.entry subnet with
  | .error e => (.error e, cs)
  | .ok e => (persist saved, cs ++ [e])

/-- The loop of `RevokeClient`. -/
def disable (name : Text) : List OVPNClientEntry → List OVPNClientEntry
  | [] => []
  | e :: es => if e.name = name then { e with enabled := false } :: es else e :: disable name es

/-- `RevokeClient`, with an easy-rsa that succeeds. -/
def revokeClient (saved : Bool) (name : Text) (cs : List OVPNClientEntry) :
    Except ClientError Unit × List OVPNClientEntry :=
  match validateOpenVPNClientName name with
  | .error e => (.error e, cs)
  | .ok _ => (persist saved, disable name cs)

inductive ClientCall
  | addClient (saved : Bool) (r : NewClient)
  | revokeClient (saved : Bool) (name : Text)

/-- The entries after a call. -/
def ClientCall.apply (subnet : Text) (cs : List OVPNClientEntry) :
    ClientCall → List OVPNClientEntry
  | .addClient saved r => (OpenVPN.addClient subnet saved r cs).2
  | .revokeClient saved name => (OpenVPN.revokeClient saved name cs).2

/-- The entry that a call adds. -/
def ClientCall.added (subnet : Text) : ClientCall → Option OVPNClientEntry
  | .addClient _ r => (r.entry subnet).toOption
  | .revokeClient .. => none

theorem of_mem_named {e : OVPNClientEntry} (h : e ∈ cs.filter (·.name = name)) : e.name = name :=
  of_decide_eq_true (mem_filter.mp h).2

theorem disable_of_ne (h : ∀ e ∈ cs, e.name ≠ m) : disable m cs = cs := by
  induction cs with
  | nil => rfl
  | cons e cs ih =>
    rw [forall_mem_cons] at h
    rw [disable, if_neg h.1, ih h.2]

theorem filter_disable (name m : Text) (cs : List OVPNClientEntry) :
    (disable m cs).filter (·.name = name) = disable m (cs.filter (·.name = name)) := by
  induction cs with
  | nil => rfl
  | cons e cs ih =>
    rw [disable, filter_cons]
    split_ifs with hm hn hn
    · rw [filter_cons, if_pos hn, disable, if_pos hm]
    · have hother : ∀ e' ∈ cs.filter (·.name = name), e'.name ≠ m := by
        intro e' he' heq
        exact hn (decide_eq_true (hm.trans (heq.symm.trans (of_mem_named he'))))
      rw [filter_cons, if_neg hn, disable_of_ne hother]
    · rw [filter_cons, if_pos hn, disable, if_neg hm, ih]
    · rw [filter_cons, if_neg hn, ih]

/-- Of entries of one name only the first is ever disabled. -/
theorem disable_disable_append (hl : ∀ e ∈ l, e.name = name) (r : List OVPNClientEntry) :
    disable name (disable m l ++ r) = disable name (l ++ r) := by
  rcases eq_or_ne m name with rfl | hm
  · cases l with
    | nil => rfl
    | cons e l => simp [disable, hl e mem_cons_self]
  · rw [disable_of_ne fun e he => (hl e he).trans_ne (Ne.symm hm)]

/-- Whatever was revoked before, revoking a name leaves what it leaves of the entries as added. -/
theorem disable_filter_run (subnet name : Text) (cs : List OVPNClientEntry)
    (calls : List ClientCall) :
    disable name ((calls.foldl (ClientCall.apply subnet) cs).filter (·.name = name)) =
      disable name ((cs ++ calls.filterMap (·.added subnet)).filter (·.name = name)) := by
  induction calls generalizing cs with
  | nil => simp
  | cons call calls ih =>
    rw [foldl_cons, ih]
    cases call with
    | addClient saved r =>
      rcases h : r.entry subnet with e | e <;>
        simp [ClientCall.apply, ClientCall.added, addClient, h, Except.toOption]
    | revokeClient saved m =>
      simp only [ClientCall.apply, revokeClient, filter_append]
      split
      · rfl
      · rw [filter_disable]
        exact disable_disable_append (fun e => of_mem_named) _

/-- **Revoked clients.** After a successful revocation no entry of the name is enabled, or has a
route, exactly if all entries of the name but the first were disabled when they came. -/
theorem revoked_iff (subnet : Text) (cs : List OVPNClientEntry) (calls : List ClientCall)
    {saved : Bool} {name : Text} {cs' : List OVPNClientEntry}
    (hok : revokeClient saved name (calls.foldl (ClientCall.apply subnet) cs) = (.ok (), cs')) :
    ((∀ e ∈ cs', e.name = name → e.enabled = false) ∧
      siteToSiteRoutes (cs'.filter (·.name = name)) = []) ↔
      ∀ e ∈ ((cs ++ calls.filterMap (·.added subnet)).filter (·.name = name)).tail,
        e.enabled = false := by
  have hcs' : cs' = disable name (calls.foldl (ClientCall.apply subnet) cs) := by
    unfold revokeClient at hok
    split at hok
    · cases hok
    · exact (Prod.mk.inj hok).2.symm
  have hfilter := filter_disable name name (calls.foldl (ClientCall.apply subnet) cs)
  rw [← hcs', disable_filter_run] at hfilter
  have hall : (∀ e ∈ cs', e.name = name → e.enabled = false) ↔
      ∀ e ∈ cs'.filter (·.name = name), e.enabled = false := by
    simp [mem_filter]
  have hroutes : (∀ e ∈ cs'.filter (·.name = name), e.enabled = false) →
      siteToSiteRoutes (cs'.filter (·.name = name)) = [] := by
    intro h
    rw [siteToSiteRoutes, filter_eq_nil_iff.mpr fun e he => by simp [h e he]]
    rfl
  rw [hall, and_iff_left_of_imp hroutes, hfilter]
  have hnamed : ∀ e ∈ (cs ++ calls.filterMap (·.added subnet)).filter (·.name = name),
      e.name = name := fun e => of_mem_named
  revert hnamed
  cases (cs ++ calls.filterMap (·.added subnet)).filter (·.name = name) with
  | nil => simp [disable]
  | cons e l => simp +contextual [disable]

/-- A client that comes, goes and comes again with a network. -/
def returning : List ClientCall :=
  [.addClient true ⟨"branch", false, [], []⟩, .revokeClient true "branch",
    .addClient true ⟨"branch", true, ["10.20.0.0/16"], []⟩]

/-- The entry of the first time, revoked. -/
def gone : OVPNClientEntry :=
  ⟨"branch", "branch", false, false, [], []⟩

/-- A site with a network and a single device. -/
def siteAndPhone : List OVPNClientEntry :=
  [.addClient true ⟨"branch", true, ["10.20.0.0/16"], []⟩,
    .addClient true ⟨"phone", false, [], []⟩].foldl (ClientCall.apply "10.9.0.0/24") []

theorem first_client_revoked :
    siteToSiteRoutes siteAndPhone ≠ [] ∧
    ∃ cs', revokeClient true "branch" siteAndPhone = (.ok (), cs') ∧
      (∀ e ∈ cs', e.name = "branch" → e.enabled = false) ∧
      siteToSiteRoutes (cs'.filter (·.name = "branch".toList)) = [] ∧
      ∃ e ∈ cs', e.name = "phone" ∧ e.enabled := by
  have hok : revokeClient true "branch" siteAndPhone =
      (.ok (), disable "branch" siteAndPhone) := by
    decide +kernel
  have hrevoked := (revoked_iff "10.9.0.0/24" [] _ hok).mpr (by decide +kernel)
  exact ⟨by decide +kernel, _, hok, hrevoked.1, hrevoked.2, by decide +kernel⟩

theorem returning_client_stays :
    revokeClient true "branch" (returning.foldl (ClientCall.apply "10.9.0.0/24") []) =
      (.ok (), [gone, branch ["10.20.0.0/16"]]) ∧
    siteToSiteRoutes [branch ["10.20.0.0/16"]] ≠ [] := by
  decide +kernel

end Lankeeper.OpenVPN
