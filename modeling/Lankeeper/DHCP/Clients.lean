import Lankeeper.Firewall.Admission
import Lankeeper.Firewall.Operands
import Lankeeper.Lib.NetworkText
import Lankeeper.Router.Config

/-!
# Lankeeper.DHCP.Clients — are the clients of the DHCP server let in?

`RenderConfig` of `internal/services/dhcp.go` and the template
`configs/sysconf/dnsmasq.conf.tmpl`, of which blank lines and comments are left out. The
clients it serves are told to use the router as gateway and resolver. For that the ruleset
has to let their DHCP and DNS requests in and their connections out.

The devices come about in two ways. `dnsmasqData` takes the first LAN interface, and
`vlanDHCPRanges` names a VLAN by its parent and number. The ruleset goes by the role of
interfaces, and VLANs are in it as far as they are isolated. So the LAN is let in, and a
VLAN only by accident: `clients_let_in_iff` says by which.
-/

namespace Lankeeper.DHCP

open Lib Text Nft List
open Firewall hiding Config VLANConfig
open Router (Config)
open Network (VLANConfig)

/-! ## dnsmasq.conf -/

/-- `cmp.Or`, of two texts. -/
def orDefault (t default : Text) : Text :=
  if t = [] then default else t

/-- `firstRoleDevice`. -/
def firstRoleDevice (is : List Network.InterfaceConfig) (role : Text) : Text :=
  match is.find? fun i => i.role = role with
  | some i => i.device
  | none => []

/-- `vlanDHCPRange`. -/
structure VLANDHCPRange where
  device : Text
  rangeStart : Text
  rangeEnd : Text
  leaseTime : Text
  gateway : Text
  dnsServer : Text

/-- `dnsmasqTemplateData`. -/
structure DnsmasqTemplateData where
  lanDevice : Text
  rangeStart : Text
  rangeEnd : Text
  leaseTime : Text
  gateway : Text
  dnsServer : Text
  domain : Text
  staticLeases : List StaticLease
  vlanDHCPRanges : List VLANDHCPRange

/-- `uint32IP`. -/
def uint32IP (v : Nat) : Text :=
  Address.dotted (v % 2 ^ 32)

/-- `vlanRangeBounds`. -/
def vlanRangeBounds (v : VLANConfig) : Option (Text × Text) :=
  if v.dhcp.rangeStart ≠ [] ∧ v.dhcp.rangeEnd ≠ [] then some (v.dhcp.rangeStart, v.dhcp.rangeEnd)
  else
    match Lib.Network.parse v.address with
    | none => none
    | some subnet =>
      let hostBits := 32 - subnet.len
      if subnet.family ≠ .ip4 then none
      else if 8 ≤ hostBits then some (uint32IP (subnet.base + 100), uint32IP (subnet.base + 200))
      else if hostBits < 2 then none
      else
        let broadcast := subnet.base ||| (1 <<< hostBits - 1)
        some (uint32IP (subnet.base + 2), uint32IP (broadcast - 1))

/-- `IP.String`, where an address mapped into IPv6 is the IPv4 one. -/
def routerText (p : Prefix) : Text :=
  match Address.asIPv4 (p.family, p.addr) with
  | some a => Address.dotted a
  | none => Address.ip6Text p.addr

/-- The device of a VLAN. -/
def vlanDevice (c : Config) (v : VLANConfig) : Text :=
  Network.deviceByID c.interfaces v.parent ++ '.' :: decimal v.vid

/-- `vlanDHCPRanges`. -/
def vlanDHCPRanges (c : Config) (leaseTime : Text) : List VLANDHCPRange :=
  c.vlans.flatMap fun v =>
    if ¬ v.dhcp.enabled ∨ v.address = [] then []
    else
      match vlanRangeBounds v, Prefix.parseCIDR v.address with
      | some (first, last), some router =>
        if Network.deviceByID c.interfaces v.parent = [] then []
        else
          [{ device := vlanDevice c v
             rangeStart := first
             rangeEnd := last
             gateway := routerText router
             dnsServer := routerText router
             leaseTime := orDefault v.dhcp.leaseTime leaseTime }]
      | _, _ => []

/-- `dnsmasqData`, with the ranges that `RenderConfig` adds. -/
def dnsmasqData (c : Config) : DnsmasqTemplateData :=
  let gateway := orDefault c.dhcp.gateway "10.10.10.1"
  let leaseTime := orDefault c.dhcp.leaseTime "12h"
  { lanDevice := firstRoleDevice c.interfaces "lan"
    rangeStart := c.dhcp.rangeStart
    rangeEnd := c.dhcp.rangeEnd
    leaseTime := leaseTime
    gateway := gateway
    dnsServer := orDefault c.dhcp.dnsServer gateway
    domain := orDefault c.domain "lan"
    staticLeases := c.dhcp.staticLeases
    vlanDHCPRanges := vlanDHCPRanges c leaseTime }

/-- Values with commas between them. -/
def commas (ts : List Text) : Text :=
  [','].intercalate ts

/-- The line that puts the server on a device. -/
def interfaceLine (device : Text) : Text :=
  "interface=" ++ device

/-- The part of the template in front of the ranges. -/
def dnsmasqHead (d : DnsmasqTemplateData) : List Text :=
  ["port=0".toList,
    interfaceLine d.lanDevice,
    "bind-interfaces".toList,
    "conf-dir=/etc/dnsmasq.d,*.conf".toList,
    "dhcp-range=".toList ++ commas [d.rangeStart, d.rangeEnd, d.leaseTime],
    "dhcp-option=".toList ++ commas ["option:router".toList, d.gateway],
    "dhcp-option=".toList ++ commas ["option:dns-server".toList, d.dnsServer],
    "dhcp-option=".toList ++ commas ["option:ntp-server".toList, d.gateway],
    "dhcp-leasefile=/var/lib/misc/dnsmasq.leases".toList,
    "domain=".toList ++ d.domain,
    "expand-hosts".toList,
    "dhcp-script=/usr/local/lib/lankeeper/dhcp-dns-update.sh".toList] ++
  d.staticLeases.map fun l => "dhcp-host=".toList ++ commas [l.mac, l.ip, l.hostname]

def rangeLines (r : VLANDHCPRange) : List Text :=
  [interfaceLine r.device,
    "dhcp-range=" ++ commas [r.rangeStart, r.rangeEnd, r.leaseTime],
    "dhcp-option=" ++ commas [r.device, "option:router", r.gateway],
    "dhcp-option=" ++ commas [r.device, "option:dns-server", r.dnsServer]]

/-- `configs/sysconf/dnsmasq.conf.tmpl`. -/
def dnsmasqLines (d : DnsmasqTemplateData) : List Text :=
  dnsmasqHead d ++ d.vlanDHCPRanges.flatMap rangeLines

/-- `RenderConfig`. -/
def renderDnsmasq (c : Config) : Text :=
  (dnsmasqLines (dnsmasqData c)).flatMap (· ++ ['\n'])

/-! ## Who is served -/

/-- A line of the rendered file puts the server on the device. -/
def Serves (c : Config) (device : Text) : Prop :=
  device ≠ [] ∧ interfaceLine device ∈ (renderDnsmasq c).splitOn '\n'

instance (c : Config) (device : Text) : Decidable (Serves c device) :=
  inferInstanceAs (Decidable (_ ∧ _))

/-- The values of the config fit on one line each. -/
def OneLine (c : Config) : Prop :=
  ∀ l ∈ dnsmasqLines (dnsmasqData c), '\n' ∉ l

theorem interfaceLine_inj {d e : Text} : interfaceLine d = interfaceLine e ↔ d = e :=
  append_right_inj _

/-- The lines that put the server on a device are those with this letter in front. -/
def startsWithI (l : Text) : Bool :=
  l.head? = some 'i'

theorem filter_dnsmasqHead (d : DnsmasqTemplateData) :
    (dnsmasqHead d).filter startsWithI = [interfaceLine d.lanDevice] := by
  have hleases : (d.staticLeases.map fun l =>
      "dhcp-host=" ++ commas [l.mac, l.ip, l.hostname]).filter startsWithI = [] := by
    rw [filter_eq_nil_iff]
    intro l hl
    obtain ⟨lease, -, rfl⟩ := mem_map.mp hl
    exact Bool.noConfusion
  rw [dnsmasqHead, filter_append, hleases, append_nil]
  rfl

theorem filter_rangeLines (r : VLANDHCPRange) :
    (rangeLines r).filter startsWithI = [interfaceLine r.device] :=
  rfl

variable {device : Text} {c : Config}

theorem interfaceLine_mem_iff {d : DnsmasqTemplateData} :
    interfaceLine device ∈ dnsmasqLines d ↔
      device = d.lanDevice ∨ ∃ r ∈ d.vlanDHCPRanges, device = r.device := by
  have hfilter : (dnsmasqLines d).filter startsWithI =
      interfaceLine d.lanDevice :: d.vlanDHCPRanges.map fun r => interfaceLine r.device := by
    rw [dnsmasqLines, filter_append, filter_dnsmasqHead, filter_flatMap]
    rw [flatMap_congr fun r _ => filter_rangeLines r, ← map_eq_flatMap]
    rfl
  have hmem : interfaceLine device ∈ dnsmasqLines d ↔
      interfaceLine device ∈ (dnsmasqLines d).filter startsWithI := by
    rw [mem_filter]
    exact (and_iff_left rfl).symm
  rw [hmem, hfilter]
  simp only [mem_cons, mem_map, interfaceLine_inj]
  exact or_congr_right (exists_congr fun r => and_congr_right fun _ => eq_comm)

/-- **Who is served.** The first LAN interface, and the VLANs with a range. -/
theorem serves_iff (h : OneLine c) :
    Serves c device ↔ device ≠ [] ∧ (device = firstRoleDevice c.interfaces "lan" ∨
      ∃ r ∈ (dnsmasqData c).vlanDHCPRanges, device = r.device) := by
  have hlines : (renderDnsmasq c).splitOn '\n' = dnsmasqLines (dnsmasqData c) ++ [[]] :=
    (splitOn_lines_iff '\n' _).mpr h
  have hlast : interfaceLine device ∉ [([] : Text)] := by
    intro hmem
    cases mem_singleton.mp hmem
  unfold Serves
  rw [hlines, mem_append, or_iff_left hlast, interfaceLine_mem_iff]
  rfl

/-! ## What the clients need -/

/-- A new DHCP or DNS request to the router. -/
structure Asks (device : Text) (p : Packet) : Prop where
  iif : p.iif = device
  oif : p.oif = none
  proto : p.proto = 17
  dport : p.dport = 67 ∨ p.dport = 53
  state : p.state = .new

/-- The first packet of a connection by a way out. -/
structure Leaves (device wan : Text) (p : Packet) : Prop where
  iif : p.iif = device
  oif : p.oif = some wan
  state : p.state = .new

/-- The device is one of an isolated VLAN. -/
def OnIsolatedVLAN (c : Config) (device : Text) : Prop :=
  ∃ v ∈ c.vlans, v.isolated ∧ vlanDevice c v = device

/-- The requests of the clients on a device get in, and their connections out. -/
def LetIn (c : Config) (device : Text) : Prop :=
  (∀ out p, Asks device p → filterVerdict out c.toFirewall "input" p = some .accept) ∧
    (¬ OnIsolatedVLAN c device → ∀ wan ∈ c.wanDevices, ∀ out p, Leaves device wan p →
      filterVerdict out c.toFirewall "forward" p = some .accept)

/-- The ruleset is one that `nft` takes. -/
def Loads (c : Config) : Prop :=
  ∃ cs, load (renderConfig c.toFirewall) = some cs

/-- Open ports let the requests of the device in, whatever their source is and whatever
the rate limits say. -/
def PortsOpen (c : Config) (device : Text) : Prop :=
  ∀ out p, Asks device p → ∃ op ∈ c.toFirewall.firewall.openPorts, op.Admits out p

/-- The device has a way to the WAN device other than by its role: it is one of a VPN
server, and the WAN device goes for LAN too, or the port forwards let everything through. -/
def WayOut (c : Config) (device wan : Text) : Prop :=
  (Named (vpnServers c.toFirewall) device ∧ Named c.lanDevices wan) ∨
    (¬ Separated c.toFirewall device wan ∧ ∀ p, Leaves device wan p →
      ∃ pf ∈ c.toFirewall.firewall.portForwards, pf.Admits (firstDevice c.wanDevices) p)

/-- What it takes for a device that no LAN interface names. -/
def LetInOtherwise (c : Config) (device : Text) : Prop :=
  (device = "lo" ∨ PortsOpen c device) ∧
    (OnIsolatedVLAN c device ∨ ∀ wan ∈ c.wanDevices, WayOut c device wan)

/-- The device of `dnsmasqData` is a LAN device of the ruleset. -/
theorem named_lanDevice
    (h : device = firstRoleDevice c.interfaces "lan".toList) (hne : device ≠ []) :
    Named c.lanDevices device := by
  apply named_of_mem
  rw [c.lanDevices_eq, h]
  rw [h] at hne
  unfold firstRoleDevice at hne ⊢
  cases hfind : c.interfaces.find? fun i => i.role = "lan".toList with
  | none =>
    rw [hfind] at hne
    exact absurd rfl hne
  | some i =>
    have hrole := List.find?_some hfind
    exact mem_map_of_mem (mem_filter.mpr ⟨mem_of_find?_eq_some hfind, hrole⟩)

section

variable {c : Config} (h : Intact c.toFirewall) (hrules : c.toFirewall.firewall.rules = [])
  {cs : List Chain} (hload : load (renderConfig c.toFirewall) = some cs)

include h hrules hload in
theorem requests_iff (device : Text) :
    (∀ out p, Asks device p → filterVerdict out c.toFirewall "input" p = some .accept) ↔
      device = "lo" ∨ Named c.lanDevices device ∨ PortsOpen c device := by
  have hverdict : ∀ out p, Asks device p →
      (filterVerdict out c.toFirewall "input" p = some .accept ↔ device = "lo" ∨
        Named c.lanDevices device ∨ ∃ op ∈ c.toFirewall.firewall.openPorts, op.Admits out p) := by
    intro out p hp
    have hport : p.dport ≠ 546 := by
      rcases hp.dport with hd | hd <;> omega
    rw [input_accepts_iff h hload hrules hp.state hp.proto hport, hp.iif]
    rfl
  constructor
  · intro hall
    by_cases hlo : device = "lo"
    · exact .inl hlo
    · by_cases hlan : Named c.lanDevices device
      · exact .inr (.inl hlan)
      · refine .inr (.inr fun out p hp => ?_)
        exact (((hverdict out p hp).mp (hall out p hp)).resolve_left hlo).resolve_left hlan
  · intro hdev out p hp
    rw [hverdict out p hp]
    exact hdev.imp_right fun hd => hd.imp_right fun hopen => hopen out p hp

include h hrules hload in
theorem connections_iff {device wan : Text} (hwan : wan ∈ c.wanDevices) :
    (∀ out p, Leaves device wan p →
      filterVerdict out c.toFirewall "forward" p = some .accept) ↔
      Named c.lanDevices device ∨ WayOut c device wan := by
  have huplink : Named (uplinks c.toFirewall) wan := by
    apply named_of_mem
    simp only [uplinks, mem_append]
    exact .inl (.inl (.inl hwan))
  have hpass : Passes c.toFirewall device wan ↔ Named c.lanDevices device ∨
      (Named (vpnServers c.toFirewall) device ∧ Named c.lanDevices wan) :=
    or_congr_left (and_iff_left (.inl huplink))
  have hverdict : ∀ out p, Leaves device wan p →
      (filterVerdict out c.toFirewall "forward" p = some .accept ↔
        Passes c.toFirewall device wan ∨ (¬ Separated c.toFirewall device wan ∧
          ∃ pf ∈ c.toFirewall.firewall.portForwards, pf.Admits (firstDevice c.wanDevices) p)) := by
    intro out p hp
    rw [forward_accepts_iff h hload hrules hp.state hp.oif, hp.iif]
    rfl
  unfold WayOut
  rw [← or_assoc, ← hpass]
  constructor
  · intro hall
    by_cases hp : Passes c.toFirewall device wan
    · exact .inl hp
    -- every packet then has a port forward, and there is a packet
    have hrest : ∀ p, Leaves device wan p → ¬ Separated c.toFirewall device wan ∧
        ∃ pf ∈ c.toFirewall.firewall.portForwards, pf.Admits (firstDevice c.wanDevices) p :=
      fun p hl => ((hverdict closedNet p hl).mp (hall closedNet p hl)).resolve_left hp
    have hone : Leaves device wan { fromWAN (some wan) 443 with iif := device } := ⟨rfl, rfl, rfl⟩
    exact .inr ⟨(hrest _ hone).1, fun p hl => (hrest p hl).2⟩
  · intro hway out p hl
    rw [hverdict out p hl]
    exact hway.imp_right fun hfwd => ⟨hfwd.1, hfwd.2 p hl⟩

end

/-- An answer of the ruleset means that it was loaded. -/
theorem loads_of_letIn (h : LetIn c device) : Loads c := by
  have hasks : Asks device { fromWAN none 67 with iif := device, proto := 17 } :=
    ⟨rfl, rfl, rfl, .inl rfl, rfl⟩
  have hverdict := h.1 closedNet _ hasks
  unfold filterVerdict verdictOf at hverdict
  obtain ⟨cs, hcs, -⟩ := Option.bind_eq_some_iff.mp hverdict
  exact ⟨cs, hcs⟩

theorem letIn_iff (h : Intact c.toFirewall) (hrules : c.toFirewall.firewall.rules = [])
    (device : Text) :
    LetIn c device ↔ Loads c ∧ (Named c.lanDevices device ∨ LetInOtherwise c device) := by
  constructor
  · intro hin
    obtain ⟨cs, hload⟩ := loads_of_letIn hin
    refine ⟨⟨cs, hload⟩, ?_⟩
    by_cases hlan : Named c.lanDevices device
    · exact .inl hlan
    refine .inr ⟨?_, ?_⟩
    · exact ((requests_iff h hrules hload device).mp hin.1).imp_right fun hd => hd.resolve_left hlan
    · by_cases hiso : OnIsolatedVLAN c device
      · exact .inl hiso
      · refine .inr fun wan hwan => ?_
        exact ((connections_iff h hrules hload hwan).mp (hin.2 hiso wan hwan)).resolve_left hlan
  · rintro ⟨⟨cs, hload⟩, hdev⟩
    constructor
    · rw [requests_iff h hrules hload]
      rcases hdev with hlan | ⟨hreq, -⟩
      · exact .inr (.inl hlan)
      · exact hreq.imp_right .inr
    · intro hiso wan hwan
      rw [connections_iff h hrules hload hwan]
      exact hdev.imp_right fun hother => (hother.2.resolve_left hiso) wan hwan

/-- **Clients of the DHCP server.** Every client the rendered `dnsmasq.conf` serves is let
in by the rendered ruleset exactly if the ruleset loads, and each device that is served
besides the first LAN interface is named by a LAN interface or let in otherwise. -/
theorem clients_let_in_iff {c : Config} (h : Intact c.toFirewall)
    (hrules : c.toFirewall.firewall.rules = []) :
    (∀ device, Serves c device → LetIn c device) ↔
      ∀ device, Serves c device → Loads c ∧
        (device ≠ firstRoleDevice c.interfaces "lan" →
          Named c.lanDevices device ∨ LetInOtherwise c device) := by
  refine forall_congr' fun device => forall_congr' fun hserved => ?_
  rw [letIn_iff h hrules]
  refine and_congr_right fun _ => ⟨fun hdev _ => hdev, fun hdev => ?_⟩
  by_cases hlan : device = firstRoleDevice c.interfaces "lan"
  · exact .inl (named_lanDevice hlan hserved.1)
  · exact hdev hlan

/-- A WAN, a LAN and a VLAN on it that is served, with more interfaces. -/
def homeConfig (others : List Network.InterfaceConfig) : Config where
  interfaces := [{ id := "wan", device := "eth0", role := "wan" },
    { id := "lan", device := "eth1", role := "lan" }] ++ others
  vlans := [{ id := "guests", parent := "lan", vid := 20,
              address := "192.168.20.1/24", dhcp := { enabled := true } }]

/-- An interface for the VLAN, with the role of a LAN. -/
def guestInterface : Network.InterfaceConfig :=
  { id := "guests", device := "eth1.20", role := "lan" }

section Home

variable {others : List Network.InterfaceConfig} (h : others = [] ∨ others = [guestInterface])

include h

theorem homeConfig_served : Serves (homeConfig others) device ↔
    device = "eth1".toList ∨ device = "eth1.20".toList := by
  have hlines : OneLine (homeConfig others) := by
    unfold OneLine
    rcases h with rfl | rfl <;> decide +kernel
  have hranges : (dnsmasqData (homeConfig others)).vlanDHCPRanges.map (·.device) =
      ["eth1.20".toList] := by
    rcases h with rfl | rfl <;> decide +kernel
  have hrange : (∃ r ∈ (dnsmasqData (homeConfig others)).vlanDHCPRanges, device = r.device) ↔
      device = "eth1.20".toList := by
    have hmem := mem_map (f := (·.device)) (b := device)
      (l := (dnsmasqData (homeConfig others)).vlanDHCPRanges)
    rw [hranges, mem_singleton] at hmem
    rw [hmem]
    exact exists_congr fun r => and_congr_right fun _ => eq_comm
  have hfirst : firstRoleDevice (homeConfig others).interfaces "lan".toList = "eth1".toList := rfl
  rw [serves_iff hlines, hrange, hfirst]
  refine and_iff_right_of_imp ?_
  rintro (rfl | rfl) <;> decide

theorem homeConfig_intact : Intact (homeConfig others).toFirewall := by
  have hstored : Stored (homeConfig others).toFirewall := by
    refine ⟨?_, ⟨nofun, nofun⟩, ⟨nofun, nofun⟩, nofun⟩
    rcases h with rfl | rfl <;> decide
  exact (readBlocks_eq_iff _).mp ((contained_iff hstored).mpr ⟨nofun, fun _ _ => nofun⟩)

theorem homeConfig_loads : Loads (homeConfig others) := by
  have hload : load (renderConfig (homeConfig others).toFirewall) = _ :=
    load_template (homeConfig_intact h).chainReads
  rw [Loads, hload]
  refine Option.isSome_iff_exists.mp ?_
  rcases h with rfl | rfl <;> decide +kernel

end Home

theorem guests_let_in :
    Serves (homeConfig [guestInterface]) "eth1.20" ∧
      LetIn (homeConfig [guestInterface]) "eth1.20" := by
  have hserved : Serves (homeConfig [guestInterface]) "eth1.20" :=
    (homeConfig_served (.inr rfl)).mpr (.inr rfl)
  refine ⟨hserved, ?_⟩
  refine (clients_let_in_iff (homeConfig_intact (.inr rfl)) rfl).mpr (fun device hdevice => ?_) _ hserved
  refine ⟨homeConfig_loads (.inr rfl), fun hne => .inl (named_of_mem ?_)⟩
  rcases (homeConfig_served (.inr rfl)).mp hdevice with rfl | rfl
  · exact absurd rfl hne
  · decide

/-- Without it the ruleset loads, but neither do the guests get an address nor do they get
out. -/
theorem guests_shut_out :
    Serves (homeConfig []) "eth1.20" ∧ ¬ OnIsolatedVLAN (homeConfig []) "eth1.20" ∧
      Loads (homeConfig []) ∧
      filterVerdict closedNet (homeConfig []).toFirewall "input"
        { fromWAN none 67 with iif := "eth1.20", proto := 17 } ≠ some .accept ∧
      filterVerdict closedNet (homeConfig []).toFirewall "forward"
        { fromWAN (some "eth0") 443 with iif := "eth1.20" } ≠ some .accept := by
  have hintact := homeConfig_intact (.inl rfl)
  obtain ⟨cs, hload⟩ := homeConfig_loads (.inl rfl)
  refine ⟨(homeConfig_served (.inl rfl)).mpr (.inr rfl), ?_, ⟨cs, hload⟩, ?_, ?_⟩
  · rintro ⟨v, hv, hisolated, -⟩
    rw [mem_singleton.mp hv] at hisolated
    cases hisolated
  · rw [Ne, input_accepts_iff hintact hload rfl rfl rfl (by decide)]
    rintro (hlo | hlan | ⟨op, hop, -⟩)
    · exact absurd hlo (by decide)
    · exact absurd hlan (by decide)
    · cases hop
  · rw [Ne, forward_accepts_iff hintact hload rfl rfl rfl]
    rintro ((⟨hlan, -⟩ | ⟨hvpn, -⟩) | ⟨-, pf, hpf, -⟩)
    · exact absurd hlan (by decide)
    · exact absurd hvpn (by decide)
    · cases hpf

end Lankeeper.DHCP
