import Lankeeper.Firewall.RuleLines

/-!
# Lankeeper.Firewall.Template — the rendered ruleset

`buildTemplateData` of `internal/services/firewall.go` and the template
`configs/sysconf/nftables.conf.tmpl`. The template is a list of lines, each of
words with single blanks between them; its blank lines and comment lines, which
hold no value, are left out.
-/

namespace Lankeeper.Firewall

open Lib Text Nft List Option

/-! ## The config -/

/-- `config.PortForward`. -/
structure PortForward where
  protocol : Text
  extPort : Int
  intIP : Text
  intPort : Int
  enabled : Bool
deriving DecidableEq

/-- `config.InterfaceConfig`. -/
structure InterfaceConfig where
  id : Text
  device : Text
  role : Text
  type : Text

/-- `config.VLANConfig`. -/
structure VLANConfig where
  parent : Text
  vid : Int
  isolated : Bool

/-- `config.FirewallConfig`. -/
structure FirewallConfig where
  ttlFixEnabled : Bool := false
  ttlFixValue : Int := 0
  openPorts : List OpenPort := []
  portForwards : List PortForward := []
  rules : List FirewallRule := []

/-- `config.IPv6Config`, with the tunnel. -/
structure IPv6Config where
  enabled : Text := []
  mode : Text := []
  tunnelDevice : Text := []
  serverIPv4 : Text := []

/-- `config.USBTetherConfig`. -/
structure USBTetherConfig where
  enabled : Bool := false
  interface : Text := []
  nat : Bool := false

/-- The parts of `config.Config` that the ruleset is rendered from. -/
structure Config where
  interfaces : List InterfaceConfig := []
  vlans : List VLANConfig := []
  firewall : FirewallConfig := {}
  ipv6 : IPv6Config := {}
  usbTether : USBTetherConfig := {}
  /-- `VPN.Server.Enabled` -/
  wgServerEnabled : Bool := false
  /-- the number of `VPN.Clients` -/
  wgClients : Nat := 0
  /-- `OpenVPN.Server.Enabled` -/
  ovpnServerEnabled : Bool := false
  /-- `OpenVPN.Server.Device` -/
  ovpnServerDevice : Text := []

/-! ## The template's data -/

/-- The chain a custom rule belongs to; unknown names stand for the input chain. -/
inductive RuleChain
  | input | forward | output
deriving DecidableEq

def FirewallRule.target (r : FirewallRule) : RuleChain :=
  if r.chain = "forward" then .forward
  else if r.chain = "output" then .output
  else .input

/-- `buildCustomRules`, for one chain. Rules that are disabled, do not render or
have no conditions are skipped. -/
def buildCustomRules (rules : List FirewallRule) (chain : RuleChain) : List Text :=
  rules.flatMap fun r =>
    if r.enabled then
      match renderCustomRule r with
      | .ok l => if l ≠ [] ∧ r.target = chain then [l] else []
      | .error _ => []
    else []

/-- `buildOpenPortRules`. -/
def buildOpenPortRules (openPorts : List OpenPort) : List Text :=
  openPorts.flatMap fun op =>
    if op.enabled then
      match renderOpenPortRules op with
      | .ok ls => ls
      | .error _ => []
    else []

/-- `nftTemplateData`; interfaces and VLANs are their devices. -/
structure NftTemplateData where
  lanInterfaces : List Text
  wanInterfaces : List Text
  ipv6WANInterfaces : List Text
  wanDevice : Text
  isolatedVLANs : List Text
  portForwards : List PortForward
  customInputRules : List Text
  customForwardRules : List Text
  customOutputRules : List Text
  openPortRules : List Text
  ipv6Enabled : Bool
  /-- `SixInFourServer`, if `SixInFourEnabled` -/
  sixInFour : Option Text
  /-- `USBInterface`, if `USBNATEnabled` -/
  usbInterface : Option Text
  ttlFixEnabled : Bool
  ttlFixValue : Int
  /-- `WGServerIface`, if `WGServerEnabled` -/
  wgServerIface : Option Text
  wgClientIfaces : List Text
  /-- `OVPNServerIface`, if `OVPNServerEnabled` -/
  ovpnServerIface : Option Text

/-- Is the 6in4 tunnel selected? -/
def IPv6Config.sixInFour (c : IPv6Config) : Bool :=
  c.mode == "6in4" && c.enabled != "off"

/-- `addSixInFour`: the tunnel device, an IPv6-only WAN. -/
def sixInFourDevices (c : IPv6Config) : List Text :=
  if c.sixInFour then
    [if trimSpace c.tunnelDevice = [] then "lkt6in4" else trimSpace c.tunnelDevice]
  else []

/-- `addSixInFour`: the far end of the tunnel. -/
def sixInFourServer (c : IPv6Config) : Option Text :=
  if c.sixInFour ∧ trimSpace c.serverIPv4 ≠ [] then some (trimSpace c.serverIPv4) else none

/-- `wanIPDevice`. -/
def wanIPDevice (i : InterfaceConfig) : Text :=
  if i.type = "pppoe" then "ppp0" else i.device

/-- `addInterfaces`: the devices of the WAN interfaces. -/
def wanInterfaces (is : List InterfaceConfig) : List Text :=
  (is.filter fun i => i.role = "wan".toList).map wanIPDevice

/-- `addInterfaces`: the devices of the LAN interfaces. -/
def lanInterfaces (is : List InterfaceConfig) : List Text :=
  (is.filter fun i => i.role = "lan".toList).map (·.device)

/-- `firstDevice`. -/
def firstDevice (devices : List Text) : Text :=
  (devices.find? (· ≠ [])).getD []

/-- `deviceByID`. -/
def deviceByID (is : List InterfaceConfig) (id : Text) : Text :=
  match is.find? fun i => i.id = id with
  | some i => i.device
  | none => []

/-- `isolatedVLANs`. -/
def isolatedVLANs (is : List InterfaceConfig) (vlans : List VLANConfig) : List Text :=
  vlans.flatMap fun v =>
    if v.isolated ∧ deviceByID is v.parent ≠ [] then
      [deviceByID is v.parent ++ '.' :: decimal v.vid]
    else []

/-- `addUSBTether`. -/
def usbInterface (c : USBTetherConfig) : Option Text :=
  if c.enabled ∧ c.nat then some (if c.interface = [] then "usb0" else c.interface) else none

/-- `addVPNInterfaces`: the OpenVPN device. -/
def ovpnServerIface (c : Config) : Option Text :=
  if c.ovpnServerEnabled then
    some (if c.ovpnServerDevice = [] then "tun0" else c.ovpnServerDevice)
  else none

/-- `addVPNInterfaces`: the WireGuard server interface. -/
def wgServerIface (c : Config) : Option Text :=
  if c.wgServerEnabled then some "wgs0" else none

/-- `buildTemplateData`. -/
def buildTemplateData (c : Config) : NftTemplateData where
  lanInterfaces := lanInterfaces c.interfaces
  wanInterfaces := wanInterfaces c.interfaces
  ipv6WANInterfaces := sixInFourDevices c.ipv6
  wanDevice := firstDevice (wanInterfaces c.interfaces)
  isolatedVLANs := isolatedVLANs c.interfaces c.vlans
  portForwards := c.firewall.portForwards
  customInputRules := buildCustomRules c.firewall.rules .input
  customForwardRules := buildCustomRules c.firewall.rules .forward
  customOutputRules := buildCustomRules c.firewall.rules .output
  openPortRules := buildOpenPortRules c.firewall.openPorts
  ipv6Enabled := c.ipv6.enabled ≠ "off".toList
  sixInFour := sixInFourServer c.ipv6
  usbInterface := usbInterface c.usbTether
  ttlFixEnabled := c.firewall.ttlFixEnabled
  ttlFixValue := if c.firewall.ttlFixValue = 0 then 64 else c.firewall.ttlFixValue
  wgServerIface := wgServerIface c
  wgClientIfaces := (List.range c.wgClients).map fun i => "wg".toList ++ decimal i
  ovpnServerIface := ovpnServerIface c

/-! ## The template -/

/-- A rule of the template. -/
def rule (ws : List Text) : Text :=
  line 8 ws

def icmpRule : List Text :=
  [rule ["ip", "protocol", "icmp", "icmp", "type", "\x7b", "echo-request,", "echo-reply,",
    "destination-unreachable,", "time-exceeded", "\x7d", "accept"]]

def icmpv6Rule : List Text :=
  [line 8 ["ip6", "nexthdr", "icmpv6", "icmpv6", "type", "\x7b"],
    line 12 ["destination-unreachable,"],
    line 12 ["packet-too-big,"],
    line 12 ["time-exceeded,"],
    line 12 ["parameter-problem,"],
    line 12 ["echo-request,"],
    line 12 ["echo-reply,"],
    line 12 ["nd-router-solicit,"],
    line 12 ["nd-router-advert,"],
    line 12 ["nd-neighbor-solicit,"],
    line 12 ["nd-neighbor-advert,"],
    line 12 ["mld-listener-query,"],
    line 12 ["mld-listener-report,"],
    line 12 ["mld2-listener-report"],
    line 8 ["\x7d", "accept"]]

/-- Established connections pass, broken ones do not. -/
def conntrackRules : List Text :=
  [rule ["ct", "state", "established,related", "accept"], rule ["ct", "state", "invalid", "drop"]]

def inputRules (d : NftTemplateData) : List Text :=
  conntrackRules ++
  d.customInputRules ++
  [rule ["iifname", quoted "lo", "accept"]] ++
  d.lanInterfaces.flatMap (fun lan => [rule ["iifname", quoted lan, "accept"]]) ++
  icmpRule ++
  icmpv6Rule ++
  d.openPortRules ++
  (if d.ipv6Enabled then [rule ["udp", "sport", "547", "udp", "dport", "546", "accept"]] else []) ++
  (d.sixInFour.toList.flatMap fun server =>
    [rule ["ip", "saddr", server, "ip", "protocol", "41", "accept"]]) ++
  [rule ["log", "prefix", quoted "INPUT_DROP: ", "drop"]]

/-- Traffic from one interface to another. -/
def passRule (i o : Text) : Text :=
  rule ["iifname", quoted i, "oifname", quoted o, "accept"]

/-- Traffic between two interfaces, both ways. -/
def pairRules (i o : Text) : List Text :=
  [passRule i o, passRule o i]

def isolateRules (i o : Text) : List Text :=
  [rule ["iifname", quoted i, "oifname", quoted o, "drop"],
    rule ["iifname", quoted o, "oifname", quoted i, "drop"]]

/-- The segment size of a connection follows its path. -/
def clampRules (ipv6 : Bool) : List Text :=
  [rule ["tcp", "flags", "syn", "tcp", "option", "maxseg", "size", "set", "rt", "mtu"]] ++
  if ipv6 then
    [rule ["ip6", "nexthdr", "tcp", "tcp", "flags", "syn", "tcp", "option", "maxseg", "size", "set",
      "rt", "mtu"]] else []

/-- The lines of the forward chain in front of the port forwards. -/
def rulesBefore (d : NftTemplateData) : List Text :=
  clampRules d.ipv6Enabled ++
  conntrackRules ++
  d.customForwardRules ++
  (d.lanInterfaces.flatMap fun lan => d.wanInterfaces.flatMap fun wan => [passRule lan wan]) ++
  (d.usbInterface.toList.flatMap fun usb => d.lanInterfaces.flatMap fun lan => [passRule lan usb]) ++
  (d.lanInterfaces.flatMap fun lan => d.ipv6WANInterfaces.flatMap fun wan => [passRule lan wan]) ++
  (d.wgServerIface.toList.flatMap fun wg => d.lanInterfaces.flatMap fun lan => pairRules wg lan) ++
  (d.wgClientIfaces.flatMap fun wg => d.lanInterfaces.flatMap fun lan => [passRule lan wg]) ++
  (d.ovpnServerIface.toList.flatMap fun tun => d.lanInterfaces.flatMap fun lan => pairRules tun lan) ++
  (d.isolatedVLANs.flatMap fun vlan => d.lanInterfaces.flatMap fun lan => isolateRules vlan lan)

def portForwardRules (d : NftTemplateData) : List Text :=
  d.portForwards.flatMap fun pf =>
    if pf.enabled then
      [rule ["iifname", quoted d.wanDevice, pf.protocol, "dport", decimal pf.extPort, "ct", "state",
        "new", "accept"]]
    else []

def forwardRules (d : NftTemplateData) : List Text :=
  rulesBefore d ++ portForwardRules d ++ [rule ["log", "prefix", quoted "FORWARD_DROP: ", "drop"]]

def preroutingRules (d : NftTemplateData) : List Text :=
  d.portForwards.flatMap fun pf =>
    if pf.enabled then
      [rule ["iifname", quoted d.wanDevice, pf.protocol, "dport", decimal pf.extPort, "dnat", "to",
        pf.intIP ++ ':' :: decimal pf.intPort]]
    else []

def postroutingRules (d : NftTemplateData) : List Text :=
  (d.wanInterfaces.flatMap fun wan => [rule ["oifname", quoted wan, "masquerade"]]) ++
  (d.usbInterface.toList.flatMap fun usb => [rule ["oifname", quoted usb, "masquerade"]])

def ttlfixRules (d : NftTemplateData) : List Text :=
  (d.wanInterfaces.flatMap fun wan =>
    [rule ["oifname", quoted wan, "ip", "ttl", "set", decimal d.ttlFixValue]]) ++
  (d.usbInterface.toList.flatMap fun usb =>
    [rule ["oifname", quoted usb, "ip", "ttl", "set", decimal d.ttlFixValue]])

/-- A base chain of the template. -/
def chainLines (name type hook priority policy : Text) (rules : List Text) : List Text :=
  [line 4 ["chain", name, "\x7b"],
    line 8 ["type", type, "hook", hook, "priority", priority ++ [';'], "policy", policy ++ [';']]] ++
  rules ++ [line 4 ["\x7d"]]

def tableLines (family name : Text) (chains : List Text) : List Text :=
  [line 0 ["table", family, name, "\x7b"]] ++ chains ++ [line 0 ["\x7d"]]

/-- `configs/sysconf/nftables.conf.tmpl`. -/
def templateLines (d : NftTemplateData) : List Text :=
  [line 0 ["flush", "ruleset"]] ++
  tableLines "inet" "filter"
    (chainLines "input" "filter" "input" "0" "drop" (inputRules d) ++
      chainLines "forward" "filter" "forward" "0" "drop" (forwardRules d) ++
      chainLines "output" "filter" "output" "0" "accept" d.customOutputRules) ++
  tableLines "ip" "nat"
    (chainLines "prerouting" "nat" "prerouting" "-100" "accept" (preroutingRules d) ++
      chainLines "postrouting" "nat" "postrouting" "100" "accept" (postroutingRules d) ++
      if d.ttlFixEnabled then
        chainLines "ttlfix" "filter" "postrouting" "mangle" "accept" (ttlfixRules d)
      else [])

/-- `RenderConfig`. -/
def renderConfig (c : Config) : Text :=
  (templateLines (buildTemplateData c)).flatMap (· ++ ['\n'])

/-! ## Reading the template -/

/-- The words of the template that are no keywords. -/
def templateWords : List Text :=
  ["inet", "filter", "nat", "input", "forward", "output", "prerouting", "postrouting", "ttlfix",
    "0", "100", "-100", "mangle", "41", "546", "547", "echo-request", "echo-reply",
    "destination-unreachable", "time-exceeded", "packet-too-big", "parameter-problem",
    "nd-router-solicit", "nd-router-advert", "nd-neighbor-solicit", "nd-neighbor-advert",
    "mld-listener-query", "mld-listener-report", "mld2-listener-report"]

theorem proper_templateWord {w : Text} (h : w ∈ templateWords) : (Token.word w).Proper := by
  have hall : ∀ w ∈ templateWords, w ≠ [] ∧ w.any breaks = false ∧ Keyword.ofText w = none := by
    unfold templateWords
    repeat rw [String.toList_ofList]
    decide +kernel
  obtain ⟨hne, hw, hkey⟩ := hall w h
  exact ⟨hne, by simpa using hw, hkey⟩

theorem lexes_templateWord {w : Text} (h : w ∈ templateWords) : Lexes w [.word w] :=
  lexes_token (proper_templateWord h)

variable {name : Text} {ss : List (List Token)} {d : NftTemplateData} {s : ChainStmts}

theorem chain_reads {type hook priority : Text} {k : Keyword} {rules : List Text}
    (hwords : name ∈ templateWords ∧ type ∈ templateWords ∧ hook ∈ templateWords ∧
      priority ∈ templateWords) (h : Reads rules (ss.map .stmt)) :
    Reads (chainLines name type hook priority k.spell rules)
      (chainItems name (chainStmts type hook priority k ss)) := by
  obtain ⟨hn, ht, hh, hp⟩ := hwords
  have hopen : Reads [line 4 ["chain", name, "\x7b"]] [.block [.key .chain, .word name]] :=
    reads_open (.cons (lexes_key .chain) (.cons (lexes_templateWord hn) .nil)) rfl (by simp)
  have hhead : Reads [line 8 ["type", type, "hook", hook, "priority", priority ++ [';'], "policy",
      k.spell ++ [';']]]
      [.stmt [.key .type, .word type, .key .hook, .word hook, .key .priority, .word priority],
        .stmt [.key .policy, .key k]] := by
    refine reads_of_tokens (.cons (line_lexes (.cons (lexes_key .type)
      (.cons (lexes_templateWord ht) (.cons (lexes_key .hook) (.cons (lexes_templateWord hh)
      (.cons (lexes_key .priority) (.cons ((lexes_templateWord hp).mark rfl)
      (.cons (lexes_key .policy) (.cons ((lexes_key k).mark rfl) .nil)))))))) (by simp))
      .nil) ?_
    intro rest
    simp [itemsFrom, stmtOf, Function.comp_def]
  have hall := ((hopen.append hhead).append h).append (reads_close 4)
  simpa [chainLines, chainItems, chainStmts] using hall

theorem table_reads {family : Text} {t : Token} {chains : List Text} {is : List Item}
    (hf : Lexes family [t]) (ht : t.plain) (hn : name ∈ templateWords) (h : Reads chains is) :
    Reads (tableLines family name chains)
      (.block [.key .table, t, .word name] :: (is ++ [.close])) := by
  have hopen : Reads [line 0 ["table", family, name, "\x7b"]]
      [.block [.key .table, t, .word name]] :=
    reads_open (.cons (lexes_key .table) (.cons hf (.cons (lexes_templateWord hn) .nil))) rfl
      (by simp [ht])
  have hall := (hopen.append h).append (reads_close 0)
  simpa [tableLines] using hall

/-- The rules of each chain, read. -/
structure ChainStmts where
  input : List (List Token)
  forward : List (List Token)
  output : List (List Token)
  prerouting : List (List Token)
  postrouting : List (List Token)
  ttlfix : List (List Token)

def templateBlocks (d : NftTemplateData) (s : ChainStmts) : List Block :=
  [⟨"inet", "filter", "input", chainStmts "filter" "input" "0" .drop s.input⟩,
    ⟨"inet", "filter", "forward", chainStmts "filter" "forward" "0" .drop s.forward⟩,
    ⟨"inet", "filter", "output", chainStmts "filter" "output" "0" .accept s.output⟩,
    ⟨"ip", "nat", "prerouting", chainStmts "nat" "prerouting" "-100" .accept s.prerouting⟩,
    ⟨"ip", "nat", "postrouting", chainStmts "nat" "postrouting" "100" .accept s.postrouting⟩] ++
  if d.ttlFixEnabled then
    [⟨"ip", "nat", "ttlfix", chainStmts "filter" "postrouting" "mangle" .accept s.ttlfix⟩]
  else []

/-- The lines of every chain read as its statements. -/
structure ChainReads (d : NftTemplateData) (s : ChainStmts) : Prop where
  input : Reads (inputRules d) (s.input.map .stmt)
  forward : Reads (forwardRules d) (s.forward.map .stmt)
  output : Reads d.customOutputRules (s.output.map .stmt)
  prerouting : Reads (preroutingRules d) (s.prerouting.map .stmt)
  postrouting : Reads (postroutingRules d) (s.postrouting.map .stmt)
  ttlfix : Reads (ttlfixRules d) (s.ttlfix.map .stmt)

/-- The chains of the template, once the rules of each are read. -/
theorem template_reads (h : ChainReads d s) :
    ∃ is, Reads (templateLines d) is ∧ blocks is = some (templateBlocks d s) := by
  have hflush : Reads [line 0 ["flush", "ruleset"]] [.stmt [.key .flush, .key .ruleset]] :=
    reads_stmt (line_lexes (.cons (lexes_key .flush) (.cons (lexes_key .ruleset) .nil)) (by simp))
      (by simp) (by decide)
  have hci : Reads (chainLines "input" "filter" "input" "0" "drop" (inputRules d))
      (chainItems "input" (chainStmts "filter" "input" "0" .drop s.input)) :=
    chain_reads (k := .drop) (by decide) h.input
  have hcf : Reads (chainLines "forward" "filter" "forward" "0" "drop" (forwardRules d))
      (chainItems "forward" (chainStmts "filter" "forward" "0" .drop s.forward)) :=
    chain_reads (k := .drop) (by decide) h.forward
  have hco : Reads (chainLines "output" "filter" "output" "0" "accept" d.customOutputRules)
      (chainItems "output" (chainStmts "filter" "output" "0" .accept s.output)) :=
    chain_reads (k := .accept) (by decide) h.output
  have hcp : Reads (chainLines "prerouting" "nat" "prerouting" "-100" "accept" (preroutingRules d))
      (chainItems "prerouting" (chainStmts "nat" "prerouting" "-100" .accept s.prerouting)) :=
    chain_reads (k := .accept) (by decide) h.prerouting
  have hcq : Reads (chainLines "postrouting" "nat" "postrouting" "100" "accept" (postroutingRules d))
      (chainItems "postrouting" (chainStmts "nat" "postrouting" "100" .accept s.postrouting)) :=
    chain_reads (k := .accept) (by decide) h.postrouting
  have hct : Reads (if d.ttlFixEnabled then
        chainLines "ttlfix" "filter" "postrouting" "mangle" "accept" (ttlfixRules d) else [])
      (if d.ttlFixEnabled then
        chainItems "ttlfix" (chainStmts "filter" "postrouting" "mangle" .accept s.ttlfix) else []) := by
    split
    · exact chain_reads (k := .accept) (by decide) h.ttlfix
    · exact reads_nil
  have hfilter := table_reads (t := .word "inet") (lexes_templateWord (by decide)) rfl
    (show "filter".toList ∈ templateWords by decide) ((hci.append hcf).append hco)
  have hnat := table_reads (t := .key .ip) (lexes_key .ip) rfl
    (show "nat".toList ∈ templateWords by decide) ((hcp.append hcq).append hct)
  refine ⟨_, (hflush.append hfilter).append hnat, ?_⟩
  -- one table after the other, and in each one chain after the other
  have hlast : ∀ t : Text × Text, blocksFrom (some t) none
      ((if d.ttlFixEnabled then
        chainItems "ttlfix" (chainStmts "filter" "postrouting" "mangle" .accept s.ttlfix) else []) ++
        [.close]) =
      some (if d.ttlFixEnabled then
        [⟨t.1, t.2, "ttlfix", chainStmts "filter" "postrouting" "mangle" .accept s.ttlfix⟩]
      else []) := by
    intro t
    split
    · rw [blocksFrom_chain]
      rfl
    · rfl
  simp only [cons_append, nil_append, append_assoc, blocks, blocksFrom, tableFamily,
    bind_some, blocksFrom_chain, hlast, map_some, templateBlocks]
  rfl

theorem templateBlocks_nodup (d : NftTemplateData) (s : ChainStmts) :
    ((templateBlocks d s).map fun b => (b.family, b.table, b.chain)).Nodup := by
  let names : List (Text × Text × Text) :=
    [("inet", "filter", "input"), ("inet", "filter", "forward"), ("inet", "filter", "output"),
      ("ip", "nat", "prerouting"), ("ip", "nat", "postrouting")]
  have hnames : (names ++ [("ip".toList, "nat".toList, "ttlfix".toList)]).Nodup := by decide
  unfold templateBlocks
  split
  · exact hnames
  · exact (nodup_append.mp hnames).1

theorem load_template (h : ChainReads d s) :
    load ((templateLines d).flatMap (· ++ ['\n'])) = (templateBlocks d s).mapM Chain.ofBlock := by
  obtain ⟨is, hread, hblocks⟩ := template_reads h
  rw [load_of_reads hread, hblocks, bind_some, if_pos (templateBlocks_nodup d s)]

/-- The template loads if all its statements are in the fragment. -/
theorem load_template_iff (h : ChainReads d s) :
    (∃ cs, load ((templateLines d).flatMap (· ++ ['\n'])) = some cs) ↔
      Parses s.input ∧ Parses s.forward ∧ Parses s.output ∧ Parses s.prerouting ∧
        Parses s.postrouting ∧ (d.ttlFixEnabled → Parses s.ttlfix) := by
  have hdrop : (readPolicy .drop).isSome := rfl
  have haccept : (readPolicy .accept).isSome := rfl
  rw [load_template h, exists_mapM_iff]
  simp only [templateBlocks, forall_mem_append, forall_mem_cons,
    Chain.ofBlock_isSome_iff hdrop, Chain.ofBlock_isSome_iff haccept]
  cases d.ttlFixEnabled <;> simp [Chain.ofBlock_isSome_iff haccept, and_assoc]

theorem input_mem_templateBlocks (d : NftTemplateData) (s : ChainStmts) :
    ⟨"inet", "filter", "input", chainStmts "filter" "input" "0" .drop s.input⟩ ∈
      templateBlocks d s :=
  mem_append_left _ mem_cons_self

theorem output_mem_templateBlocks (d : NftTemplateData) (s : ChainStmts) :
    ⟨"inet", "filter", "output", chainStmts "filter" "output" "0" .accept s.output⟩ ∈
      templateBlocks d s :=
  mem_append_left _ (mem_cons_of_mem _ (mem_cons_of_mem _ mem_cons_self))

theorem postrouting_mem_templateBlocks (d : NftTemplateData) (s : ChainStmts) :
    ⟨"ip", "nat", "postrouting", chainStmts "nat" "postrouting" "100" .accept s.postrouting⟩ ∈
      templateBlocks d s :=
  mem_append_left _ (mem_cons_of_mem _ (mem_cons_of_mem _
    (mem_cons_of_mem _ (mem_cons_of_mem _ mem_cons_self))))

theorem forward_mem_templateBlocks (d : NftTemplateData) (s : ChainStmts) :
    ⟨"inet", "filter", "forward", chainStmts "filter" "forward" "0" .drop s.forward⟩ ∈
      templateBlocks d s :=
  mem_append_left _ (mem_cons_of_mem _ mem_cons_self)

theorem prerouting_mem_templateBlocks (d : NftTemplateData) (s : ChainStmts) :
    ⟨"ip", "nat", "prerouting", chainStmts "nat" "prerouting" "-100" .accept s.prerouting⟩ ∈
      templateBlocks d s :=
  mem_append_left _ (mem_cons_of_mem _ (mem_cons_of_mem _
    (mem_cons_of_mem _ mem_cons_self)))

/-- A template that loads has the chain of each block. -/
theorem exists_chain (h : ChainReads d s) {cs : List Chain}
    (hload : load ((templateLines d).flatMap (· ++ ['\n'])) = some cs) {b : Block}
    (hb : b ∈ templateBlocks d s) :
    ∃ ch, findChain cs b.family b.table b.chain = some ch ∧ Chain.ofBlock b = some ch := by
  have hmap := (load_template h).symm.trans hload
  obtain ⟨ch, hch⟩ := isSome_iff_exists.mp (exists_mapM_iff.mp ⟨cs, hmap⟩ b hb)
  exact ⟨ch, (findChain_ofBlock (templateBlocks_nodup d s) hmap hb).trans hch, hch⟩

/-- A chain that drops by default accepts if the first verdict of its statements does. -/
theorem accepts_template_iff (h : ChainReads d s) {cs : List Chain}
    (hload : load ((templateLines d).flatMap (· ++ ['\n'])) = some cs)
    {family table type hook priority : Text}
    (hb : ⟨family, table, name, chainStmts type hook priority .drop ss⟩ ∈ templateBlocks d s)
    {out : Outside} {p : Packet} :
    verdictOf out ((templateLines d).flatMap (· ++ ['\n'])) family table name p = some .accept ↔
      verdictBy out p ss = some .accept := by
  obtain ⟨ch, hfind, hch⟩ := exists_chain h hload hb
  obtain ⟨hpolicy, hrules⟩ := Chain.ofBlock_chainStmts hch
  have hdrop : ch.policy = .drop := (some.inj hpolicy).symm
  have hverdict : ch.verdict out p = (verdictBy out p ss).getD .drop := by
    rw [Chain.verdict, hdrop, findSome_of_mapM hrules]
    rfl
  unfold verdictOf
  rw [hload, bind_some, hfind, map_some, hverdict]
  cases verdictBy out p ss <;> simp

/-- A chain that drops by default accepts by one of its statements. -/
theorem exists_accepts (h : ChainReads d s) {family table type hook priority : Text}
    (hb : ⟨family, table, name, chainStmts type hook priority .drop ss⟩ ∈ templateBlocks d s)
    {out : Outside} {p : Packet}
    (hv : verdictOf out ((templateLines d).flatMap (· ++ ['\n'])) family table name p =
      some .accept) : ∃ ts ∈ ss, Accepts out p ts := by
  obtain ⟨cs, hload, -⟩ := bind_eq_some_iff.mp hv
  exact decided_of_verdictBy ((accepts_template_iff h hload hb).mp hv)

/-- The rules of a chain that accepts: one of its statements does. -/
theorem accept_of_template (out : Outside) (p : Packet) {P Q : List Token → Prop}
    (hi : ReadsStmts P (inputRules d)) (hf : ReadsStmts Q (forwardRules d))
    (ho : ReadsStmts (fun _ => True) d.customOutputRules)
    (hp : ReadsStmts (fun _ => True) (preroutingRules d))
    (hq : ReadsStmts (fun _ => True) (postroutingRules d))
    (ht : ReadsStmts (fun _ => True) (ttlfixRules d)) :
    (verdictOf out ((templateLines d).flatMap (· ++ ['\n'])) "inet" "filter" "input" p =
      some .accept → ∃ ts, P ts ∧ Accepts out p ts) ∧
    (verdictOf out ((templateLines d).flatMap (· ++ ['\n'])) "inet" "filter" "forward" p =
      some .accept → ∃ ts, Q ts ∧ Accepts out p ts) := by
  obtain ⟨si, hi, hP⟩ := hi
  obtain ⟨sf, hf, hQ⟩ := hf
  obtain ⟨so, ho, -⟩ := ho
  obtain ⟨sp, hp, -⟩ := hp
  obtain ⟨sq, hq, -⟩ := hq
  obtain ⟨st, ht, -⟩ := ht
  have hreads : ChainReads d ⟨si, sf, so, sp, sq, st⟩ := ⟨hi, hf, ho, hp, hq, ht⟩
  constructor
  · intro h
    obtain ⟨ts, hts, hacc⟩ := exists_accepts hreads (input_mem_templateBlocks _ _) h
    exact ⟨ts, hP ts hts, hacc⟩
  · intro h
    obtain ⟨ts, hts, hacc⟩ := exists_accepts hreads (forward_mem_templateBlocks _ _) h
    exact ⟨ts, hQ ts hts, hacc⟩

/-! ## Operator rules in the template -/

theorem buildCustomRules_reads (rules : List FirewallRule) (chain : RuleChain) :
    ReadsStmts (fun ts => ∃ r ∈ rules, r.enabled ∧ r.target = chain ∧
      Entails (fun p _ => r.Matches p) ts) (buildCustomRules rules chain) := by
  apply readsStmts_of_forall
  intro l hl
  obtain ⟨r, hr, hl⟩ := mem_flatMap.mp hl
  split at hl
  · rename_i hen
    split at hl
    · rename_i l' hok
      split at hl
      · rename_i hcond
        obtain rfl := mem_singleton.mp hl
        refine ⟨customTokens r, renderCustomRule_lexes hok hcond.1, by simp [customTokens],
          customTokens_plain r, r, hr, hen, hcond.2, ?_⟩
        intro out p v hfires
        exact custom_fires hok hcond.1 hfires
      · cases hl
    · cases hl
  · cases hl

theorem buildOpenPortRules_reads (openPorts : List OpenPort) :
    ReadsStmts (fun ts => ∃ op ∈ openPorts, op.enabled ∧
      Entails (fun p _ => op.Matches p) ts) (buildOpenPortRules openPorts) := by
  apply readsStmts_of_forall
  intro l hl
  obtain ⟨op, hop, hl⟩ := mem_flatMap.mp hl
  split at hl
  · rename_i hen
    split at hl
    · rename_i ls hok
      obtain ⟨k, hk, hlex⟩ := renderOpenPortRules_lexes hok l hl
      refine ⟨openPortTokens op k, hlex, by simp [openPortTokens], openPortTokens_plain op k, op,
        hop, hen, ?_⟩
      intro out p v hfires
      exact openPort_fires hok hk hfires
    · cases hl
  · cases hl

end Lankeeper.Firewall
