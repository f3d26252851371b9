import Lankeeper.Firewall.Operands
import Lankeeper.Network.Service
import Lankeeper.Router.Config

/-!
# Lankeeper.Router.Submissions — from the forms into the ruleset

The template of the ruleset escapes nothing, so its values have to be checked on the way
from the forms of the panel. Some are checked before they are stored (`SetInterface`,
`AddVLAN`, the form of a port forward), and some when they are rendered (rules and open
ports). The settings of the 6in4 tunnel are checked nowhere.

`panel` is the config with the submissions that change what is rendered. On its runs the
checked values stay plain (`clean_submit`), and `operands_iff` says what that leaves open:
the tunnel, and addresses that are valid without being IPv4 in writing.
-/

namespace Lankeeper.Router

open Lib Text Nft
open Firewall hiding Config
open scoped Firewall

/-! ## Forms -/

/-- A checkbox of the VLAN form. -/
def checked (field : Text) : Bool :=
  field = "true" ∨ field = "on"

/-- The fields that `HandleSetInterface` reads. -/
structure InterfaceForm where
  id : Text
  device : Text
  label : Text
  role : Text
  type : Text
  address : Text
  mtu : Text
  ipv6 : Text

/-- A number that may be left out, with its default. -/
def optionalNumber (default : Int) (key field : Text) : Except Text Int :=
  if trimSpace field = [] then .ok default
  else
    match atoi (trimSpace field) with
    | none => .error key
    | some n => .ok n

/-- The entry that `HandleSetInterface` makes of the form, or the locale key of the error. -/
def parseInterfaceForm (form : InterfaceForm) : Except Text Network.InterfaceConfig := do
  let mtu ← optionalNumber 0 "error.invalidMTU" form.mtu
  .ok { id := trimSpace form.id, device := trimSpace form.device, label := trimSpace form.label,
        role := form.role, type := form.type, address := trimSpace form.address, mtu := mtu,
        ipv6 := form.ipv6 }

/-- The fields that `parseVLANForm` reads. -/
structure VLANForm where
  id : Text
  parent : Text
  vid : Text
  label : Text
  role : Text
  type : Text
  address : Text
  mtu : Text
  isolated : Text
  dhcpEnabled : Text
  dhcpRangeStart : Text
  dhcpRangeEnd : Text
  dhcpLeaseTime : Text

/-- `parseVLANForm`. -/
def parseVLANForm (form : VLANForm) : Except Text Network.VLANConfig := do
  let vid := (atoi form.vid).getD 0
  failIf (atoi form.vid = none ∨ Network.validateVLANID vid ≠ .ok ()) "error.invalidVLANID"
  let mtu := (atoi form.mtu).getD 0
  failIf (atoi form.mtu = none ∧ form.mtu ≠ []) "error.invalidMTU"
  .ok { id := form.id, parent := form.parent, vid := vid, label := form.label, role := form.role,
        type := form.type, address := form.address, mtu := if mtu = 0 then 1500 else mtu,
        isolated := checked form.isolated,
        dhcp := if checked form.dhcpEnabled then
          ⟨true, form.dhcpRangeStart, form.dhcpRangeEnd, form.dhcpLeaseTime⟩ else {} }

/-- The fields of `applyIPv6Form` that get into the ruleset. -/
structure IPv6Form where
  enabled : Text
  mode : Text
  tunnelServerIPv4 : Text
  tunnelDevice : Text

/-- `applyIPv6Form`, with `applyTunnelForm`. -/
def applyIPv6Form (form : IPv6Form) (v6 : IPv6Config) : IPv6Config where
  enabled :=
    if form.enabled ∈ ["auto".toList, "on".toList, "off".toList] then form.enabled else "auto"
  mode :=
    if trimSpace form.mode ∈ ["dhcpv6-pd".toList, "6in4".toList] then trimSpace form.mode
    else "dhcpv6-pd"
  serverIPv4 := trimSpace form.tunnelServerIPv4
  -- the device stays if the field is empty
  tunnelDevice :=
    if trimSpace form.tunnelDevice ≠ [] then trimSpace form.tunnelDevice else v6.tunnelDevice

/-- `optionalAddress`. -/
def optionalAddress (v : Text) : Bool :=
  v = [] ∨ Prefix.parseCIDR v ≠ none ∨ Address.parseIP v ≠ none

/-- The fields that `parseRuleForm` reads. -/
structure RuleForm where
  name : Text
  chain : Text
  action : Text
  srcIP : Text
  dstIP : Text
  protocol : Text
  port : Text
  interface : Text
  direction : Text

/-- `parseRuleForm`. The priority is left to `AddRule`. -/
def parseRuleForm (form : RuleForm) : Except Text RuleEntry := do
  let port := formPort form.port
  failIf (port = none) "error.invalidPort"
  failIf (form.chain ∉ ["input".toList, "forward".toList, "output".toList]) "error.invalidChain"
  failIf (form.action ∉ ["accept".toList, "drop".toList, "reject".toList]) "error.invalidAction"
  failIf (form.protocol ∉ [[], "tcp", "udp", "icmp"]) "error.invalidProtocol"
  failIf (form.direction ∉ [[], "in", "out"]) "error.invalidDirection"
  failIf (¬ optionalAddress form.srcIP) "error.invalidSourceAddress"
  failIf (¬ optionalAddress form.dstIP) "error.invalidDestinationAddress"
  failIf (validateRuleName form.name ≠ .ok ()) "error.invalidRuleName"
  failIf (form.interface ≠ [] ∧ validateInterfaceName form.interface ≠ .ok ())
    "error.invalidInterface"
  .ok { name := form.name, chain := form.chain, action := form.action, srcIP := form.srcIP,
        dstIP := form.dstIP, protocol := form.protocol, port := port.getD 0,
        interface := form.interface, direction := form.direction, enabled := true, priority := 0 }

/-- The fields that `HandleAddOpenPort` reads. -/
structure OpenPortForm where
  name : Text
  protocol : Text
  port : Text
  source : Text
  rateLimit : Text

/-- The entry that `HandleAddOpenPort` makes of the form. -/
def parseOpenPortForm (form : OpenPortForm) : Except Text OpenPort := do
  let port := formPort form.port
  let rateLimit := trimSpace form.rateLimit
  failIf (port = none) "error.invalidPort"
  failIf (form.protocol ∉ ["tcp".toList, "udp".toList, "both".toList]) "error.invalidProtocol"
  failIf (¬ optionalAddress form.source) "error.invalidSourceAddress"
  failIf (validateOpenPortRateLimit rateLimit ≠ .ok ()) "error.invalidRateLimit"
  .ok { name := form.name, protocol := form.protocol, port := port.getD 0, source := form.source,
        enabled := true, rateLimit := rateLimit }

/-- The index in the path of a request. -/
def pathIndex (index : Text) : Except Text Int :=
  match atoi index with
  | none => .error "error.invalidIndex"
  | some n => .ok n

/-- A submission of the firewall page. -/
inductive FirewallForm
  | addPortForward (name : Text) (form : PortForwardForm)
  | removePortForward (index : Text)
  | addOpenPort (form : OpenPortForm)
  | removeOpenPort (index : Text)
  | toggleOpenPort (index enabled : Text)
  | addRule (form : RuleForm)
  | removeRule (index : Text)
  | toggleRule (index enabled : Text)
  | setTTLFix (enabled value : Text)

/-- The call that the handler of a form makes, or the locale key of the error. A hop limit
that is left out is the one of the config. -/
def FirewallForm.call (fw : Settings) : FirewallForm → Except Text FirewallCall
  | .addPortForward name form => (parsePortForwardForm form).map fun pf =>
      .addPortForward { pf with name := name }
  | .removePortForward index => (pathIndex index).map .removePortForward
  | .addOpenPort form => (parseOpenPortForm form).map .addOpenPort
  | .removeOpenPort index => (pathIndex index).map .removeOpenPort
  | .toggleOpenPort index enabled =>
    (pathIndex index).map (.toggleOpenPort · (enabled = "true"))
  | .addRule form => (parseRuleForm form).map .addRule
  | .removeRule index => (pathIndex index).map .removeRule
  | .toggleRule index enabled => (pathIndex index).map (.toggleRule · (enabled = "true"))
  | .setTTLFix enabled value =>
    (optionalNumber fw.ttlFix.value "error.invalidTTL" value).map
      (.setTTLFix (enabled = "true"))

/-! ## The panel -/

/-- Why a submission is answered with an error. -/
inductive SubmitError
  /-- the locale key of the message -/
  | form (key : Text)
  | network (e : Network.NetworkError)
  | firewall (e : EditError)
deriving DecidableEq

/-- A submission that changes what the ruleset is rendered from. -/
inductive Submission
  | setInterface (form : InterfaceForm)
  | removeInterface (id : Text)
  | addVLAN (form : VLANForm)
  | removeVLAN (id : Text)
  | saveIPv6 (form : IPv6Form)
  | firewall (form : FirewallForm)

/-- The config after a call of the network service. -/
def editNetwork (edit : Network.Config → Except Network.NetworkError Unit × Network.Config)
    (c : Config) : Except SubmitError Unit × Config :=
  let r := edit c.toNetwork
  (r.1.mapError .network, { c with interfaces := r.2.interfaces, vlans := r.2.vlans })

/-- A form that does not parse changes nothing. -/
def withForm {α : Type} (form : Except Text α) (c : Config)
    (next : α → Except SubmitError Unit × Config) : Except SubmitError Unit × Config :=
  match form with
  | .error key => (.error (.form key), c)
  | .ok a => next a

/-- The answer to a submission and the config after it. `saved` says whether the config
file gets written; the IPv6 form stays in memory also if it does not. -/
def Submission.submit (saved : Bool) (c : Config) : Submission → Except SubmitError Unit × Config
  | .setInterface form => withForm (parseInterfaceForm form) c fun i =>
      editNetwork (Network.setInterface saved i) c
  | .removeInterface id => editNetwork (Network.removeInterface saved id) c
  | .addVLAN form => withForm (parseVLANForm form) c fun v => editNetwork (Network.addVLAN saved v) c
  | .removeVLAN id => editNetwork (Network.removeVLAN saved id) c
  | .saveIPv6 form =>
    (if saved then .ok () else .error (.form "error.saveFailed"),
      { c with ipv6 := applyIPv6Form form c.ipv6 })
  | .firewall form => withForm (form.call c.firewall) c fun call =>
      let r := call.apply saved c.firewall
      (r.1.mapError .firewall, { c with firewall := r.2 })

/-- The names and port forwards of the config are such as get through the checks. -/
def Clean (c : Config) : Prop :=
  Stored c.toFirewall

/-- The config under submissions, each with whether it gets saved. -/
def panel : Machine Config (Submission × Bool) where
  Init := Clean
  step c e := (e.1.submit e.2 c).2

/-! ## What a submission does -/

/-- What holds of the config as it is, and after the call for a form that parses. -/
theorem withForm_snd {α : Type} {form : Except Text α} {c : Config}
    {next : α → Except SubmitError Unit × Config} (P : Config → Prop) (hc : P c)
    (hnext : ∀ a, form = .ok a → P (next a).2) : P (withForm form c next).2 := by
  cases form with
  | error key => exact hc
  | ok a => exact hnext a rfl

/-! ## Clean configs stay clean -/

theorem plainName_of_valid {d : Text} (h : validateInterfaceName d = .ok ()) : PlainName d := by
  have hchars := (validateInterfaceName_ok h).2
  constructor
  · exact fun hmem => absurd (hchars quote hmem) (by decide)
  · exact fun hmem => absurd (hchars '*' hmem) (by decide)

section Clean

variable {c : Config} (h : Clean c)

include h

theorem Clean.edit {edit : Network.Config → Except Network.NetworkError Unit × Network.Config}
    (hedit : ∀ i ∈ (edit c.toNetwork).2.interfaces,
      i ∈ c.interfaces ∨ Network.validateInterfaceEntry i = .ok ()) :
    Clean (editNetwork edit c).2 := by
  refine ⟨fun j hj => ?_, h.usb, h.ovpn, h.forwards⟩
  obtain ⟨i, hi, rfl⟩ := List.mem_map.mp hj
  rcases hedit i hi with hi | hvalid
  · exact h.interfaces _ (List.mem_map_of_mem hi)
  · exact plainName_of_valid (Network.validateInterfaceEntry_device hvalid)

theorem Clean.withFirewall {fw : Settings}
    (hfw : ∀ pf ∈ fw.portForwards, pf ∈ c.firewall.portForwards ∨ pf.Valid) :
    Clean { c with firewall := fw } := by
  refine ⟨h.interfaces, h.usb, h.ovpn, fun q hq => ?_⟩
  obtain ⟨pf, hpf, rfl⟩ := List.mem_map.mp hq
  rcases hfw pf hpf with hpf | hvalid
  · exact h.forwards _ (List.mem_map_of_mem hpf)
  · exact hvalid

omit h in
/-- A call adds a port forward only for a form that was checked. -/
theorem FirewallForm.valid_of_call {form : FirewallForm} {fw : Settings} {pf : ForwardEntry}
    (h : form.call fw = .ok (.addPortForward pf)) : pf.Valid := by
  cases form with
  | addPortForward name form =>
    obtain ⟨q, hq, heq⟩ := map_ok_iff.mp h
    obtain rfl := FirewallCall.addPortForward.inj heq
    exact parsePortForwardForm_valid hq
  | _ =>
    obtain ⟨_, -, heq⟩ := map_ok_iff.mp h
    cases heq

/-- One submission, whatever stands in its fields. -/
theorem clean_submit (saved : Bool) (s : Submission) : Clean (s.submit saved c).2 := by
  cases s with
  | setInterface form =>
    refine withForm_snd Clean h fun i _ => h.edit ?_
    obtain ⟨is, heq, -, hvalid⟩ := Network.setInterface_keeps saved i c.toNetwork
    rw [heq]
    exact hvalid
  | removeInterface id =>
    refine h.edit fun i hi => .inl ?_
    rcases Network.removeInterface_eq saved id c.toNetwork with ⟨-, heq⟩ | ⟨-, e, heq⟩
    · rw [heq] at hi
      exact List.mem_of_mem_eraseP hi
    · rwa [heq] at hi
  | addVLAN form =>
    refine withForm_snd Clean h fun v _ => h.edit fun i hi => .inl ?_
    rcases Network.addVLAN_cases saved v c.toNetwork with heq | ⟨-, heq⟩
    · rwa [heq] at hi
    · rwa [heq] at hi
  | removeVLAN id =>
    refine h.edit fun i hi => .inl ?_
    obtain ⟨vs, heq, -⟩ := Network.removeVLAN_sublist saved id c.toNetwork
    rwa [heq] at hi
  | saveIPv6 form => exact ⟨h.interfaces, h.usb, h.ovpn, h.forwards⟩
  | firewall form =>
    refine withForm_snd Clean h fun call hcall => h.withFirewall fun pf hpf => ?_
    rcases FirewallCall.mem_portForwards hpf with hpf | rfl
    · exact .inl hpf
    · exact .inr (FirewallForm.valid_of_call hcall)

/-- A run of submissions. -/
theorem clean_run (es : List (Submission × Bool)) : Clean (panel.run c es) :=
  Machine.run_invariant (P := Clean) (fun _ e hc => clean_submit hc e.2 e.1) h es

end Clean

/-! ## Operands -/

/-- The tunnel's far end, the addresses of the rules and open ports, and the targets of the
port forwards are IPv4 addresses, and the tunnel's device has no quote in it. -/
structure OperandsFit (c : Firewall.Config) : Prop where
  server : ∀ server ∈ (sixInFourServer c.ipv6).toList, IPv4Literal server
  device : ∀ lan ∈ lanInterfaces c.interfaces, ∀ wan ∈ sixInFourDevices c.ipv6, quote ∉ wan
  rules : CustomSources c.firewall.rules
  openPorts : OpenPortSources c.firewall.openPorts
  forwards : ForwardTargets c.firewall.portForwards

/-- An IPv4 address is a word, so that the far end of the tunnel is asked for one thing. -/
theorem operandsFit_iff {c : Firewall.Config} (h : Stored c) :
    Contained c ∧ AddressesIPv4 c ↔ OperandsFit c := by
  constructor
  · rintro ⟨hin, haddr⟩
    obtain ⟨hrules, hopen, hserver, hforwards⟩ := (addressesIPv4_iff h hin).mp haddr
    exact ⟨hserver, ((contained_iff h).mp hin).2, hrules, hopen, hforwards⟩
  · intro hfit
    have hin : Contained c := by
      refine (contained_iff h).mpr ⟨fun server hs => ?_, hfit.device⟩
      obtain ⟨q, hq, -⟩ := hfit.server server hs
      exact proper_address hq
    exact ⟨hin, (addressesIPv4_iff h hin).mpr
      ⟨hfit.rules, hfit.openPorts, hfit.server, hfit.forwards⟩⟩

/-- **Values in the ruleset.** After any submissions, the values of the config keep to their
places in the rendered text and the address operands are IPv4 addresses, exactly if the
tunnel and the addresses of the config fit. -/
theorem operands_iff {c : Config} (h : Clean c) (es : List (Submission × Bool)) :
    Contained (panel.run c es).toFirewall ∧ AddressesIPv4 (panel.run c es).toFirewall ↔
      OperandsFit (panel.run c es).toFirewall :=
  operandsFit_iff (clean_run h es)

theorem clean_empty : Clean {} :=
  ⟨nofun, ⟨nofun, nofun⟩, ⟨nofun, nofun⟩, nofun⟩

/-- A LAN, the tunnel, a port forward and a rule. -/
def homeForms : List (Submission × Bool) :=
  [(.setInterface ⟨"lan", "eth1", [], "lan", "static", "192.168.1.1/24", [], []⟩, true),
    (.saveIPv6 ⟨"on", "6in4", "203.0.113.1", []⟩, true),
    (.firewall (.addPortForward "web" ⟨"tcp", "8080", "192.168.1.9", "80"⟩), true),
    (.firewall (.addRule ⟨"admin", "input", "accept", "198.51.100.0/24", [], "tcp", "22", [], []⟩),
      true)]

theorem home_operands : Clean {} ∧
    Contained (panel.run {} homeForms).toFirewall ∧
      AddressesIPv4 (panel.run {} homeForms).toFirewall := by
  have hsources : ∀ r ∈ (panel.run {} homeForms).toFirewall.firewall.rules,
      MatchedIPv4 r.srcIP := by
    decide +kernel
  refine ⟨clean_empty, (operands_iff clean_empty homeForms).mpr ⟨?_, ?_, ?_, ?_, ?_⟩⟩
  · decide +kernel
  · decide +kernel
  · exact fun r hr _ _ _ _ => hsources r hr
  · nofun
  · decide +kernel

/-- Without a check, the far end of the tunnel can bring a verdict and comment out the rest
of its line. -/
def splicedForms : List (Submission × Bool) :=
  [(.saveIPv6 ⟨"on", "6in4", "203.0.113.1 accept #", []⟩, true)]

/-- The form of a port forward takes an IPv6 host. -/
def hostForms : List (Submission × Bool) :=
  [(.firewall (.addPortForward "ssh" ⟨"tcp", "22", "fd00::9", "22"⟩), true)]

theorem operands_spliced : Clean {} ∧
    ¬ Contained (panel.run {} splicedForms).toFirewall ∧
      ¬ AddressesIPv4 (panel.run {} hostForms).toFirewall := by
  refine ⟨clean_empty, fun hin => ?_, fun haddr => ?_⟩
  · have hserver : "203.0.113.1 accept #".toList ∈
        (sixInFourServer (panel.run {} splicedForms).toFirewall.ipv6).toList := by decide +kernel
    have hword := ((contained_iff (clean_run clean_empty splicedForms)).mp hin).1 _ hserver
    exact absurd (hword.2.1 ' ' (by decide)) (by decide)
  · have hstored := clean_run clean_empty hostForms
    have hnone : sixInFourServer (panel.run {} hostForms).toFirewall.ipv6 = none := by
      decide +kernel
    have hin : Contained (panel.run {} hostForms).toFirewall := by
      rw [contained_iff hstored, hnone]
      exact ⟨nofun, by decide +kernel⟩
    have htargets := ((addressesIPv4_iff hstored hin).mp haddr).2.2.2
    exact absurd htargets (by decide +kernel)

end Lankeeper.Router
