import Lankeeper.Firewall.PortForwards

/-!
# Lankeeper.Firewall.Operands — values and the places they are put in

The template splices the values of a config in as they are. A value stays in its place if
the text reads as the template with the value as one token there (`Contained`). In the
places behind `ip saddr` and `dnat to` it has to be an IPv4 address besides
(`AddressesIPv4`).

Most values are checked somewhere: names of interfaces and port forwards when they are
stored (`Stored`), custom rules and open ports when they are rendered. `contained_iff` and
`addressesIPv4_iff` say what is left to ask of the others.
-/

namespace Lankeeper.Firewall

open Lib Text Nft List

-- the rules of the template, token by token
attribute [local simp] establishedTokens invalidTokens logTokens iifTokens betweenTokens
  icmpTokens icmpv6Tokens dhcpv6Tokens sixInFourTokens clampTokens clampv6Tokens masqueradeTokens
  ttlTokens

/-! ## In their places -/

/-- The rendered text reads as the template, with every value as one token. -/
def Contained (c : Config) : Prop :=
  readBlocks (renderConfig c) = some (templateBlocks (buildTemplateData c) (templateStmts c))

/-- An IPv4 address, or a prefix of such addresses. -/
def IPv4Literal (a : Text) : Prop :=
  ∃ q, Prefix.parse a = some q ∧ q.family = .ip4

instance (a : Text) : Decidable (IPv4Literal a) :=
  decidable_of_iff ((Prefix.parse a).map (·.family) = some .ip4) Option.map_eq_some_iff

/-- The address operands of a statement are literals of IPv4. -/
structure AddressOperands (ts : List Token) : Prop where
  saddr : ∀ t rest, .key .ip :: .key .saddr :: t :: rest <:+ ts → ∃ a, t = .word a ∧ IPv4Literal a
  dnat : ∀ t rest, .key .dnat :: .key .target :: t :: rest <:+ ts →
    ∃ a host port, t = .word a ∧ readTarget a = some (host, port) ∧
      (Address.parseIPv4 host).isSome

/-- The address operands of a list of statements. -/
def AllOperands (ss : List (List Token)) : Prop :=
  ∀ ts ∈ ss, AddressOperands ts

/-- Every address operand of the rendered text is an IPv4 address. -/
def AddressesIPv4 (c : Config) : Prop :=
  ∀ bs, readBlocks (renderConfig c) = some bs → ∀ b ∈ bs, AllOperands b.stmts

/-- What is checked before it is stored. -/
structure Stored (c : Config) : Prop where
  interfaces : ∀ i ∈ c.interfaces, PlainName i.device
  usb : PlainName c.usbTether.interface
  ovpn : PlainName c.ovpnServerDevice
  forwards : ∀ pf ∈ c.firewall.portForwards, pf.Valid

/-! ## Proper statements -/

/-- Custom rules are checked where they are rendered. -/
theorem properStmts_custom (rules : List FirewallRule) (chain : RuleChain) :
    ProperStmts (customStmts rules chain) := by
  refine properStmts_flatMap.mpr fun r _ => properStmts_if.mpr fun _ => ?_
  cases hr : renderCustomRule r with
  | error e => simp [ProperStmts]
  | ok l =>
    refine properStmts_if.mpr fun hcond ts hts t ht => ?_
    rw [mem_singleton.mp hts] at ht
    exact .inl (proper_of_lexesLine (renderCustomRule_lexes hr hcond.1) t ht)

/-- So are open ports. -/
theorem properStmts_openPorts (openPorts : List OpenPort) :
    ProperStmts (openPortStmts openPorts) := by
  refine properStmts_flatMap.mpr fun op _ => properStmts_if.mpr fun _ => ?_
  cases hr : renderOpenPortRules op with
  | error e => simp [ProperStmts]
  | ok ls =>
    intro ts hts t ht
    obtain ⟨l, -, hlex⟩ := exists_right_of_mem (renderOpenPortRules_lines hr).flip hts
    exact .inl (proper_of_lexesLine hlex t ht)

/-! ### The chains -/

section

variable {c : Config} (h : Stored c)

include h in
/-- The values other than those of the tunnel. -/
theorem Stored.plainData : PlainData (buildTemplateData { c with ipv6 := {} }) := by
  refine buildTemplateData_plain ⟨h.interfaces, ⟨by simp, by simp⟩, h.usb, h.ovpn⟩ ⟨?_, ?_⟩
  · intro server hserver
    cases hserver
  intro pf hpf _
  exact (h.forwards pf hpf).plainWords.2

include h in
theorem properStmts_input_iff :
    ProperStmts (templateStmts c).input ↔
      ∀ server ∈ (sixInFourServer c.ipv6).toList, (Token.word server).Proper := by
  have hwords : (Token.word "41").Proper ∧ (Token.word "546").Proper ∧ (Token.word "547").Proper := by
    decide
  have hlan : ∀ lan ∈ lanInterfaces c.interfaces, quote ∉ lan :=
    fun lan hmem => (h.plainData.lan lan hmem).1
  simp only [templateStmts, inputStmts, properStmts_append, properStmts_flatMap, properStmts_if,
    properStmts_singleton, properStmts_custom, properStmts_openPorts]
  simp_all [buildTemplateData, quote]

include h in
theorem properStmts_forward_iff :
    ProperStmts (templateStmts c).forward ↔
      ∀ lan ∈ lanInterfaces c.interfaces, ∀ wan ∈ sixInFourDevices c.ipv6, quote ∉ wan := by
  obtain ⟨hlan, hwan, -, hdevice, hvlans, husb, hserver, hclients, hovpn, -, -⟩ := h.plainData
  have hforwards := fun pf hpf => (h.forwards pf hpf).proper.1
  simp only [templateStmts, forwardStmts, leadStmts, passStmts, isolateStmts, portForwardStmts,
    pairTokens, properStmts_append, properStmts_flatMap, properStmts_if, properStmts_singleton,
    properStmts_custom]
  clear h
  simp_all +contextual [buildTemplateData, PlainName, quote, wgServerIface, ovpnServerIface,
    forwardTokens, proper_decimal]

include h in
/-- **Values in their places.** What is left to the tunnel: the far end is a word, and the
device has no quote where the ruleset names it. -/
theorem contained_iff :
    Contained c ↔
      (∀ server ∈ (sixInFourServer c.ipv6).toList, (Token.word server).Proper) ∧
        ∀ lan ∈ lanInterfaces c.interfaces, ∀ wan ∈ sixInFourDevices c.ipv6, quote ∉ wan := by
  rw [Contained, readBlocks_eq_iff, ← properStmts_input_iff h, ← properStmts_forward_iff h]
  constructor
  · intro hintact
    exact ⟨hintact.input, hintact.forward⟩
  rintro ⟨hinput, hforward⟩
  have hwan := fun wan hw => (h.plainData.wan wan hw).1
  have husb := fun usb hu => (h.plainData.usb usb hu).1
  have hdevice := h.plainData.wanDevice.1
  have hforwards := fun pf hpf => (h.forwards pf hpf).proper
  refine ⟨hinput, hforward, properStmts_custom _ _, ?_, ?_⟩
  all_goals
    simp only [templateStmts, properStmts_append, properStmts_flatMap, properStmts_if,
      properStmts_singleton]
    clear h hinput hforward
    simp_all +contextual [buildTemplateData, natTokens, proper_decimal]

end

/-! ## Address operands

Token by token: an operand is looked for behind `ip` and behind `dnat`. -/

/-- A target with an IPv4 address in front of the port. -/
def IPv4Target (a : Text) : Prop :=
  ∃ host port, readTarget a = some (host, port) ∧ (Address.parseIPv4 host).isSome

section

variable {t : Token} {ts : List Token} {a : Text}

@[simp] theorem addressOperands_nil : AddressOperands [] := by
  constructor <;> simp

/-- The operands of the first match, if it is one, and those of the rest. -/
theorem addressOperands_cons_iff : AddressOperands (t :: ts) ↔
    (∀ u rest, .key .ip :: .key .saddr :: u :: rest = t :: ts → ∃ a, u = .word a ∧ IPv4Literal a) ∧
    (∀ u rest, .key .dnat :: .key .target :: u :: rest = t :: ts → ∃ a, u = .word a ∧ IPv4Target a) ∧
    AddressOperands ts := by
  constructor
  · intro h
    refine ⟨fun u rest heq => h.saddr u rest (heq ▸ suffix_rfl), fun u rest heq => ?_,
      fun u rest hs => h.saddr u rest (hs.trans (suffix_cons t ts)),
      fun u rest hs => h.dnat u rest (hs.trans (suffix_cons t ts))⟩
    obtain ⟨a, host, port, hu, htarget⟩ := h.dnat u rest (heq ▸ suffix_rfl)
    exact ⟨a, hu, host, port, htarget⟩
  · rintro ⟨hsaddr, hdnat, h⟩
    constructor
    · intro u rest hs
      rcases suffix_cons_iff.mp hs with heq | hs
      · exact hsaddr u rest heq
      · exact h.saddr u rest hs
    · intro u rest hs
      rcases suffix_cons_iff.mp hs with heq | hs
      · obtain ⟨a, hu, host, port, htarget⟩ := hdnat u rest heq
        exact ⟨a, host, port, hu, htarget⟩
      · exact h.dnat u rest hs

@[simp] theorem addressOperands_cons (hip : t ≠ .key .ip) (hdnat : t ≠ .key .dnat) :
    AddressOperands (t :: ts) ↔ AddressOperands ts := by
  simp [addressOperands_cons_iff, hip.symm, hdnat.symm]

@[simp] theorem addressOperands_ip (ht : t ≠ .key .saddr) :
    AddressOperands (.key .ip :: t :: ts) ↔ AddressOperands (t :: ts) := by
  rw [addressOperands_cons_iff]
  simp [ht.symm]

@[simp] theorem addressOperands_saddr :
    AddressOperands (.key .ip :: .key .saddr :: .word a :: ts) ↔
      IPv4Literal a ∧ AddressOperands ts := by
  rw [addressOperands_cons_iff]
  simp

@[simp] theorem addressOperands_dnat :
    AddressOperands (.key .dnat :: .key .target :: .word a :: ts) ↔
      IPv4Target a ∧ AddressOperands ts := by
  rw [addressOperands_cons_iff]
  simp

end

/-! ### Rules of the config -/

/-- An address that the renderer matches in IPv4 is one. -/
def MatchedIPv4 (a : Text) : Prop :=
  a ≠ [] → matcherFamily a = .ip4 → IPv4Literal a

instance (a : Text) : Decidable (MatchedIPv4 a) :=
  inferInstanceAs (Decidable (_ → _))

theorem addressOperands_source (a : Text) (ts : List Token) :
    AddressOperands (addressTokens .source a ++ ts) ↔ MatchedIPv4 a ∧ AddressOperands ts := by
  unfold addressTokens MatchedIPv4
  by_cases ha : a = []
  · simp [ha]
  · cases hf : matcherFamily a <;> simp [ha, familyKey, Side.addrKey]

theorem addressOperands_destination (a : Text) (ts : List Token) :
    AddressOperands (addressTokens .destination a ++ ts) ↔ AddressOperands ts := by
  unfold addressTokens
  by_cases ha : a = []
  · simp [ha]
  · cases hf : matcherFamily a <;> simp [ha, familyKey, Side.addrKey]

theorem addressOperands_custom (r : FirewallRule) :
    AddressOperands (customTokens r) ↔ MatchedIPv4 r.srcIP := by
  have hinterface : ∀ ts, AddressOperands (interfaceTokens r ++ ts) ↔ AddressOperands ts := by
    intro ts
    unfold interfaceTokens
    split_ifs <;> simp
  have hend : AddressOperands (protocolTokens r ++ [.key (actionKey r.action)]) := by
    unfold protocolTokens protocolKey actionKey
    split_ifs <;> simp
  simp only [customTokens, flatten_cons, flatten_nil, append_nil, append_assoc,
    hinterface, addressOperands_source, addressOperands_destination, hend, and_true]

theorem addressOperands_openPort (op : OpenPort) {k : Keyword} (hk : k ∈ op.keys) :
    AddressOperands (openPortTokens op k) ↔ MatchedIPv4 (trimSpace op.source) := by
  have hend : AddressOperands ([.key k, .key .dport, .word (decimal op.port), .key .ct, .key .state,
      .key .new] ++ (limitTokens op.rateLimit ++ [.key .accept])) := by
    have hkey := OpenPort.mem_keys hk
    unfold limitTokens
    rcases hkey with rfl | rfl <;> split_ifs <;> simp
  rw [openPortTokens, addressOperands_source]
  exact and_iff_left hend

variable {pf : PortForward}

/-- The protocol of a forward starts no operand. -/
theorem PortForward.Valid.protocol_ne (h : pf.Valid) :
    Token.ofWord pf.protocol ≠ .key .ip ∧ Token.ofWord pf.protocol ≠ .key .dnat := by
  rcases h.protocol with hp | hp | hp
  all_goals
    rw [hp]
    decide

theorem addressOperands_nat (h : pf.Valid) (wan : Text) :
    AddressOperands (natTokens wan pf) ↔ (Address.parseIPv4 pf.intIP).isSome := by
  have htarget : IPv4Target (pf.intIP ++ ':' :: decimal pf.intPort) ↔
      (Address.parseIPv4 pf.intIP).isSome := by
    unfold IPv4Target
    rw [readTarget_eq h]
    by_cases hv4 : (Address.parseIPv4 pf.intIP).isSome
    · simp [hv4]
    · simp [hv4]
  simp [natTokens, h.protocol_ne, htarget]

theorem addressOperands_forward (h : pf.Valid) (wan : Text) :
    AddressOperands (forwardTokens wan pf) := by
  simp [forwardTokens, h.protocol_ne]

/-! ### The chains -/

theorem allOperands_append {ss us : List (List Token)} :
    AllOperands (ss ++ us) ↔ AllOperands ss ∧ AllOperands us :=
  forall_mem_append

theorem allOperands_singleton {ts : List Token} : AllOperands [ts] ↔ AddressOperands ts :=
  forall_mem_singleton

theorem allOperands_flatMap {α : Type} {xs : List α} {f : α → List (List Token)} :
    AllOperands (xs.flatMap f) ↔ ∀ x ∈ xs, AllOperands (f x) := by
  simp only [AllOperands, mem_flatMap]
  constructor
  · intro h x hx ts hts
    exact h ts ⟨x, hx, hts⟩
  · rintro h ts ⟨x, hx, hts⟩
    exact h x hx ts hts

theorem allOperands_if {p : Prop} [Decidable p] {ss : List (List Token)} :
    AllOperands (if p then ss else []) ↔ (p → AllOperands ss) := by
  split <;> simp_all [AllOperands]

/-- The sources of the custom rules that are rendered. -/
def CustomSources (rules : List FirewallRule) : Prop :=
  ∀ r ∈ rules, r.enabled → ∀ l, renderCustomRule r = .ok l → l ≠ [] → MatchedIPv4 r.srcIP

/-- The sources of the open ports that are rendered. -/
def OpenPortSources (openPorts : List OpenPort) : Prop :=
  ∀ op ∈ openPorts, op.enabled → ∀ ls, renderOpenPortRules op = .ok ls →
    MatchedIPv4 (trimSpace op.source)

theorem allOperands_custom {rules : List FirewallRule} :
    (∀ chain, AllOperands (customStmts rules chain)) ↔ CustomSources rules := by
  simp only [customStmts, allOperands_flatMap, allOperands_if]
  constructor
  · intro h r hr hen l hl hne
    have hone := h r.target r hr hen
    simp only [hl, hne, ne_eq, not_false_eq_true, and_self, if_true] at hone
    exact (addressOperands_custom r).mp (allOperands_singleton.mp hone)
  · intro h chain r hr hen
    cases hl : renderCustomRule r with
    | error e => simp [AllOperands]
    | ok l =>
      refine allOperands_if.mpr fun hcond => allOperands_singleton.mpr ?_
      exact (addressOperands_custom r).mpr (h r hr hen l hl hcond.1)

theorem allOperands_openPorts {openPorts : List OpenPort} :
    AllOperands (openPortStmts openPorts) ↔ OpenPortSources openPorts := by
  simp only [openPortStmts, allOperands_flatMap, allOperands_if]
  refine forall_congr' fun op => forall_congr' fun _ => forall_congr' fun _ => ?_
  cases hr : renderOpenPortRules op with
  | error e => simp [AllOperands]
  | ok ls =>
    constructor
    · intro h ls' _
      obtain ⟨k, hk⟩ := op.exists_key
      exact (addressOperands_openPort op hk).mp (h _ (mem_map_of_mem hk))
    · intro h ts hts
      obtain ⟨k, hk, rfl⟩ := mem_map.mp hts
      exact (addressOperands_openPort op hk).mpr (h ls rfl)

theorem allOperands_input_iff (c : Config) : AllOperands (templateStmts c).input ↔
    AllOperands (customStmts c.firewall.rules .input) ∧ OpenPortSources c.firewall.openPorts ∧
      ∀ server ∈ (sixInFourServer c.ipv6).toList, IPv4Literal server := by
  rw [← allOperands_openPorts]
  simp only [templateStmts, inputStmts, allOperands_append, allOperands_flatMap, allOperands_if,
    allOperands_singleton]
  simp [buildTemplateData, and_assoc]

section

variable {c : Config} (h : Stored c)

include h in
theorem allOperands_forward_iff : AllOperands (templateStmts c).forward ↔
    AllOperands (customStmts c.firewall.rules .forward) := by
  have hforwards : ∀ pf ∈ (buildTemplateData c).portForwards, ∀ wan,
      AddressOperands (forwardTokens wan pf) := fun pf hpf => addressOperands_forward (h.forwards pf hpf)
  simp only [templateStmts, forwardStmts, leadStmts, passStmts, isolateStmts, portForwardStmts,
    pairTokens, allOperands_append, allOperands_flatMap, allOperands_if, allOperands_singleton]
  simp +contextual [hforwards]

/-- The enabled forwards go to IPv4 hosts. -/
def ForwardTargets (forwards : List PortForward) : Prop :=
  ∀ pf ∈ forwards, pf.enabled → (Address.parseIPv4 pf.intIP).isSome

instance (forwards : List PortForward) : Decidable (ForwardTargets forwards) :=
  inferInstanceAs (Decidable (∀ pf ∈ forwards, _))

include h in
theorem allOperands_prerouting_iff : AllOperands (templateStmts c).prerouting ↔
    ForwardTargets c.firewall.portForwards := by
  simp only [templateStmts, allOperands_flatMap, allOperands_if, allOperands_singleton]
  refine forall_congr' fun pf => forall_congr' fun hpf => forall_congr' fun _ => ?_
  exact addressOperands_nat (h.forwards pf hpf) _

/-- The head of a chain has no operand. -/
theorem allOperands_chain {type hook priority : Text} {k : Keyword} {ss : List (List Token)}
    (hk : k = .accept ∨ k = .drop) :
    AllOperands (chainStmts type hook priority k ss) ↔ AllOperands ss := by
  unfold chainStmts
  rcases hk with rfl | rfl <;> simp [AllOperands]

include h in
/-- **Addresses in their places.** In a text that keeps its values in their places, the
operands are IPv4 addresses if the sources, the far end of the tunnel and the hosts that
ports are forwarded to are. -/
theorem addressesIPv4_iff (hin : Contained c) :
    AddressesIPv4 c ↔ CustomSources c.firewall.rules ∧ OpenPortSources c.firewall.openPorts ∧
      (∀ server ∈ (sixInFourServer c.ipv6).toList, IPv4Literal server) ∧
      ForwardTargets c.firewall.portForwards := by
  have hblocks : AddressesIPv4 c ↔
      ∀ b ∈ templateBlocks (buildTemplateData c) (templateStmts c), AllOperands b.stmts := by
    constructor
    · intro hall
      exact hall _ hin
    · intro hall bs hbs
      cases hin.symm.trans hbs
      exact hall
  have hpost : AllOperands (templateStmts c).postrouting ∧ AllOperands (templateStmts c).ttlfix := by
    simp only [templateStmts, allOperands_append, allOperands_flatMap, allOperands_singleton]
    simp
  have hlast : ∀ b ∈ (if (buildTemplateData c).ttlFixEnabled then
      [(⟨"ip", "nat", "ttlfix", chainStmts "filter" "postrouting" "mangle" .accept
        (templateStmts c).ttlfix⟩ : Block)] else []), AllOperands b.stmts := by
    intro b hb
    split at hb
    · rw [mem_singleton.mp hb]
      exact (allOperands_chain (.inl rfl)).mpr hpost.2
    · cases hb
  rw [hblocks, templateBlocks, forall_mem_append, and_iff_left hlast]
  simp only [forall_mem_cons, allOperands_chain (.inl (rfl : Keyword.accept = .accept)),
    allOperands_chain (.inr (rfl : Keyword.drop = .drop)), hpost.1, allOperands_input_iff,
    allOperands_forward_iff h, allOperands_prerouting_iff h]
  rw [← allOperands_custom]
  constructor
  · rintro ⟨⟨hinput, hopen, hserver⟩, hforward, houtput, htargets, -⟩
    refine ⟨fun chain => ?_, hopen, hserver, htargets⟩
    cases chain with
    | input => exact hinput
    | forward => exact hforward
    | output => exact houtput
  · rintro ⟨hcustom, hopen, hserver, htargets⟩
    exact ⟨⟨hcustom .input, hopen, hserver⟩, hcustom .forward, hcustom .output, htargets, trivial,
      forall_mem_nil _⟩

end

end Lankeeper.Firewall
