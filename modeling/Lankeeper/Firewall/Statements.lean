import Lankeeper.Firewall.Template

/-!
# Lankeeper.Firewall.Statements — the rules of the template as statements

The template splices names between quotes and other values as bare words. Here each of its
rules is a list of tokens with every value as one of them, which is what the line reads as
when the value is a proper token. `templateStmts` is the whole template in this form, and
`readBlocks_eq_iff` says when the rendered text reads as it: exactly when no value is
anything but the token it stands for.
-/

namespace Lankeeper.Firewall

open Lib Text Nft List

/-! ## Rules as tokens -/

def establishedTokens : List Token :=
  [.key .ct, .key .state, .key .established, .comma, .key .related, .key .accept]

def invalidTokens : List Token :=
  [.key .ct, .key .state, .key .invalid, .key .drop]

/-- The last rule of a chain. -/
def logTokens (text : Text) : List Token :=
  [.key .log, .key .logPrefix, .str text, .key .drop]

/-- Traffic from an interface. -/
def iifTokens (d : Text) : List Token :=
  [.key .iifname, .str d, .key .accept]

/-- Traffic from one interface to another, with its verdict. -/
def betweenTokens (k : Keyword) (i o : Text) : List Token :=
  [.key .iifname, .str i, .key .oifname, .str o, .key k]

def icmpTokens : List Token :=
  [.key .ip, .key .protocol, .key .icmp, .key .icmp, .key .type,
    .set ["echo-request", "echo-reply", "destination-unreachable", "time-exceeded"], .key .accept]

/-- The message types of the ICMPv6 rule. -/
def icmpv6Types : List Text :=
  ["destination-unreachable", "packet-too-big", "time-exceeded", "parameter-problem",
    "echo-request", "echo-reply", "nd-router-solicit", "nd-router-advert", "nd-neighbor-solicit",
    "nd-neighbor-advert", "mld-listener-query", "mld-listener-report"]

def icmpv6Tokens : List Token :=
  [.key .ip6, .key .nexthdr, .key .icmpv6, .key .icmpv6, .key .type,
    .set (icmpv6Types ++ ["mld2-listener-report".toList]), .key .accept]

def dhcpv6Tokens : List Token :=
  [.key .udp, .key .sport, .word "547", .key .udp, .key .dport, .word "546", .key .accept]

def sixInFourTokens (server : Text) : List Token :=
  [.key .ip, .key .saddr, .word server, .key .ip, .key .protocol, .word "41", .key .accept]

def clampTokens : List Token :=
  [.key .tcp, .key .flags, .key .syn, .key .tcp, .key .option, .key .maxseg, .key .size, .key .set,
    .key .rt, .key .mtu]

def clampv6Tokens : List Token :=
  .key .ip6 :: .key .nexthdr :: .key .tcp :: clampTokens

/-- Traffic that leaves by the device `o` is masqueraded. -/
def masqueradeTokens (o : Text) : List Token :=
  [.key .oifname, .str o, .key .masquerade]

def ttlTokens (value : Int) (o : Text) : List Token :=
  [.key .oifname, .str o, .key .ip, .key .ttl, .key .set, .word (decimal value)]

def forwardTokens (wan : Text) (pf : PortForward) : List Token :=
  [.key .iifname, .str wan, .ofWord pf.protocol, .key .dport, .word (decimal pf.extPort), .key .ct,
    .key .state, .key .new, .key .accept]

def natTokens (wan : Text) (pf : PortForward) : List Token :=
  [.key .iifname, .str wan, .ofWord pf.protocol, .key .dport, .word (decimal pf.extPort),
    .key .dnat, .key .target, .word (pf.intIP ++ ':' :: decimal pf.intPort)]

/-! ## The template -/

/-- The custom rules of one chain. -/
def customStmts (rules : List FirewallRule) (chain : RuleChain) : List (List Token) :=
  rules.flatMap fun r =>
    if r.enabled then
      match renderCustomRule r with
      | .ok l => if l ≠ [] ∧ r.target = chain then [customTokens r] else []
      | .error _ => []
    else []

def openPortStmts (openPorts : List OpenPort) : List (List Token) :=
  openPorts.flatMap fun op =>
    if op.enabled then
      match renderOpenPortRules op with
      | .ok _ => op.keys.map (openPortTokens op)
      | .error _ => []
    else []

def inputStmts (c : Config) (d : NftTemplateData) : List (List Token) :=
  [establishedTokens] ++ [invalidTokens] ++
  customStmts c.firewall.rules .input ++
  [iifTokens "lo"] ++
  d.lanInterfaces.flatMap (fun lan => [iifTokens lan]) ++
  [icmpTokens] ++
  [icmpv6Tokens] ++
  openPortStmts c.firewall.openPorts ++
  (if d.ipv6Enabled then [dhcpv6Tokens] else []) ++
  (d.sixInFour.toList.flatMap fun server => [sixInFourTokens server]) ++
  [logTokens "INPUT_DROP: "]

/-- Traffic between two interfaces, both ways, with its verdict. -/
def pairTokens (k : Keyword) (i o : Text) : List (List Token) :=
  [betweenTokens k i o] ++ [betweenTokens k o i]

/-- The rules that let one interface through to another. -/
def passStmts (d : NftTemplateData) : List (List Token) :=
  (d.lanInterfaces.flatMap fun lan => d.wanInterfaces.flatMap fun wan =>
    [betweenTokens .accept lan wan]) ++
  (d.usbInterface.toList.flatMap fun usb => d.lanInterfaces.flatMap fun lan =>
    [betweenTokens .accept lan usb]) ++
  (d.lanInterfaces.flatMap fun lan => d.ipv6WANInterfaces.flatMap fun wan =>
    [betweenTokens .accept lan wan]) ++
  (d.wgServerIface.toList.flatMap fun wg => d.lanInterfaces.flatMap fun lan =>
    pairTokens .accept wg lan) ++
  (d.wgClientIfaces.flatMap fun wg => d.lanInterfaces.flatMap fun lan =>
    [betweenTokens .accept lan wg]) ++
  (d.ovpnServerIface.toList.flatMap fun tun => d.lanInterfaces.flatMap fun lan =>
    pairTokens .accept tun lan)

/-- The rules that keep isolated VLANs apart. -/
def isolateStmts (d : NftTemplateData) : List (List Token) :=
  d.isolatedVLANs.flatMap fun vlan => d.lanInterfaces.flatMap fun lan => pairTokens .drop vlan lan

/-- The statements of the forward chain in front of those on interfaces. -/
def leadStmts (c : Config) (d : NftTemplateData) : List (List Token) :=
  [clampTokens] ++
  (if d.ipv6Enabled then [clampv6Tokens] else []) ++
  ([establishedTokens] ++ [invalidTokens]) ++
  customStmts c.firewall.rules .forward

def portForwardStmts (d : NftTemplateData) : List (List Token) :=
  d.portForwards.flatMap fun pf => if pf.enabled then [forwardTokens d.wanDevice pf] else []

def forwardStmts (c : Config) (d : NftTemplateData) : List (List Token) :=
  leadStmts c d ++ passStmts d ++ isolateStmts d ++ portForwardStmts d ++ [logTokens "FORWARD_DROP: "]

/-- `configs/sysconf/nftables.conf.tmpl`, with every value as one token. -/
def templateStmts (c : Config) : ChainStmts :=
  let d := buildTemplateData c
  { input := inputStmts c d
    forward := forwardStmts c d
    output := customStmts c.firewall.rules .output
    prerouting := d.portForwards.flatMap fun pf =>
      if pf.enabled then [natTokens d.wanDevice pf] else []
    postrouting := (d.wanInterfaces.flatMap fun wan => [masqueradeTokens wan]) ++
      d.usbInterface.toList.flatMap fun usb => [masqueradeTokens usb]
    ttlfix := (d.wanInterfaces.flatMap fun wan => [ttlTokens d.ttlFixValue wan]) ++
      d.usbInterface.toList.flatMap fun usb => [ttlTokens d.ttlFixValue usb] }

/-! ## Reading the rules -/

theorem iifRule_readsAs (d : Text) : ReadsAs [rule ["iifname", quoted d, "accept"]] [iifTokens d] :=
  readsAs_tokens (by simp [iifTokens]) (by simp [iifTokens])

theorem betweenRule_readsAs (k : Keyword) (i o : Text) :
    ReadsAs [rule ["iifname", quoted i, "oifname", quoted o, k.spell]] [betweenTokens k i o] :=
  readsAs_tokens (by simp [betweenTokens]) (by simp [betweenTokens])

theorem passRule_readsAs (i o : Text) : ReadsAs [passRule i o] [betweenTokens .accept i o] :=
  betweenRule_readsAs .accept i o

theorem pairRules_readsAs (i o : Text) : ReadsAs (pairRules i o) (pairTokens .accept i o) :=
  (passRule_readsAs i o).append (passRule_readsAs o i)

theorem isolateRules_readsAs (i o : Text) : ReadsAs (isolateRules i o) (pairTokens .drop i o) :=
  (betweenRule_readsAs .drop i o).append (betweenRule_readsAs .drop o i)

theorem logRule_readsAs (text : Text) :
    ReadsAs [rule ["log", "prefix", quoted text, "drop"]] [logTokens text] :=
  readsAs_tokens (by simp [logTokens]) (by simp [logTokens])

theorem conntrackRules_readsAs : ReadsAs conntrackRules ([establishedTokens] ++ [invalidTokens]) := by
  have hstates : Lexes "established,related" [.key .established, .comma, .key .related] :=
    (lexes_key .established).marked (s := ',') rfl (lexes_key .related)
  have hpass : ReadsAs [rule ["ct", "state", "established,related", "accept"]]
      [establishedTokens] := by
    intro _
    exact reads_stmt (line_lexes (.cons (lexes_key .ct) (.cons (lexes_key .state) (.cons hstates
      (.cons (lexes_key .accept) .nil)))) (by simp)) (by simp [establishedTokens])
      (by simp [establishedTokens, Token.plain])
  have hdrop : ReadsAs [rule ["ct", "state", "invalid", "drop"]] [invalidTokens] :=
    readsAs_tokens (by simp [invalidTokens]) (by simp [invalidTokens])
  exact hpass.append hdrop

/-- The words of a set, each with a comma behind it. -/
theorem lexes_element {w : Text} (hw : w ∈ templateWords) : Lexes (w ++ [',']) [.word w, .comma] :=
  (lexes_templateWord hw).mark rfl

theorem icmpRule_readsAs : ReadsAs icmpRule [icmpTokens] := by
  intro _
  refine reads_of_tokens (.cons (line_lexes (.cons (lexes_key .ip)
    (.cons (lexes_key .protocol) (.cons (lexes_key .icmp) (.cons (lexes_key .icmp)
    (.cons (lexes_key .type) (.cons (lexes_symbol rfl)
    (.cons (lexes_element (w := "echo-request") (by decide))
    (.cons (lexes_element (w := "echo-reply") (by decide))
    (.cons (lexes_element (w := "destination-unreachable") (by decide))
    (.cons (lexes_templateWord (by decide)) (.cons (lexes_symbol rfl)
    (.cons (lexes_key .accept) .nil)))))))))))) (by simp)) .nil) ?_
  intro rest
  simp [itemsFrom, stmtOf, opensBlock, elements, icmpTokens]

/-- The head of the rule, a line for each type, and the end of the rule. -/
theorem icmpv6Rule_eq :
    icmpv6Rule = line 8 ["ip6", "nexthdr", "icmpv6", "icmpv6", "type", "\x7b"] ::
      (icmpv6Types.map (fun w => line 12 [w ++ [',']]) ++
        [line 12 ["mld2-listener-report"], line 8 ["\x7d", "accept"]]) := by
  unfold icmpv6Rule icmpv6Types
  repeat rw [String.toList_ofList]
  rfl

theorem icmpv6Rule_readsAs : ReadsAs icmpv6Rule [icmpv6Tokens] := by
  have hhead : LexesLine (line 8 ["ip6", "nexthdr", "icmpv6", "icmpv6", "type", "\x7b"])
      [.key .ip6, .key .nexthdr, .key .icmpv6, .key .icmpv6, .key .type, .lbrace] :=
    line_lexes (.cons (lexes_key .ip6) (.cons (lexes_key .nexthdr) (.cons (lexes_key .icmpv6)
      (.cons (lexes_key .icmpv6) (.cons (lexes_key .type) (.cons (lexes_symbol rfl) .nil))))))
      (by simp)
  have htypes : List.Forall₂ LexesLine (icmpv6Types.map fun w => line 12 [w ++ [',']])
      (icmpv6Types.map fun w => [.word w, .comma]) := by
    rw [forall₂_map_left_iff, forall₂_map_right_iff, forall₂_same]
    intro w hw
    -- where the types stand among the words of the template
    have hplaces : icmpv6Types = [18, 20, 19, 21, 16, 17, 22, 23, 24, 25, 26, 27].filterMap
        (templateWords[·]?) := rfl
    rw [hplaces] at hw
    obtain ⟨i, -, hi⟩ := mem_filterMap.mp hw
    exact line_lexes (.cons (lexes_element (mem_of_getElem? hi)) .nil) (by simp)
  have hlast : LexesLine (line 12 ["mld2-listener-report"]) [.word "mld2-listener-report"] :=
    line_lexes (.cons (lexes_templateWord (by decide)) .nil) (by simp)
  have hend : LexesLine (line 8 ["\x7d", "accept"]) [.rbrace, .key .accept] :=
    line_lexes (.cons (lexes_symbol rfl) (.cons (lexes_key .accept) .nil)) (by simp)
  intro _
  rw [icmpv6Rule_eq]
  refine reads_of_tokens (.cons hhead (rel_append htypes (.cons hlast (.cons hend .nil)))) ?_
  intro rest
  simp [itemsFrom, stmtOf, opensBlock, elements, icmpv6Tokens, icmpv6Types]

theorem portForwardRules_eq (d : NftTemplateData) : portForwardRules d =
    d.portForwards.flatMap fun pf =>
      if pf.enabled then [rule ((forwardTokens d.wanDevice pf).map Token.text)] else [] := by
  simp only [forwardTokens, map_cons, ofWord_text]
  rfl

theorem preroutingRules_eq (d : NftTemplateData) : preroutingRules d =
    d.portForwards.flatMap fun pf =>
      if pf.enabled then [rule ((natTokens d.wanDevice pf).map Token.text)] else [] := by
  simp only [natTokens, map_cons, ofWord_text]
  rfl

theorem portForwardRules_readsAs (d : NftTemplateData) :
    ReadsAs (portForwardRules d) (portForwardStmts d) := by
  rw [portForwardRules_eq]
  exact readsAs_flatMap fun pf _ => readsAs_if fun _ =>
    readsAs_tokens (by simp [forwardTokens]) (by simp [forwardTokens])

theorem preroutingRules_readsAs (c : Config) :
    ReadsAs (preroutingRules (buildTemplateData c)) (templateStmts c).prerouting := by
  rw [preroutingRules_eq]
  exact readsAs_flatMap fun pf _ => readsAs_if fun _ =>
    readsAs_tokens (by simp [natTokens]) (by simp [natTokens])

theorem masqueradeRule_readsAs (o : Text) :
    ReadsAs [rule ["oifname", quoted o, "masquerade"]] [masqueradeTokens o] :=
  readsAs_tokens (by simp [masqueradeTokens]) (by simp [masqueradeTokens])

theorem ttlRule_readsAs (value : Int) (o : Text) :
    ReadsAs [rule ["oifname", quoted o, "ip", "ttl", "set", decimal value]] [ttlTokens value o] :=
  readsAs_tokens (by simp [ttlTokens]) (by simp [ttlTokens])

theorem dhcpv6Rule_readsAs :
    ReadsAs [rule ["udp", "sport", "547", "udp", "dport", "546", "accept"]] [dhcpv6Tokens] :=
  readsAs_tokens (by simp [dhcpv6Tokens]) (by simp [dhcpv6Tokens])

theorem clampRule_readsAs : ReadsAs
    [rule ["tcp", "flags", "syn", "tcp", "option", "maxseg", "size", "set", "rt", "mtu"]]
    [clampTokens] :=
  readsAs_tokens (by simp [clampTokens]) (by simp [clampTokens])

theorem clampv6Rule_readsAs : ReadsAs
    [rule ["ip6", "nexthdr", "tcp", "tcp", "flags", "syn", "tcp", "option", "maxseg", "size", "set",
      "rt", "mtu"]] [clampv6Tokens] :=
  readsAs_tokens (by simp [clampv6Tokens]) (by simp [clampv6Tokens, clampTokens])

/-- The rules of the config are validated where they are rendered. -/
theorem customRules_readsAs (rules : List FirewallRule) (chain : RuleChain) :
    ReadsAs (buildCustomRules rules chain) (customStmts rules chain) := by
  refine readsAs_flatMap fun r _ => readsAs_if fun _ => ?_
  rcases hr : renderCustomRule r with e | l
  · exact readsAs_nil
  · refine readsAs_if fun hcond _ => ?_
    exact reads_stmt (renderCustomRule_lexes hr hcond.1) (by simp [customTokens])
      (customTokens_plain r)

theorem openPortRules_readsAs (openPorts : List OpenPort) :
    ReadsAs (buildOpenPortRules openPorts) (openPortStmts openPorts) := by
  refine readsAs_flatMap fun op _ => readsAs_if fun _ => ?_
  rcases hr : renderOpenPortRules op with e | ls
  · exact readsAs_nil
  intro _
  refine reads_stmts (renderOpenPortRules_lines hr) ?_ ?_
  · simp [openPortTokens]
  · intro ts hts
    obtain ⟨k, -, rfl⟩ := mem_map.mp hts
    exact openPortTokens_plain op k

/-! ## Reading the chains -/

theorem inputRules_readsAs (c : Config) :
    ReadsAs (inputRules (buildTemplateData c)) (inputStmts c (buildTemplateData c)) := by
  have hserver : ∀ server : Text,
      ReadsAs [rule ["ip", "saddr", server, "ip", "protocol", "41", "accept"]]
        [sixInFourTokens server] :=
    fun server => readsAs_tokens (by simp [sixInFourTokens]) (by simp [sixInFourTokens])
  repeat' apply ReadsAs.append
  · exact conntrackRules_readsAs
  · exact customRules_readsAs c.firewall.rules .input
  · exact iifRule_readsAs "lo"
  · exact readsAs_flatMap fun lan _ => iifRule_readsAs lan
  · exact icmpRule_readsAs
  · exact icmpv6Rule_readsAs
  · exact openPortRules_readsAs c.firewall.openPorts
  · exact readsAs_if fun _ => dhcpv6Rule_readsAs
  · exact readsAs_flatMap fun server _ => hserver server
  · exact logRule_readsAs "INPUT_DROP: "

theorem forwardRules_readsAs (c : Config) :
    ReadsAs (forwardRules (buildTemplateData c)) (forwardStmts c (buildTemplateData c)) := by
  rw [forwardStmts, passStmts]
  simp only [← append_assoc]
  repeat' apply ReadsAs.append
  · exact clampRule_readsAs
  · exact readsAs_if fun _ => clampv6Rule_readsAs
  · exact conntrackRules_readsAs
  · exact customRules_readsAs c.firewall.rules .forward
  · exact readsAs_flatMap fun lan _ => readsAs_flatMap fun wan _ => passRule_readsAs lan wan
  · exact readsAs_flatMap fun usb _ => readsAs_flatMap fun lan _ => passRule_readsAs lan usb
  · exact readsAs_flatMap fun lan _ => readsAs_flatMap fun wan _ => passRule_readsAs lan wan
  · exact readsAs_flatMap fun wg _ => readsAs_flatMap fun lan _ => pairRules_readsAs wg lan
  · exact readsAs_flatMap fun wg _ => readsAs_flatMap fun lan _ => passRule_readsAs lan wg
  · exact readsAs_flatMap fun tun _ => readsAs_flatMap fun lan _ => pairRules_readsAs tun lan
  · exact readsAs_flatMap fun vlan _ => readsAs_flatMap fun lan _ => isolateRules_readsAs vlan lan
  · exact portForwardRules_readsAs _
  · exact logRule_readsAs "FORWARD_DROP: "

/-- Every value of the config is one token where the template puts it. The statements of the
`ttlfix` chain hold no other values than those of the postrouting chain. -/
structure Intact (c : Config) : Prop where
  input : ProperStmts (templateStmts c).input
  forward : ProperStmts (templateStmts c).forward
  output : ProperStmts (templateStmts c).output
  prerouting : ProperStmts (templateStmts c).prerouting
  postrouting : ProperStmts (templateStmts c).postrouting

theorem ttlTokens_proper {value : Int} {o : Text}
    (h : ∀ t ∈ masqueradeTokens o, t.Proper ∨ ∃ es, t = .set es) :
    ∀ t ∈ ttlTokens value o, t.Proper ∨ ∃ es, t = .set es := by
  have ho := h (.str o) (by simp [masqueradeTokens])
  simp only [ttlTokens, forall_mem_cons]
  exact ⟨.inl trivial, ho, .inl trivial, .inl trivial, .inl trivial,
    .inl (proper_decimal value), by simp⟩

theorem Intact.chainReads {c : Config} (h : Intact c) :
    ChainReads (buildTemplateData c) (templateStmts c) where
  input := inputRules_readsAs c h.input
  forward := forwardRules_readsAs c h.forward
  output := customRules_readsAs c.firewall.rules .output h.output
  prerouting := preroutingRules_readsAs c h.prerouting
  postrouting := ((readsAs_flatMap fun wan _ => masqueradeRule_readsAs wan).append
    (readsAs_flatMap fun usb _ => masqueradeRule_readsAs usb)) h.postrouting
  ttlfix := by
    refine ((readsAs_flatMap fun wan _ => ttlRule_readsAs _ wan).append
      (readsAs_flatMap fun usb _ => ttlRule_readsAs _ usb)) ?_
    have hproper := properStmts_append.mp h.postrouting
    refine properStmts_append.mpr ⟨?_, ?_⟩
    · intro ts hts
      obtain ⟨wan, hwan, hts⟩ := mem_flatMap.mp hts
      obtain rfl := mem_singleton.mp hts
      exact ttlTokens_proper (hproper.1 _ (mem_flatMap.mpr ⟨wan, hwan, mem_singleton_self _⟩))
    · intro ts hts
      obtain ⟨usb, husb, hts⟩ := mem_flatMap.mp hts
      obtain rfl := mem_singleton.mp hts
      exact ttlTokens_proper (hproper.2 _ (mem_flatMap.mpr ⟨usb, husb, mem_singleton_self _⟩))

/-- **What the rendered text says.** It reads as the template with every value as one token
exactly when every value is one. -/
theorem readBlocks_eq_iff (c : Config) :
    readBlocks (renderConfig c) = some (templateBlocks (buildTemplateData c) (templateStmts c)) ↔
      Intact c := by
  constructor
  · intro h
    have hchain : ∀ {family table name type hook priority : Text} {k : Keyword}
        {ss : List (List Token)},
        ⟨family, table, name, chainStmts type hook priority k ss⟩ ∈
          templateBlocks (buildTemplateData c) (templateStmts c) → ProperStmts ss := by
      intro family table name type hook priority k ss hmem ts hts
      have hproper := proper_of_readBlocks h hmem
      exact hproper ts (mem_cons_of_mem _ (mem_cons_of_mem _ hts))
    refine ⟨?_, ?_, ?_, ?_, ?_⟩
    · exact hchain (input_mem_templateBlocks _ _)
    · exact hchain (forward_mem_templateBlocks _ _)
    · exact hchain (output_mem_templateBlocks _ _)
    · exact hchain (prerouting_mem_templateBlocks _ _)
    · exact hchain (postrouting_mem_templateBlocks _ _)
  · intro h
    obtain ⟨is, hread, hblocks⟩ := template_reads h.chainReads
    rw [renderConfig, readBlocks_of_reads hread, hblocks]

end Lankeeper.Firewall
