import Lankeeper.Firewall.DefaultDeny

/-!
# Lankeeper.Firewall.Admission — what the filter chains accept

`Lankeeper.Firewall.DefaultDeny` bounds what gets in. Here the verdicts on new
connections are exact, for a ruleset that loads, whose values are intact and that has
no custom rules: the input chain for UDP packets (`input_accepts_iff`), and the
forward chain for packets of any kind (`forward_accepts_iff`).

The names in the ruleset are patterns, so that a device may be covered by a name other
than its own (`Named`).
-/

namespace Lankeeper.Firewall

open Lib Text Nft List

/-! ## In terms of the config -/

/-- One of the names stands for the device. -/
def Named (names : List Text) (device : Text) : Prop :=
  ∃ n ∈ names, ifnameMatches n device

instance (names : List Text) (device : Text) : Decidable (Named names device) :=
  inferInstanceAs (Decidable (∃ n ∈ names, _))

/-- The devices that the LAN opens connections by, and that open none to it. -/
def uplinks (c : Config) : List Text :=
  wanInterfaces c.interfaces ++ (usbInterface c.usbTether).toList ++ sixInFourDevices c.ipv6 ++
    (buildTemplateData c).wgClientIfaces

/-- The devices of the VPN servers, which the LAN talks with both ways. -/
def vpnServers (c : Config) : List Text :=
  (wgServerIface c).toList ++ (ovpnServerIface c).toList

/-- A rule of the template lets connections pass from `i` to `o`. -/
def Passes (c : Config) (i o : Text) : Prop :=
  (Named (lanInterfaces c.interfaces) i ∧ (Named (uplinks c) o ∨ Named (vpnServers c) o)) ∨
    (Named (vpnServers c) i ∧ Named (lanInterfaces c.interfaces) o)

/-- A rule of the template keeps an isolated VLAN and the LAN apart. -/
def Separated (c : Config) (i o : Text) : Prop :=
  (Named (isolatedVLANs c.interfaces c.vlans) i ∧ Named (lanInterfaces c.interfaces) o) ∨
    (Named (lanInterfaces c.interfaces) i ∧ Named (isolatedVLANs c.interfaces c.vlans) o)

/-- An open port lets the packet in. -/
def OpenPort.Admits (out : Outside) (op : OpenPort) (p : Packet) : Prop :=
  op.enabled ∧ (∃ ls, renderOpenPortRules op = .ok ls) ∧ op.Matches p ∧ op.Within out

/-- A port forward on the WAN device lets the packet through. -/
def PortForward.Admits (pf : PortForward) (wan : Text) (p : Packet) : Prop :=
  pf.enabled ∧ ifnameMatches wan p.iif ∧
    (∃ t, (Keyword.ofText pf.protocol).bind Transport.ofKey = some t ∧ t.covers p.proto) ∧
    pf.extPort = p.dport

theorem named_append {xs ys : List Text} {d : Text} : Named (xs ++ ys) d ↔ Named xs d ∨ Named ys d := by
  simp [Named, or_and_right, exists_or]

theorem named_both {xs ys : List Text} {d e : Text} :
    (∃ i o, (i ∈ xs ∧ o ∈ ys) ∧ ifnameMatches i d ∧ ifnameMatches o e) ↔
      Named xs d ∧ Named ys e := by
  constructor
  · rintro ⟨i, o, ⟨hi, ho⟩, hd, he⟩
    exact ⟨⟨i, hi, hd⟩, o, ho, he⟩
  · rintro ⟨⟨i, hi, hd⟩, o, ho, he⟩
    exact ⟨i, o, ⟨hi, ho⟩, hd, he⟩

theorem named_of_mem {xs : List Text} {d : Text} (h : d ∈ xs) : Named xs d :=
  ⟨d, h, ifnameMatches_self d⟩

/-! ## Statement by statement -/

section

variable {out : Outside} {p : Packet} {w : Verdict}

theorem fires_iifTokens_iff {d : Text} (hp : (Rule.parse (iifTokens d)).isSome) :
    Fires out p (some w) (iifTokens d) ↔ ifnameMatches d p.iif ∧ w = .accept := by
  have hend : Fires out p (some w) [.key .accept] ↔ some w = some .accept := fires_end_iff rfl
  exact (fires_iifname_iff hp).trans (and_congr_right fun _ => hend.trans Option.some_inj)

theorem fires_betweenTokens_iff {k : Keyword} {w' : Verdict} {i o dst : Text}
    (hk : Rule.parse [.key k] = some ⟨[], some w'⟩) (hoif : p.oif = some dst)
    (hp : (Rule.parse (betweenTokens k i o)).isSome) :
    Fires out p (some w) (betweenTokens k i o) ↔
      ifnameMatches i p.iif ∧ ifnameMatches o dst ∧ w = w' := by
  have hrest := (isSome_of_cons rfl hp).2
  refine (fires_iifname_iff hp).trans (and_congr_right fun _ => ?_)
  refine (fires_oifname_iff hrest).trans (and_congr ?_ ((fires_end_iff hk).trans Option.some_inj))
  simp [hoif]

/-- New connections pass the conntrack rules by. -/
theorem not_decided_conntrack (hnew : p.state = .new) :
    ¬ Decided out p w ([establishedTokens] ++ [invalidTokens]) := by
  rw [decided_append, decided_singleton, decided_singleton]
  rintro (h | h)
  all_goals
    obtain ⟨⟨x, hx, hold⟩, -⟩ := fires_of_cons rfl h
    cases hx
    simp only [Clause.holds, hnew] at hold
    cases hold

theorem fires_logTokens_iff {text : Text} : Fires out p (some w) (logTokens text) ↔ w = .drop := by
  have hcons : Fires out p (some w) (logTokens text) ↔ _ ∧ Fires out p (some w) [.key .drop] :=
    fires_cons_iff rfl
  have hend : Fires out p (some w) [.key .drop] ↔ some w = some .drop := fires_end_iff rfl
  rw [hcons, hend]
  simp [Clause.holds]

theorem decided_openPorts {openPorts : List OpenPort} (hnew : p.state = .new)
    (hp : Parses (openPortStmts openPorts)) :
    Decided out p w (openPortStmts openPorts) ↔
      (∃ op ∈ openPorts, op.Admits out p) ∧ w = .accept := by
  unfold openPortStmts at hp ⊢
  rw [decided_flatMap, ← exists_and_right]
  refine exists_congr fun op => ?_
  rw [and_assoc]
  refine and_congr_right fun hop => ?_
  rw [decided_if, OpenPort.Admits, and_assoc]
  refine and_congr_right fun hen => ?_
  rcases hr : renderOpenPortRules op with e | ls
  · simp
  have hparse : Parses (op.keys.map (openPortTokens op)) := by
    intro ts hts
    refine hp ts (mem_flatMap.mpr ⟨op, hop, ?_⟩)
    rw [if_pos hen, hr]
    exact hts
  have hfires : Decided out p w (op.keys.map (openPortTokens op)) ↔
      ∃ k ∈ op.keys, Fires out p (some w) (openPortTokens op k) := by
    simp [Decided]
  rw [hfires, openPort_fires_iff hr hparse]
  simp [hnew, and_assoc]

theorem fires_forwardTokens_iff {wan : Text} {pf : PortForward} (hnew : p.state = .new)
    (hen : pf.enabled) (hp : (Rule.parse (forwardTokens wan pf)).isSome) :
    Fires out p (some w) (forwardTokens wan pf) ↔ pf.Admits wan p ∧ w = .accept := by
  have hrest := (isSome_of_cons rfl hp).2
  have hend : Fires out p (some w) [.key .ct, .key .state, .key .new, .key .accept] ↔ w = .accept := by
    have hcons : Fires out p (some w) [.key .ct, .key .state, .key .new, .key .accept] ↔
        _ ∧ Fires out p (some w) [.key .accept] := fires_cons_iff rfl
    have haccept : Fires out p (some w) [.key .accept] ↔ some w = some .accept := fires_end_iff rfl
    rw [hcons, haccept]
    simp [CtState.ofKey, Clause.holds, hnew]
  refine (fires_iifname_iff hp).trans ?_
  unfold PortForward.Admits
  -- a protocol that is no keyword is outside the fragment
  rcases hk : Keyword.ofText pf.protocol with _ | k
  · have hword : Token.ofWord pf.protocol = .word pf.protocol := by simp [Token.ofWord, hk]
    rw [hword] at hrest
    cases hrest
  have hkey : Token.ofWord pf.protocol = .key k := by simp [Token.ofWord, hk]
  rw [hkey] at hrest ⊢
  rw [fires_dport_iff hrest, hend, readNat_decimal]
  simp only [hen, Option.bind_some, true_and]
  constructor
  · rintro ⟨hiif, ⟨t, ht, hcov, hport⟩, hw⟩
    exact ⟨⟨hiif, ⟨t, ht, hcov⟩, hport⟩, hw⟩
  · rintro ⟨⟨hiif, ⟨t, ht, hcov⟩, hport⟩, hw⟩
    exact ⟨hiif, ⟨t, ht, hcov, hport⟩, hw⟩

/-- The last rule of a chain accepts nothing. -/
theorem verdictBy_log {text : Text} : verdictBy out p [logTokens text] ≠ some .accept := by
  intro hv
  cases fires_logTokens_iff.mp (decided_singleton.mp (decided_of_verdictBy hv))

/-- Rules between interfaces that `R` relates, all with the same verdict. -/
theorem decided_between {k : Keyword} {w' : Verdict} {R : Text → Text → Prop} {dst : Text}
    {ss : List (List Token)} (hk : Rule.parse [.key k] = some ⟨[], some w'⟩)
    (hss : ∀ ts, ts ∈ ss ↔ ∃ i o, R i o ∧ ts = betweenTokens k i o) (hoif : p.oif = some dst)
    (hp : Parses ss) :
    Decided out p w ss ↔ (∃ i o, R i o ∧ ifnameMatches i p.iif ∧ ifnameMatches o dst) ∧ w = w' := by
  constructor
  · rintro ⟨ts, hts, h⟩
    obtain ⟨i, o, hR, rfl⟩ := (hss ts).mp hts
    obtain ⟨hi, ho, hw⟩ := (fires_betweenTokens_iff hk hoif (hp _ hts)).mp h
    exact ⟨⟨i, o, hR, hi, ho⟩, hw⟩
  · rintro ⟨⟨i, o, hR, hi, ho⟩, hw⟩
    have hts := (hss _).mpr ⟨i, o, hR, rfl⟩
    exact ⟨_, hts, (fires_betweenTokens_iff hk hoif (hp _ hts)).mpr ⟨hi, ho, hw⟩⟩

end

/-! ## The input chain -/

section

variable {c : Config} (h : Intact c) {cs : List Chain} (hload : load (renderConfig c) = some cs)
  (hrules : c.firewall.rules = []) {out : Outside} {p : Packet} (hnew : p.state = .new)

include h hload hrules hnew in
/-- New UDP packets get in from the loopback, from the LAN and by open ports; the port of
DHCPv6 clients apart. -/
theorem input_accepts_iff (hudp : p.proto = 17) (hport : p.dport ≠ 546) :
    filterVerdict out c "input" p = some .accept ↔
      p.iif = "lo" ∨ Named (lanInterfaces c.interfaces) p.iif ∨
        ∃ op ∈ c.firewall.openPorts, op.Admits out p := by
  have hparse := ((load_template_iff h.chainReads).mp ⟨cs, hload⟩).1
  refine (accepts_template_iff h.chainReads hload (input_mem_templateBlocks _ _)).trans ?_
  simp only [templateStmts, inputStmts, parses_append] at hparse ⊢
  obtain ⟨⟨⟨⟨⟨⟨⟨⟨-, hlo⟩, hlan⟩, -⟩, -⟩, hopen⟩, -⟩, -⟩, -⟩ := hparse
  -- what each group of statements decides
  have hcustom : ∀ w, ¬ Decided out p w (customStmts c.firewall.rules .input) := by
    intro w
    rw [hrules]
    exact decided_nil w
  have hloopback : ∀ w, Decided out p w [iifTokens "lo"] ↔ p.iif = "lo" ∧ w = .accept := by
    intro w
    rw [decided_singleton, fires_iifTokens_iff (hlo _ (mem_singleton_self _))]
    refine and_congr_left fun _ => ⟨eq_of_ifnameMatches (by decide), ?_⟩
    rintro heq
    rw [heq]
    exact ifnameMatches_self _
  have hlans : ∀ w, Decided out p w
      ((buildTemplateData c).lanInterfaces.flatMap fun lan => [iifTokens lan]) ↔
        Named (lanInterfaces c.interfaces) p.iif ∧ w = .accept := by
    intro w
    rw [decided_flatMap, Named, ← exists_and_right]
    refine exists_congr fun lan => ?_
    rw [and_assoc]
    refine and_congr_right fun hmem => ?_
    rw [decided_singleton]
    exact fires_iifTokens_iff (hlan _ (mem_flatMap.mpr ⟨lan, hmem, mem_singleton_self _⟩))
  have hicmp : ∀ w, ¬ Decided out p w [icmpTokens] := by
    intro w hd
    have hproto := icmpTokens_entails out p _ (decided_singleton.mp hd)
    omega
  have hicmpv6 : ∀ w, ¬ Decided out p w [icmpv6Tokens] := by
    intro w hd
    have hproto := icmpv6Tokens_entails out p _ (decided_singleton.mp hd)
    omega
  have hdhcp : ∀ w, ¬ Decided out p w
      (if (buildTemplateData c).ipv6Enabled then [dhcpv6Tokens] else []) := by
    intro w hd
    exact hport (dhcpv6Tokens_entails out p _ (decided_singleton.mp (decided_if.mp hd).2)).2
  have hsix : ∀ w, ¬ Decided out p w
      ((buildTemplateData c).sixInFour.toList.flatMap fun server => [sixInFourTokens server]) := by
    intro w hd
    obtain ⟨server, -, hd⟩ := decided_flatMap.mp hd
    have hproto := sixInFourTokens_entails server out p _ (decided_singleton.mp hd)
    omega
  rw [verdictBy_accept_append, or_iff_left verdictBy_log]
  · simp only [decided_append, not_decided_conntrack hnew, hcustom, hloopback, hlans, hicmp,
      hicmpv6, decided_openPorts hnew hopen, hdhcp, hsix, false_or, or_false, and_true, or_assoc]
  · intro w
    simp only [decided_append, not_decided_conntrack hnew, hcustom, hloopback, hlans, hicmp,
      hicmpv6, decided_openPorts hnew hopen, hdhcp, hsix, false_or, or_false]
    rintro ((⟨-, hw⟩ | ⟨-, hw⟩) | ⟨-, hw⟩) <;> exact hw

/-! ## The forward chain -/

theorem mem_passStmts {c : Config} {ts : List Token} :
    ts ∈ passStmts (buildTemplateData c) ↔
      ∃ i o, ((i ∈ lanInterfaces c.interfaces ∧ o ∈ uplinks c ++ vpnServers c) ∨
        (i ∈ vpnServers c ∧ o ∈ lanInterfaces c.interfaces)) ∧ ts = betweenTokens .accept i o := by
  simp only [passStmts, pairTokens, uplinks, vpnServers, buildTemplateData, mem_append,
    mem_flatMap, mem_singleton]
  grind

theorem mem_isolateStmts {c : Config} {ts : List Token} :
    ts ∈ isolateStmts (buildTemplateData c) ↔
      ∃ i o, ((i ∈ isolatedVLANs c.interfaces c.vlans ∧ o ∈ lanInterfaces c.interfaces) ∨
        (i ∈ lanInterfaces c.interfaces ∧ o ∈ isolatedVLANs c.interfaces c.vlans)) ∧
        ts = betweenTokens .drop i o := by
  simp only [isolateStmts, pairTokens, buildTemplateData, mem_append, mem_flatMap, mem_singleton]
  grind

variable {w : Verdict}

/-- Rules without a verdict leave the packet to the next one. -/
theorem not_decided_clamp {out : Outside} {p : Packet} :
    ¬ Decided out p w [clampTokens] ∧ ¬ Decided out p w [clampv6Tokens] := by
  have hend : ¬ Fires out p (some w) [] := by
    intro h
    cases fires_end (w := none) rfl h
  have hclamp : ¬ Fires out p (some w) clampTokens := by
    intro h
    have hset : Fires out p (some w) [.key .tcp, .key .option, .key .maxseg, .key .size, .key .set,
        .key .rt, .key .mtu] := (fires_of_cons rfl h).2
    exact hend (fires_of_cons rfl hset).2
  rw [decided_singleton, decided_singleton]
  exact ⟨hclamp, fun h => hclamp (fires_of_cons rfl h).2⟩

include hrules hnew in
/-- What comes before the rules on interfaces decides nothing on a new packet. -/
theorem not_decided_lead : ¬ Decided out p w (leadStmts c (buildTemplateData c)) := by
  simp only [leadStmts, decided_append, decided_if, not_decided_clamp, hrules, customStmts,
    flatMap_nil, decided_nil, and_false, or_false, false_or]
  rw [← decided_append]
  exact not_decided_conntrack hnew

theorem decided_pass_iff {dst : Text} (hoif : p.oif = some dst)
    (hp : Parses (passStmts (buildTemplateData c))) :
    Decided out p w (passStmts (buildTemplateData c)) ↔ Passes c p.iif dst ∧ w = .accept := by
  rw [decided_between (k := .accept) rfl (fun ts => mem_passStmts) hoif hp]
  simp only [or_and_right, exists_or, named_both, named_append, Passes]

theorem decided_isolate_iff {dst : Text} (hoif : p.oif = some dst)
    (hp : Parses (isolateStmts (buildTemplateData c))) :
    Decided out p w (isolateStmts (buildTemplateData c)) ↔ Separated c p.iif dst ∧ w = .drop := by
  rw [decided_between (k := .drop) rfl (fun ts => mem_isolateStmts) hoif hp]
  simp only [or_and_right, exists_or, named_both, Separated]

include hnew in
theorem decided_forwards_iff {d : NftTemplateData} (hp : Parses (portForwardStmts d)) :
    Decided out p w (portForwardStmts d) ↔
      (∃ pf ∈ d.portForwards, pf.Admits d.wanDevice p) ∧ w = .accept := by
  rw [portForwardStmts, decided_flatMap, ← exists_and_right]
  refine exists_congr fun pf => ?_
  rw [and_assoc]
  refine and_congr_right fun hmem => ?_
  rw [decided_if, decided_singleton]
  constructor
  · rintro ⟨hen, h⟩
    have hparse := hp (forwardTokens d.wanDevice pf) (mem_flatMap.mpr ⟨pf, hmem, by simp [hen]⟩)
    exact (fires_forwardTokens_iff hnew hen hparse).mp h
  · rintro ⟨h, hw⟩
    have hparse := hp (forwardTokens d.wanDevice pf) (mem_flatMap.mpr ⟨pf, hmem, by simp [h.1]⟩)
    exact ⟨h.1, (fires_forwardTokens_iff hnew h.1 hparse).mpr ⟨h, hw⟩⟩

include h hload hrules hnew in
/-- New packets are forwarded from the LAN to its ways out, between the LAN and the VPN
servers, and by port forwards unless an isolated VLAN is involved. -/
theorem forward_accepts_iff {dst : Text} (hoif : p.oif = some dst) :
    filterVerdict out c "forward" p = some .accept ↔
      Passes c p.iif dst ∨ (¬ Separated c p.iif dst ∧
        ∃ pf ∈ c.firewall.portForwards, pf.Admits (firstDevice (wanInterfaces c.interfaces)) p) := by
  have hparse := ((load_template_iff h.chainReads).mp ⟨cs, hload⟩).2.1
  refine (accepts_template_iff h.chainReads hload (forward_mem_templateBlocks _ _)).trans ?_
  simp only [templateStmts, forwardStmts, parses_append] at hparse ⊢
  obtain ⟨⟨⟨⟨-, hpass⟩, hisolate⟩, hforwards⟩, -⟩ := hparse
  have hpassed : ∀ w, Decided out p w
      (leadStmts c (buildTemplateData c) ++ passStmts (buildTemplateData c)) ↔
        Passes c p.iif dst ∧ w = .accept := by
    intro w
    rw [decided_append, or_iff_right (not_decided_lead hrules hnew), decided_pass_iff hoif hpass]
  have hforwarded : ∀ w, Decided out p w (portForwardStmts (buildTemplateData c)) ↔
      (∃ pf ∈ c.firewall.portForwards,
        pf.Admits (firstDevice (wanInterfaces c.interfaces)) p) ∧ w = .accept :=
    fun w => decided_forwards_iff hnew hforwards
  rw [append_assoc, append_assoc]
  rw [verdictBy_accept_append fun w hw => ((hpassed w).mp hw).2, hpassed,
    verdictBy_append_of_refuse, verdictBy_accept_append fun w hw => ((hforwarded w).mp hw).2,
    hforwarded, or_iff_left verdictBy_log]
  · simp only [decided_isolate_iff hoif hisolate, and_true, not_and]
    refine or_congr_right (and_congr_left fun _ => ?_)
    exact ⟨fun hno hs => hno .drop hs rfl, fun hno w hs => absurd hs hno⟩
  · rw [decided_isolate_iff hoif hisolate]
    rintro ⟨-, hw⟩
    cases hw

end

end Lankeeper.Firewall
