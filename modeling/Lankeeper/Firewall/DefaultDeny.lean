import Lankeeper.Firewall.Statements

/-!
# Lankeeper.Firewall.DefaultDeny — what the rendered ruleset lets in

Both filter chains drop by default. A new connection gets in only where the
ruleset has a rule for it: from the loopback and the LAN, from the VPN servers to
the LAN, for the ICMP messages a router has to answer, and where an operator rule
says so. The induction is over the lines of the template: every line that is not
an operator's either does not accept the packet or names an interface it did not
come in on.

The values that the template splices in outside quotes have to be words
(`PlainValues`): the text of the tunnel's far end is not validated, and
`spliced_server_accepts` opens the input chain with it.
-/

namespace Lankeeper.Firewall

open Lib Text Nft List Option

/-! ## Plain values -/

/-- A device name that stands for itself between quotes. -/
def PlainName (d : Text) : Prop :=
  quote ∉ d ∧ '*' ∉ d

instance (d : Text) : Decidable (PlainName d) :=
  inferInstanceAs (Decidable (_ ∧ _))

/-- A text that is at most one word. -/
def PlainWord (w : Text) : Prop :=
  ∀ c ∈ w, breaks c = false

/-- The device names of a config are plain. -/
structure PlainDevices (c : Config) : Prop where
  interfaces : ∀ i ∈ c.interfaces, PlainName i.device
  tunnel : PlainName c.ipv6.tunnelDevice
  usb : PlainName c.usbTether.interface
  ovpn : PlainName c.ovpnServerDevice

/-- The values of a config that are spliced in outside quotes are words. -/
structure PlainValues (c : Config) : Prop where
  server : ∀ server, sixInFourServer c.ipv6 = some server → PlainWord server
  forwards : ∀ pf ∈ c.firewall.portForwards, pf.enabled →
    PlainWord pf.protocol ∧ PlainWord pf.intIP

/-- The same for the template's data. -/
structure PlainData (d : NftTemplateData) : Prop where
  lan : ∀ x ∈ d.lanInterfaces, PlainName x
  wan : ∀ x ∈ d.wanInterfaces, PlainName x
  ipv6WAN : ∀ x ∈ d.ipv6WANInterfaces, PlainName x
  wanDevice : PlainName d.wanDevice
  vlans : ∀ x ∈ d.isolatedVLANs, PlainName x
  usb : ∀ x ∈ d.usbInterface.toList, PlainName x
  wgServer : ∀ x ∈ d.wgServerIface.toList, PlainName x
  wgClients : ∀ x ∈ d.wgClientIfaces, PlainName x
  ovpn : ∀ x ∈ d.ovpnServerIface.toList, PlainName x
  server : ∀ x ∈ d.sixInFour.toList, PlainWord x
  forwards : ∀ pf ∈ d.portForwards, pf.enabled →
    PlainWord pf.protocol ∧ PlainWord pf.intIP

theorem plainWord_of_any {w : Text} (h : w.any breaks = false) : PlainWord w := by
  simpa [PlainWord] using h

theorem PlainName.of_subset {d e : Text} (h : PlainName d) (hsub : ∀ c ∈ e, c ∈ d) : PlainName e :=
  ⟨fun hq => h.1 (hsub _ hq), fun hs => h.2 (hsub _ hs)⟩

theorem PlainName.append_decimal {d : Text} (h : PlainName d) (n : Int) :
    PlainName (d ++ decimal n) := by
  have hdec : ∀ c ∈ decimal n, c ≠ quote ∧ c ≠ '*' := by
    intro c hc
    rcases mem_decimal hc with hd | rfl
    · constructor <;> rintro rfl <;> cases hd
    · decide
  simp only [PlainName, mem_append, not_or]
  exact ⟨⟨h.1, fun hq => (hdec _ hq).1 rfl⟩, h.2, fun hs => (hdec _ hs).2 rfl⟩

theorem mem_of_mem_trim {sp : Char → Bool} {s : Text} {c : Char} (h : c ∈ trim sp s) : c ∈ s :=
  (dropWhile_sublist sp).subset ((trim_prefix_dropWhile s).subset h)

theorem plainName_wan {is : List InterfaceConfig} (h : ∀ i ∈ is, PlainName i.device) :
    ∀ x ∈ wanInterfaces is, PlainName x := by
  intro x hx
  obtain ⟨i, hi, rfl⟩ := mem_map.mp hx
  unfold wanIPDevice
  split
  · decide
  · exact h i (mem_of_mem_filter hi)

theorem plainName_deviceByID {is : List InterfaceConfig} (h : ∀ i ∈ is, PlainName i.device)
    (id : Text) : PlainName (deviceByID is id) := by
  unfold deviceByID
  split
  · rename_i i hi
    exact h i (mem_of_find?_eq_some hi)
  · exact ⟨by simp, by simp⟩

theorem buildTemplateData_plain {c : Config} (hd : PlainDevices c) (hv : PlainValues c) :
    PlainData (buildTemplateData c) where
  lan := by
    intro x hx
    obtain ⟨i, hi, rfl⟩ := mem_map.mp hx
    exact hd.interfaces i (mem_of_mem_filter hi)
  wan := plainName_wan hd.interfaces
  ipv6WAN := by
    intro x hx
    simp only [buildTemplateData, sixInFourDevices] at hx
    split at hx
    · rw [mem_singleton.mp hx]
      split
      · decide
      · exact hd.tunnel.of_subset fun _ => mem_of_mem_trim
    · cases hx
  wanDevice := by
    show PlainName (firstDevice (wanInterfaces c.interfaces))
    unfold firstDevice
    rcases hf : (wanInterfaces c.interfaces).find? (· ≠ []) with _ | x
    · exact ⟨by simp, by simp⟩
    · exact plainName_wan hd.interfaces x (mem_of_find?_eq_some hf)
  vlans := by
    intro x hx
    obtain ⟨v, -, hx⟩ := mem_flatMap.mp hx
    split at hx
    · rw [mem_singleton.mp hx, append_cons]
      refine PlainName.append_decimal ?_ v.vid
      simpa [PlainName, quote] using plainName_deviceByID hd.interfaces v.parent
    · cases hx
  usb := by
    intro x hx
    simp only [buildTemplateData, usbInterface, mem_toList] at hx
    split at hx
    · rw [← some.inj hx]
      split
      · decide
      · exact hd.usb
    · cases hx
  wgServer := by
    intro x hx
    simp only [buildTemplateData, wgServerIface, mem_toList] at hx
    split at hx
    · rw [← some.inj hx]
      decide
    · cases hx
  wgClients := by
    intro x hx
    obtain ⟨i, -, rfl⟩ := mem_map.mp hx
    exact PlainName.append_decimal (by decide) i
  ovpn := by
    intro x hx
    simp only [buildTemplateData, ovpnServerIface, mem_toList] at hx
    split at hx
    · rw [← some.inj hx]
      split
      · decide
      · exact hd.ovpn
    · cases hx
  server := by
    intro x hx
    exact hv.server x (mem_toList.mp hx)
  forwards := hv.forwards

/-! ## The lines of the template

What each line of the template says about the packets it applies to. -/

/-- Lines that read as statements, all of which have a property. -/
theorem readsStmts_of_readsAs {P : List Token → Prop} {ls : List Text} {ss : List (List Token)}
    (h : ReadsAs ls ss) (hproper : ProperStmts ss) (hP : ∀ ts ∈ ss, P ts) : ReadsStmts P ls :=
  ⟨ss, h hproper, hP⟩

theorem conntrackRules_reads : ReadsStmts (Entails fun p _ => p.state ≠ .new) conntrackRules := by
  refine readsStmts_of_readsAs conntrackRules_readsAs ?_ ?_
  · simp [ProperStmts, establishedTokens, invalidTokens, Token.Proper]
  intro ts hts out p v h hnew
  rcases mem_pair.mp hts with rfl | rfl
  all_goals
    obtain ⟨⟨x, hx, hold⟩, -⟩ := fires_of_cons rfl h
    cases hx
    simp only [Clause.holds, hnew] at hold
    cases hold

/-- The last rule of a chain. -/
theorem logRule_reads {text : Text} (ht : quote ∉ text) :
    ReadsStmts (Entails fun _ v => v = some .drop)
      [rule ["log", "prefix", quoted text, "drop"]] := by
  refine readsStmts_of_readsAs (logRule_readsAs text) ?_ (forall_mem_singleton.mpr ?_)
  · simp [ProperStmts, logTokens, Token.Proper, ht]
  · intro out p v h
    exact fires_end rfl (fires_of_cons rfl h).2

theorem iifRule_reads {d : Text} (hd : PlainName d) :
    ReadsStmts (Entails fun p _ => p.iif = d) [rule ["iifname", quoted d, "accept"]] := by
  refine readsStmts_of_readsAs (iifRule_readsAs d) ?_ (forall_mem_singleton.mpr ?_)
  · simp [ProperStmts, iifTokens, Token.Proper, hd.1]
  · intro out p v h
    exact (fires_iifname hd.2 h).1

/-- A rule from one interface to another, with a verdict. -/
theorem betweenRule_reads {i o : Text} (hi : PlainName i) (ho : PlainName o) {k : Keyword}
    {w : Verdict} (hk : Rule.parse [.key k] = some ⟨[], some w⟩) :
    ReadsStmts (Entails fun p v => p.iif = i ∧ p.oif = some o ∧ v = some w)
      [rule ["iifname", quoted i, "oifname", quoted o, k.spell]] := by
  refine readsStmts_of_readsAs (betweenRule_readsAs k i o) ?_ (forall_mem_singleton.mpr ?_)
  · simp [ProperStmts, betweenTokens, Token.Proper, hi.1, ho.1]
  · intro out p v h
    obtain ⟨hiif, h⟩ := fires_iifname hi.2 h
    obtain ⟨hoif, h⟩ := fires_oifname ho.2 h
    exact ⟨hiif, hoif, fires_end hk h⟩

theorem passRule_reads {i o : Text} (hi : PlainName i) (ho : PlainName o) :
    ReadsStmts (Entails fun p v => p.iif = i ∧ p.oif = some o ∧ v = some .accept) [passRule i o] :=
  betweenRule_reads (k := .accept) hi ho rfl

theorem isolateRules_reads {i o : Text} (hi : PlainName i) (ho : PlainName o) :
    ReadsStmts (Entails fun p v => (p.iif = i ∨ p.iif = o) ∧ v = some .drop) (isolateRules i o) := by
  refine ((betweenRule_reads (k := .drop) hi ho rfl).mono ?_).append
    ((betweenRule_reads (k := .drop) ho hi rfl).mono ?_)
  · exact fun ts h out p v hf => ⟨.inl (h out p v hf).1, (h out p v hf).2.2⟩
  · exact fun ts h out p v hf => ⟨.inr (h out p v hf).1, (h out p v hf).2.2⟩

theorem icmpTokens_entails : Entails (fun p _ => p.proto = 1) icmpTokens := by
  intro out p v h
  exact (some.inj (fires_ipProtocol h).1).symm

theorem icmpv6Tokens_entails : Entails (fun p _ => p.proto = 58) icmpv6Tokens := by
  intro out p v h
  obtain ⟨-, h⟩ := fires_of_cons rfl h
  obtain ⟨⟨x, hx, hold⟩, -⟩ := fires_of_cons rfl h
  cases hx
  simp only [Clause.holds, Bool.and_eq_true] at hold
  exact eq_of_beq hold.1.2

theorem dhcpv6Tokens_entails : Entails (fun p _ => p.proto = 17 ∧ p.dport = 546) dhcpv6Tokens := by
  intro out p v h
  obtain ⟨-, h⟩ := fires_of_cons rfl h
  obtain ⟨⟨t, ht, hcov, hport⟩, -⟩ := fires_dport h
  cases ht
  have h546 : readNat "546" = some 546 := by decide
  exact ⟨eq_of_beq hcov, (some.inj (h546.symm.trans hport)).symm⟩

theorem sixInFourTokens_entails (server : Text) :
    Entails (fun p _ => p.proto = 41) (sixInFourTokens server) := by
  intro out p v h
  obtain ⟨-, h⟩ := fires_of_cons rfl h
  have h41 : protocolNumber (.word "41") = some 41 := by decide
  exact (some.inj (h41.symm.trans (fires_ipProtocol h).1)).symm

/-- What a spliced word reads as: nothing, a keyword or another word. -/
theorem lexes_plainWord {w : Text} (hw : PlainWord w) :
    Lexes w [] ∨ (∃ k, Keyword.ofText w = some k ∧ Lexes w [.key k]) ∨ Lexes w [.word w] := by
  have h := lexes_flush hw
  unfold flush at h
  split at h
  · exact .inl h
  rw [reverse_reverse] at h
  unfold Token.ofWord at h
  split at h
  · rename_i k hk
    exact .inr (.inl ⟨k, hk, h⟩)
  · exact .inr (.inr h)

/-- A word behind `ip saddr` leaves the rest of the rule as it is. -/
theorem sixInFourRule_reads {server : Text} (hs : PlainWord server) :
    ReadsStmts (Entails fun p _ => p.proto = 41)
      [rule ["ip", "saddr", server, "ip", "protocol", "41", "accept"]] := by
  have hread : ∀ {ts : List Token}, Lexes server ts → List.Forall₂ Lexes
      ["ip", "saddr", server, "ip", "protocol", "41", "accept"]
      [[.key .ip], [.key .saddr], ts, [.key .ip], [.key .protocol], [.word "41"],
        [.key .accept]] := by
    intro ts hts
    exact .cons (lexes_key .ip) (.cons (lexes_key .saddr) (.cons hts (.cons (lexes_key .ip)
      (.cons (lexes_key .protocol) (.cons (lexes_templateWord (by decide))
      (.cons (lexes_key .accept) .nil))))))
  rcases lexes_plainWord hs with h | ⟨k, -, h⟩ | h
  all_goals refine readsStmts_line (hread h) (by simp) rfl ?_
  · exact fun out p v hfires => absurd hfires (not_fires_of_none rfl)
  · exact fun out p v hfires => absurd hfires (not_fires_of_none rfl)
  · exact sixInFourTokens_entails server

/-- The packets a port forward on the device `wan` is about. -/
def PortForward.Matches (pf : PortForward) (wan : Text) (p : Packet) : Prop :=
  p.iif = wan ∧
  (∃ t, (Keyword.ofText pf.protocol).bind Transport.ofKey = some t ∧ t.covers p.proto) ∧
  pf.extPort = p.dport

theorem portForwardRule_reads {pf : PortForward} {wan : Text} (hw : PlainName wan)
    (hpf : PlainWord pf.protocol) :
    ReadsStmts (Entails fun p _ => pf.Matches wan p)
      [rule ["iifname", quoted wan, pf.protocol, "dport", decimal pf.extPort, "ct", "state", "new",
        "accept"]] := by
  have hread : ∀ {ts : List Token}, Lexes pf.protocol ts → List.Forall₂ Lexes
      ["iifname", quoted wan, pf.protocol, "dport", decimal pf.extPort, "ct", "state", "new",
        "accept"]
      [[.key .iifname], [.str wan], ts, [.key .dport], [.word (decimal pf.extPort)], [.key .ct],
        [.key .state], [.key .new], [.key .accept]] := by
    intro ts hts
    exact .cons (lexes_key .iifname) (.cons (lexes_quoted hw.1) (.cons hts (.cons (lexes_key .dport)
      (.cons (lexes_decimal _) (.cons (lexes_key .ct) (.cons (lexes_key .state)
      (.cons (lexes_key .new) (.cons (lexes_key .accept) .nil))))))))
  rcases lexes_plainWord hpf with h | ⟨k, hk, h⟩ | h
  all_goals
    refine readsStmts_line (hread h) (by simp) rfl ?_
    intro out p v hfires
    obtain ⟨hiif, hfires⟩ := fires_iifname hw.2 hfires
  · exact absurd hfires (not_fires_of_none rfl)
  · obtain ⟨⟨t, ht, hcov, hport⟩, -⟩ := fires_dport hfires
    refine ⟨hiif, ⟨t, ?_, hcov⟩, readNat_decimal.mp hport⟩
    rw [hk]
    exact ht
  · exact absurd hfires (not_fires_of_none rfl)

/-- The clamping rules have no verdict. -/
theorem clampRules_reads (ipv6 : Bool) :
    ReadsStmts (Entails fun _ v => v = none) (clampRules ipv6) := by
  refine ReadsStmts.append ?_ (readsStmts_if fun _ => ?_)
  · refine readsStmts_of_readsAs clampRule_readsAs (by simp [ProperStmts, clampTokens, Token.Proper])
      (forall_mem_singleton.mpr ?_)
    rintro out p v ⟨r, hr, -, hv⟩
    cases hr
    exact hv.symm
  · refine readsStmts_of_readsAs clampv6Rule_readsAs
      (by simp [ProperStmts, clampv6Tokens, clampTokens, Token.Proper])
      (forall_mem_singleton.mpr ?_)
    rintro out p v ⟨r, hr, -, hv⟩
    cases hr
    exact hv.symm

/-! ## The chains -/

/-- The statement accepts the packet only if `A`. -/
def AcceptsOnly (out : Outside) (p : Packet) (A : Prop) (ts : List Token) : Prop :=
  Accepts out p ts → A

variable {out : Outside} {p : Packet} {A : Prop} {d : NftTemplateData}

theorem readsStmts_acceptsOnly {B : Packet → Option Verdict → Prop} {ls : List Text}
    (h : ReadsStmts (Entails B) ls) (hA : B p (some .accept) → A) :
    ReadsStmts (AcceptsOnly out p A) ls := by
  refine h.mono ?_
  intro ts hts hacc
  exact hA (hts out p _ hacc)

/-- New connections pass the input chain from the loopback and the LAN, by a
protocol other than TCP, or by an operator rule. -/
theorem inputRules_reads (hd : PlainData d) (hnew : p.state = .new)
    (htcp : p.proto ≠ 6 → A) (hlo : p.iif = "lo" → A) (hlan : p.iif ∈ d.lanInterfaces → A)
    (hcustom : ReadsStmts (AcceptsOnly out p A) d.customInputRules)
    (hopen : ReadsStmts (AcceptsOnly out p A) d.openPortRules) :
    ReadsStmts (AcceptsOnly out p A) (inputRules d) := by
  have hother : ∀ {n}, n ≠ 6 → p.proto = n → A := by
    intro n hn hproto
    exact htcp (hproto.trans_ne hn)
  unfold inputRules
  repeat' apply ReadsStmts.append
  · exact readsStmts_acceptsOnly conntrackRules_reads (absurd hnew)
  · exact hcustom
  · exact readsStmts_acceptsOnly (iifRule_reads (by decide)) hlo
  · apply readsStmts_flatMap
    intro lan hmem
    refine readsStmts_acceptsOnly (iifRule_reads (hd.lan lan hmem)) ?_
    rintro rfl
    exact hlan hmem
  · exact readsStmts_acceptsOnly (readsStmts_of_readsAs icmpRule_readsAs
      (by simp [ProperStmts, icmpTokens, Token.Proper])
      (forall_mem_singleton.mpr icmpTokens_entails)) (hother (by decide))
  · exact readsStmts_acceptsOnly (readsStmts_of_readsAs icmpv6Rule_readsAs
      (by simp [ProperStmts, icmpv6Tokens, Token.Proper])
      (forall_mem_singleton.mpr icmpv6Tokens_entails)) (hother (by decide))
  · exact hopen
  · refine readsStmts_if fun _ => readsStmts_acceptsOnly (readsStmts_of_readsAs dhcpv6Rule_readsAs ?_
      (forall_mem_singleton.mpr dhcpv6Tokens_entails)) fun h => hother (by decide) h.1
    simp [ProperStmts, dhcpv6Tokens, Token.Proper]
    decide
  · apply readsStmts_flatMap
    intro server hmem
    exact readsStmts_acceptsOnly (sixInFourRule_reads (hd.server server hmem)) (hother (by decide))
  · refine readsStmts_acceptsOnly (logRule_reads (by decide)) ?_
    intro h
    cases h

/-- The devices that a rule in front of the port forwards lets packets out by. -/
def waysOut (d : NftTemplateData) : List Text :=
  d.lanInterfaces ++ d.wanInterfaces ++ d.usbInterface.toList ++ d.ipv6WANInterfaces ++
    d.wgServerIface.toList ++ d.wgClientIfaces ++ d.ovpnServerIface.toList

/-- What holds of the statements in front of the port forwards, kind by kind. -/
theorem rulesBefore_reads (hd : PlainData d) {P : List Token → Prop}
    (hclamp : ∀ ts, Entails (fun _ v => v = none) ts → P ts)
    (hknown : ∀ ts, Entails (fun p _ => p.state ≠ .new) ts → P ts)
    (hcustom : ReadsStmts P d.customForwardRules)
    (hpass : ∀ i o, i ∈ d.lanInterfaces ∧ o ∈ waysOut d ∨
      i ∈ d.wgServerIface.toList ++ d.ovpnServerIface.toList ∧ o ∈ d.lanInterfaces →
      ∀ ts, Entails (fun p v => p.iif = i ∧ p.oif = some o ∧ v = some .accept) ts → P ts)
    (hisolated : ∀ vlan ∈ d.isolatedVLANs, ∀ lan ∈ d.lanInterfaces, ∀ ts,
      Entails (fun p v => (p.iif = vlan ∨ p.iif = lan) ∧ v = some .drop) ts → P ts) :
    ReadsStmts P (rulesBefore d) := by
  have hfrom : ∀ lan ∈ d.lanInterfaces, ∀ o, PlainName o → o ∈ waysOut d →
      ReadsStmts P [passRule lan o] := by
    intro lan hl o ho hmem
    exact (passRule_reads (hd.lan lan hl) ho).mono (hpass lan o (.inl ⟨hl, hmem⟩))
  have hpair : ∀ i, PlainName i → i ∈ d.wgServerIface.toList ++ d.ovpnServerIface.toList →
      ∀ lan ∈ d.lanInterfaces, ReadsStmts P (pairRules i lan) := by
    intro i hi hmem lan hl
    have hway : i ∈ waysOut d := by
      rcases mem_append.mp hmem with hmem | hmem <;> simp [waysOut, mem_toList.mp hmem]
    exact ((passRule_reads hi (hd.lan lan hl)).mono (hpass i lan (.inr ⟨hmem, hl⟩))).append
      (hfrom lan hl i hi hway)
  unfold rulesBefore
  have hfirst := (((clampRules_reads d.ipv6Enabled).mono hclamp).append
    (conntrackRules_reads.mono hknown)).append hcustom
  refine ((((((hfirst.append ?_).append ?_).append ?_).append ?_).append ?_).append ?_).append ?_
  · refine readsStmts_flatMap fun lan hl => readsStmts_flatMap fun wan hw => ?_
    exact hfrom lan hl wan (hd.wan wan hw) (by simp [waysOut, hw])
  · refine readsStmts_flatMap fun usb hu => readsStmts_flatMap fun lan hl => ?_
    exact hfrom lan hl usb (hd.usb usb hu) (by simp [waysOut, mem_toList.mp hu])
  · refine readsStmts_flatMap fun lan hl => readsStmts_flatMap fun wan hw => ?_
    exact hfrom lan hl wan (hd.ipv6WAN wan hw) (by simp [waysOut, hw])
  · refine readsStmts_flatMap fun wg hw => readsStmts_flatMap ?_
    exact hpair wg (hd.wgServer wg hw) (mem_append_left _ hw)
  · refine readsStmts_flatMap fun wg hw => readsStmts_flatMap fun lan hl => ?_
    exact hfrom lan hl wg (hd.wgClients wg hw) (by simp [waysOut, hw])
  · refine readsStmts_flatMap fun tun ht => readsStmts_flatMap ?_
    exact hpair tun (hd.ovpn tun ht) (mem_append_right _ ht)
  · refine readsStmts_flatMap fun vlan hv => readsStmts_flatMap fun lan hl => ?_
    exact (isolateRules_reads (hd.vlans vlan hv) (hd.lan lan hl)).mono (hisolated vlan hv lan hl)

/-- New connections pass the forward chain from the LAN, from a VPN server, or by an
operator rule. -/
theorem forwardRules_reads (hd : PlainData d) (hnew : p.state = .new)
    (hlan : p.iif ∈ d.lanInterfaces → A) (hwg : p.iif ∈ d.wgServerIface.toList → A)
    (hovpn : p.iif ∈ d.ovpnServerIface.toList → A)
    (hcustom : ReadsStmts (AcceptsOnly out p A) d.customForwardRules)
    (hforward : ∀ pf ∈ d.portForwards, pf.enabled → pf.Matches d.wanDevice p → A) :
    ReadsStmts (AcceptsOnly out p A) (forwardRules d) := by
  refine ((rulesBefore_reads hd ?_ ?_ hcustom ?_ ?_).append ?_).append ?_
  · intro ts h hacc
    cases h out p _ hacc
  · exact fun ts h hacc => absurd hnew (h out p _ hacc)
  · intro i o hio ts h hacc
    obtain ⟨rfl, -⟩ := h out p _ hacc
    rcases hio with ⟨hmem, -⟩ | ⟨hmem, -⟩
    · exact hlan hmem
    · exact (mem_append.mp hmem).elim hwg hovpn
  · intro vlan _ lan _ ts h hacc
    cases (h out p _ hacc).2
  · apply readsStmts_flatMap
    intro pf hmem
    apply readsStmts_if
    intro hen
    exact readsStmts_acceptsOnly (portForwardRule_reads hd.wanDevice (hd.forwards pf hmem hen).1)
      (hforward pf hmem hen)
  · refine readsStmts_acceptsOnly (logRule_reads (by decide)) ?_
    intro h
    cases h

/-! ### The other chains load -/

theorem exists_lexes_plainWord {w : Text} (hw : PlainWord w) :
    ∃ ts, Lexes w ts ∧ ts.all Token.plain := by
  rcases lexes_plainWord hw with h | ⟨k, -, h⟩ | h
  all_goals exact ⟨_, h, rfl⟩

theorem plainWord_target {intIP : Text} (h : PlainWord intIP) (port : Int) :
    PlainWord (intIP ++ ':' :: decimal port) := by
  intro c hc
  rw [mem_append, mem_cons] at hc
  rcases hc with hc | rfl | hc
  · exact h c hc
  · rfl
  · rcases mem_decimal hc with hd | rfl
    · exact breaks_eq_false (f := Char.isDigit) rfl hd
    · rfl

theorem preroutingRules_reads (hd : PlainData d) :
    ReadsStmts (fun _ => True) (preroutingRules d) := by
  apply readsStmts_flatMap
  intro pf hmem
  apply readsStmts_if
  intro hen
  obtain ⟨hproto, hip⟩ := hd.forwards pf hmem hen
  obtain ⟨ts, hts, hplain⟩ := exists_lexes_plainWord hproto
  obtain ⟨us, hus, hplain'⟩ := exists_lexes_plainWord (plainWord_target hip pf.intPort)
  refine readsStmts_line (.cons (lexes_key .iifname) (.cons (lexes_quoted hd.wanDevice.1)
    (.cons hts (.cons (lexes_key .dport) (.cons (lexes_decimal _) (.cons (lexes_key .dnat)
    (.cons (lexes_key .target) (.cons hus .nil)))))))) (by simp) ?_ trivial
  simp only [flatten_cons, flatten_nil, all_append, hplain, hplain']
  rfl

theorem postroutingRules_reads (hd : PlainData d) :
    Reads (postroutingRules d)
      (((d.wanInterfaces ++ d.usbInterface.toList).map masqueradeTokens).map .stmt) := by
  have hrule : ∀ o ∈ d.wanInterfaces ++ d.usbInterface.toList,
      Reads [rule ["oifname", quoted o, "masquerade"]] [.stmt (masqueradeTokens o)] := by
    intro o ho
    have hplain : PlainName o := (mem_append.mp ho).elim (hd.wan o) (hd.usb o)
    exact masqueradeRule_readsAs o (by simp [ProperStmts, masqueradeTokens, Token.Proper, hplain.1])
  have h := reads_map hrule
  rwa [map_append, map_eq_flatMap, map_eq_flatMap] at h

theorem ttlfixRules_reads (hd : PlainData d) : ReadsStmts (fun _ => True) (ttlfixRules d) := by
  have hrule : ∀ o, PlainName o → ReadsStmts (fun _ => True)
      [rule ["oifname", quoted o, "ip", "ttl", "set", decimal d.ttlFixValue]] := by
    intro o ho
    exact readsStmts_line (.cons (lexes_key .oifname) (.cons (lexes_quoted ho.1)
      (.cons (lexes_key .ip) (.cons (lexes_key .ttl) (.cons (lexes_key .set)
      (.cons (lexes_decimal _) .nil)))))) (by simp) rfl trivial
  exact (readsStmts_flatMap fun wan hw => hrule wan (hd.wan wan hw)).append
    (readsStmts_flatMap fun usb hu => hrule usb (hd.usb usb hu))

/-! ## Default deny -/

/-- An operator rule lets the packet into the router. -/
def InputAllowed (c : Config) (p : Packet) : Prop :=
  (∃ r ∈ c.firewall.rules, r.enabled ∧ r.target = .input ∧ r.Matches p) ∨
    ∃ op ∈ c.firewall.openPorts, op.enabled ∧ op.Matches p

/-- An operator rule lets the packet through the router. -/
def ForwardAllowed (c : Config) (p : Packet) : Prop :=
  (∃ r ∈ c.firewall.rules, r.enabled ∧ r.target = .forward ∧ r.Matches p) ∨
    ∃ pf ∈ c.firewall.portForwards, pf.enabled ∧
      pf.Matches (firstDevice (wanInterfaces c.interfaces)) p

/-- What a chain of the rendered ruleset does to a packet. -/
def filterVerdict (out : Outside) (c : Config) (chain : Text) (p : Packet) : Option Verdict :=
  verdictOf out (renderConfig c) "inet" "filter" chain p

/-- **Default deny.** New connections from outside get in by operator rules only. -/
theorem new_connections_by_rule {c : Config} (hdev : PlainDevices c) (hval : PlainValues c)
    {p : Packet} (hnew : p.state = .new) (hlan : p.iif ∉ lanInterfaces c.interfaces)
    (out : Outside) :
    (p.proto = 6 → p.iif ≠ "lo" → filterVerdict out c "input" p = some .accept →
      InputAllowed c p) ∧
    (p.iif ∉ (wgServerIface c).toList → p.iif ∉ (ovpnServerIface c).toList →
      filterVerdict out c "forward" p = some .accept → ForwardAllowed c p) := by
  have hd := buildTemplateData_plain hdev hval
  have hinput : ReadsStmts (AcceptsOnly out p (p.proto = 6 → p.iif ≠ "lo" → InputAllowed c p))
      (inputRules (buildTemplateData c)) := by
    refine inputRules_reads hd hnew (fun hother htcp => absurd htcp hother)
      (fun hlo _ hnot => absurd hlo hnot) (fun h => absurd h hlan) ?_ ?_
    · refine (buildCustomRules_reads c.firewall.rules .input).mono ?_
      rintro ts ⟨r, hr, hen, ht, hm⟩ hacc - -
      exact .inl ⟨r, hr, hen, ht, hm out p _ hacc⟩
    · refine (buildOpenPortRules_reads c.firewall.openPorts).mono ?_
      rintro ts ⟨op, hop, hen, hm⟩ hacc - -
      exact .inr ⟨op, hop, hen, hm out p _ hacc⟩
  have hforward : ReadsStmts (AcceptsOnly out p (p.iif ∉ (wgServerIface c).toList →
      p.iif ∉ (ovpnServerIface c).toList → ForwardAllowed c p))
      (forwardRules (buildTemplateData c)) := by
    refine forwardRules_reads hd hnew (fun h => absurd h hlan) (fun hwg hnot => absurd hwg hnot)
      (fun hovpn _ hnot => absurd hovpn hnot) ?_ ?_
    · refine (buildCustomRules_reads c.firewall.rules .forward).mono ?_
      rintro ts ⟨r, hr, hen, ht, hm⟩ hacc - -
      exact .inl ⟨r, hr, hen, ht, hm out p _ hacc⟩
    · intro pf hpf hen hm _ _
      exact .inr ⟨pf, hpf, hen, hm⟩
  rcases accept_of_template out p hinput hforward
    ((buildCustomRules_reads c.firewall.rules .output).mono fun _ _ => trivial)
    (preroutingRules_reads hd) ⟨_, postroutingRules_reads hd, fun _ _ => trivial⟩
    (ttlfixRules_reads hd) with ⟨hi, hf⟩
  refine ⟨fun htcp hlo hv => ?_, fun hwg hovpn hv => ?_⟩
  · obtain ⟨ts, hts, hacc⟩ := hi hv
    exact hts hacc htcp hlo
  · obtain ⟨ts, hts, hacc⟩ := hf hv
    exact hts hacc hwg hovpn

/-- No host name resolves, and no rate limit is used up. -/
def closedNet : Outside :=
  ⟨fun _ _ _ => false, fun _ => true⟩

/-- A LAN behind `eth1`, a WAN on `eth0`, one open port and one port forward. -/
def officeConfig : Config where
  interfaces := [⟨"lan", "eth1", "lan", "static"⟩, ⟨"wan", "eth0", "wan", "dhcp"⟩]
  firewall := {
    openPorts := [⟨"vpn", "tcp", 443, [], true, []⟩]
    portForwards := [⟨"tcp", 8080, "192.168.1.9", 80, true⟩] }

/-- A TCP connection from the WAN, to a port of the router or of a host behind it. -/
def fromWAN (oif : Option Text) (dport : Nat) : Packet where
  iif := "eth0"
  oif := oif
  family := .ip4
  src := 3405803777
  dst := 167772161
  proto := 6
  nexthdr := 6
  sport := 40000
  dport := dport
  icmpType := []
  syn := true
  state := .new

theorem officeConfig_by_rule :
    InputAllowed officeConfig (fromWAN none 443) ∧
      ForwardAllowed officeConfig (fromWAN (some "eth1") 8080) := by
  have hdev : PlainDevices officeConfig := ⟨by decide, by decide, by decide, by decide⟩
  have hval : PlainValues officeConfig := by
    refine ⟨?_, ?_⟩
    · intro server hs
      cases hs
    · intro pf hpf _
      obtain rfl := mem_singleton.mp hpf
      exact ⟨plainWord_of_any (by decide), plainWord_of_any (by decide)⟩
  have hv : filterVerdict closedNet officeConfig "input" (fromWAN none 443) = some .accept ∧
      filterVerdict closedNet officeConfig "forward" (fromWAN (some "eth1") 8080) =
        some .accept := by
    decide +kernel
  constructor
  · exact (new_connections_by_rule hdev hval rfl (by decide) closedNet).1 rfl (by decide) hv.1
  · exact (new_connections_by_rule hdev hval rfl (by decide) closedNet).2 (by decide) (by decide) hv.2

/-- A tunnel whose far end carries a verdict and starts a comment. -/
def splicedConfig : Config where
  interfaces := [⟨"lan", "eth1", "lan", "static"⟩, ⟨"wan", "eth0", "wan", "dhcp"⟩]
  ipv6 := { enabled := "on", mode := "6in4", serverIPv4 := "203.0.113.1 accept #" }

theorem spliced_server_accepts :
    PlainDevices splicedConfig ∧
      (fromWAN none 22).iif ∉ lanInterfaces splicedConfig.interfaces ∧
      filterVerdict closedNet splicedConfig "input" (fromWAN none 22) = some .accept ∧
      ¬ InputAllowed splicedConfig (fromWAN none 22) := by
  refine ⟨⟨by decide, by decide, by decide, by decide⟩, by decide, by decide +kernel, ?_⟩
  · rintro (⟨r, hr, -⟩ | ⟨op, hop, -⟩)
    · cases hr
    · cases hop

end Lankeeper.Firewall
