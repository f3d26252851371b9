import Lankeeper.Firewall.DefaultDeny
import Mathlib.Data.Fintype.EquivFin
import Mathlib.Data.List.Find

/-!
# Lankeeper.Firewall.PortForwards — do port forwards reach their host?

`parsePortForwardForm` of `internal/web/handlers/firewall.go` and the two places of the
template that a forward is rendered to. The nat prerouting chain rewrites the packets for
the external port to the host and port inside, and the filter forward chain, which sees
them after that, has to let them pass.

The form takes three things that the template cannot carry: the protocol `both`, an IPv6
host, and a port inside that differs from the one outside. The first two make a ruleset
that does not load, and the last a connection that is rewritten and then dropped.
`port_forward_works_iff` says for which forwards of a config everything fits.
-/

namespace Lankeeper.Firewall

open Lib Text Nft List Address

/-! ## The form -/

/-- The fields of the form that are rendered. -/
structure PortForwardForm where
  protocol : Text
  extPort : Text
  intIP : Text
  intPort : Text

/-- `formPort`. -/
def formPort (field : Text) : Option Int :=
  (atoi field).bind fun port =>
    match validatePort port with
    | .ok () => some port
    | .error _ => none

/-- `parsePortForwardForm`: the forward, or the locale key of the first invalid field. -/
def parsePortForwardForm (form : PortForwardForm) : Except Text PortForward := do
  let extPort := formPort form.extPort
  let intPort := formPort form.intPort
  failIf (extPort = none) "error.invalidPort"
  failIf (intPort = none) "error.invalidPort"
  failIf (form.protocol ∉ ["tcp".toList, "udp".toList, "both".toList]) "error.invalidProtocol"
  failIf (parseIP form.intIP = none) "error.invalidInternalIP"
  .ok ⟨form.protocol, extPort.getD 0, form.intIP, intPort.getD 0, true⟩

/-- What the form lets through. -/
structure PortForward.Valid (pf : PortForward) : Prop where
  protocol : pf.protocol = "tcp" ∨ pf.protocol = "udp" ∨ pf.protocol = "both"
  extPort : 1 ≤ pf.extPort ∧ pf.extPort ≤ 65535
  intPort : 1 ≤ pf.intPort ∧ pf.intPort ≤ 65535
  intIP : ∃ f a, parseIP pf.intIP = some (f, a)

theorem formPort_range {field : Text} {n : Int} (h : formPort field = some n) :
    1 ≤ n ∧ n ≤ 65535 := by
  obtain ⟨port, -, h⟩ := Option.bind_eq_some_iff.mp h
  unfold validatePort at h
  by_cases hport : port < 1 ∨ port > 65535
  · simp [hport] at h
  · simp only [hport, if_false, Option.some.injEq] at h
    omega

variable {pf : PortForward} {wan : Text} {p : Packet} {out : Outside}

theorem parsePortForwardForm_valid {form : PortForwardForm}
    (h : parsePortForwardForm form = .ok pf) : pf.Valid := by
  simp only [parsePortForwardForm, bind_ok_iff, failIf_ok_iff, exists_const, not_not, ← ne_eq,
    Option.ne_none_iff_exists'] at h
  obtain ⟨⟨ext, hext⟩, ⟨int, hint⟩, hmem, ⟨⟨f, a⟩, hip⟩, ⟨⟩⟩ := h
  refine ⟨by simpa using hmem, ?_, ?_, f, a, hip⟩
  · rw [hext]
    exact formPort_range hext
  · rw [hint]
    exact formPort_range hint

/-! ## What a forward is for -/

/-- `WANDevice`. -/
def wanDevice (c : Config) : Text :=
  firstDevice (wanInterfaces c.interfaces)

def enabledForwards (c : Config) : List PortForward :=
  c.firewall.portForwards.filter (·.enabled)

/-- The protocols a forward names, by number. -/
def PortForward.protocols (pf : PortForward) : List Nat :=
  if pf.protocol = "tcp" then [6]
  else if pf.protocol = "udp" then [17]
  else if pf.protocol = "both" then [6, 17]
  else []

/-- A new connection for the forward, as it arrives. `f` is the family of the host. -/
structure PortForward.Arrives (pf : PortForward) (c : Config) (f : Family) (p : Packet) : Prop where
  iif : p.iif = wanDevice c
  family : p.family = f
  proto : p.proto ∈ pf.protocols
  dport : pf.extPort = p.dport
  state : p.state = .new

/-- The packet after the rewriting, on its way out. -/
def redirected (p : Packet) (dst dport : Nat) (oif : Text) : Packet :=
  { p with dst := dst, dport := dport, oif := some oif }

/-- What the nat prerouting chain of the rendered ruleset rewrites a packet to. -/
def natTarget (out : Outside) (c : Config) (p : Packet) : Option (Text × Nat) :=
  targetOf out (renderConfig c) "nat" "prerouting" p

/-- New connections for the forward are rewritten to its host and port, and let through to
it by whatever way out. -/
def PortForward.Works (out : Outside) (c : Config) (pf : PortForward) : Prop :=
  ∀ f a, parseIP pf.intIP = some (f, a) → ∀ p, pf.Arrives c f p →
    natTarget out c p = some (pf.intIP, pf.intPort.toNat) ∧
    ∀ oif, filterVerdict out c "forward" (redirected p a pf.intPort.toNat oif) = some .accept

/-- No custom forward rule is about the rewritten packets. -/
def PortForward.Unhindered (c : Config) (pf : PortForward) : Prop :=
  ∀ r ∈ c.firewall.rules, r.enabled → r.target = .forward →
    ∀ f a, parseIP pf.intIP = some (f, a) → ∀ p, pf.Arrives c f p →
      ∀ oif, ¬ r.Matches (redirected p a pf.intPort.toNat oif)

/-- The line is a rule that names a transport protocol, and its target, if it has one, is
an IPv4 address. -/
def RealLine (l : Text) : Prop :=
  ∃ ts r, LexesLine l ts ∧ Rule.parse ts = some r ∧
    (∃ t n, t ≠ .th ∧ Clause.port t .destination n ∈ r.clauses) ∧
    ∀ host port, r.target = some (host, port) → (parseIPv4 host).isSome

/-- The same config without port forwards. -/
def withoutForwards (c : Config) : Config :=
  { c with firewall := { c.firewall with portForwards := [] } }

/-- A forward that the template can carry: one protocol, and an IPv4 host. -/
def PortForward.Fits (pf : PortForward) : Prop :=
  (pf.protocol = "tcp" ∨ pf.protocol = "udp") ∧
    (parseIPv4 pf.intIP).isSome

instance (pf : PortForward) : Decidable pf.Fits :=
  inferInstanceAs (Decidable (_ ∧ _))

/-! ## The statements of a forward -/

theorem PortForward.Valid.plainWords (h : pf.Valid) :
    pf.protocol ≠ [] ∧ PlainWord pf.protocol ∧ PlainWord pf.intIP := by
  have hproto : pf.protocol ≠ [] ∧ PlainWord pf.protocol := by
    rcases h.protocol with hp | hp | hp
    all_goals
      rw [hp]
      exact ⟨by decide, plainWord_of_any (by decide)⟩
  obtain ⟨f, a, hip⟩ := h.intIP
  refine ⟨hproto.1, hproto.2, fun c hc => ?_⟩
  exact breaks_eq_false (f := isAddressChar) (by decide)
    ((parseIP_chars hip).2 c hc)

theorem PortForward.Valid.proper (h : pf.Valid) :
    (Token.ofWord pf.protocol).Proper ∧
      (Token.word (pf.intIP ++ ':' :: decimal pf.intPort)).Proper := by
  obtain ⟨hne, hproto, hip⟩ := h.plainWords
  refine ⟨ofWord_proper hne hproto, ?_⟩
  rw [← ofWord_eq_word (.inl ⟨':', by simp, rfl⟩)]
  exact ofWord_proper (by simp) (plainWord_target hip pf.intPort)

theorem PortForward.Valid.properTokens (h : pf.Valid) (hw : PlainName wan) :
    (∀ t ∈ forwardTokens wan pf, t.Proper) ∧ ∀ t ∈ natTokens wan pf, t.Proper := by
  have hdevice : (Token.str wan).Proper := hw.1
  have hkey : ∀ k, (Token.key k).Proper := fun _ => trivial
  simp [forwardTokens, natTokens, h.proper, proper_decimal, hdevice, hkey]

/-! ## The rules of a forward -/

def PortForward.transport (pf : PortForward) : Transport :=
  if pf.protocol = "tcp" then .tcp else .udp

def acceptRule (wan : Text) (pf : PortForward) : Rule :=
  ⟨[.iifname wan, .port pf.transport .destination pf.extPort.toNat, .ctState [.new]], some .accept⟩

def natRule (wan : Text) (pf : PortForward) : Rule :=
  ⟨[.iifname wan, .port pf.transport .destination pf.extPort.toNat,
    .dnat pf.intIP pf.intPort.toNat], none⟩

theorem readPort_decimal {n : Int} (h : 1 ≤ n ∧ n ≤ 65535) :
    readPort (decimal n) = some n.toNat := by
  have hread : readNat (decimal n) = some n.toNat := readNat_decimal.mpr (by omega)
  have hle : n.toNat ≤ 65535 := by omega
  rw [readPort, hread, Option.bind_some, if_pos hle]

/-- The target of a forward is in the fragment if its host is an IPv4 address. -/
theorem readTarget_eq (h : pf.Valid) :
    readTarget (pf.intIP ++ ':' :: decimal pf.intPort) =
      if (parseIPv4 pf.intIP).isSome then some (pf.intIP, pf.intPort.toNat) else none := by
  obtain ⟨f, a, hip⟩ := h.intIP
  by_cases hcolon : ':' ∈ pf.intIP
  · have hnone : (parseIPv4 pf.intIP).isSome = false := by
      rw [Option.isSome_eq_false_iff, Option.isNone_iff_eq_none]
      by_contra hsome
      obtain ⟨b, hb⟩ := Option.ne_none_iff_exists'.mp hsome
      exact colon_not_mem_of_parseIPv4 hb hcolon
    -- what follows the first colon has another colon in it
    obtain ⟨front, back, heq, hfront⟩ := eq_append_cons_of_mem hcolon
    have hport : readPort (back ++ ':' :: decimal pf.intPort) = none := by
      have hread : readNat (back ++ ':' :: decimal pf.intPort) = none := by
        by_contra hsome
        obtain ⟨n, hn⟩ := Option.ne_none_iff_exists'.mp hsome
        have hdigit := readNat_digits hn ':' (by simp)
        cases hdigit
      rw [readPort, hread, Option.bind_none]
    rw [hnone, readTarget, heq, append_assoc, cons_append, dropWhile_ne hfront]
    simp [hport]
  · have hsome : (parseIPv4 pf.intIP).isSome := by
      rcases parseIP_cases hip with ⟨-, hv4⟩ | ⟨-, hmem⟩
      · rw [hv4]
        rfl
      · exact absurd hmem hcolon
    rw [hsome, if_pos rfl, readTarget, dropWhile_ne hcolon, takeWhile_ne hcolon]
    simp [readPort_decimal h.intPort]

/-- The protocol of a forward as a token. -/
theorem PortForward.Valid.protocol_token (h : pf.Valid) :
    ((pf.protocol = "tcp" ∨ pf.protocol = "udp") ∧
      ∃ k, Token.ofWord pf.protocol = .key k ∧ Transport.ofKey k = some pf.transport) ∨
    (¬ (pf.protocol = "tcp" ∨ pf.protocol = "udp") ∧
      Token.ofWord pf.protocol = .word pf.protocol) := by
  have hwords : Token.ofWord "tcp" = .key .tcp ∧ Token.ofWord "udp" = .key .udp ∧
      Token.ofWord "both" = .word "both" := by
    decide +kernel
  unfold PortForward.transport
  rcases h.protocol with hp | hp | hp
  · rw [hp]
    exact .inl ⟨.inl rfl, .tcp, hwords.1, rfl⟩
  · rw [hp]
    exact .inl ⟨.inr rfl, .udp, hwords.2.1, by decide⟩
  · rw [hp]
    exact .inr ⟨by decide, hwords.2.2⟩

/-- The match in front of both rules. -/
theorem parse_matchTokens (h : pf.Valid) (hwan : readIfname wan = some wan) (ts : List Token) :
    Rule.parse (.key .iifname :: .str wan :: .ofWord pf.protocol :: .key .dport ::
        .word (decimal pf.extPort) :: ts) =
      if pf.protocol = "tcp" ∨ pf.protocol = "udp" then
        (Rule.parse ts).map fun r =>
          ⟨.iifname wan :: .port pf.transport .destination pf.extPort.toNat :: r.clauses, r.verdict⟩
      else none := by
  have hiif : ∀ us, Rule.parse (.key .iifname :: .str wan :: us) =
      Rule.cons (some (.iifname wan)) (Rule.parse us) := by
    intro us
    show Rule.cons ((readIfname wan).map .iifname) (Rule.parse us) = _
    rw [hwan, Option.map_some]
  rw [hiif]
  rcases h.protocol_token with ⟨hp, k, hk, ht⟩ | ⟨hp, hk⟩
  · rw [if_pos hp, hk, Rule.parse_dport, ht, Option.bind_some, readPort_decimal h.extPort]
    rw [Option.map_some, Rule.cons_of_no_family rfl, Rule.cons_of_no_family rfl, Option.map_map]
    rfl
  · rw [if_neg hp, hk]
    rfl

theorem parse_forwardTokens (h : pf.Valid) (hwan : readIfname wan = some wan) :
    Rule.parse (forwardTokens wan pf) =
      if pf.protocol = "tcp" ∨ pf.protocol = "udp" then some (acceptRule wan pf) else none :=
  parse_matchTokens h hwan _

theorem parse_natTokens (h : pf.Valid) (hwan : readIfname wan = some wan) :
    Rule.parse (natTokens wan pf) = if pf.Fits then some (natRule wan pf) else none := by
  have htarget : Rule.parse [.key .dnat, .key .target, .word (pf.intIP ++ ':' :: decimal pf.intPort)] =
      if (parseIPv4 pf.intIP).isSome then some ⟨[.dnat pf.intIP pf.intPort.toNat], none⟩
      else none := by
    show Rule.cons ((readTarget (pf.intIP ++ ':' :: decimal pf.intPort)).map _) (some ⟨[], none⟩) = _
    rw [readTarget_eq h]
    split <;> rfl
  rw [natTokens, parse_matchTokens h hwan, htarget]
  unfold PortForward.Fits
  split_ifs <;> simp_all [natRule]

/-- Which packets the rules of a forward apply to, as far as their last clause holds. -/
theorem applies_iff (hw : PlainName wan) (q : PortForward)
    {last : Clause} (hlast : last.holds out p) (v : Option Verdict) :
    Rule.applies out p
      ⟨[.iifname wan, .port q.transport .destination q.extPort.toNat, last], v⟩ = true ↔
      p.iif = wan ∧ q.transport.covers p.proto ∧ p.dport = q.extPort.toNat := by
  simp only [Rule.applies, all_cons, all_nil, hlast, Bool.and_true, Bool.and_eq_true]
  simp only [Clause.holds, Packet.port, Bool.and_eq_true, beq_iff_eq]
  refine and_congr_left fun _ => ⟨eq_of_ifnameMatches hw.2, ?_⟩
  rintro rfl
  exact ifnameMatches_self _

/-- Forwards of one protocol each: the rules of one apply to the packets of another if the
protocols are the same. -/
theorem covers_iff {pf q : PortForward}
    (hpf : pf.protocol = "tcp" ∨ pf.protocol = "udp")
    (hq : q.protocol = "tcp" ∨ q.protocol = "udp") {n : Nat} (hn : n ∈ pf.protocols) :
    q.transport.covers n ↔ q.protocol = pf.protocol := by
  unfold PortForward.protocols at hn
  unfold PortForward.transport
  rcases hpf with hpf | hpf <;> rcases hq with hq | hq <;> simp_all [Transport.covers]

/-! ## In front of the port forwards -/

/-- Why a rule in front of the port forwards applies to a packet. -/
inductive Earlier (c : Config) (p : Packet) (v : Option Verdict) : Prop
  | clamp (hv : v = none)
  | known (hp : p.state ≠ .new)
  | custom (r : FirewallRule) (hr : r ∈ c.firewall.rules) (hen : r.enabled)
      (ht : r.target = .forward) (hm : r.Matches p)
  | pass (o : Text) (ho : o ∈ waysOut (buildTemplateData c)) (hp : p.oif = some o)
      (hv : v = some .accept)
  | isolated (vlan lan : Text) (hvlan : vlan ∈ isolatedVLANs c.interfaces c.vlans)
      (hlan : lan ∈ lanInterfaces c.interfaces) (hp : p.iif = vlan ∨ p.iif = lan)

theorem rulesBefore_earlier {c : Config} (hd : PlainData (buildTemplateData c)) :
    ReadsStmts (Entails (Earlier c)) (rulesBefore (buildTemplateData c)) := by
  refine rulesBefore_reads hd ?_ ?_ ?_ ?_ ?_
  · exact fun ts h out p v hfires => .clamp (h out p v hfires)
  · exact fun ts h out p v hfires => .known (h out p v hfires)
  · refine (buildCustomRules_reads c.firewall.rules .forward).mono ?_
    rintro ts ⟨r, hr, hen, ht, h⟩ out p v hfires
    exact .custom r hr hen ht (h out p v hfires)
  · intro i o hio ts h out p v hfires
    obtain ⟨-, hoif, hv⟩ := h out p v hfires
    rcases hio with ⟨-, ho⟩ | ⟨-, ho⟩
    · exact .pass o ho hoif hv
    · exact .pass o (by simp [waysOut, ho]) hoif hv
  · exact fun vlan hvlan lan hlan ts h out p v hfires =>
      .isolated vlan lan hvlan hlan (h out p v hfires).1

/-! ## The ruleset with and without its port forwards -/

/-- The statements of a rendered ruleset. The forward chain is `before`, a statement for
each port forward, and `last`. -/
structure Splits (c : Config) (s : ChainStmts) (before last : List (List Token)) : Prop where
  full : ChainReads (buildTemplateData c) { s with
    forward := before ++ (enabledForwards c).map (forwardTokens (wanDevice c)) ++ last
    prerouting := (enabledForwards c).map (natTokens (wanDevice c)) }
  bare : ChainReads (buildTemplateData (withoutForwards c)) { s with
    forward := before ++ last
    prerouting := [] }
  before_entails : ∀ ts ∈ before, Entails (Earlier c) ts
  last_entails : ∀ ts ∈ last, Entails (fun _ v => v = some .drop) ts
  masquerades : s.postrouting =
    (wanInterfaces c.interfaces ++ (usbInterface c.usbTether).toList).map masqueradeTokens

section

variable {c : Config} (hvalid : ∀ pf ∈ enabledForwards c, pf.Valid)

include hvalid in
theorem plainValues_of_valid
    (hserver : ∀ server, sixInFourServer c.ipv6 = some server → PlainWord server) :
    PlainValues c where
  server := hserver
  forwards := by
    intro pf hpf hen
    have h := hvalid pf (mem_filter.mpr ⟨hpf, hen⟩)
    exact h.plainWords.2

include hvalid in
theorem forwards_read (hw : PlainName (wanDevice c)) :
    Reads (portForwardRules (buildTemplateData c))
        (((enabledForwards c).map (forwardTokens (wanDevice c))).map .stmt) ∧
      Reads (preroutingRules (buildTemplateData c))
        (((enabledForwards c).map (natTokens (wanDevice c))).map .stmt) := by
  unfold enabledForwards
  simp only [← flatMap_if_eq_map_filter]
  refine ⟨portForwardRules_readsAs _ ?_, preroutingRules_readsAs c ?_⟩
  all_goals
    refine properStmts_flatMap.mpr fun pf hpf => properStmts_if.mpr fun hen => ?_
    have hproper := (hvalid pf (mem_filter.mpr ⟨hpf, hen⟩)).properTokens hw
    rw [properStmts_singleton]
  · exact fun t ht => .inl (hproper.1 t ht)
  · exact fun t ht => .inl (hproper.2 t ht)

include hvalid in
theorem exists_splits (hdev : PlainDevices c)
    (hserver : ∀ server, sixInFourServer c.ipv6 = some server → PlainWord server) :
    ∃ s before last, Splits c s before last := by
  have hd := buildTemplateData_plain hdev (plainValues_of_valid hvalid hserver)
  have hinput : ReadsStmts (fun _ => True) (inputRules (buildTemplateData c)) := by
    have hread : ReadsStmts (AcceptsOnly closedNet (fromWAN none 0) True)
        (inputRules (buildTemplateData c)) := by
      refine inputRules_reads hd rfl (fun _ => trivial) (fun _ => trivial) (fun _ => trivial) ?_ ?_
      · exact (buildCustomRules_reads c.firewall.rules .input).mono fun _ _ _ => trivial
      · exact (buildOpenPortRules_reads c.firewall.openPorts).mono fun _ _ _ => trivial
    exact hread.mono fun _ _ => trivial
  obtain ⟨si, hi, -⟩ := hinput
  obtain ⟨sb, hb, hbefore⟩ := rulesBefore_earlier hd
  obtain ⟨sl, hl, hlast⟩ := @logRule_reads "FORWARD_DROP: " (by decide)
  obtain ⟨so, ho, -⟩ := buildCustomRules_reads c.firewall.rules .output
  obtain ⟨st, ht, -⟩ := ttlfixRules_reads hd
  obtain ⟨hf, hp⟩ := forwards_read hvalid hd.wanDevice
  have hq := postroutingRules_reads hd
  refine ⟨⟨si, [], so, [], _, st⟩, sb, sl, ?_, ?_, hbefore, hlast, rfl⟩
  · refine ⟨hi, ?_, ho, hp, hq, ht⟩
    rw [forwardRules, map_append, map_append]
    exact (hb.append hf).append hl
  · refine ⟨hi, ?_, ho, reads_nil, hq, ht⟩
    have hnone : portForwardRules (buildTemplateData (withoutForwards c)) = [] := rfl
    rw [forwardRules, hnone, append_nil, map_append]
    exact hb.append hl

variable {s : ChainStmts} {before last : List (List Token)} (h : Splits c s before last)

theorem firstDevice_mem {devices : List Text} (h : firstDevice devices ≠ []) :
    firstDevice devices ∈ devices := by
  unfold firstDevice at h ⊢
  rcases hf : devices.find? (· ≠ []) with _ | d
  · rw [hf] at h
    exact absurd rfl h
  · exact mem_of_find?_eq_some hf

include h in
/-- The WAN device of a ruleset that loads is an interface name. -/
theorem Splits.readIfname_wan (hwan : wanDevice c ≠ []) (hp : Parses s.postrouting) :
    readIfname (wanDevice c) = some (wanDevice c) := by
  have hmem : masqueradeTokens (wanDevice c) ∈ s.postrouting := by
    rw [h.masquerades]
    exact mem_map_of_mem (mem_append_left _ (firstDevice_mem hwan))
  obtain ⟨r, hr⟩ := Option.isSome_iff_exists.mp (hp _ hmem)
  rcases Rule.cons_eq_some
    (show Rule.cons ((readIfname (wanDevice c)).map .oifname) _ = some r from hr) with ⟨x, -, hx, -⟩
  obtain ⟨d, hd, -⟩ := Option.map_eq_some_iff.mp hx
  rw [hd, readIfname_eq hd]

include hvalid in
/-- The statements of the port forwards are in the fragment if the forwards fit. -/
theorem parses_forwards_iff (hwan : readIfname (wanDevice c) = some (wanDevice c)) :
    (Parses ((enabledForwards c).map (forwardTokens (wanDevice c))) ∧
      Parses ((enabledForwards c).map (natTokens (wanDevice c)))) ↔
      ∀ pf ∈ enabledForwards c, pf.Fits := by
  simp only [Parses, forall_mem_map]
  constructor
  · rintro ⟨-, hnat⟩ pf hpf
    have hparse := hnat pf hpf
    rw [parse_natTokens (hvalid pf hpf) hwan] at hparse
    by_contra hfits
    rw [if_neg hfits] at hparse
    cases hparse
  · intro hfits
    constructor
    · intro pf hpf
      rw [parse_forwardTokens (hvalid pf hpf) hwan, if_pos (hfits pf hpf).1]
      rfl
    · intro pf hpf
      rw [parse_natTokens (hvalid pf hpf) hwan, if_pos (hfits pf hpf)]
      rfl

include hvalid h in
/-- A ruleset loads if it does without its port forwards and the forwards fit. -/
theorem Splits.load_iff (hwan : wanDevice c ≠ []) :
    (∃ cs, load (renderConfig c) = some cs) ↔
      (∃ cs, load (renderConfig (withoutForwards c)) = some cs) ∧
        ∀ pf ∈ enabledForwards c, pf.Fits := by
  unfold renderConfig
  rw [load_template_iff h.full, load_template_iff h.bare]
  simp only [parses_append]
  constructor
  · rintro ⟨hi, ⟨⟨hb, hf⟩, hl⟩, ho, hp, hq, ht⟩
    have hname := h.readIfname_wan hwan hq
    exact ⟨⟨hi, ⟨hb, hl⟩, ho, by simp [Parses], hq, ht⟩,
      (parses_forwards_iff hvalid hname).mp ⟨hf, hp⟩⟩
  · rintro ⟨⟨hi, ⟨hb, hl⟩, ho, -, hq, ht⟩, hfits⟩
    have hname := h.readIfname_wan hwan hq
    obtain ⟨hf, hp⟩ := (parses_forwards_iff hvalid hname).mpr hfits
    exact ⟨hi, ⟨⟨hb, hf⟩, hl⟩, ho, hp, hq, ht⟩

/-! ## What the chains do -/

variable {cs : List Chain} (hload : load (renderConfig c) = some cs)

include h hload in
theorem Splits.verdict :
    filterVerdict out c "forward" p = some .accept ↔
      verdictBy out p (before ++ (enabledForwards c).map (forwardTokens (wanDevice c)) ++ last) =
        some .accept :=
  accepts_template_iff h.full hload (forward_mem_templateBlocks _ _)

include hvalid h hload in
/-- The prerouting chain goes by the first forward for the packet. -/
theorem Splits.target (hname : readIfname (wanDevice c) = some (wanDevice c))
    (hfits : ∀ pf ∈ enabledForwards c, pf.Fits) (out : Outside) (hp : p.family = .ip4) :
    natTarget out c p =
      ((enabledForwards c).find? fun q => (natRule (wanDevice c) q).applies out p).map
        fun q => (q.intIP, q.intPort.toNat) := by
  obtain ⟨ch, hfind, hch⟩ := exists_chain h.full hload (prerouting_mem_templateBlocks _ _)
  have hrules : ch.rules = (enabledForwards c).map (natRule (wanDevice c)) := by
    have hparse := (Chain.ofBlock_chainStmts hch).2
    have hexact : ((enabledForwards c).map (natTokens (wanDevice c))).mapM Rule.parse =
        some ((enabledForwards c).map (natRule (wanDevice c))) := by
      rw [mapM_eq_some_iff, forall₂_map_left_iff, forall₂_map_right_iff, forall₂_same]
      intro q hq
      rw [parse_natTokens (hvalid q hq) hname, if_pos (hfits q hq)]
    exact Option.some.inj (hparse.symm.trans hexact)
  have htarget : ch.target out p =
      ((enabledForwards c).find? fun q => (natRule (wanDevice c) q).applies out p).map
        fun q => (q.intIP, q.intPort.toNat) := by
    rw [Chain.target, hrules, List.find?_map]
    have hends : ((fun r : Rule => r.applies out p && (r.target.isSome || r.verdict.isSome)) ∘
        natRule (wanDevice c)) = fun q => (natRule (wanDevice c) q).applies out p := by
      funext q
      simp [natRule, Rule.target]
    rw [hends, Option.bind_map]
    cases (enabledForwards c).find? fun q => (natRule (wanDevice c) q).applies out p <;> rfl
  unfold natTarget targetOf
  rw [hload, Option.bind_some]
  rw [show findChain cs Keyword.ip.spell "nat" "prerouting" = some ch from hfind, Option.bind_some,
    if_pos hp, htarget]

end

/-! ## When forwards work -/

/-- There are packets for every forward of the form. -/
theorem exists_arrives (h : pf.Valid) (c : Config) (f : Family) : ∃ p, pf.Arrives c f p := by
  have hproto : ∃ n, n ∈ pf.protocols := by
    unfold PortForward.protocols
    rcases h.protocol with hp | hp | hp <;> simp [hp]
  obtain ⟨n, hn⟩ := hproto
  have hport : pf.extPort = (pf.extPort.toNat : Int) := by
    have := h.extPort
    omega
  exact ⟨⟨wanDevice c, none, f, 0, 0, n, n, 0, pf.extPort.toNat, [], true, .new⟩,
    rfl, rfl, hn, hport, rfl⟩

theorem PortForward.Fits.family (h : pf.Fits) {f : Family} {a : Nat}
    (hip : parseIP pf.intIP = some (f, a)) : f = .ip4 := by
  rcases parseIP_cases hip with ⟨hf, -⟩ | ⟨-, hcolon⟩
  · exact hf
  · obtain ⟨b, hb⟩ := Option.isSome_iff_exists.mp h.2
    exact absurd hcolon (colon_not_mem_of_parseIPv4 hb)

/-- The forward whose rule rewrites the packets for `pf`. -/
def firstForward (c : Config) (pf : PortForward) : Option PortForward :=
  (enabledForwards c).find? fun q => q.protocol = pf.protocol ∧ q.extPort = pf.extPort

section

variable {c : Config} (hvalid : ∀ pf ∈ enabledForwards c, pf.Valid)
  (hfits : ∀ pf ∈ enabledForwards c, pf.Fits)

include hvalid hfits in
theorem find_eq_firstForward (hw : PlainName (wanDevice c))
    (hpf : pf ∈ enabledForwards c) {f : Family} (harr : pf.Arrives c f p) (out : Outside) :
    ((enabledForwards c).find? fun q => (natRule (wanDevice c) q).applies out p) =
      firstForward c pf := by
  refine List.find?_congr fun q hq => ?_
  have hport : p.dport = q.extPort.toNat ↔ q.extPort = pf.extPort := by
    have hqport := (hvalid q hq).extPort
    have hdport := harr.dport
    omega
  rw [Bool.eq_iff_iff, natRule, applies_iff hw q rfl, decide_eq_true_eq, hport,
    covers_iff (hfits pf hpf).1 (hfits q hq).1 harr.proto]
  exact and_iff_right harr.iif

/-- The WAN device of a config is plain. -/
theorem PlainDevices.wanDevice (hdev : PlainDevices c) : PlainName (wanDevice c) := by
  by_cases hwan : Firewall.wanDevice c = []
  · rw [hwan]
    exact ⟨by simp, by simp⟩
  · exact plainName_wan hdev.interfaces _ (firstDevice_mem hwan)

variable {s : ChainStmts} {before last : List (List Token)} (h : Splits c s before last)
  (hdev : PlainDevices c) (hname : readIfname (wanDevice c) = some (wanDevice c))
  {cs : List Chain} (hload : load (renderConfig c) = some cs)
  (hisolated : ∀ vlan ∈ isolatedVLANs c.interfaces c.vlans, ∀ lan ∈ lanInterfaces c.interfaces,
    wanDevice c ≠ vlan ∧ wanDevice c ≠ lan)
  {pf : PortForward} (hpf : pf ∈ enabledForwards c) (hcustom : pf.Unhindered c)
  {f : Family} {a : Nat} (hip : parseIP pf.intIP = some (f, a))
  {p : Packet} (harr : pf.Arrives c f p)

include h hisolated hcustom hip harr in
/-- A rule in front of the port forwards that decides on a rewritten packet lets it out by one
of the known ways. -/
theorem Splits.decides_before {oif : Text} {ts : List Token} (hts : ts ∈ before)
    {v : Verdict} (hv : Fires out (redirected p a pf.intPort.toNat oif) (some v) ts) :
    v = .accept ∧ oif ∈ waysOut (buildTemplateData c) := by
  cases h.before_entails ts hts out _ _ hv with
  | clamp hnone => cases hnone
  | known hstate => exact absurd harr.state hstate
  | custom r hr hen ht hm => exact absurd hm (hcustom r hr hen ht f a hip p harr oif)
  | pass o ho hoif haccept =>
    obtain rfl : oif = o := Option.some.inj hoif
    exact ⟨Option.some.inj haccept, ho⟩
  | isolated vlan lan hvlan hlan hiif =>
    have hwan : (redirected p a pf.intPort.toNat oif).iif = wanDevice c := harr.iif
    rw [hwan] at hiif
    rcases hiif with hiif | hiif
    · exact absurd hiif (hisolated vlan hvlan lan hlan).1
    · exact absurd hiif (hisolated vlan hvlan lan hlan).2

include hvalid hfits hdev hname hpf harr in
/-- The rule of a forward applies to the packets rewritten for `pf` if it is for the same
protocol and for the port inside. -/
theorem forwardTokens_fires {q : PortForward} (hq : q ∈ enabledForwards c) (out : Outside)
    (oif : Text) (v : Verdict) :
    Fires out (redirected p a pf.intPort.toNat oif) (some v) (forwardTokens (wanDevice c) q) ↔
      v = .accept ∧ q.protocol = pf.protocol ∧ q.extPort = pf.intPort := by
  have hparse : Rule.parse (forwardTokens (wanDevice c) q) = some (acceptRule (wanDevice c) q) := by
    rw [parse_forwardTokens (hvalid q hq) hname, if_pos (hfits q hq).1]
  have hport : pf.intPort.toNat = q.extPort.toNat ↔ q.extPort = pf.intPort := by
    have hqport := (hvalid q hq).extPort
    have hint := (hvalid pf hpf).intPort
    omega
  have happ : (acceptRule (wanDevice c) q).applies out (redirected p a pf.intPort.toNat oif) ↔
      q.protocol = pf.protocol ∧ q.extPort = pf.intPort := by
    rw [acceptRule, applies_iff hdev.wanDevice q (by simp [Clause.holds, redirected, harr.state])]
    show p.iif = _ ∧ q.transport.covers p.proto ∧ pf.intPort.toNat = _ ↔ _
    rw [covers_iff (hfits pf hpf).1 (hfits q hq).1 harr.proto, hport]
    exact and_iff_right harr.iif
  constructor
  · rintro ⟨r, hr, happlies, hv⟩
    cases hparse.symm.trans hr
    exact ⟨(Option.some.inj hv).symm, happ.mp happlies⟩
  · rintro ⟨rfl, hall⟩
    exact ⟨_, hparse, happ.mpr hall, rfl⟩

include hvalid hfits h hdev hname hload hisolated hpf hcustom hip harr in
/-- The forward chain passes the rewritten packets by every way out if there is a forward of
the protocol for the port inside. -/
theorem Splits.accepts_iff (out : Outside) :
    (∀ oif, filterVerdict out c "forward" (redirected p a pf.intPort.toNat oif) = some .accept) ↔
      ∃ q ∈ enabledForwards c, q.protocol = pf.protocol ∧ q.extPort = pf.intPort := by
  -- what is in front of the last rule only accepts, and the last rule never does
  have hfront : ∀ oif w, Decided out (redirected p a pf.intPort.toNat oif) w
      (before ++ (enabledForwards c).map (forwardTokens (wanDevice c))) → w = .accept := by
    rintro oif w ⟨ts, hts, hfires⟩
    rcases mem_append.mp hts with hts | hts
    · exact (h.decides_before hisolated hcustom hip harr hts hfires).1
    · obtain ⟨q, hq, rfl⟩ := mem_map.mp hts
      exact ((forwardTokens_fires hvalid hfits hdev hname hpf harr hq out oif _).mp hfires).1
  have hlast : ∀ oif, verdictBy out (redirected p a pf.intPort.toNat oif) last ≠ some .accept := by
    intro oif hv
    obtain ⟨ts, hts, hfires⟩ := decided_of_verdictBy hv
    cases h.last_entails ts hts out _ _ hfires
  constructor
  · intro hall
    -- a way out that no other rule is about
    obtain ⟨oif, hoif⟩ := Infinite.exists_notMem_finset (waysOut (buildTemplateData c)).toFinset
    rw [mem_toFinset] at hoif
    have hverdict := (h.verdict hload).mp (hall oif)
    rw [verdictBy_accept_append (hfront oif), or_iff_left (hlast oif)] at hverdict
    obtain ⟨ts, hts, hfires⟩ := hverdict
    rcases mem_append.mp hts with hts | hts
    · exact absurd (h.decides_before hisolated hcustom hip harr hts hfires).2 hoif
    · obtain ⟨q, hq, rfl⟩ := mem_map.mp hts
      exact ⟨q, hq, ((forwardTokens_fires hvalid hfits hdev hname hpf harr hq out oif _).mp hfires).2⟩
  · rintro ⟨q, hq, hsame⟩ oif
    rw [h.verdict hload, verdictBy_accept_append (hfront oif)]
    refine .inl ⟨_, mem_append_right _ (mem_map_of_mem hq), ?_⟩
    rw [forwardTokens_fires hvalid hfits hdev hname hpf harr hq]
    exact ⟨rfl, hsame⟩

include hvalid hfits hdev hname in
/-- The lines of forwards that fit are real. -/
theorem realLine_of_fits :
    ∀ l ∈ portForwardRules (buildTemplateData c) ++ preroutingRules (buildTemplateData c),
      RealLine l := by
  have htransport : ∀ q : PortForward, q.transport ≠ .th := by
    intro q
    unfold PortForward.transport
    split <;> exact Transport.noConfusion
  simp only [portForwardRules_eq, preroutingRules_eq, flatMap_if_eq_map_filter,
    forall_mem_append, forall_mem_map]
  constructor
  · intro q hq
    refine ⟨_, acceptRule (wanDevice c) q, lexesLine_tokens (by simp [forwardTokens])
      ((hvalid q hq).properTokens hdev.wanDevice).1, ?_,
      ⟨q.transport, _, htransport q, mem_cons_of_mem _ mem_cons_self⟩, nofun⟩
    exact (parse_forwardTokens (hvalid q hq) hname).trans (if_pos (hfits q hq).1)
  · intro q hq
    refine ⟨_, natRule (wanDevice c) q, lexesLine_tokens (by simp [natTokens])
      ((hvalid q hq).properTokens hdev.wanDevice).2, ?_,
      ⟨q.transport, _, htransport q, mem_cons_of_mem _ mem_cons_self⟩, ?_⟩
    · exact (parse_natTokens (hvalid q hq) hname).trans (if_pos (hfits q hq))
    · rintro host port ⟨⟩
      exact (hfits q hq).2

end

/-- **Port forwards.** In a config whose forwards all come from the form, and whose WAN device is
kept apart from isolated VLANs: a forward works, and all rendered lines are real, if the ruleset
loads without the forwards, all forwards name one protocol and an IPv4 host, no earlier forward
takes the port to another host, and some forward of the protocol is for the port inside. -/
theorem port_forward_works_iff {c : Config} (hdev : PlainDevices c)
    (hserver : ∀ server, sixInFourServer c.ipv6 = some server → PlainWord server)
    (hwan : wanDevice c ≠ [])
    (hisolated : ∀ vlan ∈ isolatedVLANs c.interfaces c.vlans, ∀ lan ∈ lanInterfaces c.interfaces,
      wanDevice c ≠ vlan ∧ wanDevice c ≠ lan)
    (hforms : ∀ pf ∈ enabledForwards c, ∃ form, parsePortForwardForm form = .ok pf)
    {pf : PortForward} (hpf : pf ∈ enabledForwards c) (hcustom : pf.Unhindered c) (out : Outside) :
    (pf.Works out c ∧
      ∀ l ∈ portForwardRules (buildTemplateData c) ++ preroutingRules (buildTemplateData c),
        RealLine l) ↔
      (∃ cs, load (renderConfig (withoutForwards c)) = some cs) ∧
      (∀ q ∈ enabledForwards c, q.Fits) ∧
      (∀ q, firstForward c pf = some q → q.intIP = pf.intIP ∧ q.intPort = pf.intPort) ∧
      ∃ q ∈ enabledForwards c, q.protocol = pf.protocol ∧ q.extPort = pf.intPort := by
  have hvalid : ∀ q ∈ enabledForwards c, q.Valid := by
    intro q hq
    obtain ⟨form, hform⟩ := hforms q hq
    exact parsePortForwardForm_valid hform
  obtain ⟨s, before, last, h⟩ := exists_splits hvalid hdev hserver
  have hnamed : (∃ cs, load (renderConfig c) = some cs) →
      readIfname (wanDevice c) = some (wanDevice c) := by
    intro hload
    rw [renderConfig, load_template_iff h.full] at hload
    exact h.readIfname_wan hwan hload.2.2.2.2.1
  have hints : ∀ {q}, q ∈ enabledForwards c → q.intPort.toNat = pf.intPort.toNat →
      q.intPort = pf.intPort := by
    intro q hq heq
    have hq' := (hvalid q hq).intPort
    have hpf' := (hvalid pf hpf).intPort
    omega
  constructor
  · rintro ⟨hworks, -⟩
    obtain ⟨f, a, hip⟩ := (hvalid pf hpf).intIP
    obtain ⟨p, harr⟩ := exists_arrives (hvalid pf hpf) c f
    obtain ⟨htarget, haccept⟩ := hworks f a hip p harr
    have hload : ∃ cs, load (renderConfig c) = some cs := by
      unfold natTarget targetOf at htarget
      obtain ⟨cs, hcs, -⟩ := Option.bind_eq_some_iff.mp htarget
      exact ⟨cs, hcs⟩
    have hname := hnamed hload
    obtain ⟨hbare, hfits⟩ := (h.load_iff hvalid hwan).mp hload
    obtain ⟨cs, hload⟩ := hload
    have hfour : p.family = .ip4 := harr.family.trans ((hfits pf hpf).family hip)
    refine ⟨hbare, hfits, ?_,
      (h.accepts_iff hvalid hfits hdev hname hload hisolated hpf hcustom hip harr out).mp haccept⟩
    intro q hq
    rw [h.target hvalid hload hname hfits out hfour,
      find_eq_firstForward hvalid hfits hdev.wanDevice hpf harr out, hq] at htarget
    have hpair : q.intIP = pf.intIP ∧ q.intPort.toNat = pf.intPort.toNat := by
      simpa using Option.some.inj htarget
    exact ⟨hpair.1, hints (mem_of_find?_eq_some hq) hpair.2⟩
  · rintro ⟨hbare, hfits, hfirst, hport⟩
    have hload := (h.load_iff hvalid hwan).mpr ⟨hbare, hfits⟩
    have hname := hnamed hload
    obtain ⟨cs, hload⟩ := hload
    refine ⟨?_, realLine_of_fits hvalid hfits hdev hname⟩
    intro f a hip p harr
    have hfour : p.family = .ip4 := harr.family.trans ((hfits pf hpf).family hip)
    refine ⟨?_,
      (h.accepts_iff hvalid hfits hdev hname hload hisolated hpf hcustom hip harr out).mpr hport⟩
    rw [h.target hvalid hload hname hfits out hfour,
      find_eq_firstForward hvalid hfits hdev.wanDevice hpf harr out]
    -- `pf` itself is one of the forwards searched
    have hfound : (firstForward c pf).isSome := by
      rw [firstForward, List.find?_isSome]
      exact ⟨pf, hpf, by simp⟩
    obtain ⟨q, hq⟩ := Option.isSome_iff_exists.mp hfound
    obtain ⟨hhost, hinner⟩ := hfirst q hq
    rw [hq, Option.map_some, hhost, hinner]

/-- A LAN behind `eth1`, a WAN on `eth0`, and one port forward. -/
def forwardConfig (pf : PortForward) : Config where
  interfaces := [⟨"lan", "eth1", "lan", "static"⟩, ⟨"wan", "eth0", "wan", "dhcp"⟩]
  firewall := { portForwards := [pf] }

def samePort : PortForward :=
  ⟨"tcp", 8080, "192.168.1.9", 8080, true⟩

theorem samePort_works : samePort.Works closedNet (forwardConfig samePort) := by
  have hdev : PlainDevices (forwardConfig samePort) := ⟨by decide, by decide, by decide, by decide⟩
  have hforms : ∀ pf ∈ enabledForwards (forwardConfig samePort),
      ∃ form, parsePortForwardForm form = .ok pf := by
    intro pf hpf
    obtain rfl : pf = samePort := mem_singleton.mp hpf
    exact ⟨⟨"tcp", "8080", "192.168.1.9", "8080"⟩, by decide +kernel⟩
  have hcustom : samePort.Unhindered (forwardConfig samePort) := by
    intro r hr
    cases hr
  have hbare : ∃ cs, load (renderConfig (withoutForwards (forwardConfig samePort))) = some cs :=
    Option.isSome_iff_exists.mp (by decide +kernel)
  have hfits : ∀ q ∈ enabledForwards (forwardConfig samePort), q.Fits := by
    intro q hq
    obtain rfl : q = samePort := mem_singleton.mp hq
    decide
  have hfirst : ∀ q, firstForward (forwardConfig samePort) samePort = some q →
      q.intIP = samePort.intIP ∧ q.intPort = samePort.intPort := by
    intro q hq
    obtain rfl : q = samePort := mem_singleton.mp (mem_of_find?_eq_some hq)
    exact ⟨rfl, rfl⟩
  exact ((port_forward_works_iff hdev (fun _ h => by cases h) (by decide) (by decide) hforms
    mem_cons_self hcustom closedNet).mpr
    ⟨hbare, hfits, hfirst, samePort, mem_cons_self, rfl, rfl⟩).1

/-- The form takes three forwards that do not work. A connection to port 8080 that is rewritten
to port 80 is dropped, and with `both` or an IPv6 host the ruleset does not load. -/
theorem forwards_that_fail :
    let web : PortForward := ⟨"tcp", 8080, "192.168.1.9", 80, true⟩
    let dns : PortForward := ⟨"both", 53, "192.168.1.9", 53, true⟩
    let ssh : PortForward := ⟨"tcp", 22, "fd00::9", 22, true⟩
    (parsePortForwardForm ⟨"tcp", "8080", "192.168.1.9", "80"⟩ = .ok web ∧
      natTarget closedNet (forwardConfig web) (fromWAN none 8080) = some ("192.168.1.9".toList, 80) ∧
      filterVerdict closedNet (forwardConfig web) "forward"
        (redirected (fromWAN none 8080) 3232235785 80 "eth1") = some .drop) ∧
    (parsePortForwardForm ⟨"both", "53", "192.168.1.9", "53"⟩ = .ok dns ∧
      load (renderConfig (forwardConfig dns)) = none) ∧
    parsePortForwardForm ⟨"tcp", "22", "fd00::9", "22"⟩ = .ok ssh ∧
      load (renderConfig (forwardConfig ssh)) = none := by
  decide +kernel

end Lankeeper.Firewall
