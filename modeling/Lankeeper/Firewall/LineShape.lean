import Lankeeper.Firewall.RuleLines

/-!
# Lankeeper.Firewall.LineShape — are the rendered lines rules of nft?

One line that `nft` does not take makes it refuse the whole file. `RuleLine` is what a
line has to be: one statement without control characters, in which `dport` follows `tcp`
or `udp`, addresses are literals of the family they are matched in, and all of them are
of the same family.

The renderers check each field by itself. Three things get past them: a port with the
protocol `icmp`, an IPv4 address written in IPv6, and a source and a destination of
different families. `rule_lines_iff` says that there is nothing else.
-/

namespace Lankeeper.Firewall

open Lib Text Nft

/-! ## The shape of a line -/

/-- What stands in front of each `dport` of a statement that follows `p`. -/
def beforePorts (p : Option Token) : List Token → List (Option Token)
  | [] => []
  | t :: ts => (if t = .key .dport then [p] else []) ++ beforePorts (some t) ts

/-- The family and the operand at the front, if an address match starts here. -/
def addressMatch : List Token → List (Family × Token)
  | .key .ip :: .key .saddr :: a :: _ => [(.ip4, a)]
  | .key .ip :: .key .daddr :: a :: _ => [(.ip4, a)]
  | .key .ip6 :: .key .saddr :: a :: _ => [(.ip6, a)]
  | .key .ip6 :: .key .daddr :: a :: _ => [(.ip6, a)]
  | _ => []

/-- The address matches of a statement. -/
def matchedAddresses : List Token → List (Family × Token)
  | [] => []
  | t :: ts => addressMatch (t :: ts) ++ matchedAddresses ts

/-- A literal of the family. -/
def Literal (f : Family) (t : Token) : Prop :=
  ∃ a q, t = .word a ∧ Prefix.parse a = some q ∧ q.family = f

/-- The tokens of a rule. -/
structure RuleTokens (ts : List Token) : Prop where
  nonempty : ts ≠ []
  /-- no line end, semicolon or brace: it is one statement -/
  plain : ∀ t ∈ ts, t.plain
  ports : ∀ t ∈ beforePorts none ts, t = some (.key .tcp) ∨ t = some (.key .udp)
  literals : ∀ m ∈ matchedAddresses ts, Literal m.1 m.2
  family : ∀ m ∈ matchedAddresses ts, ∀ n ∈ matchedAddresses ts, m.1 = n.1

/-- A line that is one rule of `nft`. -/
structure RuleLine (l : Text) : Prop where
  printable : ∀ c ∈ l, isControl c = false
  tokens : ∃ ts, lex (l ++ ['\n']) = some (ts ++ [.newline]) ∧ RuleTokens ts

/-! ## Ports and addresses of the statements -/

section

variable {t : Token} {ts us : List Token}

theorem matchedAddresses_cons (hip : t ≠ .key .ip) (hip6 : t ≠ .key .ip6) :
    matchedAddresses (t :: ts) = matchedAddresses ts := by
  have hnone : addressMatch (t :: ts) = [] := by
    unfold addressMatch
    split <;> simp_all
  rw [matchedAddresses, hnone, List.nil_append]

theorem matchedAddresses_append (h : ∀ t ∈ us, t ≠ .key .ip ∧ t ≠ .key .ip6) (ts : List Token) :
    matchedAddresses (us ++ ts) = matchedAddresses ts := by
  induction us with
  | nil => rfl
  | cons u us ih =>
    obtain ⟨hu, hus⟩ := List.forall_mem_cons.mp h
    rw [List.cons_append, matchedAddresses_cons hu.1 hu.2, ih hus]

/-- The address match of a field, if it is set. -/
def fieldMatch (a : Text) : List (Family × Token) :=
  if a = [] then [] else [(matcherFamily a, .word a)]

theorem matchedAddresses_address (s : Side) (a : Text) (ts : List Token) :
    matchedAddresses (addressTokens s a ++ ts) = fieldMatch a ++ matchedAddresses ts := by
  unfold addressTokens fieldMatch
  by_cases ha : a = []
  · simp [ha]
  have hword : matchedAddresses (.word a :: ts) = matchedAddresses ts :=
    matchedAddresses_cons (by simp) (by simp)
  have hkey : matchedAddresses (.key s.addrKey :: .word a :: ts) = matchedAddresses ts := by
    rw [matchedAddresses_cons, hword]
    all_goals cases s <;> simp [Side.addrKey]
  rw [if_neg ha, if_neg ha, List.cons_append, List.cons_append, List.cons_append, List.nil_append,
    matchedAddresses, hkey]
  cases matcherFamily a <;> cases s <;> rfl

/-- Tokens without a port in front. -/
theorem beforePorts_append (h : .key .dport ∉ us) (ts : List Token) (p : Option Token) :
    ∃ q, beforePorts p (us ++ ts) = beforePorts q ts := by
  induction us generalizing p with
  | nil => exact ⟨p, rfl⟩
  | cons u us ih =>
    obtain ⟨hu, hus⟩ := not_or.mp (fun hmem => h (List.mem_cons.mpr hmem))
    obtain ⟨q, hq⟩ := ih hus (some u)
    refine ⟨q, ?_⟩
    rw [List.cons_append, beforePorts, if_neg (Ne.symm hu), List.nil_append, hq]

end

theorem matchedAddresses_custom (r : FirewallRule) :
    matchedAddresses (customTokens r) = fieldMatch r.srcIP ++ fieldMatch r.dstIP := by
  have hiface : ∀ t ∈ interfaceTokens r, t ≠ .key .ip ∧ t ≠ .key .ip6 := by
    unfold interfaceTokens
    split_ifs <;> simp
  have hproto : ∀ t ∈ protocolTokens r ++ [.key (actionKey r.action)],
      t ≠ .key .ip ∧ t ≠ .key .ip6 := by
    unfold protocolTokens protocolKey actionKey
    split_ifs <;> simp
  have hend := matchedAddresses_append hproto []
  rw [List.append_nil] at hend
  simp only [customTokens, List.flatten_cons, List.flatten_nil, List.append_nil, List.append_assoc,
    matchedAddresses_append hiface, matchedAddresses_address, hend, matchedAddresses]

theorem beforePorts_custom (r : FirewallRule) :
    beforePorts none (customTokens r) =
      if r.protocol ≠ [] ∧ 0 < r.port then [some (.key (protocolKey r.protocol))] else [] := by
  have hfront : .key .dport ∉ interfaceTokens r ++ (addressTokens .source r.srcIP ++
      addressTokens .destination r.dstIP) := by
    have haddr : ∀ s a, .key .dport ∉ addressTokens s a := by
      intro s a
      unfold addressTokens
      split_ifs
      · simp
      · cases matcherFamily a <;> cases s <;> simp [familyKey, Side.addrKey]
    have hiface : .key .dport ∉ interfaceTokens r := by
      unfold interfaceTokens
      split_ifs <;> simp
    simp only [List.mem_append, not_or]
    exact ⟨hiface, haddr _ _, haddr _ _⟩
  have hsplit : customTokens r = (interfaceTokens r ++ (addressTokens .source r.srcIP ++
      addressTokens .destination r.dstIP)) ++
        (protocolTokens r ++ [.key (actionKey r.action)]) := by
    simp [customTokens]
  have haction : (Token.key (actionKey r.action)) ≠ .key .dport := by
    unfold actionKey
    split_ifs <;> simp
  rcases beforePorts_append hfront (protocolTokens r ++ [.key (actionKey r.action)]) none with
    ⟨p, hp⟩
  rw [hsplit, hp]
  unfold protocolTokens
  have hkey : protocolKey r.protocol ≠ .dport := by
    rcases protocolKey_cases r.protocol with hk | hk | hk <;> simp [hk]
  by_cases hr : r.protocol = []
  · simp [hr, beforePorts, haction]
  by_cases hport : r.port ≤ 0 <;> simp [hr, hport, beforePorts, haction, hkey]

variable {op : OpenPort}

theorem matchedAddresses_openPort {k : Keyword} (hk : k ∈ op.keys) :
    matchedAddresses (openPortTokens op k) = fieldMatch (trimSpace op.source) := by
  have hkey := OpenPort.mem_keys hk
  have hrest : ∀ t ∈ [.key k, .key .dport, .word (decimal op.port), .key .ct, .key .state,
      .key .new] ++ (limitTokens op.rateLimit ++ [.key .accept]), t ≠ .key .ip ∧ t ≠ .key .ip6 := by
    unfold limitTokens
    rcases hkey with rfl | rfl <;> split_ifs <;> simp
  have hend := matchedAddresses_append hrest []
  rw [List.append_nil] at hend
  rw [openPortTokens, matchedAddresses_address, hend, matchedAddresses, List.append_nil]

theorem beforePorts_openPort {k : Keyword} (hk : k ∈ op.keys) :
    beforePorts none (openPortTokens op k) = [some (.key k)] := by
  have hkey := OpenPort.mem_keys hk
  have hfront : .key .dport ∉ addressTokens .source (trimSpace op.source) := by
    unfold addressTokens
    split_ifs
    · simp
    · cases matcherFamily (trimSpace op.source) <;> simp [familyKey, Side.addrKey]
  rcases beforePorts_append hfront ([.key k, .key .dport, .word (decimal op.port), .key .ct,
    .key .state, .key .new] ++ (limitTokens op.rateLimit ++ [.key .accept])) none with ⟨p, hp⟩
  rw [openPortTokens, hp]
  unfold limitTokens
  rcases hkey with rfl | rfl <;> split_ifs <;> simp [beforePorts]

/-! ## What the renderers leave open -/

/-- An address is a literal of the family it is matched in. -/
def MatchedAs (a : Text) : Prop :=
  a ≠ [] → ∃ q, Prefix.parse a = some q ∧ q.family = matcherFamily a

structure FirewallRule.Fits (r : FirewallRule) : Prop where
  ports : r.protocol = "icmp" → r.port ≤ 0
  src : MatchedAs r.srcIP
  dst : MatchedAs r.dstIP
  family : r.srcIP ≠ [] → r.dstIP ≠ [] → matcherFamily r.srcIP = matcherFamily r.dstIP

def OpenPort.Fits (op : OpenPort) : Prop :=
  MatchedAs (trimSpace op.source)

/-! ## Which lines are rules -/

theorem literal_fieldMatch {a : Text} : (∀ m ∈ fieldMatch a, Literal m.1 m.2) ↔ MatchedAs a := by
  unfold fieldMatch MatchedAs
  by_cases ha : a = []
  · simp [ha]
  · simp [ha, Literal]

/-- A line whose tokens are known is a rule if they are. -/
theorem ruleLine_iff {l : Text} {ts : List Token} (hprint : Printable l) (hlex : LexesLine l ts) :
    RuleLine l ↔ RuleTokens ts := by
  have hread : lex (l ++ ['\n']) = some (ts ++ [.newline]) := hlex []
  constructor
  · intro h
    obtain ⟨us, hus, htokens⟩ := h.tokens
    have heq := Option.some.inj (hread.symm.trans hus)
    rw [List.append_cancel_right heq]
    exact htokens
  · intro h
    exact ⟨hprint, ts, hread, h⟩

theorem customRule_iff {r : FirewallRule} {l : Text} (h : renderCustomRule r = .ok l)
    (hne : l ≠ []) : RuleLine l ↔ r.Fits := by
  have hlex := renderCustomRule_lexes h hne
  obtain ⟨hr, rfl⟩ := renderCustomRule_ok h hne
  rw [ruleLine_iff (ruleText_printable hr.clean hr.name) hlex]
  -- the protocols that are rendered
  have hproto : r.protocol ≠ [] → protocolKey r.protocol = .icmp → r.protocol = "icmp" := by
    intro hset hkey
    have hspell := hr.protocol hset
    rw [hkey] at hspell
    exact hspell.symm
  have hmem : ∀ P : Family × Token → Prop, (∀ m ∈ matchedAddresses (customTokens r), P m) ↔
      (∀ m ∈ fieldMatch r.srcIP, P m) ∧ ∀ m ∈ fieldMatch r.dstIP, P m := by
    intro P
    rw [matchedAddresses_custom, List.forall_mem_append]
  constructor
  · intro htokens
    obtain ⟨hsrc, hdst⟩ := (hmem _).mp htokens.literals
    refine ⟨?_, literal_fieldMatch.mp hsrc, literal_fieldMatch.mp hdst, ?_⟩
    · intro hicmp
      by_contra hport
      have hset : r.protocol ≠ [] ∧ 0 < r.port := ⟨by simp [hicmp], by omega⟩
      have hports := htokens.ports
      rw [beforePorts_custom, if_pos hset, hicmp] at hports
      have hkey := List.forall_mem_singleton.mp hports
      revert hkey
      decide
    · intro hs hd
      have hfam := (hmem _).mp htokens.family
      have hboth := hfam.1 (matcherFamily r.srcIP, .word r.srcIP) (by simp [fieldMatch, hs])
      exact ((hmem _).mp hboth).2 (matcherFamily r.dstIP, .word r.dstIP) (by simp [fieldMatch, hd])
  · intro hfits
    refine ⟨by simp [customTokens], customTokens_plain r, ?_, ?_, ?_⟩
    · rw [beforePorts_custom]
      split
      · rename_i hset
        refine List.forall_mem_singleton.mpr ?_
        rcases protocolKey_cases r.protocol with hk | hk | hk
        · exact .inl (by rw [hk])
        · exact .inr (by rw [hk])
        · have hport := hfits.ports (hproto hset.1 hk)
          omega
      · simp
    · exact (hmem _).mpr ⟨literal_fieldMatch.mpr hfits.src, literal_fieldMatch.mpr hfits.dst⟩
    · have hset : ∀ {a m}, m ∈ fieldMatch a → a ≠ [] ∧ m.1 = matcherFamily a := by
        intro a m hm
        unfold fieldMatch at hm
        split at hm
        · cases hm
        · rename_i hne
          rw [List.mem_singleton.mp hm]
          exact ⟨hne, rfl⟩
      intro m hm n hn
      rw [matchedAddresses_custom, List.mem_append] at hm hn
      rcases hm with hm | hm <;> rcases hn with hn | hn
      · rw [(hset hm).2, (hset hn).2]
      · rw [(hset hm).2, (hset hn).2, hfits.family (hset hm).1 (hset hn).1]
      · rw [(hset hm).2, (hset hn).2, hfits.family (hset hn).1 (hset hm).1]
      · rw [(hset hm).2, (hset hn).2]

theorem openPort_iff {ls : List Text} (h : renderOpenPortRules op = .ok ls) :
    (∀ l ∈ ls, RuleLine l) ↔ op.Fits := by
  have htokens : ∀ k ∈ op.keys, (RuleTokens (openPortTokens op k) ↔ op.Fits) := by
    intro k hk
    have hkey := OpenPort.mem_keys hk
    constructor
    · intro ht
      have hlit := ht.literals
      rw [matchedAddresses_openPort hk] at hlit
      exact literal_fieldMatch.mp hlit
    · intro hfits
      refine ⟨by simp [openPortTokens], openPortTokens_plain op k, ?_, ?_, ?_⟩
      · rw [beforePorts_openPort hk]
        simpa using hkey
      · rw [matchedAddresses_openPort hk]
        exact literal_fieldMatch.mpr hfits
      · rw [matchedAddresses_openPort hk]
        unfold fieldMatch
        split <;> simp
  obtain ⟨hop, rfl⟩ := renderOpenPortRules_ok h
  have hline : ∀ k ∈ op.keys, RuleLine (ruleText (openPortTokens op k) (trimSpace op.name)) ↔ op.Fits := by
    intro k hk
    rw [ruleLine_iff (ruleText_printable (hop.clean k) hop.name)
      (ruleText_lexes (by simp [openPortTokens]) (hop.clean k) hop.name)]
    exact htokens k hk
  rw [List.forall_mem_map]
  obtain ⟨k, hk⟩ := op.exists_key
  exact ⟨fun hall => (hline k hk).mp (hall k hk), fun hfits k hk => (hline k hk).mpr hfits⟩

/-- **Rendered lines.** A custom rule is rendered as a rule of `nft` exactly if it asks for
no port of `icmp`, its addresses are written in the family they are matched in, and both
are of the same family; an open port exactly if its source is written so. -/
theorem rule_lines_iff (r : FirewallRule) (op : OpenPort) :
    (∀ l, renderCustomRule r = .ok l → l ≠ [] → (RuleLine l ↔ r.Fits)) ∧
      ∀ ls, renderOpenPortRules op = .ok ls → ((∀ l ∈ ls, RuleLine l) ↔ op.Fits) :=
  ⟨fun _ h hne => customRule_iff h hne, fun _ h => openPort_iff h⟩

/-- Web traffic from one network to one host. -/
def webRule : FirewallRule :=
  ⟨"web", "forward", "accept", "192.168.1.0/24", "10.0.0.7", "tcp", 443, "eth1", "in", true⟩

theorem webRule_line :
    renderCustomRule webRule = .ok (("        iifname " ++ quoted "eth1") ++
      " ip saddr 192.168.1.0/24 ip daddr 10.0.0.7 tcp dport 443 accept # web") ∧
    RuleLine (("        iifname " ++ quoted "eth1") ++
      " ip saddr 192.168.1.0/24 ip daddr 10.0.0.7 tcp dport 443 accept # web") := by
  have hrender : renderCustomRule webRule = .ok (("        iifname " ++
      quoted "eth1") ++
      " ip saddr 192.168.1.0/24 ip daddr 10.0.0.7 tcp dport 443 accept # web") := by
    decide +kernel
  have hfits : webRule.Fits := by
    refine ⟨by decide, fun _ => ?_, fun _ => ?_, by decide +kernel⟩
    · exact ⟨⟨.ip4, 3232235776, 24⟩, by decide +kernel, by decide +kernel⟩
    · exact ⟨⟨.ip4, 167772167, 32⟩, by decide +kernel, by decide +kernel⟩
  have hlines := rule_lines_iff webRule ⟨"web", "tcp", 443, [], true, []⟩
  exact ⟨hrender, (hlines.1 _ hrender (by simp)).mpr hfits⟩

/-- A port of `icmp`, as the form makes every rule for that protocol. -/
def pingRule : FirewallRule :=
  ⟨[], "input", "accept", [], [], "icmp", 8, [], [], true⟩

/-- An IPv4 source, written in IPv6. -/
def mappedRule : FirewallRule :=
  ⟨[], "input", "drop", "::ffff:10.0.0.1", [], [], 0, [], [], true⟩

/-- From an IPv4 source to an IPv6 destination. -/
def mixedRule : FirewallRule :=
  ⟨[], "forward", "drop", "10.0.0.1", "2001:db8::1", [], 0, [], [], true⟩

theorem rules_that_are_none :
    (renderCustomRule pingRule = .ok "        icmp dport 8 accept" ∧
      ¬ RuleLine "        icmp dport 8 accept") ∧
    (renderCustomRule mappedRule = .ok "        ip saddr ::ffff:10.0.0.1 drop" ∧
      ¬ RuleLine "        ip saddr ::ffff:10.0.0.1 drop") ∧
    (renderCustomRule mixedRule =
        .ok "        ip saddr 10.0.0.1 ip6 daddr 2001:db8::1 drop" ∧
      ¬ RuleLine "        ip saddr 10.0.0.1 ip6 daddr 2001:db8::1 drop") := by
  have hping : renderCustomRule pingRule = .ok "        icmp dport 8 accept" := by
    decide +kernel
  have hmapped : renderCustomRule mappedRule = .ok "        ip saddr ::ffff:10.0.0.1 drop" := by
    decide +kernel
  have hmixed : renderCustomRule mixedRule =
      .ok "        ip saddr 10.0.0.1 ip6 daddr 2001:db8::1 drop" := by
    decide +kernel
  refine ⟨⟨hping, ?_⟩, ⟨hmapped, ?_⟩, hmixed, ?_⟩
  · rw [customRule_iff hping (by simp)]
    intro hfits
    exact absurd hfits.ports (by decide)
  · rw [customRule_iff hmapped (by simp)]
    intro hfits
    obtain ⟨q, hq, hfam⟩ := hfits.src (by decide)
    have hparse : Prefix.parse mappedRule.srcIP = some ⟨.ip6, 281470849515521, 128⟩ := by
      decide +kernel
    cases hparse.symm.trans hq
    revert hfam
    decide +kernel
  · rw [customRule_iff hmixed (by simp)]
    intro hfits
    have hfam := hfits.family (by decide) (by decide)
    revert hfam
    decide +kernel

end Lankeeper.Firewall
