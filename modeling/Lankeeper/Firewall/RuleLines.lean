import Lankeeper.Lib.Nft.Semantics

/-!
# Lankeeper.Firewall.RuleLines — operator rules as nftables lines

`internal/services/firewall.go` compiles custom rules and open ports into lines of
the ruleset. The rendered file is plain text without escaping, so every value is
validated on the way. `renderCustomRule` and `renderOpenPortRules` are translated
from the source, and `FirewallRule.Matches` and `OpenPort.Matches` say what a rule
means, field by field.

* `renderCustomRule_lexes`, `renderOpenPortRules_lexes` — the tokens of a rendered
  line;
* `custom_fires`, `openPort_fires` — the packets it applies to are packets the rule
  matches.
-/

namespace Lankeeper.Firewall

open Lib Text Nft List

/-! ## Rules of the config -/

/-- `config.FirewallRule`. -/
structure FirewallRule where
  name : Text
  chain : Text
  action : Text
  srcIP : Text
  dstIP : Text
  protocol : Text
  port : Int
  interface : Text
  direction : Text
  enabled : Bool

/-- `config.OpenPort`. -/
structure OpenPort where
  name : Text
  protocol : Text
  port : Int
  source : Text
  enabled : Bool
  rateLimit : Text

/-- Why a rule is skipped. -/
inductive RuleError
  | nameLength
  | nameChars (name : Text)
  | interfaceEmpty
  | interfaceLength (name : Text)
  | interfaceChars (name : Text)
  | port (n : Int)
  /-- the field, and what is no address in it -/
  | address (label a : Text)
  | protocol (p : Text)
  | action (a : Text)
  | rateLimit
deriving DecidableEq

/-! ## Validation -/

/-- `ifaceNameRegex`: `[A-Za-z0-9_.@-]`. -/
def isIfaceChar (c : Char) : Bool :=
  c.isAlphanum || c == '_' || c == '.' || c == '@' || c == '-'

/-- `ruleNameRegex`: `[A-Za-z0-9 _.:/()-]`. -/
def isRuleNameChar (c : Char) : Bool :=
  c.isAlphanum || c == ' ' || c == '_' || c == '.' || c == ':' || c == '/' || c == '(' || c == ')' ||
    c == '-'

/-- `ValidateInterfaceName`. -/
def validateInterfaceName (s : Text) : Except RuleError Unit :=
  if s = [] then .error .interfaceEmpty
  else if byteLen s > 15 then .error (.interfaceLength s)
  else if ¬ s.all isIfaceChar then .error (.interfaceChars s)
  else .ok ()

/-- `ValidateRuleName`. -/
def validateRuleName (s : Text) : Except RuleError Unit :=
  if byteLen s > 64 then .error .nameLength
  else if ¬ s.all isRuleNameChar then .error (.nameChars s)
  else .ok ()

/-- `ValidatePort`. -/
def validatePort (port : Int) : Except RuleError Unit :=
  if port < 1 ∨ port > 65535 then .error (.port port) else .ok ()

/-- `validateAddressOrCIDR`, for the field `label`. -/
def validateAddressOrCIDR (label s : Text) : Except RuleError Unit :=
  if (Prefix.parse s).isSome then .ok () else .error (.address label s)

/-- The units of `openPortRateLimitPattern`. -/
def rateUnits : List Text :=
  ["second", "minute", "hour", "day", "week"]

/-- `openPortRateLimitPattern`: `[1-9][0-9]{0,5}/(second|minute|hour|day|week)`. -/
def isRateLimit (s : Text) : Bool :=
  match Prefix.cutSlash s with
  | some (d :: ds, unit) =>
    d.isDigit && d != '0' && ds.all Char.isDigit && decide (ds.length ≤ 5) && rateUnits.contains unit
  | _ => false

/-- `ValidateOpenPortRateLimit`. -/
def validateOpenPortRateLimit (s : Text) : Except RuleError Unit :=
  if trimSpace s = [] then .ok ()
  else if ¬ isRateLimit s then .error .rateLimit
  else .ok ()

/-! ## Custom rules -/

/-- `addressFamilyMatcher`. -/
def addressFamilyMatcher (s : Text) : Text :=
  let addr := match Prefix.cutSlash s with
    | some (a, _) => a
    | none => s
  match Address.parseIP addr with
  | some ip => if Address.onlyIPv6 ip then "ip6" else "ip"
  | none => "ip"

/-- `interfaceCondition`. An accepted name has nothing that `%q` escapes. -/
def interfaceCondition (r : FirewallRule) : Except RuleError Text :=
  if r.interface = [] then .ok []
  else do
    validateInterfaceName r.interface
    if r.direction = "in" then .ok (unwords ["iifname", quoted r.interface])
    else .ok (unwords ["oifname", quoted r.interface])

/-- `addressCondition`. -/
def addressCondition (label selector addr : Text) : Except RuleError Text :=
  if addr = [] then .ok []
  else do
    validateAddressOrCIDR label addr
    .ok (unwords [addressFamilyMatcher addr, selector, addr])

/-- `protocolCondition`. -/
def protocolCondition (r : FirewallRule) : Except RuleError Text :=
  if r.protocol = [] then .ok []
  else if r.protocol ≠ "tcp" ∧ r.protocol ≠ "udp" ∧ r.protocol ≠ "icmp" then
    .error (.protocol r.protocol)
  else if r.port ≤ 0 then .ok (unwords ["meta", "l4proto", r.protocol])
  else do
    validatePort r.port
    .ok (unwords [r.protocol, "dport", decimal r.port])

/-- `customRuleConditions`. -/
def customRuleConditions (r : FirewallRule) : Except RuleError (List Text) := do
  let iface ← interfaceCondition r
  let src ← addressCondition "source" "saddr" r.srcIP
  let dst ← addressCondition "destination" "daddr" r.dstIP
  let proto ← protocolCondition r
  .ok ([iface, src, dst, proto].filter (· ≠ []))

/-- Eight blanks in front of a rule. -/
def indent : Text := List.replicate 8 ' '

/-- `renderCustomRule`. A rule without conditions renders as nothing. -/
def renderCustomRule (r : FirewallRule) : Except RuleError Text := do
  validateRuleName r.name
  let conditions ← customRuleConditions r
  let action := if r.action = [] then "accept".toList else r.action
  if action ≠ "accept".toList ∧ action ≠ "drop".toList ∧ action ≠ "reject".toList then
    .error (.action action)
  else if conditions = [] then .ok []
  else
    .ok (indent ++ unwords conditions ++ ' ' :: action ++
      if r.name ≠ [] then " # ".toList ++ r.name else [])

/-! ## Open ports -/

/-- `openPortProtocols`. -/
def openPortProtocols (protocol : Text) : Except RuleError (List Text) :=
  if protocol = "tcp" ∨ protocol = "udp" then .ok [protocol]
  else if protocol = "both" then .ok ["tcp", "udp"]
  else .error (.protocol protocol)

/-- `openPortSourcePrefix`. -/
def openPortSourcePrefix (source : Text) : Except RuleError Text :=
  let src := trimSpace source
  if src = [] then .ok []
  else do
    validateAddressOrCIDR "source" src
    .ok (unwords [addressFamilyMatcher src, "saddr", src] ++ [' '])

/-- `openPortComment`. -/
def openPortComment (name : Text) : Except RuleError Text :=
  let name := trimSpace name
  if name = [] then .ok []
  else do
    validateRuleName name
    .ok (" # " ++ name)

/-- `openPortLimit`. -/
def openPortLimit (rateLimit : Text) : Except RuleError Text :=
  let rate := trimSpace rateLimit
  if rate = [] then .ok []
  else do
    validateOpenPortRateLimit rate
    .ok (unwords ["limit", "rate", rate] ++ [' '])

/-- `renderOpenPortRules`. -/
def renderOpenPortRules (op : OpenPort) : Except RuleError (List Text) := do
  validatePort op.port
  let protocols ← openPortProtocols op.protocol
  let source ← openPortSourcePrefix op.source
  let comment ← openPortComment op.name
  let limit ← openPortLimit op.rateLimit
  .ok (protocols.map fun proto =>
    indent ++ source ++ unwords [proto, "dport", decimal op.port, "ct", "state", "new"] ++
      ' ' :: limit ++ "accept" ++ comment)

/-! ## What rules mean -/

/-- The literal `t` covers the address `a` of family `f`. -/
def InPrefix (t : Text) (f : Family) (a : Nat) : Prop :=
  ∃ q, Prefix.parse t = some q ∧ q.family = f ∧ q.contains a

/-- The protocol a rule may name. -/
def protocolKey (p : Text) : Keyword :=
  if p = "tcp" then .tcp else if p = "udp" then .udp else .icmp

/-- The packets a custom rule is about: every field that is set has to match. -/
def FirewallRule.Matches (r : FirewallRule) (p : Packet) : Prop :=
  (r.interface ≠ [] →
    if r.direction = "in" then p.iif = r.interface else p.oif = some r.interface) ∧
  (r.srcIP ≠ [] → InPrefix r.srcIP p.family p.src) ∧
  (r.dstIP ≠ [] → InPrefix r.dstIP p.family p.dst) ∧
  (r.protocol ≠ [] → protocolNumber (.key (protocolKey r.protocol)) = some p.proto ∧
    (0 < r.port → r.port = p.dport))

/-- The protocols an open port is about, by number. -/
def OpenPort.protocols (op : OpenPort) : List Nat :=
  if op.protocol = "tcp" then [6]
  else if op.protocol = "udp" then [17]
  else if op.protocol = "both" then [6, 17]
  else []

/-- The packets an open port is about. -/
def OpenPort.Matches (op : OpenPort) (p : Packet) : Prop :=
  (trimSpace op.source ≠ [] → InPrefix (trimSpace op.source) p.family p.src) ∧
  p.proto ∈ op.protocols ∧ op.port = p.dport

/-! ## Reading the lines -/

variable {s name cond l : Text} {ts : List Token} {r : FirewallRule} {op : OpenPort} {k : Keyword}

theorem validateInterfaceName_ok (h : validateInterfaceName s = .ok ()) :
    s ≠ [] ∧ ∀ c ∈ s, isIfaceChar c := by
  unfold validateInterfaceName at h
  split_ifs at h with h₁ h₂ h₃
  exact ⟨h₁, all_eq_true.mp (by simpa using h₃)⟩

theorem validateRuleName_ok (h : validateRuleName s = .ok ()) : ∀ c ∈ s, isRuleNameChar c := by
  unfold validateRuleName at h
  split_ifs at h with h₁ h₂
  exact all_eq_true.mp (by simpa using h₂)

theorem validateAddressOrCIDR_ok {label : Text} (h : validateAddressOrCIDR label s = .ok ()) :
    ∃ q, Prefix.parse s = some q := by
  unfold validateAddressOrCIDR at h
  split_ifs at h with hs
  exact Option.isSome_iff_exists.mp hs

theorem validateOpenPortRateLimit_ok (hne : trimSpace s ≠ [])
    (h : validateOpenPortRateLimit s = .ok ()) : isRateLimit s := by
  unfold validateOpenPortRateLimit at h
  rw [if_neg hne] at h
  split_ifs at h with hr
  simpa using hr

/-! ### Words -/

/-- `unicode.IsControl`. -/
def isControl (c : Char) : Bool :=
  c.toNat < 32 || (127 ≤ c.toNat && c.toNat ≤ 159)

/-- No control character in the text. -/
def Printable (t : Text) : Prop :=
  ∀ c ∈ t, isControl c = false

def isRateChar (c : Char) : Bool :=
  c.isAlphanum || c == '/' || c == '-'

/-- The kinds of characters that the fields of a rule are made of. -/
def fieldKinds : List (Char → Bool) :=
  [isRateChar, Address.isAddressChar, isIfaceChar, isRuleNameChar]

/-- None of them has control characters. -/
theorem printable_chars {f : Char → Bool} (hf : f ∈ fieldKinds) (hs : ∀ c ∈ s, f c) :
    Printable s := by
  have hkinds : (fieldKinds.all fun f => (List.range 160).all fun n =>
      !isControl (Char.ofNat n) || !f (Char.ofNat n)) := by
    decide +kernel
  intro c hc
  by_contra hctl
  have hlow : c.toNat < 160 := by
    simp only [isControl, Bool.not_eq_false, Bool.or_eq_true, Bool.and_eq_true,
      decide_eq_true_eq] at hctl
    omega
  have hone := all_eq_true.mp (all_eq_true.mp hkinds f hf) c.toNat
    (mem_range.mpr hlow)
  simp [Char.ofNat_toNat, hs c hc, hctl] at hone

/-- A token of a rule: it is read back as itself, and nothing in it is a control character. -/
def Clean (t : Token) : Prop :=
  t.Proper ∧ Printable t.text

theorem clean_key (k : Keyword) : Clean (.key k) := by
  refine ⟨trivial, printable_chars (f := isRateChar) (by simp [fieldKinds]) fun c hc => ?_⟩
  have hc := all_eq_true.mp k.spell_spec.2.1 c hc
  simp [isRateChar, hc]

theorem clean_address {q : Prefix} (h : Prefix.parse s = some q) : Clean (.word s) :=
  ⟨proper_address h, printable_chars (by simp [fieldKinds]) (Prefix.parse_chars h).2⟩

theorem clean_decimal (n : Int) : Clean (.word (decimal n)) := by
  refine ⟨proper_decimal n, printable_chars (f := isRateChar) (by simp [fieldKinds]) ?_⟩
  intro c hc
  rcases mem_decimal hc with hd | rfl
  · simp [isRateChar, Char.isAlphanum, hd]
  · rfl

theorem clean_interface (h : ∀ c ∈ s, isIfaceChar c) : Clean (.str s) := by
  refine ⟨fun hq => absurd (h _ hq) (by decide), ?_⟩
  show ∀ c ∈ quote :: (s ++ [quote]), isControl c = false
  simp only [forall_mem_cons, forall_mem_append]
  exact ⟨rfl, printable_chars (by simp [fieldKinds]) h, rfl, forall_mem_nil _⟩

theorem clean_rate (h : isRateLimit s) : Clean (.word s) := by
  unfold isRateLimit at h
  split at h
  · rename_i d ds unit hcut
    simp only [Bool.and_eq_true, contains_iff_mem, all_eq_true] at h
    obtain ⟨⟨⟨⟨hd, -⟩, hds⟩, -⟩, hunit⟩ := h
    have hunits : ∀ u ∈ rateUnits, u.all isRateChar := by decide
    have hs := (Prefix.cutSlash_spec hcut).1
    have hchars : ∀ c ∈ s, isRateChar c := by
      intro c hc
      rw [hs, mem_append, mem_cons, mem_cons] at hc
      rcases hc with (rfl | hc) | rfl | hc
      · simp [isRateChar, Char.isAlphanum, hd]
      · simp [isRateChar, Char.isAlphanum, hds c hc]
      · rfl
      · exact all_eq_true.mp (hunits unit hunit) c hc
    have hword : Token.ofWord s = .word s :=
      ofWord_eq_word (.inl ⟨'/', by rw [hs]; simp, rfl⟩)
    exact ⟨word_proper (f := isRateChar) (by decide) (by rw [hs]; simp) hchars hword,
      printable_chars (by simp [fieldKinds]) hchars⟩
  · cases h

/-- A rendered line: a statement, with a name in a comment. -/
def ruleText (ts : List Token) (name : Text) : Text :=
  indent ++ phrase ts ++ if name ≠ [] then " # " ++ name else []

theorem ruleText_lexes (hne : ts ≠ []) (hts : ∀ t ∈ ts, Clean t)
    (hname : ∀ c ∈ name, isRuleNameChar c) : LexesLine (ruleText ts name) ts := by
  have hlex := (lexes_phrase hne fun t ht => (hts t ht).1).indent 8
  unfold ruleText
  split
  · have hs : '\n' ∉ ' ' :: name := by
      intro hmem
      rcases mem_cons.mp hmem with h | h
      · cases h
      · exact absurd (hname _ h) (by decide)
    exact hlex.comment hs
  · rw [append_nil]
    exact hlex.line

theorem ruleText_printable (hts : ∀ t ∈ ts, Clean t) (hname : ∀ c ∈ name, isRuleNameChar c) :
    Printable (ruleText ts name) := by
  intro c hc
  rcases mem_append.mp hc with hc | hc
  · rcases mem_append.mp hc with hc | hc
    · rw [eq_of_mem_replicate hc]
      rfl
    · rcases mem_intercalate hc with rfl | ⟨w, hw, hcw⟩
      · rfl
      · obtain ⟨t, ht, rfl⟩ := mem_map.mp hw
        exact (hts t ht).2 c hcw
  · split at hc
    · have hmark : Printable " # " := by simp [Printable, isControl]
      exact (mem_append.mp hc).elim (hmark c) (printable_chars (by simp [fieldKinds]) hname c)
    · cases hc

/-! ### Custom rules -/

/-- The family an address is matched in. -/
def matcherFamily (a : Text) : Family :=
  if addressFamilyMatcher a = "ip6" then .ip6 else .ip4

theorem addressFamilyMatcher_eq_spell (a : Text) :
    addressFamilyMatcher a = (familyKey (matcherFamily a)).spell := by
  unfold matcherFamily
  by_cases h : addressFamilyMatcher a = "ip6"
  · rw [if_pos h]
    exact h
  rw [if_neg h]
  show addressFamilyMatcher a = "ip"
  simp only [addressFamilyMatcher] at h ⊢
  split at h
  · split at h
    · exact absurd rfl h
    · rename_i hv
      exact if_neg hv
  · rfl

def interfaceTokens (r : FirewallRule) : List Token :=
  if r.interface = [] then []
  else [.key (if r.direction = "in" then .iifname else .oifname), .str r.interface]

def addressTokens (s : Side) (a : Text) : List Token :=
  if a = [] then [] else [.key (familyKey (matcherFamily a)), .key s.addrKey, .word a]

def protocolTokens (r : FirewallRule) : List Token :=
  if r.protocol = [] then []
  else if r.port ≤ 0 then [.key .metainfo, .key .l4proto, .key (protocolKey r.protocol)]
  else [.key (protocolKey r.protocol), .key .dport, .word (decimal r.port)]

def actionKey (action : Text) : Keyword :=
  if action = "drop" then .drop
  else if action = "reject" then .reject
  else .accept

/-- The statement a custom rule is rendered as. -/
def customTokens (r : FirewallRule) : List Token :=
  [interfaceTokens r, addressTokens .source r.srcIP, addressTokens .destination r.dstIP,
    protocolTokens r].flatten ++ [.key (actionKey r.action)]

/-- What a rendered custom rule has passed. -/
structure FirewallRule.Checked (r : FirewallRule) : Prop where
  name : ∀ c ∈ r.name, isRuleNameChar c
  interface : ∀ c ∈ r.interface, isIfaceChar c
  source : r.srcIP ≠ [] → ∃ q, Prefix.parse r.srcIP = some q
  destination : r.dstIP ≠ [] → ∃ q, Prefix.parse r.dstIP = some q
  protocol : r.protocol ≠ [] → (protocolKey r.protocol).spell = r.protocol

theorem interfaceCondition_ok (h : interfaceCondition r = .ok cond) :
    (∀ c ∈ r.interface, isIfaceChar c) ∧ cond = phrase (interfaceTokens r) := by
  unfold interfaceCondition at h
  unfold interfaceTokens
  split at h
  · rename_i hr
    exact ⟨by simp [hr], by rw [if_pos hr, ← Except.ok.inj h]; rfl⟩
  · rename_i hr
    obtain ⟨⟨⟩, hv, h⟩ := exists_of_bind_ok h
    refine ⟨(validateInterfaceName_ok hv).2, ?_⟩
    split_ifs at h ⊢ <;> exact (Except.ok.inj h).symm

theorem addressCondition_ok {label addr : Text} {s : Side}
    (h : addressCondition label s.addrKey.spell addr = .ok cond) :
    (addr ≠ [] → ∃ q, Prefix.parse addr = some q) ∧ cond = phrase (addressTokens s addr) := by
  unfold addressCondition at h
  unfold addressTokens
  split_ifs at h ⊢ with ha
  · exact ⟨absurd ha, (Except.ok.inj h).symm⟩
  · obtain ⟨⟨⟩, hv, h⟩ := exists_of_bind_ok h
    rw [addressFamilyMatcher_eq_spell] at h
    exact ⟨fun _ => validateAddressOrCIDR_ok hv, (Except.ok.inj h).symm⟩

theorem protocolCondition_ok (h : protocolCondition r = .ok cond) :
    (r.protocol ≠ [] → (protocolKey r.protocol).spell = r.protocol) ∧
      cond = phrase (protocolTokens r) := by
  unfold protocolCondition at h
  unfold protocolTokens
  by_cases hr : r.protocol = []
  · rw [if_pos hr] at h ⊢
    exact ⟨absurd hr, (Except.ok.inj h).symm⟩
  rw [if_neg hr] at h ⊢
  split at h
  · cases h
  rename_i hknown
  have hkey : (protocolKey r.protocol).spell = r.protocol := by
    unfold protocolKey
    split_ifs with ht hu
    · exact ht.symm
    · exact hu.symm
    · by_contra hi
      exact hknown ⟨ht, hu, fun heq => hi heq.symm⟩
  refine ⟨fun _ => hkey, ?_⟩
  split_ifs at h ⊢
  · rw [← Except.ok.inj h]
    simp only [phrase, map_cons, map_nil, Token.text, hkey]
    rfl
  · obtain ⟨⟨⟩, -, h⟩ := exists_of_bind_ok h
    rw [← Except.ok.inj h, phrase, map_cons, Token.text, hkey]
    rfl

/-- An action the renderer knows is spelled like its keyword. -/
theorem actionKey_spell {action : Text}
    (h : ¬ (action ≠ "accept" ∧ action ≠ "drop" ∧ action ≠ "reject")) :
    (actionKey action).spell = action := by
  unfold actionKey
  split_ifs with hd hr
  · exact hd.symm
  · exact hr.symm
  · by_contra ha
    exact h ⟨fun heq => ha heq.symm, hd, hr⟩

theorem addressTokens_clean {a : Text} (h : a ≠ [] → ∃ q, Prefix.parse a = some q) (s : Side) :
    ∀ t ∈ addressTokens s a, Clean t := by
  unfold addressTokens
  split
  · exact forall_mem_nil _
  · rename_i ha
    obtain ⟨q, hq⟩ := h ha
    simp only [forall_mem_cons]
    exact ⟨clean_key _, clean_key _, clean_address hq, forall_mem_nil _⟩

theorem FirewallRule.Checked.clean (h : r.Checked) : ∀ t ∈ customTokens r, Clean t := by
  simp only [customTokens, flatten_cons, flatten_nil, append_nil,
    forall_mem_append, forall_mem_singleton]
  refine ⟨⟨?_, addressTokens_clean h.source _, addressTokens_clean h.destination _, ?_⟩, clean_key _⟩
  · unfold interfaceTokens
    split
    · exact forall_mem_nil _
    · simpa using ⟨clean_key _, clean_interface h.interface⟩
  · unfold protocolTokens
    split_ifs
    · exact forall_mem_nil _
    · simpa using ⟨clean_key _, clean_key _, clean_key _⟩
    · simpa using ⟨clean_key _, clean_key _, clean_decimal _⟩

/-- A rendered custom rule is checked, and the line is its statement. -/
theorem renderCustomRule_ok (h : renderCustomRule r = .ok l) (hne : l ≠ []) :
    r.Checked ∧ l = ruleText (customTokens r) r.name := by
  simp only [renderCustomRule, customRuleConditions, bind_ok_iff] at h
  obtain ⟨⟨⟩, hname, _, ⟨_, hiface, _, hsrc, _, hdst, _, hproto, ⟨⟩⟩, h⟩ := h
  obtain ⟨hi, rfl⟩ := interfaceCondition_ok hiface
  obtain ⟨hs, rfl⟩ := addressCondition_ok (s := .source) hsrc
  obtain ⟨hd, rfl⟩ := addressCondition_ok (s := .destination) hdst
  obtain ⟨hp, rfl⟩ := protocolCondition_ok hproto
  have hr : r.Checked := ⟨validateRuleName_ok hname, hi, hs, hd, hp⟩
  refine ⟨hr, ?_⟩
  have hproper : ∀ ts ∈ [interfaceTokens r, addressTokens .source r.srcIP,
      addressTokens .destination r.dstIP, protocolTokens r], ∀ t ∈ ts, t.Proper := by
    intro ts hts t ht
    exact (hr.clean t (mem_append_left _ (mem_flatten.mpr ⟨ts, hts, ht⟩))).1
  have hphrase := unwords_phrases hproper
  have hnil := phrases_eq_nil hproper
  generalize haction : (if r.action = [] then "accept".toList else r.action) = action at h
  split at h
  · cases h
  rename_i hact
  split at h
  · exact absurd (Except.ok.inj h).symm hne
  rename_i hc
  have hkey : (actionKey r.action).spell = action := by
    rw [← actionKey_spell hact, ← haction]
    split_ifs with hempty
    · rw [hempty]
      decide
    · rfl
  rw [← Except.ok.inj h, ruleText, customTokens, phrase_append _ (cons_ne_nil _ _), leading,
    if_neg (hnil.not.mp hc), ← hphrase, ← hkey]
  simp [phrase, Token.text, unwords, List.intercalate]

theorem renderCustomRule_lexes (h : renderCustomRule r = .ok l) (hne : l ≠ []) :
    LexesLine l (customTokens r) := by
  obtain ⟨hr, rfl⟩ := renderCustomRule_ok h hne
  exact ruleText_lexes (by simp [customTokens]) hr.clean hr.name

theorem addressTokens_plain (s : Side) (a : Text) : ∀ t ∈ addressTokens s a, t.plain := by
  unfold addressTokens
  split <;> simp [Token.plain]

theorem customTokens_plain (r : FirewallRule) : ∀ t ∈ customTokens r, t.plain := by
  have hi : ∀ t ∈ interfaceTokens r, t.plain := by
    unfold interfaceTokens
    split <;> simp [Token.plain]
  have hp : ∀ t ∈ protocolTokens r, t.plain := by
    unfold protocolTokens
    split_ifs <;> simp [Token.plain]
  simp only [customTokens, flatten_cons, flatten_nil, append_nil,
    forall_mem_append, forall_mem_singleton]
  exact ⟨⟨hi, addressTokens_plain _ _, addressTokens_plain _ _, hp⟩, rfl⟩

/-! ### Open ports -/

/-- The protocols an open port is rendered for. -/
def OpenPort.keys (op : OpenPort) : List Keyword :=
  if op.protocol = "tcp" then [.tcp]
  else if op.protocol = "udp" then [.udp]
  else [.tcp, .udp]

theorem OpenPort.mem_keys (h : k ∈ op.keys) : k = .tcp ∨ k = .udp := by
  unfold keys at h
  split_ifs at h <;> simp_all

theorem OpenPort.exists_key (op : OpenPort) : ∃ k, k ∈ op.keys := by
  unfold keys
  split_ifs <;> exact ⟨_, mem_cons_self⟩

def limitTokens (rateLimit : Text) : List Token :=
  if trimSpace rateLimit = [] then [] else [.key .limit, .key .rate, .word (trimSpace rateLimit)]

/-- The statement an open port is rendered as for one protocol. -/
def openPortTokens (op : OpenPort) (k : Keyword) : List Token :=
  addressTokens .source (trimSpace op.source) ++
    ([.key k, .key .dport, .word (decimal op.port), .key .ct, .key .state, .key .new] ++
      (limitTokens op.rateLimit ++ [.key .accept]))

/-- What a rendered open port has passed. -/
structure OpenPort.Checked (op : OpenPort) : Prop where
  name : ∀ c ∈ trimSpace op.name, isRuleNameChar c
  protocol : op.protocol = "tcp" ∨ op.protocol = "udp" ∨ op.protocol = "both"
  source : trimSpace op.source ≠ [] → ∃ q, Prefix.parse (trimSpace op.source) = some q
  limit : trimSpace op.rateLimit ≠ [] → isRateLimit (trimSpace op.rateLimit)

theorem openPortProtocols_ok {protocols : List Text}
    (h : openPortProtocols op.protocol = .ok protocols) :
    (op.protocol = "tcp" ∨ op.protocol = "udp" ∨ op.protocol = "both") ∧
      protocols = op.keys.map Keyword.spell := by
  unfold openPortProtocols at h
  unfold OpenPort.keys
  split_ifs at h with hone hboth
  · rw [← Except.ok.inj h]
    rcases hone with ht | hu
    · exact ⟨.inl ht, by rw [if_pos ht, ht]; rfl⟩
    · exact ⟨.inr (.inl hu), by rw [hu]; rfl⟩
  · rw [← Except.ok.inj h]
    exact ⟨.inr (.inr hboth), by rw [hboth]; rfl⟩

theorem openPortSourcePrefix_ok {source pre : Text} (h : openPortSourcePrefix source = .ok pre) :
    (trimSpace source ≠ [] → ∃ q, Prefix.parse (trimSpace source) = some q) ∧
      pre = leading (addressTokens .source (trimSpace source)) := by
  simp only [openPortSourcePrefix] at h
  unfold addressTokens
  split_ifs at h ⊢ with hs
  · exact ⟨absurd hs, (Except.ok.inj h).symm⟩
  · obtain ⟨⟨⟩, hv, h⟩ := exists_of_bind_ok h
    rw [addressFamilyMatcher_eq_spell] at h
    exact ⟨fun _ => validateAddressOrCIDR_ok hv, (Except.ok.inj h).symm⟩

theorem openPortLimit_ok {rateLimit pre : Text} (h : openPortLimit rateLimit = .ok pre) :
    (trimSpace rateLimit ≠ [] → isRateLimit (trimSpace rateLimit)) ∧
      pre = leading (limitTokens rateLimit) := by
  simp only [openPortLimit] at h
  unfold limitTokens
  split_ifs at h ⊢ with hs
  · exact ⟨absurd hs, (Except.ok.inj h).symm⟩
  · obtain ⟨⟨⟩, hv, h⟩ := exists_of_bind_ok h
    exact ⟨fun _ => validateOpenPortRateLimit_ok (by rwa [trimSpace_trimSpace]) hv,
      (Except.ok.inj h).symm⟩

theorem openPortComment_ok {comment : Text} (h : openPortComment name = .ok comment) :
    (∀ c ∈ trimSpace name, isRuleNameChar c) ∧
      comment = if trimSpace name ≠ [] then " # " ++ trimSpace name else [] := by
  simp only [openPortComment] at h
  split_ifs at h with hs
  · rw [hs]
    exact ⟨by simp, (Except.ok.inj h).symm⟩
  · obtain ⟨⟨⟩, hv, h⟩ := exists_of_bind_ok h
    rw [if_pos hs]
    exact ⟨validateRuleName_ok hv, (Except.ok.inj h).symm⟩

theorem OpenPort.Checked.clean (h : op.Checked) (k : Keyword) :
    ∀ t ∈ openPortTokens op k, Clean t := by
  simp only [openPortTokens, forall_mem_append, forall_mem_cons]
  refine ⟨addressTokens_clean h.source _, ⟨clean_key _, clean_key _, clean_decimal _, clean_key _,
    clean_key _, clean_key _, forall_mem_nil _⟩, ?_, clean_key _, forall_mem_nil _⟩
  unfold limitTokens
  split
  · exact forall_mem_nil _
  · rename_i hs
    simpa using ⟨clean_key _, clean_key _, clean_rate (h.limit hs)⟩

variable {ls : List Text} {out : Outside} {p : Packet} {v : Option Verdict} {rest : List Token}

/-- A rendered open port is checked, and has a line for each of its protocols. -/
theorem renderOpenPortRules_ok (h : renderOpenPortRules op = .ok ls) :
    op.Checked ∧ ls = op.keys.map fun k => ruleText (openPortTokens op k) (trimSpace op.name) := by
  simp only [renderOpenPortRules, bind_ok_iff] at h
  obtain ⟨⟨⟩, -, _, hprotocols, _, hsource, _, hcomment, _, hlimit, h⟩ := h
  obtain ⟨hp, rfl⟩ := openPortProtocols_ok hprotocols
  obtain ⟨hs, rfl⟩ := openPortSourcePrefix_ok hsource
  obtain ⟨hc, rfl⟩ := openPortComment_ok hcomment
  obtain ⟨hl, rfl⟩ := openPortLimit_ok hlimit
  refine ⟨⟨hc, hp, hs, hl⟩, ?_⟩
  rw [← Except.ok.inj h, map_map]
  refine map_congr_left fun k _ => ?_
  have hport : leading [.key k, .key .dport, .word (decimal op.port), .key .ct, .key .state,
      .key .new] = unwords [k.spell, "dport", decimal op.port, "ct", "state", "new"] ++ [' '] := rfl
  have haccept : phrase [.key .accept] = "accept" := rfl
  rw [ruleText, openPortTokens, phrase_append _ (by simp), phrase_append _ (by simp),
    phrase_append _ (by simp), hport, haccept]
  simp only [Function.comp_apply, append_assoc, cons_append, nil_append]

/-- An open port is rendered as one line for each of its protocols. -/
theorem renderOpenPortRules_lines (h : renderOpenPortRules op = .ok ls) :
    List.Forall₂ LexesLine ls (op.keys.map (openPortTokens op)) := by
  obtain ⟨hop, rfl⟩ := renderOpenPortRules_ok h
  rw [forall₂_map_left_iff, forall₂_map_right_iff, forall₂_same]
  exact fun k _ => ruleText_lexes (by simp [openPortTokens]) (hop.clean k) hop.name

theorem renderOpenPortRules_lexes (h : renderOpenPortRules op = .ok ls) :
    ∀ l ∈ ls, ∃ k ∈ op.keys, LexesLine l (openPortTokens op k) := by
  intro l hl
  obtain ⟨ts, hts, hlex⟩ := exists_right_of_mem (renderOpenPortRules_lines h) hl
  obtain ⟨k, hk, rfl⟩ := mem_map.mp hts
  exact ⟨k, hk, hlex⟩

theorem openPortTokens_plain (op : OpenPort) (k : Keyword) :
    ∀ t ∈ openPortTokens op k, t.plain := by
  have hl : ∀ t ∈ limitTokens op.rateLimit, t.plain := by
    unfold limitTokens
    split <;> simp [Token.plain]
  simp only [openPortTokens, forall_mem_append]
  exact ⟨addressTokens_plain _ _, by simp [Token.plain], hl, by simp [Token.plain]⟩

/-! ### What the lines apply to -/

theorem fires_interfaceTokens (hv : r.interface ≠ [] → '*' ∉ r.interface)
    (h : Fires out p v (interfaceTokens r ++ rest)) :
    (r.interface ≠ [] →
      if r.direction = "in" then p.iif = r.interface else p.oif = some r.interface) ∧
      Fires out p v rest := by
  unfold interfaceTokens at h
  split_ifs at h ⊢ with hdir hr hr
  · exact ⟨absurd hr, h⟩
  · obtain ⟨hmatch, h⟩ := fires_iifname (hv hr) h
    exact ⟨fun _ => hmatch, h⟩
  · exact ⟨absurd hr, h⟩
  · obtain ⟨hmatch, h⟩ := fires_oifname (hv hr) h
    exact ⟨fun _ => hmatch, h⟩

theorem fires_addressTokens {s : Side} (hv : a ≠ [] → ∃ q, Prefix.parse a = some q)
    (h : Fires out p v (addressTokens s a ++ rest)) :
    (a ≠ [] → InPrefix a p.family (p.addr s)) ∧ Fires out p v rest := by
  unfold addressTokens at h
  split_ifs at h with ha
  · exact ⟨absurd ha, h⟩
  · obtain ⟨q, hq⟩ := hv ha
    obtain ⟨⟨hfam, hin⟩, h⟩ := fires_address hq h
    exact ⟨fun _ => ⟨q, hq, hfam, hin⟩, h⟩

variable {n : Nat}

/-- A port match of a protocol is about packets of that protocol. -/
theorem protocolNumber_of_covers {t : Transport} (hk : k = .tcp ∨ k = .udp ∨ k = .icmp)
    (ht : Transport.ofKey k = some t) (hc : t.covers n) : protocolNumber (.key k) = some n := by
  rcases hk with rfl | rfl | rfl
  all_goals
    cases ht
    try exact congrArg some (eq_of_beq hc).symm

theorem protocolKey_cases (t : Text) :
    protocolKey t = .tcp ∨ protocolKey t = .udp ∨ protocolKey t = .icmp := by
  unfold protocolKey
  split_ifs <;> simp

theorem fires_protocolTokens (h : Fires out p v (protocolTokens r ++ rest)) :
    (r.protocol ≠ [] → protocolNumber (.key (protocolKey r.protocol)) = some p.proto ∧
      (0 < r.port → r.port = p.dport)) ∧ Fires out p v rest := by
  unfold protocolTokens at h
  split_ifs at h with hr hport
  · exact ⟨absurd hr, h⟩
  · obtain ⟨hproto, h⟩ := fires_l4proto h
    exact ⟨fun _ => ⟨hproto, fun hpos => by omega⟩, h⟩
  · obtain ⟨⟨t, ht, hcov, hread⟩, h⟩ := fires_dport h
    exact ⟨fun _ => ⟨protocolNumber_of_covers (protocolKey_cases _) ht hcov,
      fun _ => readNat_decimal.mp hread⟩, h⟩

/-- **Custom rules**: a packet that the rendered line applies to is one the rule
matches. -/
theorem custom_fires (hr : renderCustomRule r = .ok l) (hne : l ≠ [])
    (h : Fires out p v (customTokens r)) : r.Matches p := by
  have hchecked := (renderCustomRule_ok hr hne).1
  simp only [customTokens, flatten_cons, flatten_nil, append_nil, append_assoc] at h
  rcases fires_interfaceTokens (fun _ hs => absurd (hchecked.interface _ hs) (by decide)) h with
    ⟨hmi, h⟩
  obtain ⟨hms, h⟩ := fires_addressTokens hchecked.source h
  obtain ⟨hmd, h⟩ := fires_addressTokens hchecked.destination h
  obtain ⟨hmp, -⟩ := fires_protocolTokens h
  exact ⟨hmi, hms, hmd, hmp⟩

/-- The protocols of an open port are those of its lines. -/
theorem openPort_proto_iff (h : op.Checked) :
    (∃ k ∈ op.keys, ∃ t, Transport.ofKey k = some t ∧ t.covers n) ↔ n ∈ op.protocols := by
  unfold OpenPort.keys OpenPort.protocols
  rcases h.protocol with h | h | h <;> simp [h, Transport.ofKey, Transport.covers]

/-- **Open ports**: a packet that a rendered line applies to is one the open port
matches. -/
theorem openPort_fires (hr : renderOpenPortRules op = .ok ls) (hk : k ∈ op.keys)
    (h : Fires out p v (openPortTokens op k)) : op.Matches p := by
  have hchecked := (renderOpenPortRules_ok hr).1
  obtain ⟨hsrc, h⟩ := fires_addressTokens hchecked.source h
  obtain ⟨⟨t, ht, hcov, hread⟩, -⟩ := fires_dport h
  refine ⟨hsrc, ?_, readNat_decimal.mp hread⟩
  exact (openPort_proto_iff hchecked).mp ⟨k, hk, t, ht, hcov⟩

/-! ### Open ports, exactly -/

/-- A packet that the open port's rate limit has room for. -/
def OpenPort.Within (out : Outside) (op : OpenPort) : Prop :=
  trimSpace op.rateLimit = [] ∨ out.underLimit (trimSpace op.rateLimit)

theorem fires_addressTokens_iff {s : Side} (hv : a ≠ [] → ∃ q, Prefix.parse a = some q)
    (hp : (Rule.parse (addressTokens s a ++ rest)).isSome) :
    (Fires out p v (addressTokens s a ++ rest) ↔
      (a ≠ [] → InPrefix a p.family (p.addr s)) ∧ Fires out p v rest) ∧
      (Rule.parse rest).isSome := by
  unfold addressTokens at hp ⊢
  split_ifs at hp ⊢ with ha
  · exact ⟨⟨fun h => ⟨absurd ha, h⟩, fun h => h.2⟩, hp⟩
  obtain ⟨q, hq⟩ := hv ha
  refine ⟨(fires_address_iff hq hp).trans ?_, (isSome_of_cons (Rule.parse_address _ _ _ _) hp).2⟩
  constructor
  · rintro ⟨⟨hfam, hin⟩, h⟩
    exact ⟨fun _ => ⟨q, hq, hfam, hin⟩, h⟩
  · rintro ⟨hin, h⟩
    obtain ⟨q', hq', hfam, hin⟩ := hin ha
    cases hq.symm.trans hq'
    exact ⟨⟨hfam, hin⟩, h⟩

/-- The end of an open port's statement. -/
theorem fires_openPortEnd_iff (op : OpenPort) :
    Fires out p v (.key .ct :: .key .state :: .key .new :: (limitTokens op.rateLimit ++ [.key .accept])) ↔
      p.state = .new ∧ op.Within out ∧ v = some .accept := by
  have hnew : Clause.holds out p (.ctState [.new]) ↔ p.state = .new := by
    simp [Clause.holds]
  have hend : Fires out p v [.key .accept] ↔ v = some .accept := fires_end_iff rfl
  unfold limitTokens OpenPort.Within
  by_cases hl : trimSpace op.rateLimit = []
  · have hstate : Fires out p v [.key .ct, .key .state, .key .new, .key .accept] ↔
        _ ∧ Fires out p v [.key .accept] := fires_cons_iff rfl
    rw [if_pos hl, nil_append, hstate, hend]
    simp [CtState.ofKey, hnew, hl]
  · rw [if_neg hl]
    have hstate : Fires out p v (.key .ct :: .key .state :: .key .new :: .key .limit ::
        .key .rate :: .word (trimSpace op.rateLimit) :: [.key .accept]) ↔ _ := fires_cons_iff rfl
    have hlimit : Fires out p v (.key .limit :: .key .rate :: .word (trimSpace op.rateLimit) ::
        [.key .accept]) ↔ _ ∧ Fires out p v [.key .accept] := fires_cons_iff rfl
    refine hstate.trans ?_
    rw [hlimit, hend]
    simp [CtState.ofKey, hl, Clause.holds]

/-- An open port in the fragment accepts exactly the new packets it matches, as far as its
limit allows. -/
theorem openPort_fires_iff (hr : renderOpenPortRules op = .ok ls)
    (hp : Parses (op.keys.map (openPortTokens op))) :
    (∃ k ∈ op.keys, Fires out p v (openPortTokens op k)) ↔
      op.Matches p ∧ p.state = .new ∧ op.Within out ∧ v = some .accept := by
  have hchecked := (renderOpenPortRules_ok hr).1
  have hline : ∀ k ∈ op.keys, (Fires out p v (openPortTokens op k) ↔
      (trimSpace op.source ≠ [] → InPrefix (trimSpace op.source) p.family p.src) ∧
        (∃ t, Transport.ofKey k = some t ∧ t.covers p.proto) ∧ op.port = p.dport ∧
        p.state = .new ∧ op.Within out ∧ v = some .accept) := by
    intro k hk
    have hparse := hp _ (mem_map_of_mem hk)
    have haddress : (Fires out p v _ ↔ _) ∧ _ :=
      fires_addressTokens_iff hchecked.source hparse
    obtain ⟨hfires, hparse⟩ := haddress
    refine hfires.trans (and_congr_right fun _ => ?_)
    refine (fires_dport_iff hparse).trans ?_
    refine (and_congr_right fun _ => fires_openPortEnd_iff op).trans ?_
    simp only [readNat_decimal, ← exists_and_right, and_assoc]
  constructor
  · rintro ⟨k, hk, hfires⟩
    obtain ⟨hsrc, hcov, hport, hrest⟩ := (hline k hk).mp hfires
    exact ⟨⟨hsrc, (openPort_proto_iff hchecked).mp ⟨k, hk, hcov⟩, hport⟩, hrest⟩
  · rintro ⟨⟨hsrc, hproto, hport⟩, hrest⟩
    obtain ⟨k, hk, hcov⟩ := (openPort_proto_iff hchecked).mpr hproto
    exact ⟨k, hk, (hline k hk).mpr ⟨hsrc, hcov, hport, hrest⟩⟩

end Lankeeper.Firewall
