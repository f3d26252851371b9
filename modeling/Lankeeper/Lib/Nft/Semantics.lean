import Lankeeper.Lib.Nft.Ruleset

/-!
# Lankeeper.Lib.Nft.Semantics — what a chain does to a packet

The rules of a chain are tried in order. A rule applies when all its matches hold;
the first verdict of a rule that applies is final, and without one the policy
decides. What the script does not determine is `Outside`: the addresses of host
names, and whether a rate limit has budget left.

A rule of a NAT chain has a target instead of a verdict, and ends the chain as well.

`Entails` is what a statement says about all packets it applies to; `verdictBy` is the
first verdict that the statements of a chain reach.
-/

namespace Lankeeper.Lib.Nft

open List Option

structure Packet where
  iif : Text
  /-- the way out, which is open on the input hook -/
  oif : Option Text
  family : Family
  src : Nat
  dst : Nat
  /-- the transport protocol -/
  proto : Nat
  /-- the first next-header field of an IPv6 packet -/
  nexthdr : Nat
  sport : Nat
  dport : Nat
  icmpType : Text
  syn : Bool
  state : CtState
deriving DecidableEq

def Packet.addr (p : Packet) : Side → Nat
  | .source => p.src
  | .destination => p.dst

def Packet.port (p : Packet) : Side → Nat
  | .source => p.sport
  | .destination => p.dport

structure Outside where
  host : Text → Family → Nat → Bool
  underLimit : Text → Bool

/-- A name in a rule is a pattern: a final `*` stands for any rest. -/
def ifnameMatches (pattern name : Text) : Bool :=
  if pattern.getLast? = some '*' then pattern.dropLast.isPrefixOf name else pattern == name

def Transport.covers : Transport → Nat → Bool
  | .tcp, n => n == 6
  | .udp, n => n == 17
  | .dccp, n => n == 33
  | .sctp, n => n == 132
  | .udplite, n => n == 136
  | .th, _ => true

/-- The addresses an operand of `saddr` or `daddr` stands for. -/
def addressMatches (out : Outside) (f : Family) (operand : Text) (a : Nat) : Bool :=
  match Prefix.parse operand with
  | some p => p.family == f && p.contains a
  | none => out.host operand f a

def Clause.holds (out : Outside) (p : Packet) : Clause → Bool
  | .iifname d => ifnameMatches d p.iif
  | .oifname d => match p.oif with
    | some name => ifnameMatches d name
    | none => false
  | .ctState states => states.contains p.state
  | .address f s operand => p.family == f && addressMatches out f operand (p.addr s)
  | .ipProtocol n => p.family == .ip4 && p.proto == n
  | .nexthdr n => p.family == .ip6 && p.nexthdr == n
  | .l4proto n => p.proto == n
  | .port t s n => t.covers p.proto && p.port s == n
  | .icmpType .ip4 types => p.family == .ip4 && p.proto == 1 && types.contains p.icmpType
  | .icmpType .ip6 types => p.family == .ip6 && p.proto == 58 && types.contains p.icmpType
  | .limitRate rate => out.underLimit rate
  | .tcpSyn => p.proto == 6 && p.syn
  | .clampMss | .log _ | .setTtl _ | .masquerade | .dnat _ _ => true

def Rule.applies (out : Outside) (p : Packet) (r : Rule) : Bool :=
  r.clauses.all (·.holds out p)

/-- The verdict of a rule on a packet, if it reaches one. -/
def Rule.decides (out : Outside) (p : Packet) (r : Rule) : Option Verdict :=
  if r.applies out p then r.verdict else none

def Chain.verdict (out : Outside) (p : Packet) (c : Chain) : Verdict :=
  (c.rules.findSome? (·.decides out p)).getD c.policy

/-- The chain of a ruleset with the given names. -/
def findChain (cs : List Chain) (family table name : Text) : Option Chain :=
  cs.find? fun c => c.family == family && c.table == table && c.name == name

/-- What a chain of a script does to a packet, if the script loads and has it. -/
def verdictOf (out : Outside) (script family table name : Text) (p : Packet) : Option Verdict :=
  (load script).bind fun cs => (findChain cs family table name).map (·.verdict out p)

/-- The target of a rule, if it has one. -/
def Rule.target (r : Rule) : Option (Text × Nat) :=
  r.clauses.findSome? fun
    | .dnat host port => some (host, port)
    | _ => none

/-- Where a chain sends a packet. The first rule that applies and has a target or a
verdict is the last one tried. -/
def Chain.target (out : Outside) (p : Packet) (c : Chain) : Option (Text × Nat) :=
  (c.rules.find? fun r => r.applies out p && (r.target.isSome || r.verdict.isSome)).bind Rule.target

/-- Where a chain in a table of the family `ip` sends a packet. Packets of the other
family do not pass there. -/
def targetOf (out : Outside) (script table name : Text) (p : Packet) : Option (Text × Nat) :=
  (load script).bind fun cs => (findChain cs Keyword.ip.spell table name).bind fun c =>
    if p.family = .ip4 then c.target out p else none

/-! ## Chains of a script -/

variable {b : Block} {c : Chain} {us : List (List Token)} {d : Text} {w : Verdict}

theorem Chain.ofBlock_names (h : Chain.ofBlock b = some c) :
    c.family = b.family ∧ c.table = b.table ∧ c.name = b.chain := by
  unfold Chain.ofBlock at h
  split at h
  · obtain ⟨w, -, h⟩ := bind_eq_some_iff.mp h
    obtain ⟨rules, -, rfl⟩ := map_eq_some_iff.mp h
    exact ⟨rfl, rfl, rfl⟩
  · cases h

variable {family table name type hook priority : Text} {k : Keyword} {ss : List (List Token)}

/-- What a base chain is made of. -/
theorem Chain.ofBlock_chainStmts
    (h : Chain.ofBlock ⟨family, table, name, chainStmts type hook priority k ss⟩ = some c) :
    readPolicy k = some c.policy ∧ ss.mapM Rule.parse = some c.rules := by
  obtain ⟨w, hw, h⟩ := bind_eq_some_iff.mp h
  obtain ⟨rules, hrules, rfl⟩ := map_eq_some_iff.mp h
  exact ⟨hw, hrules⟩

/-- The statements of a chain are all in the fragment. -/
def Parses (ss : List (List Token)) : Prop :=
  ∀ ts ∈ ss, (Rule.parse ts).isSome

theorem parses_append : Parses (ss ++ us) ↔ Parses ss ∧ Parses us :=
  forall_mem_append

theorem Chain.ofBlock_isSome_iff (hk : (readPolicy k).isSome) :
    (Chain.ofBlock ⟨family, table, name, chainStmts type hook priority k ss⟩).isSome ↔
      Parses ss := by
  obtain ⟨v, hv⟩ := isSome_iff_exists.mp hk
  rw [Parses, ← exists_mapM_iff, isSome_iff_exists]
  constructor
  · rintro ⟨c, hc⟩
    exact ⟨c.rules, (Chain.ofBlock_chainStmts hc).2⟩
  · rintro ⟨rules, hrules⟩
    refine ⟨⟨family, table, name, type, hook, priority, v, rules⟩, ?_⟩
    simp [Chain.ofBlock, chainStmts, hv, hrules]

/-- A chain is found under the names of its block. -/
theorem findChain_ofBlock {bs : List Block} {cs : List Chain}
    (hnodup : (bs.map fun b => (b.family, b.table, b.chain)).Nodup)
    (h : bs.mapM Chain.ofBlock = some cs) (hb : b ∈ bs) :
    findChain cs b.family b.table b.chain = Chain.ofBlock b := by
  have hall := mapM_eq_some_iff.mp h
  clear h
  induction hall with
  | nil => cases hb
  | @cons b₀ c bs cs hc _ ih =>
    obtain ⟨hfamily, htable, hname⟩ := Chain.ofBlock_names hc
    rw [map_cons, nodup_cons] at hnodup
    unfold findChain
    rw [List.find?_cons, hfamily, htable, hname]
    rcases mem_cons.mp hb with rfl | hmem
    · simp [hc]
    -- the names of the first block are not those of a later one
    have hne : (b₀.family == b.family && b₀.table == b.table && b₀.chain == b.chain) = false := by
      rw [Bool.eq_false_iff]
      intro heq
      simp only [Bool.and_eq_true, beq_iff_eq] at heq
      apply hnodup.1
      rw [heq.1.1, heq.1.2, heq.2]
      exact mem_map_of_mem hmem
    rw [hne]
    exact ih hnodup.2 hmem

/-! ## Acceptance -/

theorem Rule.decides_eq_some {out : Outside} {p : Packet} {r : Rule} {v : Verdict} :
    r.decides out p = some v ↔ r.applies out p ∧ r.verdict = some v := by
  unfold Rule.decides
  split <;> simp_all

theorem ifnameMatches_self (d : Text) : ifnameMatches d d := by
  unfold ifnameMatches
  split
  · exact isPrefixOf_iff_prefix.mpr ( dropLast_prefix d)
  · exact beq_self_eq_true d

/-- Without a `*` a pattern stands for itself. -/
theorem eq_of_ifnameMatches (hd : '*' ∉ d) (h : ifnameMatches d name) : name = d := by
  unfold ifnameMatches at h
  split at h
  · rename_i hlast
    exact absurd (mem_of_getLast? hlast) hd
  · exact (eq_of_beq h).symm

/-! ## Statements that fire

What a statement that applies to a packet says about it, one clause after the other. -/

/-- The statement parses to a rule with the verdict `v` that applies to the packet. -/
def Fires (out : Outside) (p : Packet) (v : Option Verdict) (ts : List Token) : Prop :=
  ∃ r, Rule.parse ts = some r ∧ r.applies out p ∧ r.verdict = v

/-- The statement parses to a rule that accepts the packet. -/
def Accepts (out : Outside) (p : Packet) (ts : List Token) : Prop :=
  ∃ r, Rule.parse ts = some r ∧ r.applies out p ∧ r.verdict = some .accept

/-- Whenever the statement applies to a packet `p`, with the verdict `v`, then `A p v`. -/
def Entails (A : Packet → Option Verdict → Prop) (ts : List Token) : Prop :=
  ∀ out p v, Fires out p v ts → A p v

variable {out : Outside} {p : Packet} {v : Option Verdict} {ts : List Token} {c : Option Clause}

theorem Clause.family_of_holds {x : Clause} {f : Family} (h : x.holds out p)
    (hf : x.family = some f) : p.family = f := by
  cases x <;> cases hf <;> simp_all [Clause.holds]

/-- Clauses that hold on one packet are of one family. -/
theorem Clause.agrees_of_holds {x y : Clause} (hx : x.holds out p)
    (hy : y.holds out p) : x.agrees y := by
  unfold Clause.agrees
  split
  · rename_i f g hf hg
    rw [← family_of_holds hx hf, ← family_of_holds hy hg, beq_self_eq_true]
  · rfl

section Cons

variable {us : List Token} (heq : Rule.parse us = Rule.cons c (Rule.parse ts))

include heq

theorem fires_cons_iff :
    Fires out p v us ↔ (∃ x, c = some x ∧ x.holds out p) ∧ Fires out p v ts := by
  constructor
  · rintro ⟨r, hr, happ, hv⟩
    rw [heq] at hr
    obtain ⟨x, r', hx, hr', rfl⟩ := Rule.cons_eq_some hr
    simp only [Rule.applies, all_cons, Bool.and_eq_true] at happ
    exact ⟨⟨x, hx, happ.1⟩, r', hr', happ.2, hv⟩
  · rintro ⟨⟨x, hx, hold⟩, r, hr, happ, hv⟩
    refine ⟨⟨x :: r.clauses, r.verdict⟩, ?_, ?_, hv⟩
    · have hagree : r.clauses.all x.agrees :=
        all_eq_true.mpr fun y hy => Clause.agrees_of_holds hold (all_eq_true.mp happ y hy)
      rw [heq, hx, hr]
      exact if_pos hagree
    · simpa [Rule.applies, hold] using happ

theorem fires_of_cons (h : Fires out p v us) :
    (∃ x, c = some x ∧ x.holds out p) ∧ Fires out p v ts :=
  (fires_cons_iff heq).mp h

/-- A statement in the fragment is made of clauses in the fragment. -/
theorem isSome_of_cons (h : (Rule.parse us).isSome) : c.isSome ∧ (Rule.parse ts).isSome := by
  obtain ⟨r, hr⟩ := isSome_iff_exists.mp h
  rw [heq] at hr
  obtain ⟨x, r', hx, hr', -⟩ := Rule.cons_eq_some hr
  rw [hx, hr']
  exact ⟨rfl, rfl⟩

end Cons

theorem Fires.isSome (h : Fires out p v ts) : (Rule.parse ts).isSome := by
  obtain ⟨r, hr, -⟩ := h
  exact isSome_of_eq_some hr

/-- The end of a statement is its verdict. -/
theorem fires_end_iff {w : Option Verdict} (hw : Rule.parse ts = some ⟨[], w⟩) :
    Fires out p v ts ↔ v = w := by
  constructor
  · rintro ⟨r, hr, -, hv⟩
    rw [hw] at hr
    cases hr
    exact hv.symm
  · rintro rfl
    exact ⟨_, hw, rfl, rfl⟩

theorem fires_end {w : Option Verdict} (hw : Rule.parse ts = some ⟨[], w⟩) (h : Fires out p v ts) :
    v = w :=
  (fires_end_iff hw).mp h

theorem not_fires_of_none (h : Rule.parse ts = none) : ¬ Fires out p v ts := by
  rintro ⟨r, hr, -⟩
  cases h.symm.trans hr

/-- The verdict a statement reaches on a packet. -/
theorem decides_iff_fires :
    (Rule.parse ts).bind (·.decides out p) = some w ↔ Fires out p (some w) ts := by
  rw [bind_eq_some_iff]
  simp only [Rule.decides_eq_some]
  rfl

theorem readIfname_eq {d' : Text} (h : readIfname d = some d') : d' = d := by
  unfold readIfname at h
  split_ifs at h
  exact (some.inj h).symm

theorem fires_iifname_iff (hp : (Rule.parse (.key .iifname :: .str d :: ts)).isSome) :
    Fires out p v (.key .iifname :: .str d :: ts) ↔ ifnameMatches d p.iif ∧ Fires out p v ts := by
  obtain ⟨x, hx⟩ := isSome_iff_exists.mp (isSome_of_cons rfl hp).1
  have hcons : Fires out p v (.key .iifname :: .str d :: ts) ↔ _ ∧ Fires out p v ts :=
    fires_cons_iff rfl
  rw [hcons, hx]
  obtain ⟨d', hread, rfl⟩ := map_eq_some_iff.mp hx
  obtain rfl := readIfname_eq hread
  simp [Clause.holds]

theorem fires_oifname_iff (hp : (Rule.parse (.key .oifname :: .str d :: ts)).isSome) :
    Fires out p v (.key .oifname :: .str d :: ts) ↔
      (∃ name, p.oif = some name ∧ ifnameMatches d name) ∧ Fires out p v ts := by
  obtain ⟨x, hx⟩ := isSome_iff_exists.mp (isSome_of_cons rfl hp).1
  have hcons : Fires out p v (.key .oifname :: .str d :: ts) ↔ _ ∧ Fires out p v ts :=
    fires_cons_iff rfl
  rw [hcons, hx]
  obtain ⟨d', hread, rfl⟩ := map_eq_some_iff.mp hx
  obtain rfl := readIfname_eq hread
  rcases ho : p.oif with _ | name <;> simp [Clause.holds, ho]

theorem fires_iifname (hd : '*' ∉ d) (h : Fires out p v (.key .iifname :: .str d :: ts)) :
    p.iif = d ∧ Fires out p v ts :=
  ((fires_iifname_iff h.isSome).mp h).imp_left (eq_of_ifnameMatches hd)

theorem fires_oifname (hd : '*' ∉ d) (h : Fires out p v (.key .oifname :: .str d :: ts)) :
    p.oif = some d ∧ Fires out p v ts := by
  obtain ⟨⟨name, ho, hmatch⟩, h⟩ := (fires_oifname_iff h.isSome).mp h
  exact ⟨by rw [ho, eq_of_ifnameMatches hd hmatch], h⟩

theorem fires_address {f : Family} {s : Side} {w : Text} {q : Prefix} (hq : Prefix.parse w = some q)
    (h : Fires out p v (.key (familyKey f) :: .key s.addrKey :: .word w :: ts)) :
    (q.family = p.family ∧ q.contains (p.addr s)) ∧ Fires out p v ts := by
  obtain ⟨⟨x, hx, hold⟩, hts⟩ := fires_of_cons (Rule.parse_address f s w ts) h
  obtain ⟨w', hw', rfl⟩ := map_eq_some_iff.mp hx
  obtain rfl : w' = w := by
    unfold readAddress at hw'
    rw [hq] at hw'
    simp only at hw'
    split_ifs at hw'
    exact (some.inj hw').symm
  simp only [Clause.holds, addressMatches, hq, Bool.and_eq_true, beq_iff_eq] at hold
  exact ⟨⟨hold.2.1.trans hold.1.symm, hold.2.2⟩, hts⟩

theorem fires_l4proto {x : Token} (h : Fires out p v (.key .metainfo :: .key .l4proto :: x :: ts)) :
    protocolNumber x = some p.proto ∧ Fires out p v ts := by
  obtain ⟨⟨c, hc, hold⟩, h⟩ := fires_of_cons rfl h
  obtain ⟨n, hn, rfl⟩ := map_eq_some_iff.mp hc
  exact ⟨by rw [hn, eq_of_beq hold], h⟩

theorem fires_ipProtocol {x : Token} (h : Fires out p v (.key .ip :: .key .protocol :: x :: ts)) :
    protocolNumber x = some p.proto ∧ Fires out p v ts := by
  obtain ⟨⟨c, hc, hold⟩, h⟩ := fires_of_cons rfl h
  obtain ⟨n, hn, rfl⟩ := map_eq_some_iff.mp hc
  simp only [Clause.holds, Bool.and_eq_true] at hold
  exact ⟨by rw [hn, eq_of_beq hold.2], h⟩

theorem Rule.parse_dport (k : Keyword) (w : Text) (ts : List Token) :
    Rule.parse (.key k :: .key .dport :: .word w :: ts) =
      Rule.cons ((Transport.ofKey k).bind fun t => (readPort w).map (.port t .destination))
        (Rule.parse ts) := by
  cases k <;> rfl

theorem fires_dport {w : Text} (h : Fires out p v (.key k :: .key .dport :: .word w :: ts)) :
    (∃ t, Transport.ofKey k = some t ∧ t.covers p.proto ∧ Text.readNat w = some p.dport) ∧
      Fires out p v ts := by
  obtain ⟨⟨c, hc, hold⟩, h⟩ := fires_of_cons (Rule.parse_dport k w ts) h
  obtain ⟨t, ht, hc⟩ := bind_eq_some_iff.mp hc
  obtain ⟨n, hn, rfl⟩ := map_eq_some_iff.mp hc
  have hread : Text.readNat w = some n := by
    obtain ⟨m, hm, hle⟩ := bind_eq_some_iff.mp hn
    split_ifs at hle
    rw [hm, some.inj hle]
  simp only [Clause.holds, Bool.and_eq_true] at hold
  refine ⟨⟨t, ht, hold.1, ?_⟩, h⟩
  rw [hread, ← show p.dport = n from eq_of_beq hold.2]

/-! ### In statements of the fragment

Each match of such a statement holds of exactly the packets it names. -/

theorem fires_address_iff {f : Family} {s : Side} {w : Text} {q : Prefix}
    (hq : Prefix.parse w = some q)
    (hp : (Rule.parse (.key (familyKey f) :: .key s.addrKey :: .word w :: ts)).isSome) :
    Fires out p v (.key (familyKey f) :: .key s.addrKey :: .word w :: ts) ↔
      (q.family = p.family ∧ q.contains (p.addr s)) ∧ Fires out p v ts := by
  refine ⟨fires_address hq, ?_⟩
  rintro ⟨⟨hfam, hin⟩, h⟩
  have heq := Rule.parse_address f s w ts
  -- the literal is of the family it is matched in
  have hread : readAddress f w = some w ∧ q.family = f := by
    have hsome := (isSome_of_cons heq hp).1
    rw [isSome_map, readAddress, hq] at hsome
    simp only at hsome
    split_ifs at hsome with hf
    · rw [readAddress, hq]
      exact ⟨if_pos hf, hf⟩
    · cases hsome
  refine (fires_cons_iff heq).mpr ⟨⟨.address f s w, ?_, ?_⟩, h⟩
  · rw [hread.1]
    rfl
  · simp [Clause.holds, addressMatches, hq, hread.2, hin, ← hfam]

theorem fires_dport_iff {w : Text}
    (hp : (Rule.parse (.key k :: .key .dport :: .word w :: ts)).isSome) :
    Fires out p v (.key k :: .key .dport :: .word w :: ts) ↔
      (∃ t, Transport.ofKey k = some t ∧ t.covers p.proto ∧
        Text.readNat w = some p.dport) ∧ Fires out p v ts := by
  refine ⟨fires_dport, ?_⟩
  rintro ⟨⟨t, ht, hcov, hread⟩, h⟩
  have heq := Rule.parse_dport k w ts
  have hport : readPort w = some p.dport := by
    have hsome := (isSome_of_cons heq hp).1
    rw [ht, bind_some, isSome_map, readPort, hread, bind_some] at hsome
    rw [readPort, hread, bind_some]
    split_ifs at hsome ⊢
    · rfl
    · cases hsome
  refine (fires_cons_iff heq).mpr ⟨⟨.port t .destination p.dport, ?_, ?_⟩, h⟩
  · rw [ht, hport]
    rfl
  · simp [Clause.holds, hcov, Packet.port]

/-! ### The first verdict

A chain goes by the first of its statements that reaches a verdict. -/

/-- One of the statements gives the packet the verdict `w`. -/
def Decided (out : Outside) (p : Packet) (w : Verdict) (ss : List (List Token)) : Prop :=
  ∃ ts ∈ ss, Fires out p (some w) ts

@[simp] theorem decided_nil (w : Verdict) : ¬ Decided out p w [] := by
  simp [Decided]

@[simp] theorem decided_singleton : Decided out p w [ts] ↔ Fires out p (some w) ts := by
  simp [Decided]

theorem decided_append : Decided out p w (ss ++ us) ↔ Decided out p w ss ∨ Decided out p w us := by
  simp [Decided, or_and_right, exists_or]

theorem decided_flatMap {α : Type} {xs : List α} {f : α → List (List Token)} :
    Decided out p w (xs.flatMap f) ↔ ∃ x ∈ xs, Decided out p w (f x) := by
  simp only [Decided, mem_flatMap]
  constructor
  · rintro ⟨ts, ⟨x, hx, hts⟩, h⟩
    exact ⟨x, hx, ts, hts, h⟩
  · rintro ⟨x, hx, ts, hts, h⟩
    exact ⟨ts, ⟨x, hx, hts⟩, h⟩

theorem decided_if {c : Prop} [Decidable c] :
    Decided out p w (if c then ss else []) ↔ c ∧ Decided out p w ss := by
  split <;> simp_all

/-- The first verdict that the statements reach. -/
def verdictBy (out : Outside) (p : Packet) (ss : List (List Token)) : Option Verdict :=
  ss.findSome? fun ts => (Rule.parse ts).bind (·.decides out p)

theorem verdictBy_append (out : Outside) (p : Packet) (ss us : List (List Token)) :
    verdictBy out p (ss ++ us) = (verdictBy out p ss).or (verdictBy out p us) :=
  findSome?_append

theorem decided_of_verdictBy (h : verdictBy out p ss = some w) : Decided out p w ss := by
  obtain ⟨ts, hts, hd⟩ := exists_of_findSome?_eq_some h
  exact ⟨ts, hts, decides_iff_fires.mp hd⟩

theorem verdictBy_eq_none_iff : verdictBy out p ss = none ↔ ∀ w, ¬ Decided out p w ss := by
  simp only [verdictBy, findSome?_eq_none_iff, Decided, not_exists, not_and]
  constructor
  · intro h w ts hts hfires
    have hnone := h ts hts
    rw [decides_iff_fires.mpr hfires] at hnone
    cases hnone
  · intro h ts hts
    rw [eq_none_iff_forall_ne_some]
    intro w hw
    exact h w ts hts (decides_iff_fires.mp hw)

/-- Where only the verdict `w` occurs, it is the first one if there is one. -/
theorem verdictBy_eq_some_iff (h : ∀ w', Decided out p w' ss → w' = w) :
    verdictBy out p ss = some w ↔ Decided out p w ss := by
  refine ⟨decided_of_verdictBy, fun hd => ?_⟩
  rcases hv : verdictBy out p ss with _ | w'
  · exact absurd hd (verdictBy_eq_none_iff.mp hv w)
  · rw [h w' (decided_of_verdictBy hv)]

/-- Behind statements that only accept. -/
theorem verdictBy_accept_append (h : ∀ w, Decided out p w ss → w = .accept) :
    verdictBy out p (ss ++ us) = some .accept ↔
      Decided out p .accept ss ∨ verdictBy out p us = some .accept := by
  rw [verdictBy_append, ← verdictBy_eq_some_iff h]
  rcases hv : verdictBy out p ss with _ | w
  · simp
  · simp [h w (decided_of_verdictBy hv)]

/-- Behind statements that never accept. -/
theorem verdictBy_append_of_refuse (h : ¬ Decided out p .accept ss) :
    verdictBy out p (ss ++ us) = some .accept ↔
      (∀ w, ¬ Decided out p w ss) ∧ verdictBy out p us = some .accept := by
  rw [verdictBy_append, ← verdictBy_eq_none_iff]
  rcases hv : verdictBy out p ss with _ | w
  · simp
  · have hne : w ≠ .accept := by
      rintro rfl
      exact h (decided_of_verdictBy hv)
    simp [hne]

end Lankeeper.Lib.Nft
