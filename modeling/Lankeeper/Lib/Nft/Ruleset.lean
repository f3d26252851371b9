import Lankeeper.Lib.Address
import Lankeeper.Lib.Nft.Lexer

/-!
# Lankeeper.Lib.Nft.Ruleset — chains and rules of an nftables script

From tokens to base chains, in three passes: `items` cuts the tokens into
statements and block ends, `blocks` follows the nesting of tables and chains, and
`Rule.parse` reads one statement of a chain. `load` is all of it; like `nft -f` it
takes the whole script or nothing. What lies outside the fragment is refused.

`Reads` is the compositional reading of a list of lines as items, and
`load_of_reads` the reading of a whole script. `proper_of_readBlocks` goes the other
way: the tokens of a chain are ones that the scanner gives.
-/

namespace Lankeeper.Lib.Nft

open Text List Option

/-! ## Statements and blocks -/

inductive Item
  | stmt (ts : List Token)
  /-- the tokens in front of the brace that opens a table or a chain -/
  | block (header : List Token)
  | close
deriving DecidableEq

/-- Does a brace after these tokens open a block? Otherwise it opens a set. -/
def opensBlock : List Token → Bool
  | .key .table :: _ => true
  | .key .chain :: _ => true
  | _ => false

def stmtOf (p : List Token) : List Item :=
  if p = [] then [] else [.stmt p.reverse]

/-- The elements of a set: words with commas between them. -/
def elements : List Token → Option (List Text)
  | [] => some []
  | [.word w] => some [w]
  | .word w :: .comma :: ts => (elements ts).map (w :: ·)
  | _ => none

/-- `p` is the statement read so far and `set` the set that is open in it, both
in reverse. Line ends do not end a statement inside a set. -/
def itemsFrom : List Token → Option (List Token) → List Token → Option (List Item)
  | p, none, [] => some (stmtOf p)
  | _, some _, [] => none
  | p, none, t :: ts =>
    match t with
    | .newline => (itemsFrom [] none ts).map (stmtOf p ++ ·)
    | .semicolon => (itemsFrom [] none ts).map (stmtOf p ++ ·)
    | .lbrace =>
      if opensBlock p.reverse then (itemsFrom [] none ts).map (.block p.reverse :: ·)
      else itemsFrom p (some []) ts
    | .rbrace => (itemsFrom [] none ts).map (stmtOf p ++ .close :: ·)
    | t => itemsFrom (t :: p) none ts
  | p, some s, t :: ts =>
    match t with
    | .newline => itemsFrom p (some s) ts
    | .rbrace => (elements s.reverse).bind fun es => itemsFrom (.set es :: p) none ts
    | .semicolon => none
    | .lbrace => none
    | t => itemsFrom p (some (t :: s)) ts

def items (ts : List Token) : Option (List Item) :=
  itemsFrom [] none ts

/-- The statements of one chain. -/
structure Block where
  family : Text
  table : Text
  chain : Text
  stmts : List (List Token)

/-- The family of a table. -/
def tableFamily : Token → Option Text
  | .key .ip => some Keyword.ip.spell
  | .key .ip6 => some Keyword.ip6.spell
  | .word w => some w
  | _ => none

/-- `table` and `chain` are what is open here, the latter with its statements in
reverse. -/
def blocksFrom : Option (Text × Text) → Option (Text × List (List Token)) → List Item →
    Option (List Block)
  | none, none, [] => some []
  | none, none, .block [.key .table, family, .word name] :: is =>
    (tableFamily family).bind fun f => blocksFrom (some (f, name)) none is
  | some t, none, .block [.key .chain, .word name] :: is => blocksFrom (some t) (some (name, [])) is
  | some _, none, .close :: is => blocksFrom none none is
  | some t, some (name, ss), .stmt s :: is => blocksFrom (some t) (some (name, s :: ss)) is
  | some t, some (name, ss), .close :: is =>
    (blocksFrom (some t) none is).map (⟨t.1, t.2, name, ss.reverse⟩ :: ·)
  | _, _, _ => none

/-- A script flushes the old ruleset and lists the tables of the new one. -/
def blocks : List Item → Option (List Block)
  | .stmt [.key .flush, .key .ruleset] :: is => blocksFrom none none is
  | _ => none

/-! ## Rules -/

inductive Verdict
  | accept | drop | reject
deriving DecidableEq

inductive CtState
  | established | related | invalid | new
deriving DecidableEq

inductive Side
  | source | destination
deriving DecidableEq

/-- The headers with ports; `th` is whichever of them the packet has. -/
inductive Transport
  | tcp | udp | udplite | sctp | dccp | th
deriving DecidableEq

inductive Clause
  | iifname (d : Text)
  | oifname (d : Text)
  | ctState (states : List CtState)
  | address (f : Family) (s : Side) (operand : Text)
  | ipProtocol (n : Nat)
  | nexthdr (n : Nat)
  | l4proto (n : Nat)
  | port (t : Transport) (s : Side) (n : Nat)
  | icmpType (f : Family) (types : List Text)
  | limitRate (rate : Text)
  | tcpSyn
  -- statements without a verdict
  | clampMss
  | log (text : Text)
  | setTtl (n : Nat)
  | masquerade
  | dnat (host : Text) (port : Nat)
deriving DecidableEq

structure Rule where
  clauses : List Clause
  verdict : Option Verdict
deriving DecidableEq

/-- The keyword of an address family. -/
def familyKey : Family → Keyword
  | .ip4 => .ip
  | .ip6 => .ip6

/-- The keyword of an address operand. -/
def Side.addrKey : Side → Keyword
  | .source => .saddr
  | .destination => .daddr

def CtState.ofKey : Keyword → Option CtState
  | .established => some .established
  | .related => some .related
  | .invalid => some .invalid
  | .new => some .new
  | _ => none

def Transport.ofKey : Keyword → Option Transport
  | .tcp => some .tcp
  | .udp => some .udp
  | .udplite => some .udplite
  | .sctp => some .sctp
  | .dccp => some .dccp
  | .th => some .th
  | _ => none

/-- The number of a protocol, by name or written out. -/
def protocolNumber : Token → Option Nat
  | .key .icmp => some 1
  | .key .tcp => some 6
  | .key .udp => some 17
  | .key .dccp => some 33
  | .key .icmpv6 => some 58
  | .key .sctp => some 132
  | .key .udplite => some 136
  | .word w => (readNat w).bind fun n => if n ≤ 255 then some n else none
  | _ => none

def readPort (w : Text) : Option Nat :=
  (readNat w).bind fun n => if n ≤ 65535 then some n else none

/-- An interface name of the kernel: neither empty nor over fifteen bytes. -/
def readIfname (d : Text) : Option Text :=
  if d ≠ [] ∧ byteLen d ≤ 15 then some d else none

/-- An address literal is of the family it is matched in. Anything else is a host
name, which is for `nft` to resolve. -/
def readAddress (f : Family) (w : Text) : Option Text :=
  match Prefix.parse w with
  | some p => if p.family = f then some w else none
  | none => some w

/-- The target of `dnat` in a table of the family `ip`: an IPv4 address or a host name,
and a port behind a colon. An IPv6 address has more colons than that. -/
def readTarget (w : Text) : Option (Text × Nat) :=
  match w.dropWhile (· ≠ ':') with
  | [] => none
  | _ :: port => (readPort port).map fun n => (w.takeWhile (· ≠ ':'), n)

/-- The family whose header a match reads. -/
def Clause.family : Clause → Option Family
  | .address f _ _ => some f
  | .ipProtocol _ => some .ip4
  | .nexthdr _ => some .ip6
  | _ => none

/-- No packet has both headers, and a rule with matches on both is refused. -/
def Clause.agrees (c d : Clause) : Bool :=
  match c.family, d.family with
  | some f, some g => f == g
  | _, _ => true

def Rule.cons (c : Option Clause) (r : Option Rule) : Option Rule :=
  c.bind fun c => r.bind fun r =>
    if r.clauses.all c.agrees then some ⟨c :: r.clauses, r.verdict⟩ else none

theorem Rule.cons_of_no_family {x : Clause} (h : x.family = none) (r : Option Rule) :
    Rule.cons (some x) r = r.map fun r => ⟨x :: r.clauses, r.verdict⟩ := by
  cases r <;> simp [Rule.cons, Clause.agrees, h]

theorem Rule.cons_eq_some {c : Option Clause} {r : Option Rule} {q : Rule}
    (h : Rule.cons c r = some q) :
    ∃ x r', c = some x ∧ r = some r' ∧ q = ⟨x :: r'.clauses, r'.verdict⟩ := by
  obtain ⟨x, hx, h⟩ := bind_eq_some_iff.mp h
  obtain ⟨r', hr', h⟩ := bind_eq_some_iff.mp h
  split_ifs at h
  exact ⟨x, r', hx, hr', (some.inj h).symm⟩

def Rule.parse : List Token → Option Rule
  | [] => some ⟨[], none⟩
  | [.key .accept] => some ⟨[], some .accept⟩
  | [.key .drop] => some ⟨[], some .drop⟩
  | [.key .reject] => some ⟨[], some .reject⟩
  | .key .iifname :: .str d :: ts => Rule.cons ((readIfname d).map .iifname) (Rule.parse ts)
  | .key .oifname :: .str d :: ts => Rule.cons ((readIfname d).map .oifname) (Rule.parse ts)
  | .key .ct :: .key .state :: .key a :: .comma :: .key b :: ts =>
    Rule.cons ((CtState.ofKey a).bind fun x => (CtState.ofKey b).map fun y => .ctState [x, y])
      (Rule.parse ts)
  | .key .ct :: .key .state :: .key a :: ts =>
    Rule.cons ((CtState.ofKey a).map fun x => .ctState [x]) (Rule.parse ts)
  | .key .ip :: .key .saddr :: .word w :: ts =>
    Rule.cons ((readAddress .ip4 w).map (.address .ip4 .source)) (Rule.parse ts)
  | .key .ip :: .key .daddr :: .word w :: ts =>
    Rule.cons ((readAddress .ip4 w).map (.address .ip4 .destination)) (Rule.parse ts)
  | .key .ip6 :: .key .saddr :: .word w :: ts =>
    Rule.cons ((readAddress .ip6 w).map (.address .ip6 .source)) (Rule.parse ts)
  | .key .ip6 :: .key .daddr :: .word w :: ts =>
    Rule.cons ((readAddress .ip6 w).map (.address .ip6 .destination)) (Rule.parse ts)
  | .key .ip :: .key .protocol :: x :: ts =>
    Rule.cons ((protocolNumber x).map .ipProtocol) (Rule.parse ts)
  | .key .ip6 :: .key .nexthdr :: x :: ts =>
    Rule.cons ((protocolNumber x).map .nexthdr) (Rule.parse ts)
  | .key .metainfo :: .key .l4proto :: x :: ts =>
    Rule.cons ((protocolNumber x).map .l4proto) (Rule.parse ts)
  | .key .icmp :: .key .type :: .set es :: ts => Rule.cons (some (.icmpType .ip4 es)) (Rule.parse ts)
  | .key .icmpv6 :: .key .type :: .set es :: ts =>
    Rule.cons (some (.icmpType .ip6 es)) (Rule.parse ts)
  | .key .limit :: .key .rate :: .word w :: ts => Rule.cons (some (.limitRate w)) (Rule.parse ts)
  | .key .tcp :: .key .flags :: .key .syn :: ts => Rule.cons (some .tcpSyn) (Rule.parse ts)
  | .key .tcp :: .key .option :: .key .maxseg :: .key .size :: .key .set :: .key .rt ::
      .key .mtu :: ts => Rule.cons (some .clampMss) (Rule.parse ts)
  | .key .log :: .key .logPrefix :: .str s :: ts => Rule.cons (some (.log s)) (Rule.parse ts)
  | .key .ip :: .key .ttl :: .key .set :: .word w :: ts =>
    Rule.cons ((protocolNumber (.word w)).map .setTtl) (Rule.parse ts)
  | .key .dnat :: .key .target :: .word w :: ts =>
    Rule.cons ((readTarget w).map fun t => .dnat t.1 t.2) (Rule.parse ts)
  | .key .masquerade :: ts => Rule.cons (some .masquerade) (Rule.parse ts)
  | .key k :: .key .sport :: .word w :: ts =>
    Rule.cons ((Transport.ofKey k).bind fun t => (readPort w).map (.port t .source)) (Rule.parse ts)
  | .key k :: .key .dport :: .word w :: ts =>
    Rule.cons ((Transport.ofKey k).bind fun t => (readPort w).map (.port t .destination))
      (Rule.parse ts)
  | _ => none

theorem Rule.parse_address (f : Family) (s : Side) (w : Text) (ts : List Token) :
    Rule.parse (.key (familyKey f) :: .key s.addrKey :: .word w :: ts) =
      Rule.cons ((readAddress f w).map (.address f s)) (Rule.parse ts) := by
  cases f <;> cases s <;> rfl

/-! ## Chains -/

/-- A base chain. -/
structure Chain where
  family : Text
  table : Text
  name : Text
  type : Text
  hook : Text
  priority : Text
  policy : Verdict
  rules : List Rule
deriving DecidableEq

def readPolicy : Keyword → Option Verdict
  | .accept => some .accept
  | .drop => some .drop
  | _ => none

/-- A base chain says first what it is hooked to and what its policy is. -/
def Chain.ofBlock (b : Block) : Option Chain :=
  match b.stmts with
  | [.key .type, .word type, .key .hook, .word hook, .key .priority, .word priority] ::
      [.key .policy, .key k] :: stmts =>
    (readPolicy k).bind fun v => (stmts.mapM Rule.parse).map fun rules =>
      ⟨b.family, b.table, b.chain, type, hook, priority, v, rules⟩
  | _ => none

/-- The chains of a script; no chain is given twice. -/
def load (text : Text) : Option (List Chain) :=
  (lex text).bind fun ts => (items ts).bind fun is => (blocks is).bind fun bs =>
    if (bs.map fun b => (b.family, b.table, b.chain)).Nodup then bs.mapM Chain.ofBlock else none

/-! ## Values as words -/

theorem proper_address {a : Text} {q : Prefix} (h : Prefix.parse a = some q) :
    (Token.word a).Proper := by
  obtain ⟨hne, hchars⟩ := Prefix.parse_chars h
  exact word_proper (by decide) hne hchars (ofWord_eq_word (.inl (Prefix.parse_separator h)))

theorem proper_decimal (n : Int) : (Token.word (decimal n)).Proper := by
  have hword : Token.ofWord (decimal n) = .word (decimal n) := by
    apply ofWord_eq_word
    obtain ⟨c, cs, hcs⟩ := exists_cons_of_ne_nil (decimal_ne_nil n)
    have hmem : c ∈ decimal n := by
      rw [hcs]
      exact mem_cons_self
    rcases mem_decimal hmem with hd | rfl
    · exact .inr ⟨c, by rw [hcs]; rfl, hd⟩
    · exact .inl ⟨'-', hmem, rfl⟩
  have hchars : ∀ c ∈ decimal n, (c.isDigit || c == '-') := by
    intro c hc
    rcases mem_decimal hc with hd | rfl
    · simp [hd]
    · rfl
  exact word_proper (f := fun c => c.isDigit || c == '-') (by decide) (decimal_ne_nil n) hchars hword

theorem lexes_decimal (n : Int) : Lexes (decimal n) [.word (decimal n)] :=
  lexes_token (proper_decimal n)

/-! ## Reading line by line -/

/-- The tokens read as the items, in front of anything. -/
def Itemizes (ts : List Token) (is : List Item) : Prop :=
  ∀ rest, itemsFrom [] none (ts ++ rest) = (itemsFrom [] none rest).map (is ++ ·)

variable {ts : List Token} {is : List Item} {ls ms : List Text} {α : Type} {xs : List α} {n : Nat}

theorem Itemizes.append {us : List Token} {js : List Item} (ht : Itemizes ts is)
    (hu : Itemizes us js) : Itemizes (ts ++ us) (is ++ js) := by
  intro rest
  rw [append_assoc, ht, hu, Option.map_map]
  simp [Function.comp_def]

/-- The lines read as the items, in front of anything. -/
def Reads (ls : List Text) (is : List Item) : Prop :=
  ∃ tss, List.Forall₂ LexesLine ls tss ∧ Itemizes (tss.flatMap (· ++ [.newline])) is

theorem reads_nil : Reads [] [] :=
  ⟨[], .nil, fun rest => by simp⟩

theorem Reads.append {js : List Item} (hl : Reads ls is) (hm : Reads ms js) :
    Reads (ls ++ ms) (is ++ js) := by
  obtain ⟨tss, hlex, hit⟩ := hl
  obtain ⟨uss, hlex', hit'⟩ := hm
  refine ⟨tss ++ uss, rel_append hlex hlex', ?_⟩
  rw [flatMap_append]
  exact hit.append hit'

/-- Lines that are a statement each, whose tokens are known. -/
theorem reads_map {f : α → Text} {g : α → List Token}
    (h : ∀ x ∈ xs, Reads [f x] [.stmt (g x)]) : Reads (xs.map f) ((xs.map g).map .stmt) := by
  induction xs with
  | nil => exact reads_nil
  | cons x xs ih =>
    exact (h x mem_cons_self).append (ih fun y hy => h y (mem_cons_of_mem _ hy))

/-- The tokens that neither end a statement nor open a block. -/
def Token.plain : Token → Bool
  | .key _ | .word _ | .str _ | .comma => true
  | _ => false

@[simp] theorem Token.plain_key (k : Keyword) : (Token.key k).plain := rfl

@[simp] theorem Token.plain_word (w : Text) : (Token.word w).plain := rfl

@[simp] theorem Token.plain_str (t : Text) : (Token.str t).plain := rfl

@[simp] theorem Token.plain_ofWord (w : Text) : (Token.ofWord w).plain := by
  unfold Token.ofWord
  split <;> rfl

theorem itemsFrom_plain (h : ∀ t ∈ ts, t.plain) (p rest : List Token) :
    itemsFrom p none (ts ++ rest) = itemsFrom (ts.reverse ++ p) none rest := by
  induction ts generalizing p with
  | nil => rfl
  | cons t ts ih =>
    have hstep : itemsFrom p none (t :: (ts ++ rest)) = itemsFrom (t :: p) none (ts ++ rest) := by
      have ht := h t mem_cons_self
      cases t <;> first | rfl | cases ht
    rw [cons_append, hstep, ih (fun u hu => h u (mem_cons_of_mem _ hu))]
    simp

/-- A line of plain tokens is a statement. -/
theorem reads_stmt {l : Text} (hl : LexesLine l ts) (hne : ts ≠ []) (h : ∀ t ∈ ts, t.plain) :
    Reads [l] [.stmt ts] := by
  refine ⟨[ts], .cons hl .nil, ?_⟩
  intro rest
  rw [flatMap_singleton, append_assoc, itemsFrom_plain h]
  simp [itemsFrom, stmtOf, hne]

variable {tss ss us : List (List Token)} {P : List Token → Prop}

/-- Lines of plain tokens are a statement each. -/
theorem reads_stmts (h : List.Forall₂ LexesLine ls tss) (hne : ∀ ts ∈ tss, ts ≠ [])
    (hplain : ∀ ts ∈ tss, ∀ t ∈ ts, t.plain) : Reads ls (tss.map .stmt) := by
  induction h with
  | nil => exact reads_nil
  | @cons l ts ls tss hl _ ih =>
    have hone := reads_stmt hl (hne ts mem_cons_self) (hplain ts mem_cons_self)
    exact hone.append (ih (fun us hus => hne us (mem_cons_of_mem ts hus))
      fun us hus => hplain us (mem_cons_of_mem ts hus))

/-- A line of words behind an indentation. -/
def line (n : Nat) (ws : List Text) : Text :=
  List.replicate n ' ' ++ unwords ws

theorem line_lexes {ws : List Text} (h : List.Forall₂ Lexes ws tss) (hne : ws ≠ []) :
    LexesLine (line n ws) tss.flatten :=
  ((lexes_unwords h hne).indent n).line

/-- A line of proper tokens. -/
theorem lexesLine_tokens (hne : ts ≠ []) (h : ∀ t ∈ ts, t.Proper) :
    LexesLine (line n (ts.map Token.text)) ts :=
  ((lexes_phrase hne h).indent n).line

/-- A line that opens a block. -/
theorem reads_open {ws : List Text} (h : List.Forall₂ Lexes ws tss)
    (hopens : opensBlock tss.flatten) (hplain : ∀ t ∈ tss.flatten, t.plain) :
    Reads [line n (ws ++ [['\x7b']])] [.block tss.flatten] := by
  have hline : LexesLine (line n (ws ++ [['\x7b']])) (tss ++ [[Token.lbrace]]).flatten :=
    line_lexes (rel_append h (.cons (lexes_symbol rfl) .nil)) (by simp)
  refine ⟨[_], .cons hline .nil, fun rest => ?_⟩
  rw [flatMap_singleton, flatten_append, append_assoc, append_assoc, itemsFrom_plain hplain]
  simp [itemsFrom, stmtOf, hopens]

theorem reads_close (n : Nat) : Reads [line n [['\x7d']]] [.close] :=
  ⟨[_], .cons (line_lexes (.cons (lexes_symbol rfl) .nil) (by simp)) .nil,
    fun rest => by simp [itemsFrom, stmtOf]⟩

/-- The lines read as statements that all have a property. -/
def ReadsStmts (P : List Token → Prop) (ls : List Text) : Prop :=
  ∃ ss : List (List Token), Reads ls (ss.map .stmt) ∧ ∀ ts ∈ ss, P ts

theorem readsStmts_nil : ReadsStmts P [] :=
  ⟨[], reads_nil, by simp⟩

theorem ReadsStmts.append (hl : ReadsStmts P ls) (hm : ReadsStmts P ms) :
    ReadsStmts P (ls ++ ms) := by
  obtain ⟨ss, hl, hs⟩ := hl
  obtain ⟨us, hm, hu⟩ := hm
  refine ⟨ss ++ us, ?_, ?_⟩
  · rw [map_append]
    exact hl.append hm
  · intro ts hts
    rcases mem_append.mp hts with h | h
    · exact hs ts h
    · exact hu ts h

theorem ReadsStmts.mono {Q : List Token → Prop} (h : ReadsStmts P ls) (hPQ : ∀ ts, P ts → Q ts) :
    ReadsStmts Q ls := by
  obtain ⟨ss, hl, hs⟩ := h
  exact ⟨ss, hl, fun ts hts => hPQ ts (hs ts hts)⟩

theorem readsStmts_flatMap {f : α → List Text} (h : ∀ x ∈ xs, ReadsStmts P (f x)) :
    ReadsStmts P (xs.flatMap f) := by
  induction xs with
  | nil => exact readsStmts_nil
  | cons x xs ih =>
    rw [flatMap_cons]
    exact (h x mem_cons_self).append (ih fun y hy => h y (mem_cons_of_mem _ hy))

theorem readsStmts_if {c : Prop} [Decidable c] (h : c → ReadsStmts P ls) :
    ReadsStmts P (if c then ls else []) := by
  split
  · rename_i hc
    exact h hc
  · exact readsStmts_nil

/-- Lines that are a statement each. -/
theorem readsStmts_of_forall
    (h : ∀ l ∈ ls, ∃ ts, LexesLine l ts ∧ ts ≠ [] ∧ (∀ t ∈ ts, t.plain) ∧ P ts) :
    ReadsStmts P ls := by
  induction ls with
  | nil => exact readsStmts_nil
  | cons l ls ih =>
    obtain ⟨ts, hlex, hne, hplain, hP⟩ := h l mem_cons_self
    have hone : ReadsStmts P [l] := ⟨[ts], reads_stmt hlex hne hplain, by simpa using hP⟩
    exact hone.append (ih fun m hm => h m (mem_cons_of_mem _ hm))

/-- A line of words that is a statement. -/
theorem readsStmts_line {ws : List Text} (h : List.Forall₂ Lexes ws tss) (hne : tss.flatten ≠ [])
    (hplain : tss.flatten.all Token.plain) (hP : P tss.flatten) : ReadsStmts P [line n ws] := by
  have hws : ws ≠ [] := by
    rintro rfl
    cases h
    exact hne rfl
  exact ⟨[tss.flatten], reads_stmt (line_lexes h hws) hne (all_eq_true.mp hplain),
    by simpa using hP⟩

/-- The tokens of the statements are what the scanner gives, and sets. -/
def ProperStmts (ss : List (List Token)) : Prop :=
  ∀ ts ∈ ss, ∀ t ∈ ts, t.Proper ∨ ∃ es, t = .set es

theorem properStmts_append : ProperStmts (ss ++ us) ↔ ProperStmts ss ∧ ProperStmts us :=
  forall_mem_append

theorem properStmts_flatMap {f : α → List (List Token)} :
    ProperStmts (xs.flatMap f) ↔ ∀ x ∈ xs, ProperStmts (f x) := by
  simp only [ProperStmts, mem_flatMap]
  constructor
  · intro h x hx ts hts
    exact h ts ⟨x, hx, hts⟩
  · rintro h ts ⟨x, hx, hts⟩
    exact h x hx ts hts

theorem properStmts_if {p : Prop} [Decidable p] :
    ProperStmts (if p then ss else []) ↔ (p → ProperStmts ss) := by
  split <;> simp_all [ProperStmts]

theorem proper_of_lexesLine {l : Text} (h : LexesLine l ts) : ∀ t ∈ ts, t.Proper := by
  have hlex : lex (l ++ ['\n']) = some (ts ++ [.newline]) := h []
  intro t ht
  exact lex_proper hlex t (mem_append_left _ ht)

/-! ### Token by token -/

/-- A token that the text of a statement reads as. -/
def InPlace (t : Token) : Prop :=
  t.Proper ∨ ∃ es, t = .set es

theorem properStmts_singleton : ProperStmts [ts] ↔ ∀ t ∈ ts, InPlace t :=
  forall_mem_singleton

@[simp] theorem inPlace_key (k : Keyword) : InPlace (.key k) :=
  .inl trivial

@[simp] theorem inPlace_comma : InPlace .comma :=
  .inl trivial

@[simp] theorem inPlace_set (es : List Text) : InPlace (.set es) :=
  .inr ⟨es, rfl⟩

@[simp] theorem inPlace_str {s : Text} : InPlace (.str s) ↔ quote ∉ s := by
  simp [InPlace, Token.Proper]

@[simp] theorem inPlace_word {w : Text} : InPlace (.word w) ↔ (Token.word w).Proper := by
  simp [InPlace]

@[simp] theorem inPlace_ofWord {w : Text} : InPlace (.ofWord w) ↔ (Token.ofWord w).Proper := by
  unfold Token.ofWord
  split <;> simp [InPlace]

/-- The lines read as the statements, if these are of proper tokens. -/
def ReadsAs (ls : List Text) (ss : List (List Token)) : Prop :=
  ProperStmts ss → Reads ls (ss.map .stmt)

theorem readsAs_nil : ReadsAs [] [] :=
  fun _ => reads_nil

theorem ReadsAs.append (hl : ReadsAs ls ss) (hm : ReadsAs ms us) :
    ReadsAs (ls ++ ms) (ss ++ us) := by
  intro h
  obtain ⟨hs, hu⟩ := properStmts_append.mp h
  rw [map_append]
  exact (hl hs).append (hm hu)

theorem readsAs_flatMap {f : α → List Text} {g : α → List (List Token)}
    (h : ∀ x ∈ xs, ReadsAs (f x) (g x)) : ReadsAs (xs.flatMap f) (xs.flatMap g) := by
  induction xs with
  | nil => exact readsAs_nil
  | cons x xs ih =>
    exact (h x mem_cons_self).append (ih fun y hy => h y (mem_cons_of_mem x hy))

theorem readsAs_if {c : Prop} [Decidable c] (h : c → ReadsAs ls ss) :
    ReadsAs (if c then ls else []) (if c then ss else []) := by
  split
  · rename_i hc
    exact h hc
  · exact readsAs_nil

/-- A line of single tokens. -/
theorem readsAs_tokens (hne : ts ≠ []) (hplain : ∀ t ∈ ts, t.plain) :
    ReadsAs [line n (ts.map Token.text)] [ts] := by
  intro h
  refine reads_stmt (lexesLine_tokens hne fun t ht => ?_) hne hplain
  rcases h ts mem_cons_self t ht with hproper | ⟨es, rfl⟩
  · exact hproper
  · exact absurd (hplain _ ht) (by simp [Token.plain])

/-- Lines whose tokens are known. -/
theorem reads_of_tokens (hlex : List.Forall₂ LexesLine ls tss)
    (hit : Itemizes (tss.flatMap (· ++ [.newline])) is) : Reads ls is :=
  ⟨tss, hlex, hit⟩

/-- The chains of a script, with their statements as tokens. -/
def readBlocks (text : Text) : Option (List Block) :=
  (lex text).bind fun ts => (items ts).bind blocks

theorem readBlocks_of_reads (h : Reads ls is) :
    readBlocks (ls.flatMap (· ++ ['\n'])) = blocks is := by
  obtain ⟨tss, hlex, hit⟩ := h
  have hitems : items (tss.flatMap (· ++ [.newline])) = some is := by
    have h' := hit []
    rw [append_nil] at h'
    unfold items
    rw [h']
    simp [itemsFrom, stmtOf]
  unfold readBlocks
  rw [lex_lines hlex, bind_some, hitems, bind_some]

theorem load_of_reads (h : Reads ls is) :
    load (ls.flatMap (· ++ ['\n'])) = (blocks is).bind fun bs =>
      if (bs.map fun b => (b.family, b.table, b.chain)).Nodup then bs.mapM Chain.ofBlock
      else none := by
  rw [← readBlocks_of_reads h, load, readBlocks, bind_assoc]
  simp only [bind_assoc]

/-! ## Where the tokens of a chain come from -/

/-- What holds of every token, and of every set, holds of the tokens of a statement. -/
theorem forall_of_itemsFrom {P : Token → Prop} (hset : ∀ es, P (.set es)) {p : List Token}
    {set : Option (List Token)} (hp : ∀ t ∈ p, P t) (hts : ∀ t ∈ ts, P t)
    (h : itemsFrom p set ts = some is) {u : List Token} (hu : .stmt u ∈ is) : ∀ t ∈ u, P t := by
  have hstmt : ∀ {p : List Token}, (∀ t ∈ p, P t) → .stmt u ∈ stmtOf p → ∀ t ∈ u, P t := by
    intro p hp hmem t ht
    unfold stmtOf at hmem
    split at hmem
    · cases hmem
    · obtain rfl := Item.stmt.inj (mem_singleton.mp hmem)
      exact hp t (mem_reverse.mp ht)
  induction ts generalizing p set is with
  | nil =>
    cases set with
    | none =>
      cases h
      exact hstmt hp hu
    | some => cases h
  | cons x ts ih =>
    obtain ⟨hx, hrest⟩ := forall_mem_cons.mp hts
    -- a statement ends here, and what follows starts from nothing
    have hends : ∀ {f : List Item}, (∀ v, .stmt v ∈ f → .stmt v ∈ stmtOf p) →
        (itemsFrom [] none ts).map (f ++ ·) = some is → ∀ t ∈ u, P t := by
      intro f hfront hitems
      obtain ⟨js, hjs, rfl⟩ := map_eq_some_iff.mp hitems
      rcases mem_append.mp hu with hmem | hmem
      · exact hstmt hp (hfront u hmem)
      · exact ih (forall_mem_nil _) hrest hjs hmem
    cases set with
    | none =>
      cases x with
      | newline | semicolon => exact hends (fun v hv => hv) h
      | rbrace =>
        refine hends (f := stmtOf p ++ [.close]) ?_ (by simpa [itemsFrom] using h)
        intro v hv
        simpa using hv
      | lbrace =>
        simp only [itemsFrom] at h
        split at h
        · refine hends (f := [.block p.reverse]) ?_ h
          intro v hv
          simp at hv
        · exact ih hp hrest h hu
      | key | word | str | set | comma => exact ih (forall_mem_cons.mpr ⟨hx, hp⟩) hrest h hu
    | some s =>
      cases x with
      | rbrace =>
        obtain ⟨es, -, h⟩ := bind_eq_some_iff.mp h
        exact ih (forall_mem_cons.mpr ⟨hset es, hp⟩) hrest h hu
      | semicolon | lbrace => cases h
      | newline | key | word | str | set | comma => exact ih hp hrest h hu

/-- What holds of every statement holds of those of the chains. -/
theorem forall_of_blocksFrom {P : List Token → Prop} {table : Option (Text × Text)}
    {chain : Option (Text × List (List Token))} (hchain : ∀ x ∈ chain, ∀ u ∈ x.2, P u)
    (his : ∀ u, .stmt u ∈ is → P u) {bs : List Block} (h : blocksFrom table chain is = some bs) :
    ∀ b ∈ bs, ∀ u ∈ b.stmts, P u := by
  fun_induction blocksFrom table chain is generalizing bs with
  | case1 =>
    cases h
    exact forall_mem_nil _
  | case2 family name is ih =>
    obtain ⟨f, -, h⟩ := bind_eq_some_iff.mp h
    exact ih f hchain (fun u hu => his u (mem_cons_of_mem _ hu)) h
  | case3 t name is ih => exact ih (by simp) (fun u hu => his u (mem_cons_of_mem _ hu)) h
  | case4 t is ih => exact ih hchain (fun u hu => his u (mem_cons_of_mem _ hu)) h
  | case5 t name ss s is ih =>
    have hs : P s := his s mem_cons_self
    exact ih (by simpa [hs] using hchain) (fun u hu => his u (mem_cons_of_mem _ hu)) h
  | case6 t name ss is ih =>
    obtain ⟨bs', hbs', rfl⟩ := map_eq_some_iff.mp h
    refine forall_mem_cons.mpr ⟨by simpa using hchain, ?_⟩
    exact ih (by simp) (fun u hu => his u (mem_cons_of_mem _ hu)) hbs'
  | case7 => cases h

/-- The tokens of the chains of a script are what the scanner gives, and sets. -/
theorem proper_of_readBlocks {text : Text} {bs : List Block} (h : readBlocks text = some bs)
    {b : Block} (hb : b ∈ bs) : ProperStmts b.stmts := by
  obtain ⟨ts, hlex, h⟩ := bind_eq_some_iff.mp h
  obtain ⟨is, hitems, hblocks⟩ := bind_eq_some_iff.mp h
  have hstmts : ∀ u, .stmt u ∈ is → ∀ t ∈ u, t.Proper ∨ ∃ es, t = .set es := fun u hu =>
    forall_of_itemsFrom (fun es => .inr ⟨es, rfl⟩) (forall_mem_nil _)
      (fun t ht => .inl (lex_proper hlex t ht)) hitems hu
  unfold blocks at hblocks
  split at hblocks
  · exact forall_of_blocksFrom (by simp) (fun u hu => hstmts u (mem_cons_of_mem _ hu)) hblocks b hb
  · cases hblocks

/-- A chain with the given statements. -/
def chainItems (name : Text) (stmts : List (List Token)) : List Item :=
  .block [.key .chain, .word name] :: stmts.map .stmt ++ [.close]

/-- The statements of a base chain with the given rules. -/
def chainStmts (type hook priority : Text) (k : Keyword) (ss : List (List Token)) :
    List (List Token) :=
  [.key .type, .word type, .key .hook, .word hook, .key .priority, .word priority] ::
    [.key .policy, .key k] :: ss

theorem blocksFrom_stmts (t : Text × Text) (name : Text) (ss stmts : List (List Token))
    (is : List Item) :
    blocksFrom (some t) (some (name, ss)) (stmts.map .stmt ++ is) =
      blocksFrom (some t) (some (name, stmts.reverse ++ ss)) is := by
  induction stmts generalizing ss with
  | nil => rfl
  | cons s stmts ih =>
    rw [map_cons, cons_append, blocksFrom, ih]
    simp

theorem blocksFrom_chain (t : Text × Text) (name : Text) (stmts : List (List Token))
    (is : List Item) :
    blocksFrom (some t) none (chainItems name stmts ++ is) =
      (blocksFrom (some t) none is).map (⟨t.1, t.2, name, stmts⟩ :: ·) := by
  unfold chainItems
  rw [cons_append, cons_append, blocksFrom, append_assoc, blocksFrom_stmts]
  simp [blocksFrom]

end Lankeeper.Lib.Nft
