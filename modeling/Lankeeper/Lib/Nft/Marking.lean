import Lankeeper.Lib.Nft.Semantics

/-!
# Lankeeper.Lib.Nft.Marking — scripts that fill a chain of mark rules

`nft -f -` also takes commands, one a line: make a chain, empty it, make a set, add a
rule. Here a rule matches and then sets the packet's mark, drops the packet or saves
the mark with the connection. Setting the mark does not end the evaluation.

* `runMarks` — the mark a packet leaves a list of rules with, if it is not dropped;
* `scriptOf` — the text of a list of commands;
* `MarkCommand.parse` — the command on a line.
-/

namespace Lankeeper.Lib.Nft

open Text List

/-! ## Commands -/

/-- The values are as they are printed. -/
inductive MarkMatch
  | etherSaddr (mac : Text)
  /-- `ip saddr` and `ip daddr` -/
  | address (s : Side) (operand : Text)
  /-- `ip daddr @name` -/
  | inSet (name : Text)
  | dport (proto : Text) (n : Int)
  /-- `meta hour >=` and `meta hour <` -/
  | hourFrom (t : Text)
  | hourBefore (t : Text)
  /-- `meta mark !=` -/
  | markNot (n : Int)
deriving DecidableEq

inductive MarkAction
  | setMark (n : Int)
  | drop
  /-- `ct mark set meta mark` -/
  | saveMark
deriving DecidableEq

structure MarkRule where
  conds : List MarkMatch
  action : MarkAction
deriving DecidableEq

structure ChainName where
  family : Text
  table : Text
  name : Text
deriving DecidableEq

inductive MarkCommand
  | addChain (c : ChainName) (type hook priority : Text)
  | flushChain (c : ChainName)
  | addSet (family table name type flag : Text)
  | addRule (c : ChainName) (r : MarkRule)
deriving DecidableEq

/-- The rules that commands add. -/
def rulesIn (cs : List MarkCommand) : List MarkRule :=
  cs.filterMap fun c => match c with
    | .addRule _ r => some r
    | _ => none

@[simp] theorem rulesIn_nil : rulesIn [] = [] := rfl

@[simp] theorem rulesIn_addRule (c : ChainName) (r : MarkRule) (cs : List MarkCommand) :
    rulesIn (.addRule c r :: cs) = r :: rulesIn cs := rfl

@[simp] theorem rulesIn_addSet (family table name type flag : Text) (cs : List MarkCommand) :
    rulesIn (.addSet family table name type flag :: cs) = rulesIn cs := rfl

@[simp] theorem rulesIn_append (as bs : List MarkCommand) :
    rulesIn (as ++ bs) = rulesIn as ++ rulesIn bs :=
  filterMap_append

@[simp] theorem rulesIn_map_addRule (c : ChainName) (rs : List MarkRule) :
    rulesIn (rs.map (.addRule c)) = rs := by
  induction rs with
  | nil => rfl
  | cons r rs ih => rw [map_cons, rulesIn_addRule, ih]

/-! ## Evaluation -/

/-- A packet, and what else decides whether a rule matches it: the hardware address it
comes from, the sets its destination is in, and the time of day. -/
structure Frame where
  packet : Packet
  etherSrc : Nat
  inSet : Text → Bool
  hourFrom : Text → Bool
  hourBefore : Text → Bool

/-- A hardware address: six groups of two hexadecimal digits. -/
def readMAC (w : Text) : Option Nat :=
  if (w.splitOn ':').length = 6 ∧ (w.splitOn ':').all (·.length ≤ 2) then
    ((w.splitOn ':').mapM Address.hexGroup).map fun gs => gs.foldl (fun n g => n * 256 + g) 0
  else none

/-- What separates words on a line. -/
def blank (c : Char) : Bool :=
  c == ' ' || c == '\t'

/-- The word that a printed value is. -/
def bare (w : Text) : Text :=
  trim blank w

/-- The header with ports that a word names. -/
def transportOf (proto : Text) : Option Transport :=
  (Keyword.ofText proto).bind Transport.ofKey

def MarkMatch.holds (out : Outside) (f : Frame) (mark : Int) : MarkMatch → Bool
  | .etherSaddr mac => readMAC (bare mac) == some f.etherSrc
  | .address s w =>
    f.packet.family == .ip4 && addressMatches out .ip4 (bare w) (f.packet.addr s)
  | .inSet name => f.packet.family == .ip4 && f.inSet name
  | .dport proto n =>
    (transportOf proto).any (·.covers f.packet.proto) && (f.packet.dport : Int) == n
  | .hourFrom t => f.hourFrom t
  | .hourBefore t => f.hourBefore t
  | .markNot n => mark != n

def MarkRule.applies (out : Outside) (f : Frame) (mark : Int) (r : MarkRule) : Bool :=
  r.conds.all (·.holds out f mark)

/-- The rules, on a packet that comes with a mark. -/
def runMarks (out : Outside) (f : Frame) : Int → List MarkRule → Option Int
  | mark, [] => some mark
  | mark, r :: rs =>
    if r.applies out f mark then
      match r.action with
      | .setMark n => runMarks out f n rs
      | .drop => none
      | .saveMark => runMarks out f mark rs
    else runMarks out f mark rs

variable {out : Outside} {f : Frame} {rs : List MarkRule}

theorem runMarks_append (mark : Int) (as bs : List MarkRule) :
    runMarks out f mark (as ++ bs) = (runMarks out f mark as).bind fun m => runMarks out f m bs := by
  induction as generalizing mark with
  | nil => rfl
  | cons r as ih =>
    rw [cons_append, runMarks, runMarks]
    split
    · split
      · exact ih _
      · rfl
      · exact ih _
    · exact ih _

/-- Rules that all set the same mark. -/
theorem runMarks_setMark {n : Int} (hrs : ∀ r ∈ rs, r.action = .setMark n)
    (hmark : ∀ r ∈ rs, ∀ m m', r.applies out f m = r.applies out f m') (mark : Int) :
    runMarks out f mark rs = some (if rs.any (·.applies out f mark) then n else mark) := by
  induction rs generalizing mark with
  | nil => rfl
  | cons r rs ih =>
    have hany : ∀ m, rs.any (·.applies out f m) = rs.any (·.applies out f mark) := by
      intro m
      have hcongr : ∀ r ∈ rs, r.applies out f m = r.applies out f mark :=
        fun r hr => hmark r (mem_cons_of_mem _ hr) m mark
      rw [Bool.eq_iff_iff, any_eq_true, any_eq_true]
      constructor
      · rintro ⟨r, hr, h⟩
        exact ⟨r, hr, hcongr r hr ▸ h⟩
      · rintro ⟨r, hr, h⟩
        exact ⟨r, hr, (hcongr r hr).symm ▸ h⟩
    have ih' := ih (fun r hr => hrs r (mem_cons_of_mem _ hr))
      (fun r hr => hmark r (mem_cons_of_mem _ hr))
    rw [runMarks, hrs r mem_cons_self]
    simp only [ih', hany n]
    by_cases h : r.applies out f mark <;> simp [h]

/-- Rules that all drop. -/
theorem runMarks_drop (hrs : ∀ r ∈ rs, r.action = .drop) (mark : Int) :
    runMarks out f mark rs = if rs.any (·.applies out f mark) then none else some mark := by
  induction rs with
  | nil => rfl
  | cons r rs ih =>
    rw [runMarks, hrs r mem_cons_self, ih fun r hr => hrs r (mem_cons_of_mem _ hr)]
    by_cases h : r.applies out f mark <;> simp [h]

/-! ## Printing -/

/-- The words of the fragment that are no keywords. -/
inductive MarkWord
  | add | rule | ether | mark | hour | ge | lt | ne
deriving DecidableEq

def MarkWord.spell (k : MarkWord) : Text :=
  String.toList <| match k with
  | add => "add" | rule => "rule" | ether => "ether" | mark => "mark" | hour => "hour"
  | ge => ">=" | lt => "<" | ne => "!="

def MarkWord.all : List MarkWord :=
  [add, rule, ether, mark, hour, ge, lt, ne]

/-- The tokens of a match, with its value as one of them. -/
def MarkMatch.tokens : MarkMatch → List Token
  | .etherSaddr mac => [.word MarkWord.ether.spell, .key .saddr, .word mac]
  | .address s w => [.key .ip, .key s.addrKey, .word w]
  | .inSet name => [.key .ip, .key .daddr, .word ('@' :: name)]
  | .dport proto n => [.ofWord proto, .key .dport, .word (decimal n)]
  | .hourFrom t => [.key .metainfo, .word MarkWord.hour.spell, .word MarkWord.ge.spell, .str t]
  | .hourBefore t => [.key .metainfo, .word MarkWord.hour.spell, .word MarkWord.lt.spell, .str t]
  | .markNot n =>
    [.key .metainfo, .word MarkWord.mark.spell, .word MarkWord.ne.spell, .word (decimal n)]

/-- The end of a rule that sets a mark. -/
def markTokens (n : Int) : List Token :=
  [.key .metainfo, .word MarkWord.mark.spell, .key .set, .word (decimal n)]

def MarkAction.tokens : MarkAction → List Token
  | .setMark n => markTokens n
  | .drop => [.key .drop]
  | .saveMark => [.key .ct, .word MarkWord.mark.spell, .key .set, .key .metainfo,
      .word MarkWord.mark.spell]

def MarkRule.tokens (r : MarkRule) : List Token :=
  r.conds.flatMap (·.tokens) ++ r.action.tokens

def MarkCommand.tokens : MarkCommand → List Token
  | .addChain c type hook priority =>
    [.word MarkWord.add.spell, .key .chain, .word c.family, .word c.table, .word c.name, .lbrace,
      .key .type, .word type, .key .hook, .word hook, .key .priority, .word priority, .semicolon,
      .key .policy, .key .accept, .semicolon, .rbrace]
  | .flushChain c => [.key .flush, .key .chain, .word c.family, .word c.table, .word c.name]
  | .addSet family table name type flag =>
    [.word MarkWord.add.spell, .key .set, .word family, .word table, .word name, .lbrace,
      .key .type, .word type, .semicolon, .key .flags, .word flag, .semicolon, .rbrace]
  | .addRule c r => .word MarkWord.add.spell :: .word MarkWord.rule.spell :: .word c.family ::
      .word c.table :: .word c.name :: r.tokens

/-- A command as it is printed. -/
def MarkCommand.words (c : MarkCommand) : List Text :=
  c.tokens.map Token.text

/-- The commands as a script, one a line. -/
def scriptOf (cs : List MarkCommand) : Text :=
  cs.flatMap fun c => unwords c.words ++ ['\n']

/-! ## Reading -/

def MarkWord.ofText (w : Text) : Option MarkWord :=
  MarkWord.all.find? fun k => k.spell == w

/-- A mark has 32 bits. -/
def readMark (w : Text) : Option Int :=
  (readNat w).bind fun n => if n ≤ 4294967295 then some (n : Int) else none

/-- A match at the head of a rule, and the tokens behind it. -/
def readMatch : List Token → Option (MarkMatch × List Token)
  | .key .metainfo :: .word a :: .word b :: .str t :: ts =>
    match MarkWord.ofText a, MarkWord.ofText b with
    | some .hour, some .ge => some (.hourFrom t, ts)
    | some .hour, some .lt => some (.hourBefore t, ts)
    | _, _ => none
  | .key .metainfo :: .word a :: .word b :: .word n :: ts =>
    match MarkWord.ofText a, MarkWord.ofText b with
    | some .mark, some .ne => (readMark n).map fun n => (.markNot n, ts)
    | _, _ => none
  | .word a :: .key .saddr :: .word mac :: ts =>
    if MarkWord.ofText a = some .ether ∧ (readMAC mac).isSome then some (.etherSaddr mac, ts)
    else none
  | .key .ip :: .key .saddr :: .word w :: ts =>
    (readAddress .ip4 w).map fun w => (.address .source w, ts)
  | .key .ip :: .key .daddr :: .word w :: ts =>
    match w with
    | '@' :: name => some (.inSet name, ts)
    | _ => (readAddress .ip4 w).map fun w => (.address .destination w, ts)
  | .key k :: .key .dport :: .word n :: ts =>
    (Transport.ofKey k).bind fun _ => (readPort n).map fun (m : Nat) => (.dport k.spell (m : Int), ts)
  | _ => none

/-- The statement at the end of a rule. -/
def readAction : List Token → Option MarkAction
  | [.key .drop] => some .drop
  | [.key .metainfo, .word a, .key .set, .word n] =>
    if MarkWord.ofText a = some .mark then (readMark n).map .setMark else none
  | [.key .ct, .word a, .key .set, .key .metainfo, .word b] =>
    if MarkWord.ofText a = some .mark ∧ MarkWord.ofText b = some .mark then some .saveMark else none
  | _ => none

/-- At most `n` matches and a statement. -/
def MarkRule.parseUpTo : Nat → List Token → Option MarkRule
  | 0, ts => (readAction ts).map fun a => ⟨[], a⟩
  | n + 1, ts =>
    match readAction ts with
    | some a => some ⟨[], a⟩
    | none =>
      (readMatch ts).bind fun p =>
        (MarkRule.parseUpTo n p.2).map fun r => ⟨p.1 :: r.conds, r.action⟩

/-- No match is without tokens. -/
def MarkRule.parse (ts : List Token) : Option MarkRule :=
  MarkRule.parseUpTo ts.length ts

def MarkCommand.parse : List Token → Option MarkCommand
  | [.word a, .key .chain, .word family, .word table, .word name, .lbrace, .key .type, .word type,
      .key .hook, .word hook, .key .priority, .word priority, .semicolon, .key .policy,
      .key .accept, .semicolon, .rbrace] =>
    if MarkWord.ofText a = some .add then some (.addChain ⟨family, table, name⟩ type hook priority)
    else none
  | [.key .flush, .key .chain, .word family, .word table, .word name] =>
    some (.flushChain ⟨family, table, name⟩)
  | [.word a, .key .set, .word family, .word table, .word name, .lbrace, .key .type, .word type,
      .semicolon, .key .flags, .word flag, .semicolon, .rbrace] =>
    if MarkWord.ofText a = some .add then some (.addSet family table name type flag) else none
  | .word a :: .word b :: .word family :: .word table :: .word name :: ts =>
    if MarkWord.ofText a = some .add ∧ MarkWord.ofText b = some .rule then
      (MarkRule.parse ts).map (.addRule ⟨family, table, name⟩)
    else none
  | _ => none

end Lankeeper.Lib.Nft
