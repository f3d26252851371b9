import Lankeeper.Lib.Text
import Mathlib.Data.List.Forall2

/-!
# Lankeeper.Lib.Nft.Lexer — the tokens of an nftables script

A fragment of the scanner of `nft`: bare words, quoted strings, braces, commas and
statement ends. A `#` starts a comment that runs to the end of its line, a quoted
string runs to the next quote.

`Lexes` is the compositional reading of a phrase: it reads the same way in front
of anything that ends a word. Phrases are built from words with the lemmas
`lexes_key`, `lexes_word`, `lexes_quoted`, `Lexes.space` and `Lexes.marked`, lines
from phrases, and `lex_lines` reads a whole text line by line. The other way round,
`lex_proper` says what tokens a text can give at all.
-/

namespace Lankeeper.Lib.Nft

open List Option

/-! ## Tokens -/

/-- The reserved words of the fragment. -/
inductive Keyword
  | table | chain | type | hook | priority | policy | flush | ruleset
  | iifname | oifname | metainfo | l4proto | ct | state | established | related | invalid | new
  | ip | ip6 | saddr | daddr | protocol | nexthdr | ttl
  | icmp | icmpv6 | tcp | udp | udplite | sctp | dccp | th | sport | dport
  | flags | syn | option | maxseg | size | set | rt | mtu
  | limit | rate | log | logPrefix | accept | drop | reject | dnat | target | masquerade
deriving DecidableEq

namespace Keyword

def spell (k : Keyword) : Text :=
  String.toList <| match k with
  | table => "table" | chain => "chain" | type => "type" | hook => "hook"
  | priority => "priority" | policy => "policy" | flush => "flush" | ruleset => "ruleset"
  | iifname => "iifname" | oifname => "oifname" | metainfo => "meta" | l4proto => "l4proto"
  | ct => "ct" | state => "state" | established => "established" | related => "related"
  | invalid => "invalid" | new => "new"
  | ip => "ip" | ip6 => "ip6" | saddr => "saddr" | daddr => "daddr" | protocol => "protocol"
  | nexthdr => "nexthdr" | ttl => "ttl"
  | icmp => "icmp" | icmpv6 => "icmpv6" | tcp => "tcp" | udp => "udp" | udplite => "udplite"
  | sctp => "sctp" | dccp => "dccp" | th => "th" | sport => "sport" | dport => "dport"
  | flags => "flags" | syn => "syn" | option => "option" | maxseg => "maxseg" | size => "size"
  | set => "set" | rt => "rt" | mtu => "mtu"
  | limit => "limit" | rate => "rate" | log => "log" | logPrefix => "prefix"
  | accept => "accept" | drop => "drop" | reject => "reject"
  | dnat => "dnat" | target => "to" | masquerade => "masquerade"

def all : List Keyword :=
  [table, chain, type, hook, priority, policy, flush, ruleset, iifname, oifname, metainfo, l4proto,
    ct, state, established, related, invalid, new, ip, ip6, saddr, daddr, protocol, nexthdr, ttl,
    icmp, icmpv6, tcp, udp, udplite, sctp, dccp, th, sport, dport, flags, syn, option, maxseg, size,
    set, rt, mtu, limit, rate, log, logPrefix, accept, drop, reject, dnat, target, masquerade]

theorem mem_all (k : Keyword) : k ∈ all := by
  cases k <;> decide

def ofText (t : Text) : Option Keyword :=
  all.find? fun k => k.spell == t

end Keyword

inductive Token
  | key (k : Keyword)
  | word (t : Text)
  | str (t : Text)
  /-- the elements of an anonymous set; no token of the scanner -/
  | set (elems : List Text)
  | lbrace | rbrace | comma | semicolon | newline
deriving DecidableEq

/-- A bare word is a keyword or a word without a fixed meaning. -/
def Token.ofWord (w : Text) : Token :=
  match Keyword.ofText w with
  | some k => .key k
  | none => .word w

/-- The tokens of one character. -/
def symbol (c : Char) : Option Token :=
  if c = '\x7b' then some .lbrace
  else if c = '\x7d' then some .rbrace
  else if c = ',' then some .comma
  else if c = ';' then some .semicolon
  else if c = '\n' then some .newline
  else none

/-- The quotation mark. -/
def quote : Char := '\x22'

/-- Does the character end a bare word? -/
def breaks (c : Char) : Bool :=
  c == ' ' || c == '\t' || c == quote || c == '#' || (symbol c).isSome

/-! ## The scanner -/

inductive Mode
  | plain | quoted | comment
deriving DecidableEq

/-- The word read so far, which is kept in reverse. -/
def flush (p : Text) : List Token :=
  if p = [] then [] else [Token.ofWord p.reverse]

def lexFrom : Mode → Text → Text → Option (List Token)
  | .plain, p, [] => some (flush p)
  | .quoted, _, [] => none
  | .comment, _, [] => some []
  | .plain, p, c :: cs =>
    if c = quote then (lexFrom .quoted [] cs).map (flush p ++ ·)
    else if c = '#' then (lexFrom .comment [] cs).map (flush p ++ ·)
    else if c = ' ' ∨ c = '\t' then (lexFrom .plain [] cs).map (flush p ++ ·)
    else match symbol c with
      | some t => (lexFrom .plain [] cs).map (flush p ++ t :: ·)
      | none => lexFrom .plain (c :: p) cs
  | .quoted, p, c :: cs =>
    if c = quote then (lexFrom .plain [] cs).map (.str p.reverse :: ·)
    else lexFrom .quoted (c :: p) cs
  | .comment, _, c :: cs =>
    if c = '\n' then (lexFrom .plain [] cs).map (.newline :: ·) else lexFrom .comment [] cs

def lex (text : Text) : Option (List Token) :=
  lexFrom .plain [] text

/-! ## Phrases -/

/-- `a` reads as `ts` in front of whatever ends a word. -/
def Lexes (a : Text) (ts : List Token) : Prop :=
  ∀ c cs, breaks c →
    lexFrom .plain [] (a ++ c :: cs) = (lexFrom .plain [] (c :: cs)).map (ts ++ ·)

variable {c : Char} {w s a : Text} {f : Char → Bool} {ts us : List Token} {t : Token}

/-- At a break, the word read so far comes out first. -/
theorem lexFrom_break (hc : breaks c) (p cs : Text) :
    lexFrom .plain p (c :: cs) = (lexFrom .plain [] (c :: cs)).map (flush p ++ ·) := by
  simp only [lexFrom]
  split
  · simp [flush]
  split
  · simp [flush]
  split
  · simp [flush]
  · rename_i hq hh hs
    have hsym : (symbol c).isSome := by
      simpa [breaks, hq, hh, not_or.mp hs] using hc
    obtain ⟨t, ht⟩ := isSome_iff_exists.mp hsym
    simp [ht, flush, Function.comp_def]

theorem lexFrom_bare (hw : ∀ c ∈ w, breaks c = false) (p cs : Text) :
    lexFrom .plain p (w ++ cs) = lexFrom .plain (w.reverse ++ p) cs := by
  induction w generalizing p with
  | nil => rfl
  | cons c w ih =>
    have hc := hw c mem_cons_self
    simp only [breaks, Bool.or_eq_false_iff, beq_eq_false_iff_ne, isSome_eq_false_iff,
      isNone_iff_eq_none] at hc
    obtain ⟨⟨⟨⟨hsp, htab⟩, hq⟩, hh⟩, hsym⟩ := hc
    have hstep : lexFrom .plain p (c :: (w ++ cs)) = lexFrom .plain (c :: p) (w ++ cs) := by
      simp [lexFrom, hsp, htab, hq, hh, hsym]
    rw [cons_append, hstep, ih (fun d hd => hw d (mem_cons_of_mem _ hd))]
    simp

theorem lexFrom_quoted (hs : quote ∉ s) (p cs : Text) :
    lexFrom .quoted p (s ++ quote :: cs) =
      (lexFrom .plain [] cs).map (.str (p.reverse ++ s) :: ·) := by
  induction s generalizing p with
  | nil => simp [lexFrom]
  | cons c s ih =>
    have hc : c ≠ quote := by
      intro h
      exact hs (by simp [h])
    have hstep : lexFrom .quoted p (c :: (s ++ quote :: cs)) =
        lexFrom .quoted (c :: p) (s ++ quote :: cs) := by
      simp [lexFrom, hc]
    rw [cons_append, hstep, ih (fun h => hs (mem_cons_of_mem _ h))]
    simp

theorem lexFrom_comment (hs : '\n' ∉ s) (cs : Text) :
    lexFrom .comment [] (s ++ '\n' :: cs) = (lexFrom .plain [] cs).map (.newline :: ·) := by
  induction s with
  | nil => simp [lexFrom]
  | cons c s ih =>
    have hc : c ≠ '\n' := by
      intro h
      exact hs (by simp [h])
    have hstep : lexFrom .comment [] (c :: (s ++ '\n' :: cs)) =
        lexFrom .comment [] (s ++ '\n' :: cs) := by
      simp [lexFrom, hc]
    rw [cons_append, hstep]
    exact ih (fun h => hs (mem_cons_of_mem _ h))

theorem lexes_word (hne : w ≠ []) (hw : ∀ c ∈ w, breaks c = false) : Lexes w [Token.ofWord w] := by
  intro c cs hc
  rw [lexFrom_bare hw, lexFrom_break hc]
  simp [flush, hne]

/-- The characters that end a bare word. -/
def breakers : List Char :=
  [' ', '\t', quote, '#', '\x7b', '\x7d', ',', ';', '\n']

theorem mem_breakers (h : breaks c) : c ∈ breakers := by
  have hsym : (symbol c).isSome →
      c = '\x7b' ∨ c = '\x7d' ∨ c = ',' ∨ c = ';' ∨ c = '\n' := by
    unfold symbol
    intro h
    split_ifs at h <;> simp_all
  simp only [breaks, Bool.or_eq_true, beq_iff_eq] at h
  simp only [breakers, mem_cons]
  tauto

/-- A kind of characters that has none of the breakers. -/
theorem breaks_eq_false (hf : breakers.any f = false) (hc : f c) : breaks c = false := by
  by_contra hb
  have hfc := any_eq_false.mp hf c (mem_breakers (by simpa using hb))
  exact hfc hc

/-- A word whose characters are all of such a kind. -/
theorem lexes_chars (hf : breakers.any f = false) (hne : w ≠ []) (hw : ∀ c ∈ w, f c) :
    Lexes w [Token.ofWord w] :=
  lexes_word hne fun c hc => breaks_eq_false hf (hw c hc)

/-- A keyword is letters and digits, does not begin with a digit, and is read as itself. -/
theorem Keyword.spell_spec (k : Keyword) :
    k.spell ≠ [] ∧ k.spell.all Char.isAlphanum ∧ k.spell.head?.any Char.isDigit = false ∧
      Token.ofWord k.spell = .key k := by
  have hall : ∀ k ∈ Keyword.all,
      k.spell ≠ [] ∧ k.spell.all Char.isAlphanum ∧ k.spell.head?.any Char.isDigit = false ∧
        Token.ofWord k.spell = .key k := by
    decide +kernel
  exact hall k k.mem_all

theorem lexes_key (k : Keyword) : Lexes k.spell [.key k] := by
  obtain ⟨hne, hchars, -, htok⟩ := k.spell_spec
  rw [← htok]
  exact lexes_chars (by decide) hne (all_eq_true.mp hchars)

theorem ofWord_eq_word (h : (∃ c ∈ w, c.isAlphanum = false) ∨ ∃ c, w.head? = some c ∧ c.isDigit) :
    Token.ofWord w = .word w := by
  have hnone : Keyword.ofText w = none := by
    apply List.find?_eq_none.mpr
    intro k _ heq
    obtain rfl : k.spell = w := by simpa using heq
    rcases h with ⟨c, hc, hcn⟩ | ⟨c, hc, hcn⟩
    · rw [all_eq_true.mp k.spell_spec.2.1 c hc] at hcn
      cases hcn
    · have hhead := k.spell_spec.2.2.1
      rw [hc] at hhead
      rw [show c.isDigit = false from hhead] at hcn
      cases hcn
  simp [Token.ofWord, hnone]

/-- `"…"` around a text. -/
def quoted (s : Text) : Text :=
  quote :: s ++ [quote]

theorem lexes_quoted (hs : quote ∉ s) : Lexes (quoted s) [.str s] := by
  intro c cs _
  have h : lexFrom .plain [] (quoted s ++ c :: cs) =
      lexFrom .quoted [] (s ++ quote :: c :: cs) := by
    simp [quoted, lexFrom, flush]
  rw [h, lexFrom_quoted hs]
  rfl

theorem lexes_nil : Lexes [] [] := by
  intro c cs _
  simp

/-- A word, or nothing. -/
theorem lexes_flush (hw : ∀ c ∈ w, breaks c = false) : Lexes w (flush w.reverse) := by
  by_cases hne : w = []
  · rw [hne]
    exact lexes_nil
  · have h := lexes_word hne hw
    simpa [flush, hne] using h

theorem Lexes.space {b : Text} (ha : Lexes a ts) (hb : Lexes b us) :
    Lexes (a ++ ' ' :: b) (ts ++ us) := by
  intro c cs hc
  have hskip : lexFrom .plain [] (' ' :: (b ++ c :: cs)) = lexFrom .plain [] (b ++ c :: cs) := by
    simp [lexFrom, flush, quote]
  rw [append_assoc, cons_append, ha ' ' _ rfl, hskip, hb c cs hc, Option.map_map]
  simp [Function.comp_def]

theorem Lexes.indent (ha : Lexes a ts) (n : Nat) : Lexes (List.replicate n ' ' ++ a) ts := by
  induction n with
  | zero => exact ha
  | succ n ih =>
    intro c cs hc
    rw [← ih c cs hc, replicate_succ]
    simp [lexFrom, flush, quote]

theorem lexFrom_symbol {s : Char} (hs : symbol s = some t) (cs : Text) :
    lexFrom .plain [] (s :: cs) = (lexFrom .plain [] cs).map (t :: ·) := by
  have hne : s ≠ quote ∧ s ≠ '#' ∧ ¬ (s = ' ' ∨ s = '\t') := by
    refine ⟨?_, ?_, ?_⟩
    · rintro rfl
      cases hs
    · rintro rfl
      cases hs
    · rintro (rfl | rfl) <;> cases hs
  rw [lexFrom]
  simp [hne.1, hne.2.1, hne.2.2, hs, flush]

/-- Two phrases with a symbol between them. -/
theorem Lexes.marked {b : Text} {s : Char} (ha : Lexes a ts)
    (hs : symbol s = some t) (hb : Lexes b us) : Lexes (a ++ s :: b) (ts ++ t :: us) := by
  intro c cs hc
  have hbreak : breaks s := by simp [breaks, hs]
  rw [append_assoc, cons_append, ha s _ hbreak, lexFrom_symbol hs, hb c cs hc,
    Option.map_map, Option.map_map]
  simp [Function.comp_def]

theorem Lexes.mark {s : Char} (ha : Lexes a ts) (hs : symbol s = some t) :
    Lexes (a ++ [s]) (ts ++ [t]) :=
  ha.marked hs lexes_nil

theorem lexes_symbol {s : Char} (hs : symbol s = some t) : Lexes [s] [t] :=
  lexes_nil.mark hs

/-! ## Tokens and their text -/

/-- How a token is written. -/
def Token.text : Token → Text
  | .key k => k.spell
  | .word w => w
  | .str s => quoted s
  | .set _ => []
  | .lbrace => ['\x7b']
  | .rbrace => ['\x7d']
  | .comma => [',']
  | .semicolon => [';']
  | .newline => ['\n']

/-- A token as the scanner gives it. -/
def Token.Proper : Token → Prop
  | .word w => w ≠ [] ∧ (∀ c ∈ w, breaks c = false) ∧ Keyword.ofText w = none
  | .str s => quote ∉ s
  | .set _ => False
  | _ => True

instance : DecidablePred Token.Proper
  | .word w => @instDecidableAnd _ _ _ (@instDecidableAnd _ _ (List.decidableBAll _ w) _)
  | .str _ => inferInstanceAs (Decidable (_ ∉ _))
  | .set _ => .isFalse id
  | .key _ | .lbrace | .rbrace | .comma | .semicolon | .newline => .isTrue trivial

theorem lexes_token (h : t.Proper) : Lexes t.text [t] := by
  cases t with
  | key k => exact lexes_key k
  | word w =>
    obtain ⟨hne, hw, hkey⟩ := h
    have htok : Token.ofWord w = .word w := by simp [Token.ofWord, hkey]
    have hlex := lexes_word hne hw
    rwa [htok] at hlex
  | str s => exact lexes_quoted h
  | set => exact h.elim
  | lbrace | rbrace | comma | semicolon | newline => exact lexes_symbol rfl

theorem ofWord_proper (hne : w ≠ []) (hw : ∀ c ∈ w, breaks c = false) :
    (Token.ofWord w).Proper := by
  unfold Token.ofWord
  split
  · trivial
  · rename_i hkey
    exact ⟨hne, hw, hkey⟩

/-- A word of characters that do not end one, and with no fixed meaning. -/
theorem word_proper (hf : breakers.any f = false) (hne : w ≠ []) (hw : ∀ c ∈ w, f c)
    (htok : Token.ofWord w = .word w) : (Token.word w).Proper := by
  rw [← htok]
  exact ofWord_proper hne fun c hc => breaks_eq_false hf (hw c hc)

theorem ofWord_text (w : Text) : (Token.ofWord w).text = w := by
  unfold Token.ofWord
  split
  · rename_i k hk
    have hspell : (k.spell == w) := List.find?_some (p := fun k => Keyword.spell k == w) hk
    exact eq_of_beq hspell
  · rfl

theorem flush_proper {p : Text} (hp : ∀ c ∈ p, breaks c = false) : ∀ t ∈ flush p, t.Proper := by
  unfold flush
  split
  · simp
  · rename_i hne
    intro t ht
    rw [mem_singleton.mp ht]
    exact ofWord_proper (by simpa using hne) (by simpa using hp)

theorem symbol_proper (h : symbol c = some t) : t.Proper := by
  unfold symbol at h
  split_ifs at h <;> (obtain rfl := some.inj h; trivial)

/-- What has been read so far of the token that is open. -/
def Mode.Pending (p : Text) : Mode → Prop
  | .plain => ∀ c ∈ p, breaks c = false
  | .quoted => quote ∉ p
  | .comment => True

/-- The scanner gives proper tokens only. The induction is over the text, with what has been
read of the open token kept free of what would have ended it. -/
theorem lexFrom_proper {text : Text} {m : Mode} {p : Text} (hp : m.Pending p)
    (h : lexFrom m p text = some ts) : ∀ t ∈ ts, t.Proper := by
  have hadd : ∀ {m : Mode} {rest : Text} {us : List Token} {ts : List Token},
      (∀ t ∈ us, t.Proper) → (∀ {ts}, lexFrom m [] rest = some ts → ∀ t ∈ ts, t.Proper) →
      (lexFrom m [] rest).map (us ++ ·) = some ts → ∀ t ∈ ts, t.Proper := by
    intro m rest us ts hus hrest hmap t ht
    obtain ⟨vs, hvs, rfl⟩ := map_eq_some_iff.mp hmap
    rcases mem_append.mp ht with ht | ht
    · exact hus t ht
    · exact hrest hvs t ht
  have hone : ∀ {u : Token}, u.Proper → ∀ t ∈ [u], t.Proper := by
    intro u hu t ht
    rw [mem_singleton.mp ht]
    exact hu
  induction text generalizing m p ts with
  | nil =>
    cases m with
    | plain =>
      cases h
      exact flush_proper hp
    | quoted => cases h
    | comment =>
      cases h
      simp
  | cons c cs ih =>
    cases m with
    | plain =>
      have hflush := flush_proper hp
      simp only [lexFrom] at h
      split at h
      · exact hadd hflush (ih (m := .quoted) (by simp [Mode.Pending])) h
      split at h
      · exact hadd hflush (ih (m := .comment) trivial) h
      split at h
      · exact hadd hflush (ih (m := .plain) (by simp [Mode.Pending])) h
      split at h
      · rename_i t ht
        have hboth : ∀ u ∈ flush p ++ [t], u.Proper := by
          intro u hu
          rcases mem_append.mp hu with hu | hu
          · exact hflush u hu
          · exact hone (symbol_proper ht) u hu
        refine hadd hboth (ih (m := .plain) (by simp [Mode.Pending])) ?_
        simpa using h
      · -- the character goes on with the word
        rename_i hq hh hsp _ hsym
        refine ih (m := .plain) ?_ h
        intro d hd
        rcases mem_cons.mp hd with rfl | hd
        · simp [breaks, hq, hh, hsym, not_or.mp hsp]
        · exact hp d hd
    | quoted =>
      simp only [lexFrom] at h
      split at h
      · refine hadd (hone (u := .str p.reverse) ?_) (ih (m := .plain) (by simp [Mode.Pending])) h
        intro hmem
        exact hp (mem_reverse.mp hmem)
      · rename_i hc
        refine ih (m := .quoted) ?_ h
        intro hmem
        rcases mem_cons.mp hmem with hmem | hmem
        · exact hc hmem.symm
        · exact hp hmem
    | comment =>
      simp only [lexFrom] at h
      split at h
      · exact hadd (hone (u := .newline) trivial) (ih (m := .plain) (by simp [Mode.Pending])) h
      · exact ih (m := .comment) trivial h

theorem lex_proper {text : Text} (h : lex text = some ts) : ∀ t ∈ ts, t.Proper :=
  lexFrom_proper (m := .plain) (by simp [Mode.Pending]) h

/-! ## Lines -/

/-- The line `l` reads as `ts`. -/
def LexesLine (l : Text) (ts : List Token) : Prop :=
  ∀ cs, lexFrom .plain [] (l ++ '\n' :: cs) = (lexFrom .plain [] cs).map (ts ++ .newline :: ·)

theorem Lexes.line (ha : Lexes a ts) : LexesLine a ts := by
  intro cs
  rw [ha '\n' cs rfl, lexFrom_symbol rfl, Option.map_map]
  simp [Function.comp_def]

theorem Lexes.comment (ha : Lexes a ts) (hs : '\n' ∉ s) : LexesLine (a ++ ' ' :: '#' :: s) ts := by
  intro cs
  have hskip : lexFrom .plain [] (' ' :: '#' :: (s ++ '\n' :: cs)) =
      lexFrom .comment [] (s ++ '\n' :: cs) := by
    simp [lexFrom, flush, quote]
  rw [append_assoc]
  refine (ha ' ' ('#' :: (s ++ '\n' :: cs)) rfl).trans ?_
  rw [hskip, lexFrom_comment hs, Option.map_map]
  simp [Function.comp_def]

/-- Words with single blanks between them. -/
def unwords (ws : List Text) : Text :=
  [' '].intercalate ws

theorem unwords_cons_cons (w v : Text) (ws : List Text) :
    unwords (w :: v :: ws) = w ++ ' ' :: unwords (v :: ws) := by
  simp [unwords, List.intercalate, List.intersperse]

/-- A phrase of words that each read on their own. -/
theorem lexes_unwords {ws : List Text} {tss : List (List Token)} (h : List.Forall₂ Lexes ws tss)
    (hne : ws ≠ []) : Lexes (unwords ws) tss.flatten := by
  induction h with
  | nil => exact absurd rfl hne
  | @cons w ts ws tss hw hws ih =>
    rcases hws with _ | ⟨hv, hvs⟩
    · simpa [unwords, List.intercalate] using hw
    · rw [unwords_cons_cons, flatten_cons]
      exact hw.space (ih (by simp))

/-- The tokens, with blanks between them. -/
def phrase (ts : List Token) : Text :=
  unwords (ts.map Token.text)

/-- The tokens in front of a phrase. -/
def leading (ts : List Token) : Text :=
  if ts = [] then [] else phrase ts ++ [' ']

theorem phrase_append (ts : List Token) (hne : us ≠ []) :
    phrase (ts ++ us) = leading ts ++ phrase us := by
  obtain ⟨u, us, rfl⟩ := exists_cons_of_ne_nil hne
  induction ts with
  | nil => rfl
  | cons t ts ih =>
    rcases ts with _ | ⟨t', ts⟩
    · simp [phrase, leading, unwords, List.intercalate]
    · have hstep : ∀ vs : List Token, phrase (t :: t' :: vs) = t.text ++ ' ' :: phrase (t' :: vs) :=
        fun vs => unwords_cons_cons t.text t'.text (vs.map Token.text)
      rw [cons_append, cons_append, hstep, ← cons_append, ih]
      simp [leading, hstep]

theorem phrase_eq_nil (h : ∀ t ∈ ts, t.Proper) : phrase ts = [] ↔ ts = [] := by
  rcases ts with _ | ⟨t, ts⟩
  · exact iff_of_true rfl rfl
  refine iff_of_false ?_ (cons_ne_nil t ts)
  have ht : t.text ≠ [] := by
    have hp := h t mem_cons_self
    cases t with
    | key k => exact k.spell_spec.1
    | word w => exact hp.1
    | set => exact hp.elim
    | _ => simp [Token.text, quoted]
  rcases ts with _ | ⟨t', ts⟩
  · simpa [phrase, unwords, List.intercalate] using ht
  · rw [phrase, map_cons, map_cons, unwords_cons_cons]
    simp

variable {tss : List (List Token)}

theorem phrases_eq_nil (h : ∀ ts ∈ tss, ∀ t ∈ ts, t.Proper) :
    (tss.map phrase).filter (· ≠ []) = [] ↔ tss.flatten = [] := by
  rw [filter_eq_nil_iff, flatten_eq_nil_iff, List.forall_mem_map]
  exact forall₂_congr fun ts hts => by simp [phrase_eq_nil (h ts hts)]

/-- Leaving out phrases that are empty does not change the words. -/
theorem unwords_phrases (h : ∀ ts ∈ tss, ∀ t ∈ ts, t.Proper) :
    unwords ((tss.map phrase).filter (· ≠ [])) = phrase tss.flatten := by
  induction tss with
  | nil => rfl
  | cons ts tss ih =>
    obtain ⟨hts, htss⟩ := forall_mem_cons.mp h
    by_cases hnil : ts = []
    · simpa [hnil, phrase, unwords, List.intercalate] using ih htss
    rw [map_cons, filter_cons_of_pos (by simpa using (phrase_eq_nil hts).not.mpr hnil),
      flatten_cons]
    by_cases hflat : tss.flatten = []
    · rw [(phrases_eq_nil htss).mpr hflat, hflat, append_nil]
      simp [unwords, List.intercalate]
    · obtain ⟨w, ws, hws⟩ := exists_cons_of_ne_nil ((phrases_eq_nil htss).not.mpr hflat)
      rw [phrase_append ts hflat, ← ih htss, hws, unwords_cons_cons, leading, if_neg hnil,
        append_assoc, singleton_append]

theorem forall₂_lexes (h : ∀ t ∈ ts, t.Proper) :
    List.Forall₂ Lexes (ts.map Token.text) (ts.map fun t => [t]) := by
  rw [forall₂_map_left_iff, forall₂_map_right_iff, forall₂_same]
  exact fun t ht => lexes_token (h t ht)

/-- A phrase of proper tokens. -/
theorem lexes_phrase (hne : ts ≠ []) (h : ∀ t ∈ ts, t.Proper) : Lexes (phrase ts) ts := by
  have hflat : (ts.map fun t => [t]).flatten = ts := by
    rw [← flatMap_def, flatMap_singleton']
  have hwords := lexes_unwords (forall₂_lexes h) (by simpa using hne)
  rwa [hflat] at hwords

/-- A text of lines that each read on their own. -/
theorem lex_lines {ls : List Text} {tss : List (List Token)} (h : List.Forall₂ LexesLine ls tss) :
    lex (ls.flatMap (· ++ ['\n'])) = some (tss.flatMap (· ++ [.newline])) := by
  unfold lex
  induction h with
  | nil => rfl
  | @cons l ts ls tss hl _ ih =>
    rw [flatMap_cons, append_assoc, singleton_append, hl, ih]
    simp

end Lankeeper.Lib.Nft
