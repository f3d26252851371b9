import Lankeeper.Lib.Nft.Marking

/-!
# Lankeeper.Lib.Nft.MarkLines — one command a line

`MarkCommand.read` reads a line and `loadMarks` a script. A rule whose values are single
words is read back as it is (`readBack_addRule`). A value that came from elsewhere may
have characters in it that make the line say something else, or nothing:
`sound_valueRule_iff` says which values a rule can have for its line to be a rule with
an operand of the right kind.
-/

namespace Lankeeper.Lib.Nft

open Text List Option Address

/-! ## Reading a line -/

/-- The command that a line is. -/
def MarkCommand.read (line : Text) : Option MarkCommand :=
  (lex line).bind MarkCommand.parse

/-- Is the operand of a match an IPv4 address or prefix, or a hardware address? -/
def MarkMatch.typed : MarkMatch → Bool
  | .etherSaddr mac => (readMAC mac).isSome
  | .address _ w => (Prefix.parse w).any (·.family == .ip4)
  | _ => true

def MarkCommand.typed : MarkCommand → Bool
  | .addRule _ r => r.conds.all (·.typed)
  | _ => true

/-- The line is a complete command, with operands of the right kind. -/
def Sound (line : Text) : Prop :=
  '\n' ∉ line ∧ ∃ c, MarkCommand.read line = some c ∧ c.typed

/-- A blank at the end changes nothing. -/
theorem lexFrom_concat_blank (m : Mode) (p a : Text) :
    lexFrom m p (a ++ [' ']) = lexFrom m p a := by
  induction a generalizing m p with
  | nil => cases m <;> simp [lexFrom, flush, quote]
  | cons c a ih =>
    rw [cons_append]
    cases m <;> simp only [lexFrom, ih]

variable {ts : List Token} {w v : Text} {c : Char} {m : MarkMatch}

theorem Lexes.lex_eq {a : Text} (h : Lexes a ts) : lex a = some ts := by
  have hblank := h ' ' [] rfl
  rw [lexFrom_concat_blank] at hblank
  rw [lex, hblank]
  simp [lexFrom, flush, quote]

/-- The line is one command, this one. -/
def MarkCommand.ReadBack (c : MarkCommand) : Prop :=
  '\n' ∉ unwords c.words ∧ MarkCommand.read (unwords c.words) = some c

theorem MarkCommand.ReadBack.sound {c : MarkCommand} (h : c.ReadBack) (ht : c.typed) :
    Sound (unwords c.words) :=
  ⟨h.1, c, h.2, ht⟩

/-- The rules of a script with one command a line. -/
def loadMarks (script : Text) : Option (List MarkRule) :=
  (((script.splitOn '\n').filter (· ≠ [])).mapM MarkCommand.read).map rulesIn

theorem loadMarks_scriptOf {cs : List MarkCommand} (h : ∀ c ∈ cs, c.ReadBack) :
    loadMarks (scriptOf cs) = some (rulesIn cs) := by
  have hlines : (scriptOf cs).splitOn '\n' = cs.map (fun c => unwords c.words) ++ [[]] := by
    have hiff := splitOn_lines_iff '\n' (cs.map fun c => unwords c.words)
    rw [flatMap_map] at hiff
    exact hiff.mpr (forall_mem_map.mpr fun c hc => (h c hc).1)
  have hne : ∀ c ∈ cs, unwords c.words ≠ [] := by
    intro c hc hnil
    have hread := (h c hc).2
    rw [hnil] at hread
    cases hread
  have hfilter : (cs.map fun c => unwords c.words).filter (· ≠ []) = cs.map fun c => unwords c.words :=
    filter_eq_self.mpr (by simpa using hne)
  have hread : (cs.map fun c => unwords c.words).mapM MarkCommand.read = some cs := by
    rw [mapM_eq_some_iff, forall₂_map_left_iff, forall₂_same]
    exact fun c hc => (h c hc).2
  rw [loadMarks, hlines, filter_append, hfilter]
  simp [hread]

/-! ## Lines around a value -/

/-- A token that stays on its line and is read back. -/
def Token.Inline (t : Token) : Prop :=
  t.Proper ∧ '\n' ∉ t.text

theorem inline_word (h : (Token.word w).Proper) : (Token.word w).Inline :=
  ⟨h, fun hmem => absurd (h.2.1 _ hmem) (by decide)⟩

theorem inline_key (k : Keyword) : (Token.key k).Inline :=
  ⟨trivial, fun hmem => absurd (all_eq_true.mp k.spell_spec.2.1 _ hmem) (by decide)⟩

theorem MarkWord.spell_spec (k : MarkWord) :
    (Token.word k.spell).Proper ∧ MarkWord.ofText k.spell = some k := by
  have hall : ∀ k ∈ MarkWord.all,
      (Token.word k.spell).Proper ∧ MarkWord.ofText k.spell = some k := by
    decide +kernel
  exact hall k (by cases k <;> decide)

@[simp] theorem MarkWord.ofText_spell (k : MarkWord) : MarkWord.ofText k.spell = some k :=
  k.spell_spec.2

theorem inline_markWord (k : MarkWord) : (Token.word k.spell).Inline :=
  inline_word k.spell_spec.1

theorem newline_mem_phrase : '\n' ∈ phrase ts ↔ ∃ t ∈ ts, '\n' ∈ t.text := by
  constructor
  · intro hmem
    rcases mem_intercalate hmem with heq | ⟨w, hw, hc⟩
    · exact absurd heq (by decide)
    · obtain ⟨t, ht, rfl⟩ := List.mem_map.mp hw
      exact ⟨t, ht, hc⟩
  · rintro ⟨t, ht, hc⟩
    exact mem_intercalate_of_mem (mem_map_of_mem ht) hc

/-- A command whose tokens stay on their line is read back. -/
theorem readBack_of_inline {c : MarkCommand} (h : ∀ t ∈ c.tokens, t.Inline)
    (hparse : MarkCommand.parse c.tokens = some c) : c.ReadBack := by
  have hne : c.tokens ≠ [] := by
    intro hnil
    rw [hnil] at hparse
    cases hparse
  constructor
  · rw [MarkCommand.words, ← phrase, newline_mem_phrase]
    rintro ⟨t, ht, hc⟩
    exact (h t ht).2 hc
  · rw [MarkCommand.words, ← phrase, MarkCommand.read,
      (lexes_phrase hne fun t ht => (h t ht).1).lex_eq, Option.bind_some, hparse]

section Around

variable {pre post : List Token} (hpre : ∀ t ∈ pre, t.Inline) (hpost : ∀ t ∈ post, t.Inline)
  {v : Text}
include hpre hpost

theorem newline_mem_around : '\n' ∈ phrase (pre ++ .word v :: post) ↔ '\n' ∈ v := by
  rw [newline_mem_phrase]
  constructor
  · rintro ⟨t, ht, hc⟩
    rcases mem_append.mp ht with ht | ht
    · exact absurd hc (hpre t ht).2
    · rcases mem_cons.mp ht with rfl | ht
      · exact hc
      · exact absurd hc (hpost t ht).2
  · exact fun hc => ⟨.word v, by simp, hc⟩

/-- A value that is not one word. -/
theorem read_around (hv : Lexes v ts) :
    MarkCommand.read (phrase (pre ++ .word v :: post)) =
      MarkCommand.parse (pre ++ (ts ++ post)) := by
  have hwords := rel_append (forall₂_lexes fun t ht => (hpre t ht).1)
    (.cons hv (forall₂_lexes fun t ht => (hpost t ht).1))
  have hlex := (lexes_unwords hwords (by simp)).lex_eq
  rw [MarkCommand.read, phrase, map_append, map_cons]
  refine (congrArg (·.bind MarkCommand.parse) hlex).trans ?_
  simp [← flatMap_def]

end Around

/-! ## Values with anything around them -/

theorem lexFrom_blank (hc : blank c) (cs : Text) :
    lexFrom .plain [] (c :: cs) = lexFrom .plain [] cs := by
  simp only [blank, Bool.or_eq_true, beq_iff_eq] at hc
  rcases hc with rfl | rfl <;> simp [lexFrom, flush, quote]

theorem breaks_of_blank (hc : blank c) : breaks c := by
  simp only [blank, Bool.or_eq_true, beq_iff_eq] at hc
  rcases hc with rfl | rfl <;> rfl

/-- A text in which nothing but blanks ends a word reads as its words. -/
theorem lexes_fields (h : ∀ c ∈ v, breaks c → blank c) :
    Lexes v ((fields blank v).map Token.ofWord) := by
  -- by induction on the number of characters, from blank to blank
  induction hlen : v.length using Nat.strong_induction_on generalizing v with
  | _ n ih =>
    by_cases hblank : ∃ c ∈ v, blank c
    · obtain ⟨c, hc, hcb⟩ := hblank
      obtain ⟨a, b, rfl⟩ := append_of_mem hc
      have ha := ih a.length (by simp at hlen; omega)
        (fun d hd => h d (mem_append_left _ hd)) rfl
      have hb := ih b.length (by simp at hlen; omega)
        (fun d hd => h d (mem_append_right _ (mem_cons_of_mem _ hd))) rfl
      rw [fields_append_space hcb, map_append]
      intro d ds hd
      rw [append_assoc, cons_append, ha c _ (breaks_of_blank hcb), lexFrom_blank hcb,
        hb d ds hd, Option.map_map]
      simp [Function.comp_def]
    · have hfree : ∀ c ∈ v, ¬ blank c := fun c hc hb => hblank ⟨c, hc, hb⟩
      by_cases hne : v = []
      · rw [hne, fields_nil]
        exact lexes_nil
      · rw [fields_eq_singleton hne hfree]
        exact lexes_word hne fun c hc => Bool.eq_false_iff.mpr fun hb => hfree c hc (h c hc hb)

theorem inline_markTokens (x : Int) : ∀ t ∈ markTokens x, t.Inline := by
  simp only [markTokens, forall_mem_cons, not_mem_nil, false_imp_iff, implies_true, and_true]
  exact ⟨inline_key _, inline_markWord _, inline_key _, inline_word (proper_decimal x)⟩

/-- A word behind a value is no match and no statement. -/
theorem parseUpTo_word (n : Nat) (w : Text) (ws : List Text) (x : Int) :
    MarkRule.parseUpTo n (.word w :: (ws.map .word ++ markTokens x)) = none := by
  have haction : ∀ ts, readAction (.word w :: ts) = none := fun _ => rfl
  have hmatch : readMatch (.word w :: (ws.map .word ++ markTokens x)) = none := by
    cases ws <;> rfl
  cases n with
  | zero => rw [MarkRule.parseUpTo, haction]; rfl
  | succ n => rw [MarkRule.parseUpTo, haction, hmatch]; rfl

/-- The statement alone. -/
theorem parseUpTo_setMark (n : Nat) (x : Int) :
    MarkRule.parseUpTo n (markTokens x) = (readMark (decimal x)).map fun m => ⟨[], .setMark m⟩ := by
  have haction : readAction (markTokens x) = (readMark (decimal x)).map .setMark := by
    simp [markTokens, readAction]
  have hmatch : readMatch (markTokens x) = none := rfl
  cases n with
  | zero => rw [MarkRule.parseUpTo, haction, Option.map_map]; rfl
  | succ n =>
    rw [MarkRule.parseUpTo, haction]
    cases readMark (decimal x) with
    | none => rw [Option.map_none, hmatch]; rfl
    | some m => rfl

theorem readMark_decimal {x m : Int} :
    readMark (decimal x) = some m ↔ m = x ∧ 0 ≤ x ∧ x ≤ 4294967295 := by
  rw [readMark, bind_eq_some_iff]
  simp only [readNat_decimal, ite_none_right_eq_some, some.injEq]
  constructor
  · rintro ⟨n, hn, hle, hm⟩
    omega
  · rintro ⟨rfl, h0, h⟩
    exact ⟨m.toNat, by omega, by omega, by omega⟩

/-! ## Rules with one value -/

/-- What a value is matched with. -/
inductive Operand
  | etherSaddr
  | address (s : Side)
deriving DecidableEq

def Operand.with (o : Operand) (v : Text) : MarkMatch :=
  match o with
  | .etherSaddr => .etherSaddr v
  | .address s => .address s v

def Operand.keys : Operand → List Token
  | .etherSaddr => [.word MarkWord.ether.spell, .key .saddr]
  | .address s => [.key .ip, .key s.addrKey]

/-- A rule that sets a mark on one match of a value. -/
def valueRule (o : Operand) (v : Text) (x : Int) : MarkRule :=
  ⟨[o.with v], .setMark x⟩

theorem readMAC_chars {n : Nat} (h : readMAC w = some n) : ':' ∈ w ∧ ∀ c ∈ w, isAddressChar c := by
  unfold readMAC at h
  split at h
  · rename_i hw
    constructor
    · by_contra hnone
      have hsplit : ([':'].intercalate [w]).splitOn ':' = [w] :=
        splitOn_intercalate ':' (by simpa using hnone) (by simp)
      rw [List.intercalate, intersperse_singleton, flatten_singleton] at hsplit
      rw [hsplit] at hw
      exact absurd hw.1 (by simp)
    · obtain ⟨gs, hgs, -⟩ := map_eq_some_iff.mp h
      exact Text.forall_of_splitOn rfl
        (forall_of_mapM (fun _ _ => hexGroup_chars) hgs)
  · cases h

theorem Operand.with_typed_chars {o : Operand} (h : (o.with w).typed) :
    ∀ c ∈ w, isAddressChar c := by
  cases o with
  | etherSaddr =>
    obtain ⟨n, hn⟩ := isSome_iff_exists.mp h
    exact (readMAC_chars hn).2
  | address s =>
    rcases hq : Prefix.parse w with _ | q
    · simp [Operand.with, MarkMatch.typed, hq] at h
    · exact (Prefix.parse_chars hq).2

theorem readAction_keys (o : Operand) (ts : List Token) : readAction (o.keys ++ ts) = none := by
  cases o <;> rfl

theorem readMatch_address (s : Side) (hset : w.head? ≠ some '@') (ts : List Token) :
    readMatch (.key .ip :: .key s.addrKey :: .word w :: ts) =
      (readAddress .ip4 w).map fun w => (.address s w, ts) := by
  cases s with
  | source => rfl
  | destination =>
    rcases w with _ | ⟨c, w⟩
    · rfl
    · have hc : c ≠ '@' := fun heq => hset (by rw [heq]; rfl)
      simp [Side.addrKey, readMatch, hc]

/-- A word that is no name of a set gives a match of the right kind only with an operand of the
right kind. -/
theorem readMatch_keys {o : Operand} (hset : w.head? ≠ some '@') (ts : List Token) :
    (readMatch (o.keys ++ .word w :: ts)).filter (·.1.typed) =
      if (o.with w).typed then some (o.with w, ts) else none := by
  cases o with
  | etherSaddr =>
    have hread : readMatch (Operand.etherSaddr.keys ++ .word w :: ts) =
        if MarkWord.ofText MarkWord.ether.spell = some .ether ∧ (readMAC w).isSome then
          some (.etherSaddr w, ts) else none := rfl
    rw [hread]
    by_cases hmac : (readMAC w).isSome <;> simp [Operand.with, MarkMatch.typed, hmac]
  | address s =>
    rw [Operand.keys, cons_append, cons_append, nil_append, readMatch_address s hset]
    rcases hparse : Prefix.parse w with _ | q
    · simp [readAddress, Operand.with, MarkMatch.typed, hparse]
    · by_cases hq : q.family = .ip4 <;>
        simp [readAddress, Operand.with, MarkMatch.typed, hparse, hq]

/-- With words for a value, a rule of the right kind is read exactly if there is one word, of the
right kind. -/
theorem parse_values_iff {o : Operand} {ws : List Text} (x : Int) (n : Nat)
    (hset : ∀ w ∈ ws, w.head? ≠ some '@') :
    (∃ r, MarkRule.parseUpTo (n + 1) (o.keys ++ (ws.map .word ++ markTokens x)) = some r ∧
        r.conds.all (·.typed)) ↔ ∃ w, ws = [w] ∧ (o.with w).typed ∧ 0 ≤ x ∧ x ≤ 4294967295 := by
  have hstep : ∀ {ts : List Token} {w : Text}, w ∈ ws → ((∃ r,
      MarkRule.parseUpTo (n + 1) (o.keys ++ .word w :: ts) = some r ∧
        r.conds.all (·.typed)) ↔ (o.with w).typed ∧
      ∃ r, MarkRule.parseUpTo n ts = some r ∧ r.conds.all (·.typed)) := by
    intro ts w hw
    have hmatch := readMatch_keys (o := o) (hset w hw) ts
    rw [MarkRule.parseUpTo, readAction_keys]
    by_cases htyped : (o.with w).typed
    · rw [if_pos htyped, filter_eq_some_iff] at hmatch
      simp [hmatch.1, htyped]
    rw [if_neg htyped, filter_eq_none_iff] at hmatch
    refine iff_of_false ?_ fun h => htyped h.1
    rintro ⟨r, hr, hall⟩
    obtain ⟨p, hp, hrest⟩ := bind_eq_some_iff.mp hr
    obtain ⟨r', -, rfl⟩ := map_eq_some_iff.mp hrest
    rw [all_cons, Bool.and_eq_true] at hall
    exact hmatch p hp hall.1
  rcases ws with _ | ⟨w, _ | ⟨w', ws⟩⟩
  · -- no word at all
    have hnone : readMatch (o.keys ++ markTokens x) = none := by
      rcases o with _ | s
      · rfl
      · cases s <;> rfl
    rw [map_nil, nil_append, MarkRule.parseUpTo, readAction_keys, hnone]
    simp
  · rw [map_cons, map_nil, singleton_append, hstep mem_cons_self, parseUpTo_setMark]
    simp [readMark_decimal]
  · rw [map_cons, cons_append, hstep mem_cons_self, map_cons, cons_append, parseUpTo_word]
    simp

/-- White space that ends a word is a blank or ends the line. -/
theorem blank_of_breaks (hb : breaks c) (hs : isSpace c) (hn : c ≠ '\n') : blank c := by
  have hall : breakers.all (fun c => !isSpace c || blank c || c == '\n') := by decide
  have hc := all_eq_true.mp hall c (mem_breakers hb)
  simpa [hs, hn] using hc

theorem isSpace_of_blank (h : blank c) : isSpace c := by
  simp only [blank, Bool.or_eq_true, beq_iff_eq] at h
  rcases h with rfl | rfl <;> decide

theorem not_isAlphanum_of_isSpace (h : isSpace c) : c.isAlphanum = false := by
  have hall : ∀ n < 123, (Char.ofNat n).isAlphanum → ¬ isSpace (Char.ofNat n) := by
    decide +kernel
  by_contra halpha
  rw [Bool.not_eq_false] at halpha
  have hle := toNat_le_of_isAlphanum halpha
  rw [← Char.ofNat_toNat c] at h halpha
  exact hall c.toNat (by omega) halpha h

/-- Only blanks around a literal leave it as the one field. -/
theorem fields_literal_iff {v w : Text} (hne : trimSpace v ≠ [])
    (hspace : ∀ d ∈ trimSpace v, ¬ isSpace d) (hw : ∀ d ∈ w, ¬ isSpace d) :
    fields blank v = [w] ↔ (∀ d ∈ v, isSpace d → blank d) ∧ w = trimSpace v := by
  have hone : (∀ d ∈ v, isSpace d → blank d) → fields blank v = [trimSpace v] := by
    intro hblank
    have hbare : trim blank v = trimSpace v :=
      trim_congr fun d hd => Bool.eq_iff_iff.mpr ⟨isSpace_of_blank, hblank d hd⟩
    rw [← fields_trim, hbare, fields_eq_singleton hne fun d hd hb => hspace d hd (isSpace_of_blank hb)]
  constructor
  · intro hfields
    have hblank : ∀ d ∈ v, isSpace d → blank d := by
      intro d hd hs
      by_contra hb
      obtain ⟨u, hu, hdu⟩ := exists_field hb hd
      rw [hfields, mem_singleton] at hu
      exact hw d (hu ▸ hdu) hs
    rw [hone hblank, singleton_inj] at hfields
    exact ⟨hblank, hfields.symm⟩
  · rintro ⟨hblank, rfl⟩
    exact hone hblank

/-- Every field around a literal with a mark in it has a character that no keyword has. -/
theorem fields_words (hspace : ∀ d ∈ trimSpace v, ¬ isSpace d)
    (hmark : ∃ d ∈ trimSpace v, d.isAlphanum = false) :
    (fields blank v).map Token.ofWord = (fields blank v).map .word := by
  refine map_congr_left fun w hw => ofWord_eq_word (.inl ?_)
  obtain ⟨l, r, hv, hl, hr⟩ := exists_trimSpace v
  obtain ⟨d, hd, hdn⟩ := hmark
  rcases fields_around blank l r (ne_nil_of_mem hd)
      (fun d hd hb => hspace d hd (isSpace_of_blank hb)) with
    ⟨fs, y, z, gs, hfields, hfs, hgs, -, -⟩
  have hodd : w ≠ [] → (∀ e ∈ w, isSpace e) → ∃ e ∈ w, e.isAlphanum = false := by
    intro hne hs
    obtain ⟨e, he⟩ := exists_mem_of_ne_nil w hne
    exact ⟨e, he, not_isAlphanum_of_isSpace (hs e he)⟩
  rw [hv, hfields, mem_append, mem_cons] at hw
  rcases hw with hw | rfl | hw
  · exact hodd (hfs w hw).1 fun e he => hl e ((hfs w hw).2 e he).1
  · exact ⟨d, mem_append_left _ (mem_append_right _ hd), hdn⟩
  · exact hodd (hgs w hw).1 fun e he => hr e ((hgs w hw).2 e he).1

/-! ## Lines -/

/-- A command that makes a set. -/
theorem readBack_addSet {family table name type flag : Text}
    (h : ∀ w ∈ [family, table, name, type, flag], (Token.word w).Proper) :
    (MarkCommand.addSet family table name type flag).ReadBack := by
  have hsymbols : Token.lbrace.Inline ∧ Token.semicolon.Inline ∧ Token.rbrace.Inline := by
    simp [Token.Inline, Token.Proper, Token.text]
  have hwords : ∀ w ∈ [family, table, name, type, flag], (Token.word w).Inline :=
    fun w hw => inline_word (h w hw)
  refine readBack_of_inline ?_ (by simp [MarkCommand.tokens, MarkCommand.parse])
  simp only [MarkCommand.tokens, forall_mem_cons, not_mem_nil, false_imp_iff, implies_true,
    and_true] at hwords ⊢
  simp only [hwords, hsymbols, inline_key, inline_markWord, and_self]

/-- A chain whose names can be read. -/
def ChainName.Proper (c : ChainName) : Prop :=
  ∀ w ∈ [c.family, c.table, c.name], (Token.word w).Proper

section Line

variable {c : ChainName} (hc : c.Proper) (x : Int)
include hc

omit hc in
theorem parse_addRule (us : List Token) :
    MarkCommand.parse (.word MarkWord.add.spell :: .word MarkWord.rule.spell :: .word c.family ::
      .word c.table :: .word c.name :: us) = (MarkRule.parse us).map (.addRule c) := by
  show (if MarkWord.ofText MarkWord.add.spell = some .add ∧
      MarkWord.ofText MarkWord.rule.spell = some .rule then
        (MarkRule.parse us).map (MarkCommand.addRule c) else none) = _
  rw [if_pos ⟨MarkWord.ofText_spell _, MarkWord.ofText_spell _⟩]

/-- What stands in front of the value of a rule. -/
theorem inline_ruleHead {ks : List Token} (hks : ∀ t ∈ ks, t.Inline) :
    ∀ t ∈ .word MarkWord.add.spell :: .word MarkWord.rule.spell :: .word c.family ::
      .word c.table :: .word c.name :: ks, t.Inline := by
  simp only [ChainName.Proper, forall_mem_cons, not_mem_nil, false_imp_iff, implies_true,
    and_true] at hc
  simp only [forall_mem_cons]
  exact ⟨inline_markWord _, inline_markWord _, inline_word hc.1, inline_word hc.2.1,
    inline_word hc.2.2, hks⟩

/-- The line of a rule with one value is sound if what is behind the head is read as a rule with
operands of the right kind. -/
theorem sound_rule_iff {ks ts : List Token} {m : MarkMatch}
    (htokens : m.tokens = ks ++ [.word v]) (hks : ∀ t ∈ ks, t.Inline) (hv : '\n' ∉ v → Lexes v ts) :
    Sound (unwords (MarkCommand.addRule c ⟨[m], .setMark x⟩).words) ↔ '\n' ∉ v ∧
      ∃ r, MarkRule.parse (ks ++ (ts ++ markTokens x)) = some r ∧ r.conds.all (·.typed) := by
  have hline : unwords (MarkCommand.addRule c ⟨[m], .setMark x⟩).words =
      phrase ((.word MarkWord.add.spell :: .word MarkWord.rule.spell :: .word c.family ::
        .word c.table :: .word c.name :: ks) ++ .word v :: markTokens x) := by
    simp [phrase, MarkCommand.words, MarkCommand.tokens, MarkRule.tokens, htokens,
      MarkAction.tokens]
  have hhead := inline_ruleHead hc hks
  rw [Sound, hline, newline_mem_around hhead (inline_markTokens x)]
  refine and_congr_right fun hn => ?_
  rw [read_around hhead (inline_markTokens x) (hv hn)]
  simp only [cons_append, parse_addRule, map_eq_some_iff]
  constructor
  · rintro ⟨-, ⟨r, hr, rfl⟩, htyped⟩
    exact ⟨r, hr, htyped⟩
  · rintro ⟨r, hr, htyped⟩
    exact ⟨_, ⟨r, hr, rfl⟩, htyped⟩

omit hc in
theorem proper_inSet {name : Text} (hname : ∀ d ∈ name, breaks d = false) :
    (Token.word ('@' :: name)).Proper := by
  rw [← ofWord_eq_word (.inl ⟨'@', mem_cons_self, rfl⟩)]
  exact ofWord_proper (cons_ne_nil _ _) (forall_mem_cons.mpr ⟨rfl, hname⟩)

/-- The rule for a set: only its mark can be wrong. -/
theorem sound_setRule_iff {name : Text} (hname : ∀ d ∈ name, breaks d = false) :
    Sound (unwords (MarkCommand.addRule c ⟨[.inSet name], .setMark x⟩).words) ↔
      0 ≤ x ∧ x ≤ 4294967295 := by
  have hproper := proper_inSet hname
  have hks : ∀ t ∈ [Token.key .ip, .key .daddr], t.Inline := by
    simp only [forall_mem_cons, not_mem_nil, false_imp_iff, implies_true, and_true]
    exact ⟨inline_key _, inline_key _⟩
  rw [sound_rule_iff hc x rfl hks fun _ => lexes_token hproper]
  have hparse : MarkRule.parse ([.key .ip, .key .daddr] ++ ([.word ('@' :: name)] ++ markTokens x)) =
      (MarkRule.parseUpTo 6 (markTokens x)).map fun r => ⟨.inSet name :: r.conds, r.action⟩ := rfl
  rw [hparse, parseUpTo_setMark]
  simp [(inline_word hproper).2, readMark_decimal, MarkMatch.typed]

/-- **Rules with a value.** The value is an address literal with white space around it. The line of
the rule is sound exactly if the white space is blanks, the literal is of the right kind and the
mark has 32 bits. -/
theorem sound_valueRule_iff (o : Operand) (hcore : ∀ d ∈ trimSpace v, isAddressChar d)
    (hmark : ∃ d ∈ trimSpace v, d.isAlphanum = false) :
    Sound (unwords (MarkCommand.addRule c (valueRule o v x)).words) ↔
      (∀ d ∈ v, isSpace d → blank d) ∧ (o.with (trimSpace v)).typed ∧ 0 ≤ x ∧ x ≤ 4294967295 := by
  have hspace : ∀ d ∈ trimSpace v, ¬ isSpace d :=
    fun d hd => not_isSpace_of_isAddressChar (hcore d hd)
  have hne : trimSpace v ≠ [] := by
    obtain ⟨d, hd, -⟩ := hmark
    exact ne_nil_of_mem hd
  have hchars : ∀ d ∈ v, isSpace d ∨ isAddressChar d := by
    obtain ⟨l, r, hv, hl, hr⟩ := exists_trimSpace v
    rw [hv]
    simp only [forall_mem_append]
    exact ⟨⟨fun d hd => .inl (hl d hd), fun d hd => .inr (hcore d hd)⟩, fun d hd => .inl (hr d hd)⟩
  -- without a line break the value reads as its fields, and they are words
  have hlex : '\n' ∉ v → Lexes v ((fields blank v).map .word) := by
    intro hnewline
    rw [← fields_words hspace hmark]
    refine lexes_fields fun d hd hb => ?_
    rcases hchars d hd with hs | ha
    · exact blank_of_breaks hb hs fun h => hnewline (h ▸ hd)
    · rw [breaks_eq_false (f := isAddressChar) (by decide) ha] at hb
      cases hb
  have hset : ∀ w ∈ fields blank v, w.head? ≠ some '@' := by
    intro w hw hhead
    have hat := ((mem_fields hw).2 _ (mem_of_mem_head? hhead)).1
    exact absurd (hchars _ hat) (by decide)
  have htokens : (o.with v).tokens = o.keys ++ [.word v] := by
    cases o <;> rfl
  have hkeys : ∀ t ∈ o.keys, t.Inline := by
    cases o <;> simp only [Operand.keys, forall_mem_cons, not_mem_nil, false_imp_iff, implies_true,
      and_true, inline_markWord, inline_key]
  have hfuel : ∃ n, (o.keys ++ ((fields blank v).map Token.word ++ markTokens x)).length = n + 1 :=
    Nat.exists_eq_succ_of_ne_zero (by simp [markTokens])
  obtain ⟨n, hn⟩ := hfuel
  rw [valueRule, sound_rule_iff hc x htokens hkeys hlex, MarkRule.parse, hn,
    parse_values_iff x n hset]
  constructor
  · rintro ⟨-, w, hw, htyped, hx⟩
    have hliteral := Operand.with_typed_chars htyped
    obtain ⟨hblank, rfl⟩ := (fields_literal_iff hne hspace fun d hd =>
      not_isSpace_of_isAddressChar (hliteral d hd)).mp hw
    exact ⟨hblank, htyped, hx⟩
  · rintro ⟨hblank, htyped, hx⟩
    exact ⟨fun h => absurd (hblank _ h (by decide)) (by decide), trimSpace v,
      (fields_literal_iff hne hspace hspace).mpr ⟨hblank, rfl⟩, htyped, hx⟩

end Line

/-! ## Rules that are read back -/

/-- The value is one word, of the kind that is matched. -/
def MarkMatch.Clear : MarkMatch → Prop
  | .etherSaddr mac => (readMAC mac).isSome
  | .address _ w => (Token.word w).Proper ∧ w.head? ≠ some '@' ∧ readAddress .ip4 w = some w
  | .inSet name => (Token.word ('@' :: name)).Proper
  | .dport proto n => (transportOf proto).isSome ∧ 0 ≤ n ∧ n ≤ 65535
  | .hourFrom t | .hourBefore t => quote ∉ t ∧ '\n' ∉ t
  | .markNot n => 0 ≤ n ∧ n ≤ 4294967295

def MarkAction.Clear : MarkAction → Prop
  | .setMark n => 0 ≤ n ∧ n ≤ 4294967295
  | .drop | .saveMark => True

theorem exists_transport {proto : Text} (h : (transportOf proto).isSome) :
    ∃ k t, Token.ofWord proto = .key k ∧ k.spell = proto ∧ Transport.ofKey k = some t := by
  obtain ⟨t, ht⟩ := isSome_iff_exists.mp h
  obtain ⟨k, hk, ht⟩ := bind_eq_some_iff.mp ht
  have htok : Token.ofWord proto = .key k := by simp [Token.ofWord, hk]
  refine ⟨k, t, htok, ?_, ht⟩
  rw [← ofWord_text proto, htok]
  rfl

theorem MarkMatch.Clear.inline (h : m.Clear) : ∀ t ∈ m.tokens, t.Inline := by
  cases m with
  | etherSaddr mac =>
    obtain ⟨n, hn⟩ := isSome_iff_exists.mp h
    obtain ⟨hcolon, hchars⟩ := readMAC_chars hn
    have hmac := inline_word (word_proper (by decide) (ne_nil_of_mem hcolon) hchars
      (ofWord_eq_word (.inl ⟨':', hcolon, rfl⟩)))
    simp [tokens, inline_markWord, inline_key, hmac]
  | address s w => simp [tokens, inline_key, inline_word h.1]
  | inSet name => simp [tokens, inline_key, inline_word (w := '@' :: name) h]
  | dport proto n =>
    obtain ⟨k, -, hk, -⟩ := exists_transport h.1
    simp [tokens, hk, inline_key, inline_word (proper_decimal n)]
  | hourFrom t | hourBefore t =>
    have ht : (Token.str t).Inline := ⟨h.1, by simpa [Token.text, quoted, quote] using h.2⟩
    simp [tokens, inline_key, inline_markWord, ht]
  | markNot n => simp [tokens, inline_key, inline_markWord, inline_word (proper_decimal n)]

theorem MarkAction.inline (a : MarkAction) : ∀ t ∈ a.tokens, t.Inline := by
  cases a with
  | setMark n => exact inline_markTokens n
  | drop => simp [tokens, inline_key]
  | saveMark => simp [tokens, inline_key, inline_markWord]

theorem readAction_tokens {a : MarkAction} (h : a.Clear) : readAction a.tokens = some a := by
  cases a with
  | setMark n => simp [MarkAction.tokens, markTokens, readAction, readMark_decimal.mpr ⟨rfl, h⟩]
  | drop => rfl
  | saveMark => simp [MarkAction.tokens, readAction]

theorem MarkMatch.Clear.readAction (h : m.Clear) (ts : List Token) :
    readAction (m.tokens ++ ts) = none := by
  cases m with
  | dport proto n =>
    obtain ⟨k, -, hk, -⟩ := exists_transport h.1
    rw [tokens, hk]
    cases k <;> rfl
  | _ => rfl

theorem MarkMatch.Clear.readMatch (h : m.Clear) (ts : List Token) :
    readMatch (m.tokens ++ ts) = some (m, ts) := by
  cases m with
  | etherSaddr mac => exact if_pos ⟨MarkWord.ofText_spell _, h⟩
  | address s w =>
    refine (readMatch_address s h.2.1 ts).trans ?_
    rw [h.2.2, Option.map_some]
  | inSet name => rfl
  | dport proto n =>
    obtain ⟨k, t, hk, hspell, ht⟩ := exists_transport h.1
    have hnat : readNat (decimal n) = some n.toNat := readNat_decimal.mpr (by have := h.2; omega)
    have hport : readPort (decimal n) = some n.toNat := by
      have hle : n.toNat ≤ 65535 := by have := h.2; omega
      rw [readPort, hnat, Option.bind_some, if_pos hle]
    have hread : Nft.readMatch (.key k :: .key .dport :: .word (decimal n) :: ts) =
        (Transport.ofKey k).bind fun _ =>
          (readPort (decimal n)).map fun (m : Nat) => (.dport k.spell (m : Int), ts) := by
      cases k <;> rfl
    rw [tokens, hk]
    refine hread.trans ?_
    rw [ht, hport, hspell, Option.bind_some, Option.map_some, Int.toNat_of_nonneg h.2.1]
  | hourFrom t => simp [tokens, Nft.readMatch]
  | hourBefore t => simp [tokens, Nft.readMatch]
  | markNot n => simp [tokens, Nft.readMatch, readMark_decimal.mpr ⟨rfl, h⟩]

def MarkRule.Clear (r : MarkRule) : Prop :=
  (∀ m ∈ r.conds, m.Clear) ∧ r.action.Clear

theorem MarkRule.parseUpTo_tokens {conds : List MarkMatch} {a : MarkAction}
    (hconds : ∀ m ∈ conds, m.Clear) (ha : a.Clear) {n : Nat}
    (hn : (MarkRule.tokens ⟨conds, a⟩).length ≤ n) :
    MarkRule.parseUpTo n (MarkRule.tokens ⟨conds, a⟩) = some ⟨conds, a⟩ := by
  induction conds generalizing n with
  | nil =>
    have hread : readAction (MarkRule.tokens ⟨[], a⟩) = some a := readAction_tokens ha
    cases n <;> simp [parseUpTo, hread]
  | cons m conds ih =>
    obtain ⟨hm, hconds⟩ := forall_mem_cons.mp hconds
    have hone : 0 < m.tokens.length := by cases m <;> simp [MarkMatch.tokens]
    have htokens : MarkRule.tokens ⟨m :: conds, a⟩ = m.tokens ++ MarkRule.tokens ⟨conds, a⟩ := by
      simp [tokens]
    rw [htokens, length_append] at hn
    rcases n with _ | n
    · omega
    · rw [htokens, parseUpTo, hm.readAction, hm.readMatch]
      simp [ih hconds (n := n) (by omega)]

/-- A rule that is printed clearly is read back. -/
theorem MarkRule.parse_tokens {r : MarkRule} (h : r.Clear) : MarkRule.parse r.tokens = some r :=
  parseUpTo_tokens h.1 h.2 (Nat.le_refl _)

theorem readBack_addRule {c : ChainName} (hc : c.Proper) {r : MarkRule} (h : r.Clear) :
    (MarkCommand.addRule c r).ReadBack := by
  have hinline : ∀ t ∈ r.tokens, t.Inline := by
    simp only [MarkRule.tokens, mem_append, mem_flatMap]
    rintro t (⟨m, hm, ht⟩ | ht)
    · exact (h.1 m hm).inline t ht
    · exact r.action.inline t ht
  refine readBack_of_inline (inline_ruleHead hc hinline) ((parse_addRule _).trans ?_)
  rw [MarkRule.parse_tokens h, Option.map_some]

end Lankeeper.Lib.Nft
