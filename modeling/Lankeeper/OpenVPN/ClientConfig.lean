import Lankeeper.Lib.Text

/-!
# Lankeeper.OpenVPN.ClientConfig — the validator of pasted client configs

`internal/services/openvpn_client_validate.go` keeps an operator's pasted config
to an allowlist, because root runs openvpn on it. Validator and openvpn are two
line-based state machines over the same text. This file has both, and says where
they part.

* `validateOVPNClientConfigFile` — the validator, from the source;
* `openvpnItems` — what openvpn reads: a line `<tag>` opens an inline block, the
  first later line that starts with `</tag>` after white space closes it, any
  other line that is no comment is a directive;
* `strays` — what openvpn reads from lines the validator did not judge as such;
* `accepted_items_allowed_iff` — an accepted text is harmless iff its strays are.
-/

namespace Lankeeper.OpenVPN

open Lib Text

/-! ## The validator -/

/-- `ovpnClientDirectives`. -/
def ovpnClientDirectives : List Text :=
  ["client", "dev", "dev-type", "proto", "remote", "remote-random", "resolv-retry", "nobind",
    "persist-key", "persist-tun", "remote-cert-tls", "cipher", "data-ciphers",
    "data-ciphers-fallback", "auth", "verb", "mute", "compress", "comp-lzo", "key-direction",
    "tls-client", "tls-version-min", "tls-cipher", "tls-ciphersuites", "auth-nocache", "reneg-sec",
    "pull", "float", "mssfix", "tun-mtu", "fragment", "keepalive", "ping", "ping-restart",
    "connect-retry", "connect-retry-max", "server-poll-timeout", "verify-x509-name",
    "route-nopull", "redirect-gateway", "pull-filter", "explicit-exit-notify", "auth-user-pass",
    "remote-cert-ku", "remote-cert-eku", "ns-cert-type", "sndbuf", "rcvbuf",
    "fast-io"].map String.toList

/-- `ovpnInlineBlocks`. -/
def ovpnInlineBlocks : List Text :=
  ["ca", "cert", "key", "tls-auth", "tls-crypt", "tls-crypt-v2", "extra-certs"].map String.toList

def authUserPass : Text := "auth-user-pass"

/-- What can be wrong with one line. -/
inductive LineError where
  /-- `directive %q is not allowed` -/
  | directive (name : Text)
  /-- `inline block %s is not allowed` -/
  | inlineBlock (tag : Text)
  /-- `auth-user-pass may not name a file` -/
  | namesFile
deriving DecidableEq

inductive ConfigError where
  /-- `config line %d: %w` -/
  | line (n : Nat) (err : LineError)
  /-- `config: inline block <%s> is not closed` -/
  | notClosed (block : Text)
deriving DecidableEq

/-- `strings.Trim(s, "<>")`. -/
def trimBrackets (s : Text) : Text :=
  trim (fun c => c == '<' || c == '>') s

def checkInlineBlock (tag : Text) : Except LineError Unit :=
  if trimBrackets tag ∈ ovpnInlineBlocks then .ok () else .error (.inlineBlock tag)

def checkDirective (name : Text) (args : Nat) : Except LineError Unit :=
  if name ∉ ovpnClientDirectives then .error (.directive name)
  else if name = authUserPass ∧ args > 0 then .error .namesFile
  else .ok ()

/-- The line is `<...>` and nothing else. -/
def isTagLine (name : Text) (args : List Text) : Bool :=
  name.head? == some '<' && name.getLast? == some '>' && args.isEmpty

def isComment (line : Text) : Bool :=
  line.head? == some '#' || line.head? == some ';'

/-- `ovpnLineDirective`: the directive of a trimmed line, empty for a blank line
or a comment. A line that is not blank has a first field. -/
def ovpnLineDirective (line : Text) : Except LineError Text :=
  if line = [] ∨ isComment line then .ok []
  else
    match fields isSpace line with
    | [] => .ok []
    | word :: args =>
      let name := trimPrefix "--" word
      if isTagLine name args then (checkInlineBlock name).map fun _ => name
      else (checkDirective name args.length).map fun _ => name

/-- A raw line as the validator compares it. -/
def configLine (raw : Text) : Text :=
  trimSpace (trimSuffix ['\r'] raw)

def closeTag (tag : Text) : Text :=
  "</" ++ tag ++ ">"

/-- The loop of `validateOVPNClientConfigFile`; `block` is empty outside a block
and `n` counts lines from one. -/
def checkLines (block : Text) (n : Nat) : List Text → Except ConfigError Unit
  | [] => if block ≠ [] then .error (.notClosed block) else .ok ()
  | raw :: rest =>
    let line := configLine raw
    if block ≠ [] then checkLines (if line = closeTag block then [] else block) (n + 1) rest
    else
      match ovpnLineDirective line with
      | .error err => .error (.line n err)
      | .ok name =>
        checkLines (if name.head? = some '<' then trimBrackets name else block) (n + 1) rest

def validateOVPNClientConfigFile (content : Text) : Except ConfigError Unit :=
  checkLines [] 1 (content.splitOn '\n')

/-! ## What a line says -/

/-- What one line outside a block says. -/
inductive Item where
  | directive (name : Text) (args : Nat)
  | inlineBlock (tag : Text)
deriving DecidableEq

/-- The allowlist, as a property of what is read. -/
def Allowed : Item → Prop
  | .directive name args => name ∈ ovpnClientDirectives ∧ ¬ (name = authUserPass ∧ args > 0)
  | .inlineBlock tag => tag ∈ ovpnInlineBlocks

instance : DecidablePred Allowed
  | .directive _ _ => inferInstanceAs (Decidable (_ ∧ _))
  | .inlineBlock _ => inferInstanceAs (Decidable (_ ∈ _))

/-- The words of a line, read as an item; `tag` takes the brackets off. -/
def wordsItem (tag : Text → Text) : List Text → Option Item
  | [] => none
  | word :: args =>
    if isComment word then none
    else
      let name := trimPrefix "--" word
      if isTagLine name args then some (.inlineBlock (tag name))
      else some (.directive name args.length)

theorem wordsItem_comment (tag : Text → Text) {word : Text} (args : List Text)
    (h : isComment word) : wordsItem tag (word :: args) = none := by
  simp [wordsItem, h]

theorem wordsItem_tag (tag : Text → Text) {word : Text} {args : List Text}
    (h : isComment word = false) (ht : isTagLine (trimPrefix "--" word) args = true) :
    wordsItem tag (word :: args) = some (.inlineBlock (tag (trimPrefix "--" word))) := by
  simp only [wordsItem, h, ht, if_true, Bool.false_eq_true, if_false]

theorem wordsItem_directive (tag : Text → Text) {word : Text} {args : List Text}
    (h : isComment word = false) (ht : ¬ isTagLine (trimPrefix "--" word) args = true) :
    wordsItem tag (word :: args) =
      some (.directive (trimPrefix "--" word) args.length) := by
  simp only [wordsItem, h, ht, Bool.false_eq_true, if_false]

/-- A line as openvpn reads it: ASCII white space, one pair of brackets. -/
def lineItem (raw : Text) : Option Item :=
  wordsItem (fun name => name.tail.dropLast) (fields isAsciiSpace raw)

/-- A line as the validator judges it: Unicode white space, all brackets. -/
def judged (raw : Text) : Option Item :=
  wordsItem trimBrackets (fields isSpace raw)

/-! ## openvpn -/

/-- openvpn ends the block at a line that starts with the closing tag. -/
def closesInline (tag raw : Text) : Bool :=
  (closeTag tag).isPrefixOf (raw.dropWhile isAsciiSpace)

/-- The inline block openvpn is in after a line. -/
def nextInline : Option Text → Text → Option Text
  | some tag, raw => if closesInline tag raw then none else some tag
  | none, raw =>
    match lineItem raw with
    | some (.inlineBlock tag) => some tag
    | _ => none

/-- What openvpn reads from a line. -/
def readLine : Option Text → Text → Option Item
  | some _, _ => none
  | none, raw => lineItem raw

def openvpnLines : Option Text → List Text → List Item
  | _, [] => []
  | inline, raw :: rest => (readLine inline raw).toList ++ openvpnLines (nextInline inline raw) rest

/-- All that openvpn reads from a config. -/
def openvpnItems (content : Text) : List Item :=
  openvpnLines none (content.splitOn '\n')

/-! ## Where the two part -/

/-- The block the validator is in after a line it let pass. -/
def nextBlock (block raw : Text) : Text :=
  if block ≠ [] then (if configLine raw = closeTag block then [] else block)
  else
    match judged raw with
    | some (.inlineBlock tag) => tag
    | _ => []

/-- The validator judged the line, and read the same from it as openvpn. -/
def Agrees (block : Text) (inline : Option Text) (raw : Text) : Prop :=
  block = [] ∧ judged raw = readLine inline raw

instance (block : Text) (inline : Option Text) (raw : Text) :
    Decidable (Agrees block inline raw) :=
  inferInstanceAs (Decidable (_ ∧ _))

def strayLines : Text → Option Text → List Text → List Item
  | _, _, [] => []
  | block, inline, raw :: rest =>
    (if Agrees block inline raw then [] else (readLine inline raw).toList) ++
      strayLines (nextBlock block raw) (nextInline inline raw) rest

/-- What openvpn reads from lines that the validator skipped as key material or
read differently. -/
def strays (content : Text) : List Item :=
  strayLines [] none (content.splitOn '\n')

/-! ## What acceptance says -/

theorem isSpace_cr : isSpace '\r' := by decide

theorem fields_configLine (raw : Text) : fields isSpace (configLine raw) = fields isSpace raw := by
  unfold configLine trimSpace
  rw [fields_trim]
  unfold trimSuffix
  split
  · next h =>
    obtain ⟨t, rfl⟩ := h
    rw [fields_append_space isSpace_cr, fields_nil, List.append_nil]
    simp
  · rfl

/-- A trimmed line is blank or a comment exactly when its words say so. -/
theorem judged_none_of_blank {raw : Text}
    (h : configLine raw = [] ∨ isComment (configLine raw)) : judged raw = none := by
  unfold judged
  rw [← fields_configLine]
  rcases h with h | h
  · rw [h, fields_nil]
    rfl
  rcases hl : configLine raw with _ | ⟨c, t⟩
  · rw [fields_nil]
    rfl
  have hhead : (configLine raw).head? = some c := by rw [hl]; rfl
  obtain ⟨w, ws, hw, hf⟩ := fields_cons (head_trim hhead) t
  rw [hf]
  apply wordsItem_comment
  rw [hl] at h
  unfold isComment at h ⊢
  rw [hw]
  exact h

theorem judged_of_not_blank {raw : Text}
    (h : ¬ (configLine raw = [] ∨ isComment (configLine raw))) :
    ∃ word args, fields isSpace (configLine raw) = word :: args ∧ isComment word = false := by
  push Not at h
  rcases hl : configLine raw with _ | ⟨c, t⟩
  · exact absurd hl h.1
  have hhead : (configLine raw).head? = some c := by rw [hl]; rfl
  obtain ⟨w, ws, hw, hf⟩ := fields_cons (head_trim hhead) t
  refine ⟨w, ws, hf, ?_⟩
  have hc := h.2
  rw [hl] at hc
  unfold isComment at hc ⊢
  rw [hw]
  simpa using hc

/-- A line that passed was judged allowed, and it opens the block that
`nextBlock` says. -/
theorem ovpnLineDirective_spec {raw name : Text}
    (h : ovpnLineDirective (configLine raw) = .ok name) :
    (∀ item, judged raw = some item → Allowed item) ∧
      (if name.head? = some '<' then trimBrackets name else []) = nextBlock [] raw := by
  have hdash : ∀ n ∈ ovpnClientDirectives, n.head? ≠ some '<' := by decide
  unfold ovpnLineDirective at h
  split at h
  · next hblank =>
    obtain rfl : name = [] := (Except.ok.inj h).symm
    have hnone := judged_none_of_blank hblank
    refine ⟨by simp [hnone], ?_⟩
    unfold nextBlock
    rw [hnone]
    rfl
  · next hblank =>
    obtain ⟨word, args, hf, hcom⟩ := judged_of_not_blank hblank
    have hj : judged raw = wordsItem trimBrackets (word :: args) := by
      unfold judged
      rw [← fields_configLine, hf]
    simp only [hf] at h
    unfold nextBlock
    split at h
    · -- an inline block
      next htag =>
      rw [wordsItem_tag _ hcom htag] at hj
      unfold checkInlineBlock at h
      split at h
      · next hmem =>
        cases h
        constructor
        · intro item hitem
          rw [hj] at hitem
          cases hitem
          exact hmem
        · have hlt : (trimPrefix "--" word).head? = some '<' := by
            unfold isTagLine at htag
            simp only [Bool.and_eq_true, beq_iff_eq] at htag
            exact htag.1.1
          rw [if_pos hlt, hj]
          rfl
      · cases h
    · -- a directive
      next htag =>
      rw [wordsItem_directive _ hcom htag] at hj
      unfold checkDirective at h
      split at h
      · cases h
      rename_i hmem
      split at h
      · cases h
      rename_i hauth
      cases h
      constructor
      · intro item hitem
        rw [hj] at hitem
        cases hitem
        exact ⟨not_not.mp hmem, hauth⟩
      · rw [if_neg (hdash _ (not_not.mp hmem)), hj]
        rfl

/-- One step of the validator's loop. -/
theorem checkLines_cons {block raw : Text} {n : Nat} {rest : List Text}
    (h : checkLines block n (raw :: rest) = .ok ()) :
    (block = [] → ∀ item, judged raw = some item → Allowed item) ∧
      checkLines (nextBlock block raw) (n + 1) rest = .ok () := by
  simp only [checkLines] at h
  split at h
  · next hblock =>
    refine ⟨fun hnil => absurd hnil hblock, ?_⟩
    unfold nextBlock
    rw [if_pos hblock]
    exact h
  · next hblock =>
    obtain rfl : block = [] := not_not.mp hblock
    split at h
    · cases h
    · next name hname =>
      obtain ⟨hall, hnext⟩ := ovpnLineDirective_spec hname
      rw [hnext] at h
      exact ⟨fun _ => hall, h⟩

/-! ## Accepted texts -/

theorem openvpnLines_allowed_iff {block : Text} {n : Nat} {inline : Option Text}
    {lines : List Text} (h : checkLines block n lines = .ok ()) :
    (∀ item ∈ openvpnLines inline lines, Allowed item) ↔
      ∀ item ∈ strayLines block inline lines, Allowed item := by
  induction lines generalizing block n inline with
  | nil => simp [openvpnLines, strayLines]
  | cons raw rest ih =>
    obtain ⟨hjudged, hrest⟩ := checkLines_cons h
    simp only [openvpnLines, strayLines, List.forall_mem_append]
    rw [ih hrest]
    apply and_congr_left'
    by_cases hag : Agrees block inline raw
    · -- the validator has judged what openvpn reads here
      rw [if_pos hag]
      constructor
      · intro _ item hitem
        cases hitem
      · intro _ item hitem
        apply hjudged hag.1
        rw [hag.2]
        simpa using hitem
    · rw [if_neg hag]

/-- **An accepted text is harmless iff its strays are.** -/
theorem accepted_items_allowed_iff {content : Text}
    (h : validateOVPNClientConfigFile content = .ok ()) :
    (∀ item ∈ openvpnItems content, Allowed item) ↔ ∀ item ∈ strays content, Allowed item :=
  openvpnLines_allowed_iff h

/-- A config with a certificate in it, closed by a line of its own. -/
def plainConfig : Text := "client\ndev tun\n<ca>\nMIIB\n</ca>\n"

theorem plainConfig_allowed : validateOVPNClientConfigFile plainConfig = .ok () ∧
    ∀ item ∈ openvpnItems plainConfig, Allowed item := by
  have hok : validateOVPNClientConfigFile plainConfig = .ok () := by decide +kernel
  exact ⟨hok, (accepted_items_allowed_iff hok).mpr (by decide +kernel)⟩

/-- The closing tag has a word after it: openvpn closes the block there, the
validator at the next line that is the tag and nothing else. -/
def smugglingConfig : Text := "client\n<ca>\n</ca> x\nup /tmp/evil\n</ca>\n"

theorem smugglingConfig_accepted : validateOVPNClientConfigFile smugglingConfig = .ok () ∧
    .directive "up" 1 ∈ openvpnItems smugglingConfig ∧ ¬ Allowed (.directive "up" 1) := by
  refine ⟨?_, ?_, ?_⟩
  · decide +kernel
  · decide +kernel
  · decide +kernel

end Lankeeper.OpenVPN
