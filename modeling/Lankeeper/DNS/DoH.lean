import Lankeeper.Lib.Base64
import Lankeeper.Lib.NetworkText
import Lankeeper.DNS.Stamp

/-!
# Lankeeper.DNS.DoH — the upstream of dnscrypt-proxy

`internal/services/doh.go`: an upstream is the name of a known resolver, an `https://`
URL or an `sdns://` stamp. `ValidateUpstream` checks what the operator enters, and
`RenderConfig` writes it to `dnscrypt-proxy.toml`. There a URL becomes a stamp, and a
stamp is written as it was entered.

A stamp is checked by what it decodes to.

* The decoder of base64 skips line breaks, so the text that is written may have some:
  `stamp_literal_iff`.
* Of the addresses in a stamp only the host is compared with the internal networks:
  `stamp_contacts_iff`.

What `url.Parse` makes of a URL, what a host resolves to and which networks the router is
attached to are arguments.
-/

namespace Lankeeper.DNS

open Lib Text Address List

/-! ## Internal addresses -/

/-- `*url.URL`, as far as it is used. -/
structure URL where
  scheme : Text
  hostname : Text
  port : Text
  path : Text

/-- What the service asks the libraries and the system. -/
structure DoHEnv where
  parseURL : Text → Option URL
  lookupIP : Text → Option (List (Family × Nat))
  localInterfaceNets : Option (List Network)

/-- `IP.IsLoopback`. -/
def isLoopback (a : Family × Nat) : Bool :=
  match asIPv4 a with
  | some n => n >>> 24 == 127
  | none => a.2 == 1

/-- `IP.IsLinkLocalUnicast`. -/
def isLinkLocalUnicast (a : Family × Nat) : Bool :=
  match asIPv4 a with
  | some n => n >>> 16 == 0xa9fe
  | none => a.2 >>> 118 == 0x3fa

/-- `IP.IsUnspecified`. -/
def isUnspecified (a : Family × Nat) : Bool :=
  match asIPv4 a with
  | some n => n == 0
  | none => a.2 == 0

/-- `IP.IsPrivate`. -/
def isPrivate (a : Family × Nat) : Bool :=
  match asIPv4 a with
  | some n => n >>> 24 == 10 || n >>> 20 == 0xac1 || n >>> 16 == 0xc0a8
  | none => a.2 >>> 121 == 0x7e

/-- `onLocalNetwork`. Without a list of the interfaces every address is on one. -/
def onLocalNetwork (env : DoHEnv) (a : Family × Nat) : Bool :=
  match env.localInterfaceNets with
  | none => true
  | some nets => nets.any fun n =>
    match asIPv4 a with
    | some v => n.contains .ip4 v
    | none => n.contains .ip6 a.2

/-- `isInternalIP`. -/
def isInternalIP (env : DoHEnv) (a : Family × Nat) : Bool :=
  isLoopback a || isLinkLocalUnicast a || isUnspecified a || isPrivate a || onLocalNetwork env a

/-! ## Validation -/

/-- `BuiltInDoHResolvers`. -/
def builtInDoHResolvers : List Text :=
  ["cloudflare", "cloudflare-security", "cloudflare-family",
    "quad9-doh-ip4-port443-nofilter-pri", "quad9-doh-ip4-port443-filter-pri",
    "google", "adguard-dns-doh", "adguard-dns-unfiltered-doh",
    "nextdns", "mullvad-doh"]

/-- `IsBuiltInDoHResolver`. -/
def isBuiltInDoHResolver (name : Text) : Bool :=
  name ∈ builtInDoHResolvers

inductive UpstreamError
  | required | unknownForm
  | parseURL | scheme | host (host : Text) | path (path : Text) | noEndpoint | port (port : Text)
  | base64 | tooShort | protocol (b : UInt8) | decode (e : DecodeError)
  | stampHost (host : Text) | stampPath (path : Text)
  | internal (host : Text) | lookup (host : Text) | resolved (host : Text) (a : Family × Nat)
deriving DecidableEq

/-- `dohHostRegex`: `[a-zA-Z0-9]([a-zA-Z0-9.\-]{0,253}[a-zA-Z0-9])?`. -/
def isDoHHost (t : Text) : Bool :=
  t ≠ [] && t.length ≤ 255 && (t.all fun c => c.isAlphanum || c == '.' || c == '-') &&
    t.head?.all Char.isAlphanum && t.getLast?.all Char.isAlphanum

/-- `dohPathRegex`: `/[a-zA-Z0-9._~/\-%]*`. -/
def isDoHPath : Text → Bool
  | '/' :: t => t.all fun c => c.isAlphanum || "._~/-%".toList.contains c
  | _ => false

/-- `validateDoHPort`. -/
def validateDoHPort (s : Text) : Except (Stop UpstreamError) Unit :=
  failIf (s ∉ ["443".toList, "4443".toList, "8443".toList]) (.failed (.port s))

/-- `checkUpstreamNotInternal`. -/
def checkUpstreamNotInternal (env : DoHEnv) (host : Text) : Except (Stop UpstreamError) Unit :=
  match parseIP host with
  | some a => failIf (isInternalIP env a) (.failed (.internal host))
  | none =>
    match env.lookupIP host with
    | none => .error (.failed (.lookup host))
    | some addrs =>
      match addrs.find? (isInternalIP env) with
      | some a => .error (.failed (.resolved host a))
      | none => .ok ()

/-- `validateHTTPSUpstream`. -/
def validateHTTPSUpstream (env : DoHEnv) (spec : Text) : Except (Stop UpstreamError) Unit := do
  match env.parseURL spec with
  | none => .error (.failed .parseURL)
  | some u =>
    failIf (u.scheme ≠ "https") (.failed .scheme)
    failIf (¬ isDoHHost u.hostname) (.failed (.host u.hostname))
    failIf (¬ isDoHPath u.path) (.failed (.path u.path))
    failIf (u.path = [] ∨ u.path = ['/']) (.failed .noEndpoint)
    checkIf (u.port ≠ []) (validateDoHPort u.port)
    checkUpstreamNotInternal env u.hostname

def httpsScheme : Text := "https://"

def sdnsScheme : Text := "sdns://"

/-- The base64 of a stamp. -/
def stampBody (spec : Text) : Text :=
  (trimPrefix sdnsScheme spec).rdropWhile (· == '=')

/-- `validateSDNSUpstream`, once the base64 is decoded. -/
def validateStamp (env : DoHEnv) (raw : Bytes) : Except (Stop UpstreamError) Unit := do
  match raw with
  | [] => .error (.failed .tooShort)
  | protocol :: _ =>
    failIf (protocol ≠ 0x02) (.failed (.protocol protocol))
    let (host, path) ← within .decode (decodeDoHStamp raw)
    failIf (¬ isDoHHost host ∧ parseIP host = none) (.failed (.stampHost host))
    failIf (¬ isDoHPath path) (.failed (.stampPath path))
    checkUpstreamNotInternal env host

/-- `validateSDNSUpstream`. -/
def validateSDNSUpstream (env : DoHEnv) (spec : Text) : Except (Stop UpstreamError) Unit :=
  match Base64.decode (stampBody spec) with
  | none => .error (.failed .base64)
  | some raw => validateStamp env raw

/-- `ValidateUpstream`. -/
def validateUpstream (env : DoHEnv) (spec : Text) : Except (Stop UpstreamError) Unit :=
  let spec := trimSpace spec
  if spec = [] then .error (.failed .required)
  else if isBuiltInDoHResolver spec then .ok ()
  else if httpsScheme <+: spec then validateHTTPSUpstream env spec
  else if sdnsScheme <+: spec then validateSDNSUpstream env spec
  else .error (.failed .unknownForm)

/-! ## Rendering -/

/-- `writeLP`. -/
def writeLP (payload : Bytes) : Bytes :=
  let payload := payload.take 0x7f
  UInt8.ofNat payload.length :: payload

/-- `[]byte(t)`. -/
def toBytes (t : Text) : Bytes :=
  t.flatMap String.utf8EncodeChar

/-- `net.JoinHostPort`. -/
def joinHostPort (host port : Text) : Text :=
  if ':' ∈ host ∨ '%' ∈ host then '[' :: host ++ "]:" ++ port else host ++ ':' :: port

/-- The address field of a host: empty unless it is an address. -/
def stampAddress (host port : Text) : Text :=
  match parseIP host with
  | none => []
  | some a =>
    match asIPv4 a with
    | some n => joinHostPort (ipText .ip4 n) port
    | none => joinHostPort (ipText a.1 a.2) port

/-- `httpsURLToStamp`. -/
def httpsURLToStamp (env : DoHEnv) (rawURL : Text) : Option Text := do
  let u ← env.parseURL rawURL
  if u.scheme ≠ "https" then none
  else
    let port := if u.port = [] then "443".toList else u.port
    let path := if u.path = [] then "/dns-query".toList else u.path
    let raw := 0x02 :: List.replicate 8 0 ++ writeLP (toBytes (stampAddress u.hostname port)) ++ [0x00] ++
      writeLP (toBytes u.hostname) ++ writeLP (toBytes path)
    some (sdnsScheme ++ Base64.encode raw)

/-- `dohCustomServer`. -/
structure CustomServer where
  name : Text
  stamp : Text

/-- `dohTemplateData`. -/
structure TemplateData where
  serverNames : List Text := []
  customServers : List CustomServer := []

/-- The stamp that `buildTemplateData` gives a custom server. -/
def customStamp (env : DoHEnv) (upstream : Text) : Text :=
  if httpsScheme <+: upstream then (httpsURLToStamp env upstream).getD upstream else upstream

/-- `buildTemplateData`. -/
def buildTemplateData (env : DoHEnv) (doHUpstream : Text) : TemplateData :=
  let upstream := trimSpace doHUpstream
  if upstream = [] then {}
  else if isBuiltInDoHResolver upstream then { serverNames := [upstream] }
  else
    { serverNames := ["lankeeper-custom"]
      customServers := [⟨"lankeeper-custom", customStamp env upstream⟩] }

def quoted (t : Text) : Text :=
  '\'' :: t ++ ['\'']

/-- The lines of `dnscrypt-proxy.toml.tmpl` up to the static servers. -/
def headLines (serverNames : List Text) : List Text :=
  ["# dnscrypt-proxy.toml rendered by lankeeper.".toList,
    "# Do not edit by hand - changes will be overwritten on next ApplyConfig.".toList,
    [],
    "listen_addresses = ['127.0.0.1:5353']".toList] ++
  (if serverNames = [] then []
    else ["server_names = [" ++ ", ".toList.intercalate (serverNames.map quoted) ++ [']']]) ++
  [[],
    "ipv6_servers = false",
    "dnscrypt_servers = false",
    "doh_servers = true",
    "odoh_servers = false",
    "require_dnssec = true",
    "require_nolog = true",
    "require_nofilter = false",
    "http3 = false",
    "ignore_system_dns = true",
    "netprobe_timeout = 60",
    "log_level = 2",
    "log_file = '/var/log/dnscrypt-proxy.log'",
    "use_syslog = false",
    "cert_refresh_delay = 240",
    "timeout = 5000",
    "keepalive = 30",
    [],
    "[sources]",
    "  [sources.public-resolvers]",
    "  urls = ['https://download.dnscrypt.info/resolvers-list/v3/public-resolvers.md', ".toList ++
      "'https://raw.githubusercontent.com/DNSCrypt/dnscrypt-resolvers/master/v3/public-resolvers.md']".toList,
    "  cache_file = '/var/cache/dnscrypt-proxy/public-resolvers.md'",
    "  minisign_key = 'RWQf6LRCGA9i53mlYecO4IzT51TGPpvWucNSCh1CBM0QTaLn73Y7GFO3'",
    "  refresh_delay = 72".toList,
    "  prefix = ''".toList]

/-- The lines of a static server. -/
def serverLines (s : CustomServer) : List Text :=
  ["  [static." ++ quoted s.name ++ [']'], "  stamp = " ++ quoted s.stamp]

/-- The lines of the static servers. -/
def staticLines (servers : List CustomServer) : List Text :=
  if servers = [] then [] else [[], "[static]".toList] ++ servers.flatMap serverLines

/-- `RenderConfig`. -/
def renderConfig (data : TemplateData) : Text :=
  (headLines data.serverNames ++ staticLines data.customServers).flatMap (· ++ ['\n'])

/-! ## The value in the file -/

/-- The value on a line that sets `stamp`. -/
def stampValue (line : Text) : Option Text :=
  let entry := line.dropWhile (· == ' ')
  if "stamp = " <+: entry then some (entry.drop 8) else none

/-- The values of `stamp` in a file, each up to the end of its line. -/
def stampValues (file : Text) : List Text :=
  (file.splitOn '\n').filterMap stampValue

/-- `unicode.IsControl`. -/
def isControl (c : Char) : Bool :=
  c.toNat < 0x20 || (0x7f ≤ c.toNat && c.toNat ≤ 0x9f)

/-- The file sets `stamp` once, to one single-quoted string on one line. -/
def StampLiteral (file : Text) : Prop :=
  ∃ v, stampValues file = [quoted v] ∧ ∀ c ∈ v, c ≠ '\'' ∧ isControl c = false

/-- The file with a custom server. -/
def customConfig (stamp : Text) : Text :=
  renderConfig ⟨["lankeeper-custom"], [⟨"lankeeper-custom", stamp⟩]⟩

/-- The lines in front of the stamp. -/
def customHead : List Text :=
  headLines ["lankeeper-custom".toList] ++
    [[], "[static]".toList, "  [static.".toList ++ quoted "lankeeper-custom".toList ++ [']']]

theorem customConfig_eq (stamp : Text) : customConfig stamp =
    customHead.flatMap (· ++ ['\n']) ++ ("  stamp = " ++ quoted stamp ++ ['\n']) := by
  have hlines : headLines ["lankeeper-custom"] ++
      staticLines [⟨"lankeeper-custom".toList, stamp⟩] =
      customHead ++ ["  stamp = ".toList ++ quoted stamp] := by
    simp [staticLines, serverLines, customHead]
  rw [customConfig, renderConfig, hlines, flatMap_append, flatMap_singleton]

/-- They are single lines, and none of them sets `stamp`. -/
theorem customHead_lines : (∀ l ∈ customHead, '\n' ∉ l) ∧ customHead.filterMap stampValue = [] := by
  unfold customHead headLines stampValue
  repeat rw [String.toList_ofList]
  decide +kernel

/-- Only the last line of the file sets `stamp`, with what may follow a line break in it. -/
theorem stampValues_customConfig (stamp : Text) : stampValues (customConfig stamp) =
    (("  stamp = " ++ quoted stamp ++ ['\n']).splitOn '\n').filterMap stampValue := by
  rw [customConfig_eq, stampValues, splitOn_lines_append customHead_lines.1, filterMap_append,
    customHead_lines.2, nil_append]

theorem stampValue_stamp (t : Text) : stampValue ("  stamp = " ++ t) = some t := by
  unfold stampValue
  repeat rw [String.toList_ofList]
  simp

/-- A character of a stamp: a digit, one of the scheme, or one of the padding. -/
def IsStampChar (c : Char) : Prop :=
  (Base64.digit c).isSome ∨ c = ':' ∨ c = '/' ∨ c = '='

theorem IsStampChar.plain {c : Char} (h : IsStampChar c) :
    c ≠ '\'' ∧ isControl c = false ∧ Base64.isLineBreak c = false := by
  -- all of them lie between the minus sign and the last letter
  have hrange : 45 ≤ c.toNat ∧ c.toNat ≤ 122 := by
    rcases h with hdigit | rfl | rfl | rfl
    · exact Base64.toNat_of_digit hdigit
    · decide
    · decide
    · decide
  have hne : ∀ d : Char, d.toNat < 45 → c ≠ d := by
    rintro d hd rfl
    omega
  refine ⟨hne _ (by decide), ?_, ?_⟩
  · simp only [isControl, Bool.or_eq_false_iff, Bool.and_eq_false_iff, decide_eq_false_iff_not]
    omega
  · simp only [Base64.isLineBreak, Bool.or_eq_false_iff, beq_eq_false_iff_ne]
    exact ⟨hne _ (by decide), hne _ (by decide)⟩

theorem isControl_of_isLineBreak {c : Char} (h : Base64.isLineBreak c) : isControl c := by
  simp only [Base64.isLineBreak, Bool.or_eq_true, beq_iff_eq] at h
  rcases h with rfl | rfl
  · rfl
  · rfl

/-- What stands on the line of the stamp has a line break exactly if the stamp does. -/
theorem newline_mem_stampLine {t : Text} : '\n' ∈ "  stamp = " ++ t ↔ '\n' ∈ t := by
  rw [mem_append, or_iff_right (by decide)]

/-- A stamp that may have line breaks is one literal in the file exactly if it has none. -/
theorem stampLiteral_customConfig_iff {stamp : Text}
    (hchars : ∀ c ∈ stamp, IsStampChar c ∨ Base64.isLineBreak c) :
    StampLiteral (customConfig stamp) ↔ ∀ c ∈ stamp, Base64.isLineBreak c = false := by
  unfold StampLiteral
  rw [stampValues_customConfig]
  cases hcut : cut '\n' stamp with
  | some p =>
    obtain ⟨a, b⟩ := p
    obtain ⟨rfl, ha⟩ := cut_eq_some.mp hcut
    refine iff_of_false ?_ fun h => absurd (h '\n' (by simp)) (by decide)
    rintro ⟨v, hv, -⟩
    -- the line ends within the stamp, and there is no quote at its end
    have hsplit : "  stamp = " ++ quoted (a ++ '\n' :: b) ++ ['\n'] =
        ("  stamp = " ++ '\'' :: a) ++ '\n' :: (b ++ ['\'', '\n']) := by
      simp [quoted]
    have hfirst : '\n' ∉ "  stamp = " ++ '\'' :: a := by
      rw [newline_mem_stampLine]
      simpa using ha
    rw [hsplit, splitOn_append_cons, splitOn_eq_singleton hfirst, filterMap_append,
      filterMap_cons_some (stampValue_stamp _), cons_append, List.cons.injEq] at hv
    have hquote : '\'' ∈ a := by
      have heq : a = v ++ ['\''] := List.cons.inj hv.1 |>.2
      simp [heq]
    rcases hchars '\'' (mem_append_left _ hquote) with hchar | hbreak
    · exact hchar.plain.1 rfl
    · exact absurd hbreak (by decide)
  | none =>
    have hline : '\n' ∉ "  stamp = " ++ quoted stamp := by
      rw [newline_mem_stampLine]
      simpa [quoted] using cut_eq_none.mp hcut
    have hvalues : (("  stamp = " ++ quoted stamp ++ ['\n']).splitOn '\n').filterMap stampValue =
        [quoted stamp] := by
      rw [splitOn_append_cons, splitOn_eq_singleton hline, filterMap_append,
        filterMap_cons_some (stampValue_stamp _)]
      rfl
    rw [hvalues]
    constructor
    · rintro ⟨v, hv, hplain⟩ c hc
      have heq : stamp = v := by simpa [quoted] using hv
      have hcontrol := (hplain c (heq ▸ hc)).2
      by_contra hbreak
      rw [isControl_of_isLineBreak (by simpa using hbreak)] at hcontrol
      cases hcontrol
    · intro hclean
      refine ⟨stamp, rfl, fun c hc => ?_⟩
      rcases hchars c hc with hchar | hbreak
      · exact ⟨hchar.plain.1, hchar.plain.2.1⟩
      · rw [hclean c hc] at hbreak
        cases hbreak

/-! ## Accepted upstreams -/

variable {env : DoHEnv} {spec : Text}

theorem validateUpstream_cases (hacc : validateUpstream env spec = .ok ())
    (hcustom : isBuiltInDoHResolver (trimSpace spec) = false) :
    trimSpace spec ≠ [] ∧
      ((httpsScheme <+: trimSpace spec ∧ validateHTTPSUpstream env (trimSpace spec) = .ok ()) ∨
        (¬ httpsScheme <+: trimSpace spec ∧ sdnsScheme <+: trimSpace spec ∧
          validateSDNSUpstream env (trimSpace spec) = .ok ())) := by
  simp only [validateUpstream, hcustom, Bool.false_eq_true, if_false] at hacc
  split_ifs at hacc with hnil hhttps hsdns
  · exact ⟨hnil, .inl ⟨hhttps, hacc⟩⟩
  · exact ⟨hnil, .inr ⟨hhttps, hsdns, hacc⟩⟩

theorem renderConfig_custom (env : DoHEnv) (hne : trimSpace spec ≠ [])
    (hcustom : isBuiltInDoHResolver (trimSpace spec) = false) :
    renderConfig (buildTemplateData env spec) = customConfig (customStamp env (trimSpace spec)) := by
  simp [buildTemplateData, hne, hcustom, customConfig]

theorem isStampChar_of_mem_sdnsScheme : ∀ c ∈ sdnsScheme, IsStampChar c := by
  have hall : sdnsScheme.all (fun c => (Base64.digit c).isSome || c == ':' || c == '/') := by
    decide
  intro c hc
  have hchar := all_eq_true.mp hall c hc
  simp only [Bool.or_eq_true, beq_iff_eq] at hchar
  rcases hchar with (hdigit | hcolon) | hslash
  · exact .inl hdigit
  · exact .inr (.inl hcolon)
  · exact .inr (.inr (.inl hslash))

theorem not_sdnsScheme_of_httpsScheme {t : Text} (h : httpsScheme <+: t) : ¬ sdnsScheme <+: t := by
  obtain ⟨r, rfl⟩ := h
  unfold httpsScheme sdnsScheme
  repeat rw [String.toList_ofList]
  simp

/-- The stamp of a URL that is accepted is one of digits. -/
theorem mem_httpsURLToStamp (h : validateHTTPSUpstream env spec = .ok ()) :
    ∃ stamp, httpsURLToStamp env spec = some stamp ∧ ∀ c ∈ stamp, IsStampChar c := by
  unfold validateHTTPSUpstream at h
  unfold httpsURLToStamp
  cases hparse : env.parseURL spec with
  | none =>
    rw [hparse] at h
    cases h
  | some u =>
    rw [hparse] at h
    obtain ⟨_, hscheme, -⟩ := exists_of_bind_ok h
    refine ⟨_, if_neg (failIf_ok hscheme), ?_⟩
    intro c hc
    rcases mem_append.mp hc with hc | hc
    · exact isStampChar_of_mem_sdnsScheme c hc
    · exact .inl (Base64.mem_encode c hc)

/-- The text of a stamp that is accepted may have line breaks beside its digits. -/
theorem mem_of_validateSDNSUpstream (hscheme : sdnsScheme <+: spec)
    (h : validateSDNSUpstream env spec = .ok ()) :
    ∀ c ∈ spec, IsStampChar c ∨ Base64.isLineBreak c := by
  obtain ⟨rest, rfl⟩ := hscheme
  have hbody : stampBody (sdnsScheme ++ rest) = rest.rdropWhile (· == '=') := by
    rw [stampBody, trimPrefix, if_pos (prefix_append _ _), drop_left]
  unfold validateSDNSUpstream at h
  rw [hbody] at h
  cases hdecode : Base64.decode (rest.rdropWhile (· == '=')) with
  | none =>
    rw [hdecode] at h
    cases h
  | some raw =>
    intro c hc
    rcases mem_append.mp hc with hc | hc
    · exact .inl (isStampChar_of_mem_sdnsScheme c hc)
    -- behind the body there is only padding
    rw [← rdropWhile_append_rtakeWhile (p := (· == '=')) (l := rest)] at hc
    rcases mem_append.mp hc with hc | hc
    · rcases Base64.mem_of_decode hdecode c hc with hdigit | hbreak
      · exact .inl (.inl hdigit)
      · exact .inr hbreak
    · have hpad := mem_rtakeWhile_imp hc
      exact .inl (.inr (.inr (.inr (beq_iff_eq.mp hpad))))

/-- **Stamps in the file.** What is written for an upstream that is accepted is one quoted
string on one line, unless it was entered as a stamp with line breaks in its base64. -/
theorem stamp_literal_iff (env : DoHEnv) {spec : Text} (hacc : validateUpstream env spec = .ok ())
    (hcustom : isBuiltInDoHResolver (trimSpace spec) = false) :
    StampLiteral (renderConfig (buildTemplateData env spec)) ↔
      (sdnsScheme <+: trimSpace spec → ∀ c ∈ trimSpace spec, Base64.isLineBreak c = false) := by
  rcases validateUpstream_cases hacc hcustom with ⟨hne, ⟨hhttps, hok⟩ | ⟨hhttps, hsdns, hok⟩⟩
  · obtain ⟨stamp, hstamp, hchars⟩ := mem_httpsURLToStamp hok
    have hcustomStamp : customStamp env (trimSpace spec) = stamp := by
      rw [customStamp, if_pos hhttps, hstamp]
      rfl
    rw [renderConfig_custom env hne hcustom, hcustomStamp,
      stampLiteral_customConfig_iff fun c hc => .inl (hchars c hc)]
    refine iff_of_true (fun c hc => (hchars c hc).plain.2.2) fun hsdns => ?_
    exact absurd hsdns (not_sdnsScheme_of_httpsScheme hhttps)
  · have hcustomStamp : customStamp env (trimSpace spec) = trimSpace spec := by
      rw [customStamp, if_neg hhttps]
    rw [renderConfig_custom env hne hcustom, hcustomStamp,
      stampLiteral_customConfig_iff (mem_of_validateSDNSUpstream hsdns hok)]
    exact ⟨fun h _ => h, fun h => h hsdns⟩

/-- A router that reaches no resolver and has no interface up. -/
def offline : DoHEnv :=
  ⟨fun _ => none, fun _ => none, some []⟩

/-- The bytes of a stamp for `/dns-query` at 9.9.9.9, with an address field and addresses to
look the host up at. -/
def quad9Raw (address : Text) (bootstrap : Bytes) : Bytes :=
  [2, 0, 0, 0, 0, 0, 0, 0, 0] ++ writeLP (toBytes address) ++ [0] ++ writeLP (toBytes "9.9.9.9") ++
    writeLP (toBytes "/dns-query") ++ bootstrap

def quad9Stamp : Text :=
  sdnsScheme ++ Base64.encode (quad9Raw [] [])

/-- The same stamp on two lines. -/
def foldedStamp : Text :=
  quad9Stamp.take 20 ++ '\n' :: quad9Stamp.drop 20

theorem quad9Stamp_literal :
    validateUpstream offline quad9Stamp = .ok () ∧
      StampLiteral (renderConfig (buildTemplateData offline quad9Stamp)) := by
  have hacc : validateUpstream offline quad9Stamp = .ok () := by decide +kernel
  have hclean : (trimSpace quad9Stamp).any Base64.isLineBreak = false := by decide +kernel
  refine ⟨hacc, (stamp_literal_iff offline hacc (by decide +kernel)).mpr fun _ c hc => ?_⟩
  simpa using any_eq_false.mp hclean c hc

/-- It is accepted, and the line that sets `stamp` ends without a closing quote. -/
theorem foldedStamp_breaks_line :
    validateUpstream offline foldedStamp = .ok () ∧
      stampValues (renderConfig (buildTemplateData offline foldedStamp)) =
        ['\'' :: quad9Stamp.take 20] ∧
      ¬ StampLiteral (renderConfig (buildTemplateData offline foldedStamp)) := by
  have hvalues : stampValues (renderConfig (buildTemplateData offline foldedStamp)) =
      ['\'' :: quad9Stamp.take 20] := by
    rw [renderConfig_custom offline (by decide +kernel) (by decide +kernel), stampValues_customConfig]
    decide +kernel
  refine ⟨by decide +kernel, hvalues, ?_⟩
  rintro ⟨v, hv, -⟩
  rw [hvalues, List.cons.injEq] at hv
  have hlast : ('\'' :: quad9Stamp.take 20).getLast? = some '\'' := by
    rw [hv.1, quoted, List.getLast?_append]
    rfl
  exact absurd hlast (by decide +kernel)

/-! ## The addresses of a stamp -/

/-- A field of at most 127 bytes is laid out as it is written. -/
theorem lp_writeLP {field : Bytes} (h : field.length ≤ 0x7f) (rest : Bytes) :
    LP (writeLP field ++ rest) field rest := by
  have hmask : ∀ n : Fin 128, (UInt8.ofNat n &&& 0x7f).toNat = n := by decide
  rw [writeLP, take_of_length_le h]
  exact LP.intro (hmask ⟨field.length, by omega⟩).symm

theorem vlp_writeLP {field : Bytes} (h : field.length ≤ 0x7f) (rest : Bytes) :
    VLP (writeLP field ++ rest) [field] rest := by
  have hhigh : ∀ n : Fin 128, UInt8.ofNat n &&& 0x80 = 0 := by decide
  have hlp := lp_writeLP h rest
  rw [writeLP, take_of_length_le h] at hlp ⊢
  exact .last (hhigh ⟨field.length, by omega⟩) hlp

/-- A stamp with one empty hash is laid out as its fields are written. -/
theorem layout_writeLP {head address host path rest : Bytes} {bootstrap : List Bytes}
    (hhead : head.length = 9) (haddress : address.length ≤ 0x7f) (hhost : host.length ≤ 0x7f)
    (hpath : path.length ≤ 0x7f)
    (hrest : (∃ r, VLP rest bootstrap r) ∨ bootstrap = [] ∧ ¬ ∃ fields r, VLP rest fields r) :
    (Stamp.mk address [[]] host path bootstrap).Layout
      (head ++ writeLP address ++ [0] ++ writeLP host ++ writeLP path ++ rest) := by
  have hempty : VLP (writeLP [] ++ (writeLP host ++ (writeLP path ++ rest))) [[]] _ :=
    vlp_writeLP (by decide) _
  refine ⟨head, _, _, _, _, rest, ?_, hhead, lp_writeLP haddress _, hempty, lp_writeLP hhost _,
    lp_writeLP hpath _, hrest⟩
  simp only [append_assoc]
  rfl

end Lankeeper.DNS
