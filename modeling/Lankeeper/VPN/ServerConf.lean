import Lankeeper.Lib.Sections
import Lankeeper.VPN.Peers

/-!
# Lankeeper.VPN.ServerConf — from forms and tokens to wgs0.conf

`internal/web/handlers/vpn.go` reads the forms, `internal/services/vpn_s2s.go` the
tokens, and `configs/sysconf/wireguard-server.conf.tmpl` writes the peers into the file
that `wg-quick` runs. The template writes the values as they are, so a line break in one
of them is a line break in the file.

Each value has passed a check of its own. The names, endpoints and subnets that pass
have no line break in them. The decoder that checks a key skips line breaks, and the
keys of an invite or an ack come from the other router: `conf_sound_iff`.
-/

namespace Lankeeper.VPN

open Lib Text Lankeeper.Network List

/-! ## The template -/

/-- The lines of a peer's section. -/
def peerBody (p : WGServerPeer) : List Text :=
  ["# " ++ p.name, "PublicKey = " ++ p.publicKey] ++
  (if p.presharedKey ≠ [] then ["PresharedKey = " ++ p.presharedKey] else []) ++
  ["AllowedIPs = " ++ p.allowedIPs] ++
  (if p.endpoint ≠ [] then ["Endpoint = " ++ p.endpoint] else []) ++
  (if p.keepalive ≠ 0 then ["PersistentKeepalive = " ++ decimal p.keepalive] else [])

/-- The peers that get a section. -/
def rendered (ps : List WGServerPeer) : List WGServerPeer :=
  ps.filter fun p => ¬ p.pending ∧ p.publicKey ≠ []

def peerHeader : Text := "[Peer]"

/-- What the template writes for the peers. -/
def renderPeers (ps : List WGServerPeer) : Text :=
  (rendered ps).flatMap fun p => Sections.block peerHeader (peerBody p)

/-- The values that the template takes from a peer as they are. -/
def peerValues (p : WGServerPeer) : List Text :=
  [p.name, p.publicKey, p.presharedKey, p.allowedIPs, p.endpoint]

def isLineBreak (c : Char) : Bool :=
  c == '\n' || c == '\r'

/-- A text on one line. -/
def OneLine (t : Text) : Prop :=
  ∀ c ∈ t, isLineBreak c = false

/-- No value of a peer breaks its line, and the file has a section for each peer, with
the lines of the template. -/
structure ConfSound (c : Config) : Prop where
  values : ∀ p ∈ rendered c.vpnServer.peers, ∀ v ∈ peerValues p, OneLine v
  sections : Sections.sections peerHeader (renderPeers c.vpnServer.peers) =
    (rendered c.vpnServer.peers).map peerBody

variable {p : WGServerPeer} {t name : Text} {c : Config} {s : Serving} {now : Nat} {token : Token}

theorem mem_rendered {ps : List WGServerPeer} :
    p ∈ rendered ps ↔ p ∈ ps ∧ p.pending = false ∧ p.publicKey ≠ [] := by
  simp [rendered]

theorem oneLine_iff_any : OneLine t ↔ t.any isLineBreak = false := by
  simp [OneLine]

theorem OneLine.newline (h : OneLine t) : '\n' ∉ t := by
  intro hmem
  exact absurd (h _ hmem) (by decide)

/-- What stands in front of the values. -/
def peerKeys : List Text :=
  ["# ", "PublicKey = ", "PresharedKey = ", "AllowedIPs = ",
    "Endpoint = ", "PersistentKeepalive = "]

/-- Each line of a section has one of the template's keys and a value. -/
theorem mem_peerBody {l : Text} (h : l ∈ peerBody p) :
    ∃ key ∈ peerKeys, ∃ v ∈ peerValues p ++ [decimal p.keepalive], l = key ++ v := by
  simp only [peerBody, mem_append, mem_cons, not_mem_nil, or_false] at h
  rcases h with (((((rfl | rfl) | h) | rfl) | h) | h)
  · exact ⟨_, by simp [peerKeys], p.name, by simp [peerValues], rfl⟩
  · exact ⟨_, by simp [peerKeys], p.publicKey, by simp [peerValues], rfl⟩
  · split_ifs at h
    · exact ⟨_, by simp [peerKeys], p.presharedKey, by simp [peerValues], mem_singleton.mp h⟩
    · cases h
  · exact ⟨_, by simp [peerKeys], p.allowedIPs, by simp [peerValues], rfl⟩
  · split_ifs at h
    · exact ⟨_, by simp [peerKeys], p.endpoint, by simp [peerValues], mem_singleton.mp h⟩
    · cases h
  · split_ifs at h
    · exact ⟨_, by simp [peerKeys], decimal p.keepalive, by simp, mem_singleton.mp h⟩
    · cases h

theorem peerKeys_plain : ∀ key ∈ peerKeys, key ≠ [] ∧ key.head? ≠ some '[' ∧ '\n' ∉ key := by
  unfold peerKeys
  repeat rw [String.toList_ofList]
  decide

/-- Values on one line are enough for the sections. -/
theorem confSound_iff :
    ConfSound c ↔ ∀ p ∈ rendered c.vpnServer.peers, ∀ v ∈ peerValues p, OneLine v := by
  refine ⟨fun h => h.values, fun h => ⟨h, ?_⟩⟩
  have hrender : renderPeers c.vpnServer.peers =
      ((rendered c.vpnServer.peers).map peerBody).flatMap (Sections.block peerHeader) := by
    rw [flatMap_map, renderPeers]
  rw [hrender]
  refine (Sections.sections_flatMap_iff (by decide) (by decide) ?_).mpr ?_
  · intro body hbody line hline
    obtain ⟨p, -, rfl⟩ := mem_map.mp hbody
    obtain ⟨key, hkey, v, -, rfl⟩ := mem_peerBody hline
    obtain ⟨hne, hhead, -⟩ := peerKeys_plain key hkey
    refine ⟨by simp [hne], fun heq => hhead ?_⟩
    have hfirst := congrArg head? heq
    rwa [head?_append_of_ne_nil _ hne] at hfirst
  · intro body hbody line hline
    obtain ⟨p, hp, rfl⟩ := mem_map.mp hbody
    obtain ⟨key, hkey, v, hv, rfl⟩ := mem_peerBody hline
    rw [mem_append, not_or]
    refine ⟨(peerKeys_plain key hkey).2.2, ?_⟩
    rcases mem_append.mp hv with hv | hv
    · exact (h p hp v hv).newline
    · rw [mem_singleton.mp hv]
      intro hmem
      exact absurd (mem_decimal hmem) (by decide)

/-! ## Forms -/

/-- The locale keys of the answers to a form that is refused. -/
inductive PeerFormError
  | nameRequired
  | invalidNameCharacters
  | endpointFormat
  | invalidRemoteSubnet (bad : Text)
  | invalidName
  | invalidCIDR (bad : Text)
  | remoteSubnetRequired
  | invalidPeerName
deriving DecidableEq

/-- The form of `HandleAddPeer`. -/
structure PeerForm where
  name : Text
  endpoint : Text := []
  peerType : Text := []
  remoteSubnets : Text := []
deriving DecidableEq

/-- The form of `HandleS2SInvite`. -/
structure InviteForm where
  name : Text
  siteName : Text := []
  endpoint : Text
  remoteSubnets : Text
deriving DecidableEq

/-- `vpnNamePattern`: `[a-zA-Z0-9_-]+`. -/
def isVPNName (t : Text) : Bool :=
  t ≠ [] ∧ t.all fun c => c.isAlphanum || c == '_' || c == '-'

/-- `parseRemoteSubnets`: the entries, or the first one that is no CIDR. -/
def parseRemoteSubnets (raw : Text) : Except Text (List Text) :=
  let entries := (((trimSpace raw).splitOn ',').map trimSpace).filter (· ≠ [])
  match entries.find? fun s => (Prefix.parseCIDR s).isNone with
  | some bad => .error bad
  | none => .ok entries

def PeerForm.siteToSite (form : PeerForm) : Bool :=
  form.peerType = "site-to-site"

/-- The remote subnets of the form, which only a site-to-site peer has. -/
def PeerForm.subnets (form : PeerForm) : Except PeerFormError (List Text) :=
  if form.siteToSite then (parseRemoteSubnets form.remoteSubnets).mapError .invalidRemoteSubnet
  else .ok []

/-- The checks of `HandleAddPeer`, and the request it makes. -/
def readPeerForm (form : PeerForm) : Except PeerFormError PeerRequest := do
  failIf (form.name = []) .nameRequired
  failIf (byteLen form.name > 64 ∨ ¬ isVPNName form.name) .invalidNameCharacters
  failIf (form.endpoint ≠ [] ∧ ¬ isEndpoint form.endpoint) .endpointFormat
  let subnets ← form.subnets
  return ⟨form.name, form.siteToSite, subnets, form.endpoint⟩

/-- The checks of `HandleS2SInvite`, and the request it makes. -/
def readInviteForm (form : InviteForm) : Except PeerFormError InviteRequest := do
  failIf (form.name = [] ∨ ¬ isVPNName form.name) .invalidName
  failIf (form.endpoint = [] ∨ ':' ∉ form.endpoint) .endpointFormat
  let remote ← (parseRemoteSubnets form.remoteSubnets).mapError .invalidCIDR
  failIf (remote = []) .remoteSubnetRequired
  return ⟨form.name, form.siteName, form.endpoint, remote⟩

/-! ## Checks that keep line breaks out -/

/-- A class of characters without line breaks. -/
theorem OneLine.of_class {f : Char → Bool} (hn : f '\n' = false) (hr : f '\r' = false)
    (h : ∀ c ∈ t, f c) : OneLine t := by
  intro c hc
  rw [← Bool.not_eq_true]
  intro hbreak
  simp only [isLineBreak, Bool.or_eq_true, beq_iff_eq] at hbreak
  have hchar := h c hc
  rcases hbreak with rfl | rfl
  · cases hn.symm.trans hchar
  · cases hr.symm.trans hchar

theorem oneLine_nil : OneLine [] :=
  fun _ hc => absurd hc not_mem_nil

theorem oneLine_append {a b : Text} : OneLine (a ++ b) ↔ OneLine a ∧ OneLine b :=
  forall_mem_append

theorem oneLine_cons {c : Char} : OneLine (c :: t) ↔ isLineBreak c = false ∧ OneLine t :=
  forall_mem_cons

theorem oneLine_joinSubnets {subnets : List Text} (h : ∀ t ∈ subnets, OneLine t) :
    OneLine (joinSubnets subnets) := by
  unfold joinSubnets
  induction subnets with
  | nil => exact oneLine_nil
  | cons t subnets ih =>
    rw [forall_mem_cons] at h
    rcases subnets with _ | ⟨u, subnets⟩
    · simpa [intercalate] using h.1
    · rw [intercalate_cons_cons, oneLine_append, oneLine_append]
      exact ⟨⟨h.1, oneLine_iff_any.mpr (by decide)⟩, ih h.2⟩

theorem oneLine_of_isVPNName (h : isVPNName t) : OneLine t := by
  simp only [isVPNName, decide_eq_true_eq, all_eq_true] at h
  exact .of_class (by decide) (by decide) h.2

theorem oneLine_of_isPeerName (h : isPeerName t) : OneLine t := by
  simp only [isPeerName, decide_eq_true_eq, all_eq_true] at h
  exact .of_class (by decide) (by decide) h.2.2

theorem oneLine_of_parseCIDR {p : Prefix} (h : Prefix.parseCIDR t = some p) : OneLine t :=
  .of_class (by decide) (by decide) (Prefix.parseCIDR_chars h)

/-- What `net.SplitHostPort` takes apart. -/
theorem splitHostPort_eq {host port : Text} (h : splitHostPort t = some (host, port)) :
    t = host ++ ':' :: port ∨ t = '[' :: host ++ ']' :: ':' :: port := by
  have hwhole : t = (t.reverse.dropWhile (· ≠ ':')).reverse ++
      (t.reverse.takeWhile (· ≠ ':')).reverse := by
    rw [← reverse_append, takeWhile_append_dropWhile, reverse_reverse]
  have hcolon : ∀ c, (t.reverse.dropWhile (· ≠ ':')).head? = some c → c = ':' := by
    intro c hc
    simpa using head_dropWhile hc
  unfold splitHostPort at h
  generalize t.reverse.takeWhile (· ≠ ':') = tw at h hwhole
  generalize t.reverse.dropWhile (· ≠ ':') = dw at hwhole hcolon
  have hfront : t.take (t.length - tw.reverse.length) = dw.reverse := by
    rw [hwhole, length_append, Nat.add_sub_cancel, take_left]
  simp only [hfront] at h
  rcases dw with _ | ⟨c, back⟩
  · cases h
  -- the rest in front of the port ends in the last colon
  obtain rfl : c = ':' := hcolon c rfl
  rw [reverse_cons, if_neg (by simp), dropLast_concat] at h
  rw [reverse_cons, append_assoc, singleton_append] at hwhole
  split_ifs at h with hbracket hclosed hother
  · cases h
    right
    rw [hwhole] at hbracket
    rcases hinner : back.reverse with _ | ⟨c, inner⟩
    · rw [hinner] at hclosed
      cases hclosed.1
    rw [hinner] at hbracket hclosed hwhole
    obtain rfl : c = '[' := by simpa using hbracket
    rcases eq_nil_or_concat inner with rfl | ⟨inner, d, rfl⟩
    · exact absurd hclosed.1 (by decide)
    · have hlast := hclosed.1
      rw [concat_eq_append, ← cons_append, getLast?_concat] at hlast
      cases hlast
      simpa using hwhole
  · cases h
    exact .inl hwhole

theorem oneLine_of_isEndpoint (h : isEndpoint t) : OneLine t := by
  unfold isEndpoint at h
  split at h
  · cases h
  rename_i host port hsplit
  simp only [decide_eq_true_eq] at h
  have hport : OneLine port := by
    rcases hn : atoi port with _ | n
    · rw [hn] at h
      cases h.1
    obtain ⟨c, r, rfl, hc, hr⟩ := readInt_chars (atoi_eq_some.mp hn).1
    refine .of_class (f := fun c => c.isDigit || c == '+' || c == '-') (by decide) (by decide) ?_
    rw [forall_mem_cons]
    refine ⟨by simpa [or_assoc] using hc, fun d hd => ?_⟩
    simp [hr d hd]
  have hhost : OneLine host := by
    rcases h.2 with haddr | hdomain
    · obtain ⟨a, ha⟩ := Option.isSome_iff_exists.mp haddr
      exact .of_class (by decide) (by decide) (Address.parseIP_chars ha).2
    · simp only [isDomain, isDomainLabel, decide_eq_true_eq, all_eq_true] at hdomain
      refine forall_of_splitOn (by decide : isLineBreak '.' = false) fun label hlabel => ?_
      exact OneLine.of_class (by decide) (by decide) (hdomain.2 label hlabel).2.2.1
  rcases splitHostPort_eq hsplit with rfl | rfl
  · rw [oneLine_append, oneLine_cons]
    exact ⟨hhost, by decide, hport⟩
  · rw [oneLine_append, oneLine_cons, oneLine_cons, oneLine_cons]
    exact ⟨⟨by decide, hhost⟩, by decide, by decide, hport⟩

theorem oneLine_of_parseRemoteSubnets {raw : Text} {subnets : List Text}
    (h : parseRemoteSubnets raw = .ok subnets) : ∀ t ∈ subnets, OneLine t := by
  unfold parseRemoteSubnets at h
  dsimp only at h
  split at h
  · cases h
  rename_i hnone
  cases h
  intro t ht
  have hcidr := find?_eq_none.mp hnone t ht
  rcases hp : Prefix.parseCIDR t with _ | p
  · rw [hp] at hcidr
    exact absurd rfl hcidr
  · exact oneLine_of_parseCIDR hp

theorem oneLine_of_nextTunnelIP {ip : Text} (h : nextTunnelIP c = .ok ip) : OneLine ip := by
  have htext : ∀ f a, OneLine (ipString f a) := by
    intro f a
    refine .of_class (f := fun c => c == '.' || c == ':' || (Address.hexDigit c).isSome)
      (by decide) (by decide) fun c hc => ?_
    simpa [or_assoc] using Address.ipText_chars hc
  unfold nextTunnelIP at h
  split at h
  · simp only at h
    split at h
    · cases h
      exact oneLine_append.mpr ⟨htext _ _, oneLine_iff_any.mpr (by decide)⟩
    · cases h
  · cases h

/-! ## Submissions -/

/-- What `wg` prints, without the line end. -/
structure WGOutput where
  text : Text
  oneLine : OneLine text

/-- What a call gets from `wg` and from saving the config. -/
structure WGEnv where
  saved : Bool
  now : Nat
  /-- the key pair, and the preshared key if there is one -/
  keys : Option (WGOutput × WGOutput × Option WGOutput)
  psk : Option WGOutput

def WGEnv.env (e : WGEnv) : Env where
  saved := e.saved
  now := e.now
  keys := e.keys.map fun k => ⟨k.1.text, k.2.1.text, (k.2.2.map (·.text)).getD []⟩
  psk := e.psk.map (·.text)

/-- What reaches the handlers, and the second halves of the calls. -/
inductive Submission
  | addPeer (form : PeerForm)
  | createS2SInvite (form : InviteForm)
  | consumeInvite (now : Nat) (token : Token)
  | commit (k : Nat) (e : WGEnv)
  | finalizeInvite (saved : Bool) (now : Nat) (name : Text) (token : Token)
  | cancelInvite (saved : Bool) (name : Text)
  | gcExpiredInvites (now : Nat)
  | removePeer (saved : Bool) (name : Text)

/-- The step of the service that a submission leads to, unless a form is refused. -/
def Submission.op : Submission → Except PeerFormError Op
  | .addPeer form => (readPeerForm form).map .addPeer
  | .createS2SInvite form => (readInviteForm form).map .createS2SInvite
  | .consumeInvite now token => .ok (.consumeInvite now token)
  | .commit k e => .ok (.commit k e.env)
  | .finalizeInvite saved now name token => do
    failIf (name = [] ∨ ¬ isVPNName name) .invalidPeerName
    return .finalizeInvite saved now name token
  | .cancelInvite saved name => .ok (.cancelInvite saved name)
  | .gcExpiredInvites now => .ok (.gcExpiredInvites now)
  | .removePeer saved name => .ok (.removePeer saved name)

/-- The service under submissions. -/
def submitting : Machine Serving Submission where
  Init s := s.config.vpnServer.peers = [] ∧ s.calls = []
  step s e :=
    match e.op with
    | .error _ => s
    | .ok op => s.step op

/-! ## Which tokens break a line -/

/-- What the checks of a call guarantee. The keys of an invite are not among it. -/
def Job.Checked : Job → Prop
  | .addPeer r => OneLine r.name ∧ OneLine r.endpoint ∧ ∀ t ∈ r.remoteSubnets, OneLine t
  | .createS2SInvite r => OneLine r.peerName ∧ ∀ t ∈ r.expectedRemote, OneLine t
  | .consumeInvite inv => OneLine inv.name ∧ OneLine inv.endpoint ∧
      (∀ t ∈ inv.remoteSubnets, OneLine t) ∧ inv.publicKey ≠ []

/-- All values of the peers are on one line, also of those that are pending. -/
structure Tidy (s : Serving) : Prop where
  calls : ∀ call ∈ s.calls, call.job.Checked
  peers : ∀ p ∈ s.config.vpnServer.peers, ∀ v ∈ peerValues p, OneLine v

/-- The keys that a step takes from a token are on one line. -/
def KeysOneLine (s : Serving) : Submission → Prop
  | .commit k e => ∀ call inv, s.calls[k]? = some call → call.job = .consumeInvite inv →
      call.job.commit e.env s.config ≠ s.config →
      OneLine inv.publicKey ∧ OneLine inv.presharedKey
  | .finalizeInvite _ now name token => isVPNName name → ∀ body p,
      checkFinalize now name token s.config = .ok (body, p) → OneLine body.publicKey
  | _ => True

theorem Tidy.sound (h : Tidy s) : ConfSound s.config :=
  confSound_iff.mpr fun p hp => h.peers p (mem_rendered.mp hp).1

theorem readPeerForm_checked {form : PeerForm} {r : PeerRequest} (h : readPeerForm form = .ok r) :
    (Job.addPeer r).Checked := by
  simp only [readPeerForm, bind_ok_iff, failIf_ok_iff, not_or, not_not] at h
  obtain ⟨⟨⟩, -, ⟨⟩, hn, ⟨⟩, he, subnets, hsubnets, ⟨⟩⟩ := h
  refine ⟨oneLine_of_isVPNName hn.2, ?_, ?_⟩
  · by_cases hnil : form.endpoint = []
    · rw [hnil]
      exact oneLine_nil
    · exact oneLine_of_isEndpoint (not_not.mp fun hbad => he ⟨hnil, hbad⟩)
  · unfold PeerForm.subnets at hsubnets
    split at hsubnets
    · exact oneLine_of_parseRemoteSubnets (of_mapError_ok hsubnets)
    · cases hsubnets
      exact fun _ ht => absurd ht not_mem_nil

theorem readInviteForm_checked {form : InviteForm} {r : InviteRequest}
    (h : readInviteForm form = .ok r) : (Job.createS2SInvite r).Checked := by
  simp only [readInviteForm, bind_ok_iff, failIf_ok_iff, mapError_ok_iff, not_or, not_not] at h
  obtain ⟨⟨⟩, hn, ⟨⟩, -, remote, hremote, ⟨⟩, -, ⟨⟩⟩ := h
  exact ⟨oneLine_of_isVPNName hn.2, oneLine_of_parseRemoteSubnets hremote⟩

theorem ne_nil_of_wgKey (h : wgKey t ≠ none) : t ≠ [] := by
  rintro rfl
  exact h rfl

theorem checkConsume_checked {inv : S2SInvite} (h : checkConsume c now token = .ok inv) :
    (Job.consumeInvite inv).Checked := by
  obtain ⟨hname, hkey, -, hendpoint, hsubnets⟩ := validateInvite_ok (checkConsume_ok h).2.1
  refine ⟨oneLine_of_isPeerName hname, oneLine_of_isEndpoint hendpoint, ?_, ne_nil_of_wgKey hkey⟩
  intro t ht
  unfold validateSubnetList at hsubnets
  split at hsubnets
  · cases hsubnets
  · rename_i hnone
    have hcidr := find?_eq_none.mp hnone t (mem_append_left _ ht)
    rcases hp : Prefix.parseCIDR t with _ | p
    · simp [hp] at hcidr
    · exact oneLine_of_parseCIDR hp

/-- The values of a peer that a call appends. -/
theorem appends_oneLine {job : Job} (hjob : job.Checked) {e : WGEnv} (hp : job.Appends e.env c p)
    (hkeys : ∀ inv, job = .consumeInvite inv → OneLine inv.publicKey ∧ OneLine inv.presharedKey) :
    ∀ v ∈ peerValues p, OneLine v := by
  simp only [peerValues, forall_mem_cons]
  cases hp with
  | addPeer hgot hip hadded =>
    obtain ⟨⟨priv, pub, psk⟩, -, rfl⟩ := Option.map_eq_some_iff.mp hgot
    rw [hadded.name, hadded.publicKey, hadded.presharedKey, hadded.endpoint, hadded.allowedIPs]
    have hip := oneLine_of_nextTunnelIP hip
    refine ⟨hjob.1, pub.oneLine, ?_, ?_, hjob.2.1, by simp⟩
    · cases psk with
      | none => exact oneLine_nil
      | some psk => exact psk.oneLine
    · split
      · rw [oneLine_append, oneLine_append]
        exact ⟨⟨hip, oneLine_iff_any.mpr (by decide)⟩, oneLine_joinSubnets hjob.2.2⟩
      · exact hip
  | createS2SInvite hgot =>
    obtain ⟨psk, -, rfl⟩ := Option.map_eq_some_iff.mp hgot
    exact ⟨hjob.1, oneLine_nil, psk.oneLine, oneLine_joinSubnets hjob.2, oneLine_nil, by simp⟩
  | consumeInvite =>
    obtain ⟨hpublic, hshared⟩ := hkeys _ rfl
    exact ⟨hjob.1, hpublic, hshared, oneLine_joinSubnets hjob.2.2.1, hjob.2.1, by simp⟩

theorem Tidy.enter (h : Tidy s) {result : Except VPNError Job}
    (hresult : ∀ job, result = .ok job → job.Checked) : Tidy (s.enter result) := by
  cases result with
  | error e => exact h
  | ok job =>
    have hjob := hresult job rfl
    exact ⟨forall_mem_append.mpr ⟨h.calls, forall_mem_singleton.mpr hjob⟩, h.peers⟩

theorem Tidy.removes (h : Tidy s) {c' : Config} (hc : Removes s.config c') :
    Tidy { s with config := c' } := by
  obtain ⟨ps, rfl, hsub⟩ := hc
  exact ⟨h.calls, fun p hp => h.peers p (hsub.subset hp)⟩

theorem submitting_finalize {saved : Bool} (h : isVPNName name) :
    submitting.step s (.finalizeInvite saved now name token) =
      { s with config := (finalizeInvite saved now name token s.config).2 } := by
  have hne : name ≠ [] := by
    rintro rfl
    cases h
  simp only [submitting, Submission.op, failIf, hne, h]
  rfl

theorem submitting_finalize_refused {saved : Bool} (h : ¬ isVPNName name) :
    submitting.step s (.finalizeInvite saved now name token) = s := by
  simp only [submitting, Submission.op, failIf, h]
  simp

/-- Steps with keys on one line keep all values so. -/
theorem Tidy.step (s : Serving) (e : Submission) (h : Tidy s) (hkeys : KeysOneLine s e) :
    Tidy (submitting.step s e) := by
  cases e with
  | addPeer form =>
    simp only [submitting, Submission.op]
    rcases hform : readPeerForm form with _ | r
    · exact h
    · refine h.enter fun job hjob => ?_
      obtain ⟨⟨⟩, -, rfl⟩ := map_ok_iff.mp hjob
      exact readPeerForm_checked hform
  | createS2SInvite form =>
    simp only [submitting, Submission.op]
    rcases hform : readInviteForm form with _ | r
    · exact h
    · refine h.enter fun job hjob => ?_
      obtain ⟨⟨⟩, -, rfl⟩ := map_ok_iff.mp hjob
      exact readInviteForm_checked hform
  | consumeInvite now token =>
    refine h.enter fun job hjob => ?_
    obtain ⟨inv, hcheck, rfl⟩ := map_ok_iff.mp hjob
    exact checkConsume_checked hcheck
  | commit k e =>
    change Tidy (s.commit k e.env)
    unfold Serving.commit
    split
    · exact h
    rename_i call hcall
    have hcalls : ∀ call' ∈ s.calls.eraseIdx k, call'.job.Checked := fun call' hmem =>
      h.calls call' (mem_of_mem_eraseIdx hmem)
    refine ⟨hcalls, ?_⟩
    rcases call.job.commit_cases e.env s.config with heq | ⟨p, hp, -, heq⟩
    · rw [heq]
      exact h.peers
    have hchanged : call.job.commit e.env s.config ≠ s.config := by
      rw [heq]
      exact withPeers_append_ne _ _
    rw [heq, withPeers_peers, forall_mem_append]
    refine ⟨h.peers, fun q hq => ?_⟩
    rw [mem_singleton.mp hq]
    exact appends_oneLine (h.calls call (mem_of_getElem? hcall)) hp
      fun inv hinv => hkeys call inv hcall hinv hchanged
  | finalizeInvite saved now name token =>
    by_cases hname : isVPNName name
    · rw [submitting_finalize hname]
      refine ⟨h.calls, ?_⟩
      rcases finalizeInvite_cases saved now name token s.config with
        ⟨e, -, heq⟩ | ⟨body, p, front, back, hcheck, hpeers, heq⟩
      · rw [heq]
        exact h.peers
      have hbefore := h.peers
      rw [hpeers] at hbefore
      rw [heq]
      simp only [withPeers_peers, forall_mem_append, forall_mem_cons, peerValues]
        at hbefore ⊢
      -- only the public key is new
      obtain ⟨hfront, ⟨hn, -, hrest⟩, hback⟩ := hbefore
      exact ⟨hfront, ⟨hn, hkeys hname body p hcheck, hrest⟩, hback⟩
    · rw [submitting_finalize_refused hname]
      exact h
  | cancelInvite saved name => exact h.removes (cancelInvite_removes saved name s.config)
  | gcExpiredInvites now => exact h.removes (gcExpiredInvites_removes now s.config)
  | removePeer saved name => exact h.removes (removePeer_removes saved name s.config)

/-- A key that breaks a line gets into the file. -/
theorem keysOneLine_of_sound (s : Serving) (e : Submission) (h : Tidy s)
    (hsound : ConfSound (submitting.step s e).config) : KeysOneLine s e := by
  cases e with
  | commit k e =>
    intro call inv hcall hinv hchanged
    have hstep : submitting.step s (.commit k e) =
        ⟨call.job.commit e.env s.config, s.calls.eraseIdx k⟩ := by
      change s.commit k e.env = _
      rw [Serving.commit, hcall]
    have hjob := h.calls call (mem_of_getElem? hcall)
    rcases call.job.commit_cases e.env s.config with heq | ⟨p, hp, -, heq⟩
    · exact absurd heq hchanged
    rw [hstep, heq] at hsound
    rw [hinv] at hp hjob
    cases hp
    have hmem : joinedPeer inv ∈ rendered (s.config.vpnServer.peers ++ [joinedPeer inv]) :=
      mem_rendered.mpr ⟨by simp, rfl, hjob.2.2.2⟩
    have hvalues := hsound.values _ hmem
    exact ⟨hvalues _ (by simp [peerValues, joinedPeer]), hvalues _ (by simp [peerValues, joinedPeer])⟩
  | finalizeInvite saved now name token =>
    intro hname body p hcheck
    rw [submitting_finalize hname] at hsound
    rcases finalizeInvite_cases saved now name token s.config with
      ⟨e, herror, -⟩ | ⟨body', p', front, back, hcheck', hpeers, heq⟩
    · cases hcheck.symm.trans herror
    obtain ⟨rfl, rfl⟩ := Prod.mk.inj (Except.ok.inj (hcheck'.symm.trans hcheck))
    rw [heq] at hsound
    obtain ⟨-, ⟨-, hpub⟩, -⟩ := checkFinalize_ok hcheck
    have hmem : finalized body'.publicKey p' ∈
        rendered (front ++ finalized body'.publicKey p' :: back) :=
      mem_rendered.mpr ⟨by simp, rfl, ne_nil_of_wgKey hpub⟩
    exact hsound.values _ hmem _ (by simp [peerValues, finalized])
  | addPeer form => trivial
  | createS2SInvite form => trivial
  | consumeInvite now token => trivial
  | cancelInvite saved name => trivial
  | gcExpiredInvites now => trivial
  | removePeer saved name => trivial

/-- **Lines of wgs0.conf.** Along a run every value stays on its line, and each peer has
its section, exactly if no key that is taken from an invite or an ack has a line break. -/
theorem conf_sound_iff {s : Serving} (h : Tidy s) (es : List Submission) :
    (∀ pre, pre <+: es → ConfSound (submitting.run s pre).config) ↔
      Machine.Guarded submitting KeysOneLine s es :=
  Machine.run_iff_guarded_strengthened (P := fun s => ConfSound s.config) (E := fun _ => True)
    (fun _ => Tidy.sound) (fun s e _ => keysOneLine_of_sound s e) (fun s e _ => Tidy.step s e) h
    fun _ _ => trivial

/-- An invite from the site with the LAN 10.60.0.0/16, with the given public key. -/
def headquartersInvite (key : Text) : S2SInvite where
  version := inviteSchemaVersion
  kind := tokenKindInvite
  name := "hq"
  endpoint := "203.0.113.1:51820"
  publicKey := key
  presharedKey := replicate 43 'B' ++ "="
  remoteSubnets := ["10.60.0.0/16"]
  expectedSubnets := ["192.168.1.0/24"]
  createdAt := 0
  expiresAt := 0

/-- The office router joins: both halves of `ConsumeInvite`. -/
def joining (key : Text) : List Submission :=
  [.consumeInvite 0 (.invite (headquartersInvite key)), .commit 0 ⟨true, 0, none, none⟩]

theorem officeConfig_tidy : Tidy ⟨officeConfig, []⟩ :=
  ⟨fun _ h => absurd h not_mem_nil, fun _ h => absurd h not_mem_nil⟩

theorem officeConfig_joined :
    ConfSound (submitting.run ⟨officeConfig, []⟩ (joining (replicate 43 'A' ++ "="))).config := by
  have hguard : Machine.Guarded submitting KeysOneLine ⟨officeConfig, []⟩
      (joining (replicate 43 'A' ++ "=")) := by
    refine ⟨trivial, ?_, trivial⟩
    intro call inv hcall hinv _
    have hjobs : (submitting.step ⟨officeConfig, []⟩ (.consumeInvite 0 (.invite
        (headquartersInvite (replicate 43 'A' ++ "="))))).calls.map (·.job) =
        [.consumeInvite (headquartersInvite (replicate 43 'A' ++ "="))] := by
      decide +kernel
    have hmem := mem_map_of_mem (f := (·.job)) (mem_of_getElem? hcall)
    rw [hjobs, mem_singleton, hinv] at hmem
    obtain rfl := Job.consumeInvite.inj hmem
    exact ⟨oneLine_iff_any.mpr (by decide), oneLine_iff_any.mpr (by decide)⟩
  exact (conf_sound_iff officeConfig_tidy _).mpr hguard _ (prefix_refl _)

/-- The decoder reads past the line end in the key, which the template then writes. -/
theorem key_breaks_line :
    ¬ ConfSound (submitting.run ⟨officeConfig, []⟩
      (joining (replicate 40 'A' ++ "\nAAA="))).config := by
  have hpeers : (submitting.run ⟨officeConfig, []⟩
      (joining (replicate 40 'A' ++ "\nAAA="))).config.vpnServer.peers =
      [joinedPeer (headquartersInvite (replicate 40 'A' ++ "\nAAA="))] := by
    decide +kernel
  intro h
  have hvalues := h.values
  rw [hpeers] at hvalues
  have hkey := hvalues _ (mem_rendered.mpr ⟨mem_singleton_self _, rfl, by decide⟩)
    (replicate 40 'A' ++ "\nAAA=") (by simp [peerValues, joinedPeer, headquartersInvite])
  exact absurd (hkey.newline) (by decide)

end Lankeeper.VPN
