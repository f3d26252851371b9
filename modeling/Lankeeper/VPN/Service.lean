import Lankeeper.Lib.NetworkText
import Lankeeper.Network.Config

/-!
# Lankeeper.VPN.Service — WireGuard peers and site-to-site links

`internal/services/vpn.go` and `internal/services/vpn_s2s.go`: the peer list of the
WireGuard server and the three calls that add to it. `AddPeer` is the manual form.
`CreateS2SInvite` adds a pending peer and hands out an invite, `ConsumeInvite` adds
the inviting router on the other side and answers with an ack, and `FinalizeInvite`
completes the pending peer from the ack.

Each of the three checks the new peer's subnets first, without holding the lock that
guards the append. The two halves have a definition each (`checkPeer` and
`commitPeer`, for example), and the call is one after the other.

A token is modelled by what decoding it gives. The preshared key of an invite is the
key of the ack's MAC; `Mac.hmac` is injective in the key and the body.
-/

namespace Lankeeper.VPN

open Lib Text Lankeeper.Network

/-! ## Errors and tokens -/

/-- What is wrong with a token that `ErrInviteMalformed` reports. -/
inductive TokenFault
  | decode
  | kind (k : Text)
  | name (n : Text)
  | publicKey
  | presharedKey
  | endpoint (e : Text)
  | noSubnets
  | cidr (s : Text)
  | ackName (got want : Text)
deriving DecidableEq

/-- Why a call fails. -/
inductive VPNError
  | inviteExpired
  | inviteSignature
  | inviteSchema (got : Int)
  | inviteMalformed (why : TokenFault)
  | peerNotPending
  | subnetConflict (subnet : Text)
  | subnetNotPrivate (subnet : Text)
  | nameInUse (name : Text)
  | subnetMismatch (expected lans : List Text)
  | serverKeyMissing
  | peerName (name : Text)
  | endpoint (e : Text)
  | noLANSubnet
  | serverAddress (a : Text)
  | noFreeTunnelIP
  | notFound (name : Text)
  -- the preshared key of the pending peer is not a WireGuard key
  | presharedKey
  -- `wg` did not generate a key
  | generate
  -- the config file was not written
  | save
deriving DecidableEq

/-- `S2SInvite`. -/
structure S2SInvite where
  version : Int
  kind : Text
  name : Text
  siteName : Text := []
  endpoint : Text
  publicKey : Text
  presharedKey : Text
  remoteSubnets : List Text
  expectedSubnets : List Text
  createdAt : Nat
  expiresAt : Nat
deriving DecidableEq

/-- `S2SAck`. -/
structure S2SAck where
  version : Int
  kind : Text
  name : Text
  publicKey : Text
  createdAt : Nat
deriving DecidableEq

/-- The MAC of an ack. -/
inductive Mac
  | hmac (key : Nat) (body : S2SAck)
  -- bytes that are no MAC of anything
  | junk
deriving DecidableEq

/-- What the text of a token decodes to. -/
inductive Token
  | invite (inv : S2SInvite)
  | ack (body : S2SAck) (mac : Mac)
  | junk
deriving DecidableEq

/-- `inviteSchemaVersion`. -/
def inviteSchemaVersion : Int := 2

/-- `inviteDefaultTTL`, an hour. -/
def inviteDefaultTTL : Nat := 3600000000000

/-- `tokenKindInvite`. -/
def tokenKindInvite : Text := "invite"

/-- `tokenKindAck`. -/
def tokenKindAck : Text := "ack"

/-- `Truncate(time.Second)`. -/
def truncateSecond (t : Nat) : Nat :=
  t / 1000000000 * 1000000000

/-! ## Fields -/

/-- `s2sNamePattern`: `[A-Za-z0-9_-]{1,64}`. -/
def isPeerName (t : Text) : Bool :=
  t ≠ [] ∧ t.length ≤ 64 ∧ t.all fun c => c.isAlphanum || c == '_' || c == '-'

def base64Digit (c : Char) : Option Nat :=
  if 'A' ≤ c ∧ c ≤ 'Z' then some (c.toNat - 'A'.toNat)
  else if 'a' ≤ c ∧ c ≤ 'z' then some (c.toNat - 'a'.toNat + 26)
  else if c.isDigit then some (c.toNat - '0'.toNat + 52)
  else if c = '+' then some 62
  else if c = '/' then some 63
  else none

/-- The 32 bytes of a WireGuard key, as a number. The decoder skips line breaks, and it
does not look at the two bits of the last digit behind the 256th. -/
def wgKey (t : Text) : Option Nat :=
  let s := t.filter fun c => c ≠ '\r' ∧ c ≠ '\n'
  if s.length = 44 ∧ s.getLast? = some '=' then
    ((s.take 43).mapM base64Digit).map fun ds => ds.foldl (fun n d => n * 64 + d) 0 / 4
  else none

/-- `net.SplitHostPort`. -/
def splitHostPort (t : Text) : Option (Text × Text) :=
  -- the last colon is in front of the port
  let port := t.reverse.takeWhile (· ≠ ':') |>.reverse
  let front := t.take (t.length - port.length)
  if front = [] then none
  else
    let host := front.dropLast
    if t.head? = some '[' then
      -- the first closing bracket is right in front of that colon
      if host.getLast? = some ']' ∧ ']' ∉ host.dropLast ∧ '[' ∉ t.tail ∧ ']' ∉ port then
        some (host.tail.dropLast, port)
      else none
    else if ':' ∈ host ∨ '[' ∈ t ∨ ']' ∈ t then none
    else some (host, port)

/-- A label of `domainPattern`. -/
def isDomainLabel (l : Text) : Bool :=
  l ≠ [] ∧ l.length ≤ 63 ∧ (l.all fun c => c.isAlphanum || c == '-') ∧
    l.head? ≠ some '-' ∧ l.getLast? ≠ some '-'

/-- `ValidateDomain`. -/
def isDomain (t : Text) : Bool :=
  byteLen t ≤ 253 ∧ (t.splitOn '.').all isDomainLabel

/-- `validateS2SEndpoint`: a host and a port. -/
def isEndpoint (t : Text) : Bool :=
  match splitHostPort t with
  | none => false
  | some (host, port) =>
    (atoi port).any (fun n => 1 ≤ n ∧ n ≤ 65535) ∧
      ((Address.parseIP host).isSome ∨ isDomain host)

/-- `checkTokenHeader`. -/
def checkTokenHeader (version : Int) (kind want : Text) : Except VPNError Unit := do
  failIf (version ≠ inviteSchemaVersion) (.inviteSchema version)
  failIf (kind ≠ want) (.inviteMalformed (.kind kind))

/-- `validateSubnetList`. -/
def validateSubnetList (subnets : List Text) : Except TokenFault Unit :=
  match subnets.find? fun s => Prefix.parseCIDR s = none with
  | some s => .error (.cidr s)
  | none => .ok ()

/-- `validateInvite`. -/
def validateInvite (inv : S2SInvite) : Except TokenFault Unit := do
  failIf (¬ isPeerName inv.name) (.name inv.name)
  failIf (wgKey inv.publicKey = none) .publicKey
  failIf (wgKey inv.presharedKey = none) .presharedKey
  failIf (¬ isEndpoint inv.endpoint) (.endpoint inv.endpoint)
  failIf (inv.remoteSubnets = [] ∨ inv.expectedSubnets = []) .noSubnets
  validateSubnetList (inv.remoteSubnets ++ inv.expectedSubnets)

/-- `ParseInviteToken`. -/
def parseInviteToken (now : Nat) : Token → Except VPNError S2SInvite
  | .invite inv => do
    checkTokenHeader inv.version inv.kind tokenKindInvite
    failIf (inv.expiresAt ≠ 0 ∧ inv.expiresAt < now) .inviteExpired
    (validateInvite inv).mapError .inviteMalformed
    return inv
  | _ => .error (.inviteMalformed .decode)

/-- `ackMAC`. -/
def ackMAC (body : S2SAck) (psk : Text) : Except VPNError Mac :=
  match wgKey psk with
  | none => .error .presharedKey
  | some key => .ok (.hmac key body)

/-- `signAck`. -/
def signAck (a : S2SAck) (psk : Text) : Except VPNError Token := do
  let mac ← ackMAC a psk
  return .ack a mac

/-- `ParseAckToken`. -/
def parseAckToken : Token → Except VPNError (S2SAck × Mac)
  | .ack body mac => do
    checkTokenHeader body.version body.kind tokenKindAck
    failIf (wgKey body.publicKey = none) (.inviteMalformed .publicKey)
    return (body, mac)
  | _ => .error (.inviteMalformed .decode)

/-- `verifyAck`. -/
def verifyAck (body : S2SAck) (mac : Mac) (psk : Text) : Except VPNError Unit := do
  let want ← ackMAC body psk
  failIf (want ≠ mac) .inviteSignature

/-! ## Subnets -/

/-- `net.ParseCIDR(strings.TrimSpace(cidr))`, the network. -/
def parseSubnet (t : Text) : Option Network :=
  Network.parse (trimSpace t)

/-- An IPv4 address without a mask is taken as a /24. -/
def withMask (addr : Text) : Text :=
  if '/' ∉ addr ∧ '.' ∈ addr then addr ++ "/24" else addr

/-- `addressToSubnet`. -/
def addressToSubnet (addr : Text) : Text :=
  let a := withMask (trimSpace addr)
  match Network.parse a with
  | some n => n.toText
  | none => a

/-- `lanSubnets`. -/
def lanSubnets (c : Config) : List Text :=
  (c.interfaces.filter fun i => i.role = "lan".toList ∧ i.address ≠ []).map fun i =>
    addressToSubnet i.address

/-- `reservedSubnets`. -/
def reservedSubnets (c : Config) : List Text :=
  lanSubnets c ++
    if c.vpnServer.address ≠ [] then [addressToSubnet c.vpnServer.address] else []

/-- The entries of a peer's `AllowedIPs`. -/
def allowedEntries (p : WGServerPeer) : List Text :=
  ((p.allowedIPs.splitOn ',').map trimSpace).filter (· ≠ [])

/-- `claimedSubnets`. -/
def claimedSubnets (c : Config) : List Text :=
  reservedSubnets c ++
  ((c.vlans.filter fun v => v.address ≠ []).map fun v => addressToSubnet v.address) ++
  (if c.ovpnServer.enabled ∧ c.ovpnServer.subnet ≠ [] then [c.ovpnServer.subnet] else []) ++
  c.vpnServer.peers.flatMap fun p => allowedEntries p ++ p.remoteSubnets

/-- `IP.IsPrivate`. -/
def isPrivate : Family → Nat → Bool
  | .ip4, a => a >>> 24 = 10 ∨ a >>> 20 = 0xac1 ∨ a >>> 16 = 0xc0a8
  | .ip6, a => a >>> 121 = 0x7e

/-- The last address of a network. -/
def lastAddress (n : Network) : Nat :=
  n.base + (1 <<< (n.family.bits - n.len) - 1)

/-- `privateLANPrefix`. -/
def privateLANPrefix (cidr : Text) : Bool :=
  match parseSubnet cidr with
  | none => false
  | some n => isPrivate n.family n.base && isPrivate n.family (lastAddress n)

/-- `subnetsConflict`: the first remote subnet that overlaps a local one. -/
def subnetsConflict (c : Config) (remote : List Text) : Option Text :=
  remote.find? fun r => (parseSubnet r).any fun n =>
    (claimedSubnets c).any fun l => (parseSubnet l).any n.overlaps

/-- `checkRemoteSubnets`. -/
def checkRemoteSubnets (c : Config) (remote : List Text) : Except VPNError Unit :=
  match remote.find? fun r => ¬ privateLANPrefix r with
  | some r => .error (.subnetNotPrivate r)
  | none =>
    match subnetsConflict c remote with
    | some r => .error (.subnetConflict r)
    | none => .ok ()

/-- `canon` of `sameSubnets`: the networks as texts. -/
def canon (list : List Text) : List Text :=
  (list.filterMap parseSubnet).map Network.toText

/-- `sameSubnets`. The lists are sorted there and each text is kept once, so they are
equal if they have the same members. -/
def sameSubnets (a b : List Text) : Bool :=
  (canon a).all (canon b).contains && (canon b).all (canon a).contains

/-! ## Tunnel addresses -/

/-- `To4`: an address mapped into IPv6 is the IPv4 one. -/
def to4 (f : Family) (a : Nat) : Family × Nat :=
  if f = .ip6 ∧ a >>> 32 = 0xffff then (.ip4, a &&& 0xffffffff) else (f, a)

/-- `IP.String`. -/
def ipString (f : Family) (a : Nat) : Text :=
  Address.ipText (to4 f a).1 (to4 f a).2

/-- `usedTunnelIPs`. -/
def usedTunnelIPs (c : Config) : List Text :=
  c.vpnServer.peers.map fun p =>
    (trimSpace (p.allowedIPs.takeWhile (· ≠ ','))).takeWhile (· ≠ '/')

/-- `nextIP`, which wraps around. -/
def nextIP (f : Family) (a : Nat) : Nat :=
  if (a + 1) >>> f.bits = 0 then a + 1 else 0

/-- The search of `nextTunnelIP`, for as many addresses as the pool has. -/
def freeTunnelIP (pool : Network) (used : List Text) : Nat → Nat → Option Nat
  | 0, _ => none
  | fuel + 1, ip =>
    let inPool (a : Nat) : Bool := pool.contains (to4 pool.family a).1 (to4 pool.family a).2
    if ¬ inPool ip then none
    -- the broadcast address
    else if ¬ inPool (nextIP pool.family ip) then none
    else if ipString pool.family ip ∉ used then some ip
    else freeTunnelIP pool used fuel (nextIP pool.family ip)

/-- `nextTunnelIP`. -/
def nextTunnelIP (c : Config) : Except VPNError Text :=
  match Prefix.parseCIDR (trimSpace c.vpnServer.address), parseSubnet c.vpnServer.address with
  | some server, some pool =>
    let used := ipString server.family server.addr :: usedTunnelIPs c
    match freeTunnelIP pool used (1 <<< (pool.family.bits - pool.len))
        (nextIP pool.family pool.base) with
    | some ip => .ok (ipString pool.family ip ++ "/32")
    | none => .error .noFreeTunnelIP
  | _, _ => .error (.serverAddress c.vpnServer.address)

/-! ## Changes of the peer list -/

/-- The config with another peer list. -/
def withPeers (c : Config) (ps : List WGServerPeer) : Config :=
  { c with vpnServer := { c.vpnServer with peers := ps } }

/-- `persist`. A list that could not be written stays in memory. -/
def persist (saved : Bool) : Except VPNError Unit :=
  if saved then .ok () else .error .save

/-- `peerNameTakenLocked`. -/
def peerNameTaken (c : Config) (name : Text) : Bool :=
  c.vpnServer.peers.any (·.name = name)

/-- `appendPeer`. -/
def appendPeer (saved : Bool) (p : WGServerPeer) (c : Config) : Except VPNError Unit × Config :=
  if peerNameTaken c p.name then (.error (.nameInUse p.name), c)
  else (persist saved, withPeers c (c.vpnServer.peers ++ [p]))

/-- `strings.Join(subnets, ", ")`. -/
def joinSubnets (subnets : List Text) : Text :=
  ", ".toList.intercalate subnets

/-! ### AddPeer -/

/-- The arguments of `AddPeer`. -/
structure PeerRequest where
  name : Text
  siteToSite : Bool
  remoteSubnets : List Text
  endpoint : Text
deriving DecidableEq

/-- `GenerateKeypair` and `GeneratePresharedKey`. -/
structure PeerKeys where
  privateKey : Text
  publicKey : Text
  /-- empty if it could not be generated -/
  presharedKey : Text
deriving DecidableEq

/-- What `AddPeer` checks before it takes the lock. -/
def checkPeer (c : Config) (r : PeerRequest) : Except VPNError Unit := do
  checkRemoteSubnets c r.remoteSubnets
  checkIf (r.endpoint ≠ []) (failIf (¬ isEndpoint r.endpoint) (.endpoint r.endpoint))

/-- What `AddPeer` does under the lock. -/
def commitPeer (saved : Bool) (keys : PeerKeys) (r : PeerRequest) (c : Config) :
    Except VPNError WGServerPeer × Config :=
  if peerNameTaken c r.name then (.error (.nameInUse r.name), c)
  else
    match nextTunnelIP c with
    | .error e => (.error e, c)
    | .ok ip =>
      let p : WGServerPeer :=
        { name := r.name, publicKey := keys.publicKey, privateKey := keys.privateKey
          presharedKey := keys.presharedKey
          allowedIPs :=
            if r.siteToSite ∧ r.remoteSubnets ≠ [] then
              ip ++ ", " ++ joinSubnets r.remoteSubnets
            else ip
          keepalive := 25, endpoint := r.endpoint, remoteSubnets := r.remoteSubnets
          isSiteToSite := r.siteToSite }
      ((persist saved).map fun _ => p, withPeers c (c.vpnServer.peers ++ [p]))

/-- `AddPeer`. There are no keys if generating the key pair fails. -/
def addPeer (saved : Bool) (keys : Option PeerKeys) (r : PeerRequest) (c : Config) :
    Except VPNError WGServerPeer × Config :=
  match checkPeer c r, keys with
  | .error e, _ => (.error e, c)
  | .ok (), none => (.error .generate, c)
  | .ok (), some keys => commitPeer saved keys r c

/-! ### CreateS2SInvite -/

/-- The arguments of `CreateS2SInvite`. -/
structure InviteRequest where
  peerName : Text
  siteName : Text
  endpoint : Text
  expectedRemote : List Text
deriving DecidableEq

/-- `validateInviteRequest`. -/
def validateInviteRequest (c : Config) (r : InviteRequest) : Except VPNError Unit := do
  failIf (¬ isPeerName r.peerName) (.peerName r.peerName)
  failIf (¬ isEndpoint r.endpoint) (.endpoint r.endpoint)
  failIf (c.vpnServer.publicKey = []) .serverKeyMissing
  failIf (r.expectedRemote = [] ∨ lanSubnets c = []) .noLANSubnet
  checkRemoteSubnets c r.expectedRemote

/-- The pending peer of an invite. -/
def pendingPeer (now : Nat) (psk : Text) (r : InviteRequest) : WGServerPeer where
  name := r.peerName
  presharedKey := psk
  allowedIPs := joinSubnets r.expectedRemote
  keepalive := 25
  remoteSubnets := r.expectedRemote
  isSiteToSite := true
  pending := true
  inviteExpiresAt := truncateSecond now + inviteDefaultTTL

/-- The invite. -/
def inviteOf (now : Nat) (psk : Text) (r : InviteRequest) (c : Config) : S2SInvite where
  version := inviteSchemaVersion
  kind := tokenKindInvite
  name := r.peerName
  siteName := r.siteName
  endpoint := r.endpoint
  publicKey := c.vpnServer.publicKey
  presharedKey := psk
  remoteSubnets := lanSubnets c
  expectedSubnets := r.expectedRemote
  createdAt := truncateSecond now
  expiresAt := truncateSecond now + inviteDefaultTTL

/-- What `CreateS2SInvite` does after its checks. -/
def commitInvite (saved : Bool) (now : Nat) (psk : Text) (r : InviteRequest) (c : Config) :
    Except VPNError (Token × WGServerPeer) × Config :=
  let (result, c') := appendPeer saved (pendingPeer now psk r) c
  (result.map fun _ => (.invite (inviteOf now psk r c), pendingPeer now psk r), c')

/-- `CreateS2SInvite`. There is no preshared key if `wg` does not generate one. -/
def createS2SInvite (saved : Bool) (now : Nat) (psk : Option Text) (r : InviteRequest) (c : Config) :
    Except VPNError (Token × WGServerPeer) × Config :=
  match validateInviteRequest c r, psk with
  | .error e, _ => (.error e, c)
  | .ok (), none => (.error .generate, c)
  | .ok (), some psk => commitInvite saved now psk r c

/-! ### ConsumeInvite -/

/-- `checkInviteSubnets`. -/
def checkInviteSubnets (c : Config) (inv : S2SInvite) : Except VPNError Unit := do
  failIf (¬ sameSubnets inv.expectedSubnets (lanSubnets c))
    (.subnetMismatch inv.expectedSubnets (lanSubnets c))
  checkRemoteSubnets c inv.remoteSubnets

/-- What `ConsumeInvite` checks before it adds the peer. -/
def checkConsume (c : Config) (now : Nat) (token : Token) : Except VPNError S2SInvite := do
  let inv ← parseInviteToken now token
  failIf (c.vpnServer.publicKey = []) .serverKeyMissing
  checkInviteSubnets c inv
  return inv

/-- The inviting router, as a peer of the joining one. -/
def joinedPeer (inv : S2SInvite) : WGServerPeer where
  name := inv.name
  publicKey := inv.publicKey
  presharedKey := inv.presharedKey
  allowedIPs := joinSubnets inv.remoteSubnets
  keepalive := 25
  endpoint := inv.endpoint
  remoteSubnets := inv.remoteSubnets
  isSiteToSite := true

/-- The answer to an invite. -/
def ackOf (now : Nat) (inv : S2SInvite) (c : Config) : S2SAck where
  version := inviteSchemaVersion
  kind := tokenKindAck
  name := inv.name
  publicKey := c.vpnServer.publicKey
  createdAt := truncateSecond now

/-- What `ConsumeInvite` does after its checks. -/
def commitConsume (saved : Bool) (now : Nat) (inv : S2SInvite) (c : Config) :
    Except VPNError (Token × WGServerPeer) × Config :=
  let (result, c') := appendPeer saved (joinedPeer inv) c
  (result.bind fun _ => (signAck (ackOf now inv c) inv.presharedKey).map (·, joinedPeer inv), c')

/-- `ConsumeInvite`. -/
def consumeInvite (saved : Bool) (now : Nat) (token : Token) (c : Config) :
    Except VPNError (Token × WGServerPeer) × Config :=
  match checkConsume c now token with
  | .error e => (.error e, c)
  | .ok inv => commitConsume saved now inv c

/-! ### FinalizeInvite, CancelInvite, GCExpiredInvites, RemovePeer -/

/-- Is the peer an invite whose time is over? -/
def expired (now : Nat) (p : WGServerPeer) : Bool :=
  p.inviteExpiresAt ≠ 0 ∧ p.inviteExpiresAt < now

/-- `pendingPeerIndexLocked`, the peer at the index. -/
def findPending (now : Nat) (name : Text) (c : Config) : Except VPNError WGServerPeer :=
  match c.vpnServer.peers.find? (·.name = name) with
  | none => .error (.notFound name)
  | some p =>
    if ¬ p.pending then .error .peerNotPending
    else if expired now p then .error .inviteExpired
    else .ok p

/-- The peer with the public key from the ack. -/
def finalized (key : Text) (p : WGServerPeer) : WGServerPeer :=
  { p with publicKey := key, pending := false, inviteExpiresAt := 0 }

/-- What `FinalizeInvite` checks: the ack and the peer it is for. -/
def checkFinalize (now : Nat) (name : Text) (token : Token) (c : Config) :
    Except VPNError (S2SAck × WGServerPeer) := do
  let (body, mac) ← parseAckToken token
  failIf (body.name ≠ name) (.inviteMalformed (.ackName body.name name))
  let p ← findPending now name c
  verifyAck body mac p.presharedKey
  return (body, p)

/-- `FinalizeInvite`. -/
def finalizeInvite (saved : Bool) (now : Nat) (name : Text) (token : Token) (c : Config) :
    Except VPNError WGServerPeer × Config :=
  match checkFinalize now name token c with
  | .error e => (.error e, c)
  | .ok (body, p) =>
    ((persist saved).map fun _ => finalized body.publicKey p,
      withPeers c (c.vpnServer.peers.set (c.vpnServer.peers.findIdx (·.name = name))
        (finalized body.publicKey p)))

/-- `CancelInvite`. -/
def cancelInvite (saved : Bool) (name : Text) (c : Config) : Except VPNError Unit × Config :=
  match c.vpnServer.peers.find? (·.name = name) with
  | none => (.ok (), c)
  | some p =>
    if ¬ p.pending then (.error .peerNotPending, c)
    else (persist saved, withPeers c (c.vpnServer.peers.eraseP (·.name = name)))

/-- `GCExpiredInvites`, with the number of peers reaped. -/
def gcExpiredInvites (now : Nat) (c : Config) : Nat × Config :=
  let kept := c.vpnServer.peers.filter fun p => ¬ (p.pending ∧ expired now p)
  (c.vpnServer.peers.length - kept.length, withPeers c kept)

/-- `RemovePeer`. -/
def removePeer (saved : Bool) (name : Text) (c : Config) : Except VPNError Unit × Config :=
  match c.vpnServer.peers.find? (·.name = name) with
  | none => (.error (.notFound name), c)
  | some _ => (persist saved, withPeers c (c.vpnServer.peers.eraseP (·.name = name)))

/-! ## What the calls do to the peer list -/

@[simp] theorem withPeers_peers (c : Config) (ps : List WGServerPeer) :
    (withPeers c ps).vpnServer.peers = ps := rfl

theorem withPeers_append_ne (c : Config) (p : WGServerPeer) :
    withPeers c (c.vpnServer.peers ++ [p]) ≠ c := by
  intro hsame
  have hpeers := congrArg (fun c : Config => c.vpnServer.peers) hsame
  simp at hpeers

theorem peerNameTaken_eq_false {c : Config} {name : Text} :
    peerNameTaken c name = false ↔ ∀ p ∈ c.vpnServer.peers, p.name ≠ name := by
  simp [peerNameTaken]

theorem appendPeer_cases (saved : Bool) (p : WGServerPeer) (c : Config) :
    appendPeer saved p c = (.error (.nameInUse p.name), c) ∨
      (∀ q ∈ c.vpnServer.peers, q.name ≠ p.name) ∧
        appendPeer saved p c = (persist saved, withPeers c (c.vpnServer.peers ++ [p])) := by
  unfold appendPeer
  split
  · exact .inl rfl
  · rename_i hfree
    exact .inr ⟨peerNameTaken_eq_false.mp (by simpa using hfree), rfl⟩

/-- The peer that `AddPeer` appends, with its tunnel address. -/
structure Added (keys : PeerKeys) (r : PeerRequest) (ip : Text) (p : WGServerPeer) : Prop where
  name : p.name = r.name
  publicKey : p.publicKey = keys.publicKey
  presharedKey : p.presharedKey = keys.presharedKey
  allowedIPs : p.allowedIPs =
    if r.siteToSite ∧ r.remoteSubnets ≠ [] then ip ++ ", " ++ joinSubnets r.remoteSubnets
    else ip
  endpoint : p.endpoint = r.endpoint
  remoteSubnets : p.remoteSubnets = r.remoteSubnets
  pending : p.pending = false

theorem commitPeer_cases (saved : Bool) (keys : PeerKeys) (r : PeerRequest) (c : Config) :
    (commitPeer saved keys r c).2 = c ∨ ∃ ip p, nextTunnelIP c = .ok ip ∧ Added keys r ip p ∧
      (∀ q ∈ c.vpnServer.peers, q.name ≠ p.name) ∧
      (commitPeer saved keys r c).2 = withPeers c (c.vpnServer.peers ++ [p]) := by
  unfold commitPeer
  split
  · exact .inl rfl
  rename_i hfree
  split
  · exact .inl rfl
  · rename_i ip hip
    exact .inr ⟨ip, _, hip, ⟨rfl, rfl, rfl, rfl, rfl, rfl, rfl⟩,
      peerNameTaken_eq_false.mp (by simpa using hfree), rfl⟩

theorem validateInvite_ok {inv : S2SInvite} (h : validateInvite inv = .ok ()) :
    isPeerName inv.name ∧ wgKey inv.publicKey ≠ none ∧ wgKey inv.presharedKey ≠ none ∧
      isEndpoint inv.endpoint ∧
      validateSubnetList (inv.remoteSubnets ++ inv.expectedSubnets) = .ok () := by
  simp only [validateInvite, bind_ok_iff, failIf_ok_iff, exists_const, not_not] at h
  obtain ⟨hname, hkey, hpsk, hendpoint, -, h⟩ := h
  exact ⟨hname, hkey, hpsk, hendpoint, h⟩

/-- What an invite that is consumed has to be. -/
theorem checkConsume_ok {c : Config} {now : Nat} {token : Token} {inv : S2SInvite}
    (h : checkConsume c now token = .ok inv) :
    token = .invite inv ∧ validateInvite inv = .ok () ∧
      sameSubnets inv.expectedSubnets (lanSubnets c) ∧
      checkRemoteSubnets c inv.remoteSubnets = .ok () := by
  simp only [checkConsume, checkInviteSubnets, bind_ok_iff, failIf_ok_iff, exists_const,
    not_not] at h
  obtain ⟨inv', hparse, -, ⟨⟩, ⟨hsame, hcheck⟩, ⟨⟩⟩ := h
  cases token with
  | ack body mac => cases hparse
  | junk => cases hparse
  | invite inv' =>
    simp only [parseInviteToken, bind_ok_iff, mapError_ok_iff] at hparse
    obtain ⟨⟨⟩, -, ⟨⟩, -, ⟨⟩, hvalid, ⟨⟩⟩ := hparse
    exact ⟨rfl, hvalid, hsame, hcheck⟩

/-- What an ack that passes has to be. -/
theorem checkFinalize_ok {now : Nat} {name : Text} {token : Token} {c : Config} {body : S2SAck}
    {p : WGServerPeer} (h : checkFinalize now name token c = .ok (body, p)) :
    ∃ key, (token = .ack body (.hmac key body) ∧ wgKey body.publicKey ≠ none) ∧ body.name = name ∧
      c.vpnServer.peers.find? (·.name = name) = some p ∧ p.pending ∧
      expired now p = false ∧ wgKey p.presharedKey = some key := by
  simp only [checkFinalize, verifyAck, bind_ok_iff, failIf_ok_iff, exists_const, not_not] at h
  -- the MAC is the one made with the peer's key
  obtain ⟨⟨body, mac⟩, htoken, hname, p, hq, ⟨want, hwant, rfl⟩, ⟨⟩⟩ := h
  unfold ackMAC at hwant
  split at hwant
  · cases hwant
  rename_i key hkey
  have htok : token = .ack body want ∧ wgKey body.publicKey ≠ none := by
    cases token with
    | invite inv => cases htoken
    | junk => cases htoken
    | ack b m =>
      simp only [parseAckToken, bind_ok_iff, failIf_ok_iff] at htoken
      obtain ⟨⟨⟩, -, ⟨⟩, hpub, ⟨⟩⟩ := htoken
      exact ⟨rfl, hpub⟩
  unfold findPending at hq
  split at hq
  · cases hq
  · rename_i r hr
    split_ifs at hq with hpending hexpired
    cases hq
    refine ⟨key, ⟨?_, htok.2⟩, hname, hr, by simpa using hpending, by simpa using hexpired, hkey⟩
    rw [htok.1, ← Except.ok.inj hwant]

theorem finalizeInvite_cases (saved : Bool) (now : Nat) (name : Text) (token : Token) (c : Config) :
    (∃ e, checkFinalize now name token c = .error e ∧
        finalizeInvite saved now name token c = (.error e, c)) ∨
      ∃ body p front back, checkFinalize now name token c = .ok (body, p) ∧
        c.vpnServer.peers = front ++ p :: back ∧
        finalizeInvite saved now name token c =
          ((persist saved).map fun _ => finalized body.publicKey p,
            withPeers c (front ++ finalized body.publicKey p :: back)) := by
  unfold finalizeInvite
  split
  · rename_i e hcheck
    exact .inl ⟨e, hcheck, rfl⟩
  · rename_i body p hcheck
    obtain ⟨-, -, -, hfind, -⟩ := checkFinalize_ok hcheck
    obtain ⟨front, back, hpeers, -, -, hset⟩ := exists_split_of_find hfind
    exact .inr ⟨body, p, front, back, hcheck, hpeers, by rw [hset]⟩

/-- `CancelInvite` removes nothing but a pending peer. -/
theorem cancelInvite_cases (saved : Bool) (name : Text) (c : Config) :
    (cancelInvite saved name c).2 = c ∨ ∃ p front back, p.pending ∧
      c.vpnServer.peers = front ++ p :: back ∧
      (cancelInvite saved name c).2 = withPeers c (front ++ back) := by
  unfold cancelInvite
  split
  · exact .inl rfl
  rename_i p hfind
  split
  · exact .inl rfl
  · rename_i hpending
    obtain ⟨front, back, hpeers, -, herase, -⟩ := exists_split_of_find hfind
    exact .inr ⟨p, front, back, by simpa using hpending, hpeers, by rw [herase]⟩

/-- `RemovePeer` removes nothing but a peer with the name. -/
theorem removePeer_cases (saved : Bool) (name : Text) (c : Config) :
    (removePeer saved name c).2 = c ∨ ∃ p front back, p.name = name ∧
      c.vpnServer.peers = front ++ p :: back ∧
      (removePeer saved name c).2 = withPeers c (front ++ back) := by
  unfold removePeer
  split
  · exact .inl rfl
  · rename_i p hfind
    have hname : p.name = name := by simpa using List.find?_some hfind
    obtain ⟨front, back, hpeers, -, herase, -⟩ := exists_split_of_find hfind
    exact .inr ⟨p, front, back, hname, hpeers, by rw [herase]⟩

end Lankeeper.VPN
