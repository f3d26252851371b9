import Lankeeper.VPN.Service

/-!
# Lankeeper.VPN.FailedCalls — what a failed call leaves in the peer list

Six calls of `internal/services/vpn.go` and `internal/services/vpn_s2s.go` change the peer
list. Each of them checks first and changes the list only then, so a call that is refused
has changed nothing. But the file is written last, and none of them takes the change back
when that fails: the peer stays in memory, where it is rendered and gets into the file with
the next save. `failed_call_undone_iff` says that this is the only way.
-/

namespace Lankeeper.VPN

open Lib Text Lankeeper.Network

/-- A call, with what it is told by `wg`, the clock and the file system. -/
inductive PeerCall
  | addPeer (saved : Bool) (keys : Option PeerKeys) (r : PeerRequest)
  | createS2SInvite (saved : Bool) (now : Nat) (psk : Option Text) (r : InviteRequest)
  | consumeInvite (saved : Bool) (now : Nat) (token : Token)
  | finalizeInvite (saved : Bool) (now : Nat) (name : Text) (token : Token)
  | removePeer (saved : Bool) (name : Text)
  | cancelInvite (saved : Bool) (name : Text)

def PeerCall.saved : PeerCall → Bool
  | .addPeer saved .. | .createS2SInvite saved .. | .consumeInvite saved .. => saved
  | .finalizeInvite saved .. | .removePeer saved _ | .cancelInvite saved _ => saved

/-- Whether a call succeeds, and the peer list after it. -/
def outcome {α : Type} (r : Except VPNError α × Config) : Except VPNError Unit × List WGServerPeer :=
  (r.1.map fun _ => (), r.2.vpnServer.peers)

def PeerCall.apply (c : Config) : PeerCall → Except VPNError Unit × List WGServerPeer
  | .addPeer saved keys r => outcome (VPN.addPeer saved keys r c)
  | .createS2SInvite saved now psk r => outcome (VPN.createS2SInvite saved now psk r c)
  | .consumeInvite saved now token => outcome (VPN.consumeInvite saved now token c)
  | .finalizeInvite saved now name token => outcome (VPN.finalizeInvite saved now name token c)
  | .removePeer saved name => outcome (VPN.removePeer saved name c)
  | .cancelInvite saved name => outcome (VPN.cancelInvite saved name c)

/-- The call gets past its checks and changes the list. -/
def PeerCall.Stores (c : Config) : PeerCall → Prop
  | .addPeer _ keys r => checkPeer c r = .ok () ∧ keys ≠ none ∧
      peerNameTaken c r.name = false ∧ ∃ ip, nextTunnelIP c = .ok ip
  | .createS2SInvite _ _ psk r => validateInviteRequest c r = .ok () ∧ psk ≠ none ∧
      peerNameTaken c r.peerName = false
  | .consumeInvite _ now token => ∃ inv, checkConsume c now token = .ok inv ∧
      peerNameTaken c inv.name = false
  | .finalizeInvite _ now name token => ∃ x, checkFinalize now name token c = .ok x
  | .removePeer _ name => ∃ p, c.vpnServer.peers.find? (·.name = name) = some p
  | .cancelInvite _ name => ∃ p, c.vpnServer.peers.find? (·.name = name) = some p ∧ p.pending

theorem outcome_persist (saved : Bool) (c : Config) :
    outcome (persist saved, c) = (persist saved, c.vpnServer.peers) := by
  cases saved <;> rfl

theorem outcome_map_persist {α : Type} (saved : Bool) (a : α) (c : Config) :
    outcome ((persist saved).map fun _ => a, c) = (persist saved, c.vpnServer.peers) := by
  cases saved <;> rfl

/-- An invite that is accepted has a key to sign the answer with. -/
theorem signAck_of_checkConsume {c : Config} {now : Nat} {token : Token} {inv : S2SInvite}
    (h : checkConsume c now token = .ok inv) (a : S2SAck) :
    ∃ t, signAck a inv.presharedKey = .ok t := by
  obtain ⟨-, -, hpsk, -⟩ := validateInvite_ok (checkConsume_ok h).2.1
  obtain ⟨key, hkey⟩ := Option.ne_none_iff_exists'.mp hpsk
  exact ⟨.ack a (.hmac key a), by simp [signAck, ackMAC, hkey]⟩

/-- A call that gets past its checks changes the list and then saves, any other changes
nothing. -/
theorem PeerCall.apply_cases (call : PeerCall) (c : Config) :
    (call.Stores c ∧ ∃ ps, ps ≠ c.vpnServer.peers ∧ call.apply c = (persist call.saved, ps)) ∨
      ¬ call.Stores c ∧ (call.apply c).2 = c.vpnServer.peers := by
  by_cases hstores : call.Stores c
  · refine .inl ⟨hstores, ?_⟩
    cases call with
    | addPeer saved keys r =>
      obtain ⟨hcheck, hkeys, hfree, ip, hip⟩ := hstores
      obtain ⟨keys, rfl⟩ := Option.ne_none_iff_exists'.mp hkeys
      simp only [apply, VPN.addPeer, hcheck, commitPeer, hfree, hip]
      exact ⟨_, by simp, outcome_map_persist ..⟩
    | createS2SInvite saved now psk r =>
      obtain ⟨hcheck, hpsk, hfree⟩ := hstores
      obtain ⟨psk, rfl⟩ := Option.ne_none_iff_exists'.mp hpsk
      have hfree : peerNameTaken c (pendingPeer now psk r).name = false := hfree
      simp only [apply, VPN.createS2SInvite, hcheck, commitInvite, appendPeer, hfree]
      exact ⟨_, by simp, outcome_map_persist ..⟩
    | consumeInvite saved now token =>
      obtain ⟨inv, hcheck, hfree⟩ := hstores
      obtain ⟨t, hsign⟩ := signAck_of_checkConsume hcheck (ackOf now inv c)
      have hfree : peerNameTaken c (joinedPeer inv).name = false := hfree
      simp only [apply, VPN.consumeInvite, hcheck, commitConsume, appendPeer, hfree, hsign]
      exact ⟨_, by simp, outcome_map_persist saved (t, joinedPeer inv) _⟩
    | finalizeInvite saved now name token =>
      obtain ⟨x, hcheck⟩ := hstores
      rcases finalizeInvite_cases saved now name token c with
        ⟨e, herr, -⟩ | ⟨body, p, front, back, hok, hpeers, heq⟩
      · cases hcheck.symm.trans herr
      obtain ⟨-, -, -, -, hpending, -⟩ := checkFinalize_ok hok
      simp only [apply, heq]
      refine ⟨front ++ finalized body.publicKey p :: back, fun hsame => ?_, outcome_map_persist ..⟩
      -- the peer was pending and no longer is
      have := congrArg WGServerPeer.pending
        (List.cons.inj (List.append_cancel_left (hsame.trans hpeers))).1
      simp [finalized, hpending] at this
    | removePeer saved name =>
      obtain ⟨p, hfind⟩ := hstores
      obtain ⟨front, back, hpeers, -, herase, -⟩ := exists_split_of_find hfind
      simp only [apply, VPN.removePeer, hfind, herase]
      refine ⟨front ++ back, fun hsame => ?_, outcome_persist saved _⟩
      simpa [hpeers] using congrArg List.length hsame
    | cancelInvite saved name =>
      obtain ⟨p, hfind, hpending⟩ := hstores
      obtain ⟨front, back, hpeers, -, herase, -⟩ := exists_split_of_find hfind
      simp only [apply, VPN.cancelInvite, hfind, herase, hpending, not_true, if_false]
      refine ⟨front ++ back, fun hsame => ?_, outcome_persist saved _⟩
      simpa [hpeers] using congrArg List.length hsame
  · refine .inr ⟨hstores, ?_⟩
    cases call with
    | addPeer saved keys r =>
      simp only [apply, VPN.addPeer, commitPeer]
      grind [PeerCall.Stores, outcome]
    | createS2SInvite saved now psk r =>
      simp only [apply, VPN.createS2SInvite, commitInvite, appendPeer]
      grind [PeerCall.Stores, outcome, pendingPeer]
    | consumeInvite saved now token =>
      simp only [apply, VPN.consumeInvite, commitConsume, appendPeer]
      grind [PeerCall.Stores, outcome, joinedPeer]
    | finalizeInvite saved now name token =>
      simp only [apply, VPN.finalizeInvite]
      grind [PeerCall.Stores, outcome]
    | removePeer saved name =>
      simp only [apply, VPN.removePeer]
      grind [PeerCall.Stores, outcome]
    | cancelInvite saved name =>
      simp only [apply, VPN.cancelInvite]
      grind [PeerCall.Stores, outcome]

/-- A call that fails leaves the peer list as it was, unless it got as far as the file and
the file was not written. -/
theorem failed_call_undone_iff (call : PeerCall) (c : Config) :
    Undone (call.apply c) c.vpnServer.peers ↔ call.saved ∨ ¬ call.Stores c := by
  rcases call.apply_cases c with ⟨hstores, ps, hne, happly⟩ | ⟨hstores, hpeers⟩
  · have hok : (∃ a, persist call.saved = .ok a) ↔ call.saved := by
      cases call.saved <;> simp [persist]
    rw [happly, undone_iff, hok]
    exact or_congr_right (iff_of_false hne (not_not_intro hstores))
  · exact iff_of_true (fun _ _ => hpeers) (.inr hstores)

/-- A router with a WireGuard server that has one peer. -/
def phoneConfig : Config where
  vpnServer :=
    { publicKey := "k", address := "10.8.0.1/24"
      peers := [{ name := "phone", allowedIPs := "10.8.0.2/32" }] }

/-- The operator is told that the peer was not added, and it is in the list. -/
theorem unsaved_peers_stay :
    addPeer false (some ⟨"priv", "pub", "psk"⟩)
        ⟨"laptop", false, [], []⟩ phoneConfig =
      (.error .save, withPeers phoneConfig (phoneConfig.vpnServer.peers ++
        [{ name := "laptop", publicKey := "pub", privateKey := "priv",
           presharedKey := "psk", allowedIPs := "10.8.0.3/32", keepalive := 25 }])) ∧
    removePeer false "phone" phoneConfig = (.error .save, withPeers phoneConfig []) := by
  decide

end Lankeeper.VPN
