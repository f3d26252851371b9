import Lankeeper.Lib.Machine
import Lankeeper.VPN.Ranges
import Mathlib.Data.List.Nodup
import Mathlib.Logic.Function.Basic

/-!
# Lankeeper.VPN.SiteToSite — the invite protocol between routers

Any number of routers run the calls of the VPN service. Tokens are delivered by hand:
late, repeatedly, to the wrong router, or made up. What nobody can do is in `Honest`:

* a new preshared key differs from every key that was generated or presented before,
* an invite with a preshared key that a router generated is that router's invite,
* the MAC of an ack under such a key was made by `ConsumeInvite`.

`finalize_agreement` says what a successful `FinalizeInvite` means. The other end may
have removed its peer since it answered the invite, which no message tells
(`joiner_forgot`).

The world keeps a history beside the routers: the invites, the answers with the LANs
of the answering router, and the acks that completed a peer. No router reads it.
-/

namespace Lankeeper.VPN

open Lib Text Lankeeper.Network List

/-! ## Routers and tokens -/

/-- A preshared key was generated for this invite. -/
structure Issued (ι : Type) where
  inviter : ι
  invite : S2SInvite
deriving DecidableEq

/-- A `ConsumeInvite` that succeeded. -/
structure Answer (ι : Type) where
  joiner : ι
  invite : S2SInvite
  ack : Token
  /-- the joiner's LANs at that time -/
  lans : List Text
  /-- `RemovePeer` has been called for the name on the joiner since -/
  removed : Bool
deriving DecidableEq

/-- The routers, and the history. -/
structure World (ι : Type) where
  sites : ι → Config
  issued : List (Issued ι) := []
  answers : List (Answer ι) := []
  /-- preshared keys that were generated or presented -/
  keys : List Nat := []
  /-- acks with which `FinalizeInvite` succeeded -/
  spent : List Token := []

/-- A call on a router. -/
inductive Act (ι : Type)
  | createS2SInvite (i : ι) (saved : Bool) (now : Nat) (psk : Option Text) (r : InviteRequest)
  | consumeInvite (i : ι) (saved : Bool) (now : Nat) (token : Token)
  | finalizeInvite (i : ι) (saved : Bool) (now : Nat) (name : Text) (token : Token)
  | cancelInvite (i : ι) (saved : Bool) (name : Text)
  | gcExpiredInvites (i : ι) (now : Nat)
  | addPeer (i : ι) (saved : Bool) (keys : Option PeerKeys) (r : PeerRequest)
  | removePeer (i : ι) (saved : Bool) (name : Text)
  -- other services set the interfaces and VLANs
  | configure (i : ι) (interfaces : List InterfaceConfig) (vlans : List VLANConfig)

variable {ι : Type} [DecidableEq ι]

namespace World

/-- A router with another config. -/
def setSite (w : World ι) (i : ι) (c : Config) : World ι :=
  { w with sites := Function.update w.sites i c }

/-- The preshared key a call of `CreateS2SInvite` generates, if it comes to that. -/
def generates (w : World ι) (i : ι) (psk : Option Text) (r : InviteRequest) : Option Text :=
  match validateInviteRequest (w.sites i) r with
  | .error _ => none
  | .ok () => psk

/-- The key in an invite. -/
def presented : Token → List Nat
  | .invite inv => (wgKey inv.presharedKey).toList
  | _ => []

/-- The invite and its key enter the history. -/
def issue (w : World ι) (i : ι) (inv : S2SInvite) : World ι :=
  { w with issued := ⟨i, inv⟩ :: w.issued, keys := (wgKey inv.presharedKey).toList ++ w.keys }

/-- The answer to an invite enters the history. -/
def answer (w : World ι) (i : ι) (token : Token) : Except VPNError (Token × WGServerPeer) → World ι
  | .error _ => w
  | .ok (ack, _) =>
    match token with
    | .invite inv => { w with answers := ⟨i, inv, ack, lanSubnets (w.sites i), false⟩ :: w.answers }
    | _ => w

/-- The answers of a router under the name count as removed. -/
def forget (w : World ι) (i : ι) (name : Text) : World ι :=
  { w with answers := w.answers.map fun r =>
      if r.joiner = i ∧ r.invite.name = name then { r with removed := true } else r }

def step (w : World ι) : Act ι → World ι
  | .createS2SInvite i saved now psk r =>
    let w' := w.setSite i (VPN.createS2SInvite saved now psk r (w.sites i)).2
    match w.generates i psk r with
    | none => w'
    | some psk => w'.issue i (inviteOf now psk r (w.sites i))
  | .consumeInvite i saved now token =>
    let (result, c) := VPN.consumeInvite saved now token (w.sites i)
    let w' := (w.answer i token result).setSite i c
    { w' with keys := presented token ++ w'.keys }
  | .finalizeInvite i saved now name token =>
    let (result, c) := VPN.finalizeInvite saved now name token (w.sites i)
    let w' := w.setSite i c
    match result with
    | .error _ => w'
    | .ok _ => { w' with spent := token :: w'.spent }
  | .cancelInvite i saved name => w.setSite i (VPN.cancelInvite saved name (w.sites i)).2
  | .gcExpiredInvites i now => w.setSite i (VPN.gcExpiredInvites now (w.sites i)).2
  | .addPeer i saved keys r => w.setSite i (VPN.addPeer saved keys r (w.sites i)).2
  | .removePeer i saved name => (w.forget i name).setSite i (VPN.removePeer saved name (w.sites i)).2
  | .configure i is vs => w.setSite i { w.sites i with interfaces := is, vlans := vs }

end World

/-- A key that a router generated for an invite. -/
def World.Secret (w : World ι) (key : Nat) : Prop :=
  ∃ x ∈ w.issued, wgKey x.invite.presharedKey = some key

/-- What nobody can do: generate a key twice, or use a router's key without its tokens. -/
def Honest (w : World ι) : Act ι → Prop
  | .createS2SInvite i _ _ psk r =>
    ∀ t ∈ w.generates i psk r, ∀ key ∈ wgKey t, key ∉ w.keys
  | .consumeInvite _ _ _ (.invite inv) =>
    ∀ key ∈ wgKey inv.presharedKey, w.Secret key → ∃ x ∈ w.issued, x.invite = inv
  | .finalizeInvite _ _ _ _ (.ack _ (.hmac key body)) =>
    w.Secret key → ∃ r ∈ w.answers, r.ack = .ack body (.hmac key body)
  | _ => True

instance (w : World ι) (key : Nat) : Decidable (w.Secret key) :=
  inferInstanceAs (Decidable (∃ x ∈ w.issued, wgKey x.invite.presharedKey = some key))

instance (w : World ι) : (a : Act ι) → Decidable (Honest w a)
  | .createS2SInvite i _ _ psk r =>
    inferInstanceAs (Decidable (∀ t ∈ w.generates i psk r, ∀ key ∈ wgKey t, key ∉ w.keys))
  | .consumeInvite _ _ _ (.invite inv) =>
    inferInstanceAs (Decidable (∀ key ∈ wgKey inv.presharedKey, w.Secret key →
      ∃ x ∈ w.issued, x.invite = inv))
  | .finalizeInvite _ _ _ _ (.ack _ (.hmac key body)) =>
    inferInstanceAs (Decidable (w.Secret key → ∃ r ∈ w.answers, r.ack = .ack body (.hmac key body)))
  | .consumeInvite _ _ _ (.ack _ _) => isTrue trivial
  | .consumeInvite _ _ _ .junk => isTrue trivial
  | .finalizeInvite _ _ _ _ (.ack _ .junk) => isTrue trivial
  | .finalizeInvite _ _ _ _ (.invite _) => isTrue trivial
  | .finalizeInvite _ _ _ _ .junk => isTrue trivial
  | .cancelInvite _ _ _ => isTrue trivial
  | .gcExpiredInvites _ _ => isTrue trivial
  | .addPeer _ _ _ _ => isTrue trivial
  | .removePeer _ _ _ => isTrue trivial
  | .configure _ _ _ => isTrue trivial

/-- The routers under calls. At the start no invite is pending. -/
def linking (ι : Type) [DecidableEq ι] : Machine (World ι) (Act ι) where
  Init w := (∀ i, ∀ p ∈ (w.sites i).vpnServer.peers, p.pending = false) ∧
    w.issued = [] ∧ w.answers = [] ∧ w.keys = [] ∧ w.spent = []
  step := World.step

/-! ## What calls leave alone -/

/-- The pending peers of a config. -/
def pendingPeers (c : Config) : List WGServerPeer :=
  c.vpnServer.peers.filter (·.pending)

variable {c : Config} {p : WGServerPeer} {w : World ι} {i : ι} {inv : S2SInvite}

theorem mem_pendingPeers : p ∈ pendingPeers c ↔ p ∈ c.vpnServer.peers ∧ p.pending := by
  simp [pendingPeers]

/-- No peer becomes pending, and the server key stays. -/
structure Calm (c c' : Config) : Prop where
  publicKey : c'.vpnServer.publicKey = c.vpnServer.publicKey
  pending : List.Sublist (pendingPeers c') (pendingPeers c)

/-- Every peer that is not pending stays. -/
def Keeps (c c' : Config) : Prop :=
  ∀ p ∈ c.vpnServer.peers, p.pending = false → p ∈ c'.vpnServer.peers

theorem unchanged (c : Config) : Calm c c ∧ Keeps c c :=
  ⟨⟨rfl, List.Sublist.refl _⟩, fun _ hq _ => hq⟩

theorem appended (hp : p.pending = false) :
    Calm c (withPeers c (c.vpnServer.peers ++ [p])) ∧
      Keeps c (withPeers c (c.vpnServer.peers ++ [p])) := by
  refine ⟨⟨rfl, ?_⟩, fun q hq _ => mem_append_left _ hq⟩
  simp [pendingPeers, hp]

theorem Calm.of_sublist {ps : List WGServerPeer} (h : List.Sublist ps c.vpnServer.peers) :
    Calm c (withPeers c ps) :=
  ⟨rfl, h.filter _⟩

theorem mem_of_mem_split {q : WGServerPeer} {front back : List WGServerPeer}
    (h : q ∈ front ++ p :: back) (hne : q ≠ p) : q ∈ front ++ back :=
  mem_of_ne_of_mem hne (perm_middle.mem_iff.mp h)

theorem Keeps.split {front back ps : List WGServerPeer} (hpending : p.pending)
    (hpeers : c.vpnServer.peers = front ++ p :: back) (hsub : front ++ back ⊆ ps) :
    Keeps c (withPeers c ps) := by
  intro q hq hqp
  rw [hpeers] at hq
  refine hsub (mem_of_mem_split hq ?_)
  rintro rfl
  cases hpending.symm.trans hqp

theorem finalizeInvite_calm (saved : Bool) (now : Nat) (name : Text) (token : Token) (c : Config) :
    Calm c (finalizeInvite saved now name token c).2 ∧
      Keeps c (finalizeInvite saved now name token c).2 := by
  rcases finalizeInvite_cases saved now name token c with
    ⟨e, -, h⟩ | ⟨body, p, front, back, hcheck, hpeers, h⟩
  · rw [h]
    exact unchanged c
  rw [h]
  obtain ⟨-, -, -, -, hpending, -, -⟩ := checkFinalize_ok hcheck
  have hdone : (finalized body.publicKey p).pending = false := rfl
  have hsub := (sublist_cons_self (finalized body.publicKey p) back).append_left front
  refine ⟨⟨rfl, ?_⟩, .split hpending hpeers hsub.subset⟩
  simp only [pendingPeers, withPeers_peers, hpeers, filter_append, filter_cons, hdone, hpending,
    if_true]
  exact (sublist_cons_self _ _).append_left _

theorem cancelInvite_calm (saved : Bool) (name : Text) (c : Config) :
    Calm c (cancelInvite saved name c).2 ∧ Keeps c (cancelInvite saved name c).2 := by
  rcases cancelInvite_cases saved name c with h | ⟨p, front, back, hpending, hpeers, h⟩
  · rw [h]
    exact unchanged c
  · rw [h]
    refine ⟨.of_sublist ?_, .split hpending hpeers (Subset.refl _)⟩
    rw [hpeers]
    exact (sublist_cons_self p back).append_left front

theorem gcExpiredInvites_calm (now : Nat) (c : Config) :
    Calm c (gcExpiredInvites now c).2 ∧ Keeps c (gcExpiredInvites now c).2 := by
  refine ⟨Calm.of_sublist filter_sublist, ?_⟩
  intro q hq hqp
  exact mem_filter.mpr ⟨hq, by simp [hqp]⟩

theorem addPeer_calm (saved : Bool) (keys : Option PeerKeys) (r : PeerRequest) (c : Config) :
    Calm c (addPeer saved keys r c).2 ∧ Keeps c (addPeer saved keys r c).2 := by
  unfold addPeer
  split
  · exact unchanged c
  · exact unchanged c
  rename_i keys _
  rcases commitPeer_cases saved keys r c with h | ⟨ip, p, -, hp, -, h⟩
  · rw [h]
    exact unchanged c
  · rw [h]
    exact appended hp.pending

/-- `RemovePeer` keeps the peers with other names. -/
theorem removePeer_calm (saved : Bool) (name : Text) (c : Config) :
    Calm c (removePeer saved name c).2 ∧
      ∀ p ∈ c.vpnServer.peers, p.name ≠ name → p ∈ (removePeer saved name c).2.vpnServer.peers := by
  rcases removePeer_cases saved name c with h | ⟨p, front, back, hname, hpeers, h⟩
  · rw [h]
    exact ⟨(unchanged c).1, fun _ hq _ => hq⟩
  rw [h]
  constructor
  · apply Calm.of_sublist
    rw [hpeers]
    exact (sublist_cons_self p back).append_left front
  · intro q hq hqn
    rw [hpeers] at hq
    exact mem_of_mem_split hq fun heq => hqn (heq ▸ hname)

/-! ## The invariant -/

/-- The pending peer of an invite. -/
structure Pends (inv : S2SInvite) (p : WGServerPeer) : Prop where
  name : p.name = inv.name
  presharedKey : p.presharedKey = inv.presharedKey
  remoteSubnets : p.remoteSubnets = inv.expectedSubnets
  inviteExpiresAt : p.inviteExpiresAt = inv.expiresAt

/-- An answer names the joiner's key under the invite's preshared key, and was given
where the LANs were the expected ones. -/
def Answer.Fair (sites : ι → Config) (r : Answer ι) : Prop :=
  ∃ key body, wgKey r.invite.presharedKey = some key ∧ r.ack = .ack body (.hmac key body) ∧
    body.publicKey = (sites r.joiner).vpnServer.publicKey ∧
    sameSubnets r.invite.expectedSubnets r.lans

structure Sound (w : World ι) : Prop where
  /-- a pending peer belongs to an invite of its router -/
  pending : ∀ i, ∀ p ∈ pendingPeers (w.sites i), ∃ x ∈ w.issued, x.inviter = i ∧ Pends x.invite p
  /-- names of pending peers are distinct -/
  names : ∀ i, ((pendingPeers (w.sites i)).map (·.name)).Nodup
  publicKey : ∀ x ∈ w.issued, x.invite.publicKey = (w.sites x.inviter).vpnServer.publicKey
  /-- a key belongs to one invite -/
  unique : ∀ x ∈ w.issued, ∀ y ∈ w.issued, ∀ key, wgKey x.invite.presharedKey = some key →
    wgKey y.invite.presharedKey = some key → x = y
  issuedKeys : ∀ x ∈ w.issued, ∀ key ∈ wgKey x.invite.presharedKey, key ∈ w.keys
  answerKeys : ∀ r ∈ w.answers, ∀ key ∈ wgKey r.invite.presharedKey, key ∈ w.keys
  fair : ∀ r ∈ w.answers, r.Fair w.sites
  /-- an answer with a router's key answers that router's invite -/
  genuine : ∀ r ∈ w.answers, ∀ x ∈ w.issued,
    wgKey r.invite.presharedKey = wgKey x.invite.presharedKey → r.invite = x.invite
  /-- a router does not answer an invite that is pending on itself -/
  apart : ∀ r ∈ w.answers, ∀ p ∈ pendingPeers (w.sites r.joiner),
    wgKey p.presharedKey ≠ wgKey r.invite.presharedKey
  /-- the joiner has the peer until it removes it -/
  holds : ∀ r ∈ w.answers, r.removed = false →
    joinedPeer r.invite ∈ (w.sites r.joiner).vpnServer.peers
  /-- nothing is pending any more under the key of a spent ack -/
  spent : ∀ t ∈ w.spent, ∃ key body, t = .ack body (.hmac key body) ∧ key ∈ w.keys ∧
    ∀ i, ∀ p ∈ pendingPeers (w.sites i), wgKey p.presharedKey ≠ some key

omit [DecidableEq ι] in
theorem Sound.init (h : (∀ i, ∀ p ∈ (w.sites i).vpnServer.peers, p.pending = false) ∧
      w.issued = [] ∧ w.answers = [] ∧ w.keys = [] ∧ w.spent = []) : Sound w := by
  obtain ⟨hpeers, hissued, hanswers, hkeys, hspent⟩ := h
  have hnone : ∀ i, pendingPeers (w.sites i) = [] := by
    intro i
    simp only [pendingPeers, filter_eq_nil_iff]
    intro p hp
    simp [hpeers i p hp]
  constructor <;> simp [hissued, hanswers, hspent, hnone]

/-! ### Steps without a new invite -/

theorem World.setSite_self (w : World ι) (i : ι) (c : Config) : (w.setSite i c).sites i = c := by
  show Function.update w.sites i c i = c
  exact Function.update_self ..

/-- What the new config of a router keeps, every router keeps. -/
theorem World.setSite_all {P : ι → Config → Prop} (hi : P i c)
    (h : ∀ j, P j (w.sites j)) (j : ι) : P j ((w.setSite i c).sites j) :=
  (Function.forall_update_iff w.sites P).mpr ⟨hi, fun j _ => h j⟩ j

theorem World.mem_pendingPeers_setSite {i j : ι} (hc : Calm (w.sites i) c)
    (hp : p ∈ pendingPeers ((w.setSite i c).sites j)) : p ∈ pendingPeers (w.sites j) :=
  World.setSite_all (P := fun j c => p ∈ pendingPeers c → p ∈ pendingPeers (w.sites j))
    (fun hp => hc.pending.subset hp) (fun _ hp => hp) j hp

theorem World.publicKey_setSite
    (hc : c.vpnServer.publicKey = (w.sites i).vpnServer.publicKey) (j : ι) :
    ((w.setSite i c).sites j).vpnServer.publicKey = (w.sites j).vpnServer.publicKey :=
  World.setSite_all (P := fun j c => c.vpnServer.publicKey = (w.sites j).vpnServer.publicKey)
    hc (fun _ => rfl) j

/-- A calm change of one router, which may lose peers that count as removed. -/
theorem Sound.setSite (h : Sound w) (hc : Calm (w.sites i) c)
    (hholds : ∀ r ∈ w.answers, r.removed = false → r.joiner = i →
      joinedPeer r.invite ∈ c.vpnServer.peers) : Sound (w.setSite i c) where
  pending j p hp := h.pending j p (World.mem_pendingPeers_setSite hc hp)
  names := World.setSite_all (P := fun _ c => ((pendingPeers c).map (·.name)).Nodup)
    ((h.names i).sublist (hc.pending.map _)) h.names
  publicKey x hx := by
    rw [World.publicKey_setSite hc.publicKey]
    exact h.publicKey x hx
  unique := h.unique
  issuedKeys := h.issuedKeys
  answerKeys := h.answerKeys
  fair r hr := by
    obtain ⟨key, body, hkey, hack, hpub, hsame⟩ := h.fair r hr
    exact ⟨key, body, hkey, hack, hpub.trans (World.publicKey_setSite hc.publicKey _).symm, hsame⟩
  genuine := h.genuine
  apart r hr p hp := h.apart r hr p (World.mem_pendingPeers_setSite hc hp)
  holds r hr hremoved :=
    World.setSite_all (P := fun j c => r.joiner = j → joinedPeer r.invite ∈ c.vpnServer.peers)
      (hholds r hr hremoved) (fun j hj => hj ▸ h.holds r hr hremoved) r.joiner rfl
  spent t ht := by
    obtain ⟨key, body, heq, hkey, hnone⟩ := h.spent t ht
    exact ⟨key, body, heq, hkey, fun j p hp => hnone j p (World.mem_pendingPeers_setSite hc hp)⟩

/-- A calm change that keeps what is not pending. -/
theorem Sound.calm (h : Sound w)
    (hc : Calm (w.sites i) c ∧ Keeps (w.sites i) c) : Sound (w.setSite i c) := by
  refine h.setSite hc.1 ?_
  intro r hr hremoved hj
  have hmem := h.holds r hr hremoved
  rw [hj] at hmem
  exact hc.2 _ hmem rfl

theorem Sound.forget (h : Sound w) (i : ι) (name : Text) : Sound (w.forget i name) := by
  -- an answer after the step is one from before it, up to the flag
  have hfrom : ∀ r ∈ (w.forget i name).answers, ∃ r₀ ∈ w.answers, r.joiner = r₀.joiner ∧
      r.invite = r₀.invite ∧ r.ack = r₀.ack ∧ r.lans = r₀.lans ∧
      (r.removed = false → r₀.removed = false) := by
    intro r hr
    obtain ⟨r₀, hr₀, rfl⟩ := mem_map.mp hr
    refine ⟨r₀, hr₀, ?_⟩
    split
    · exact ⟨rfl, rfl, rfl, rfl, fun hremoved => by cases hremoved⟩
    · exact ⟨rfl, rfl, rfl, rfl, id⟩
  refine { h with answerKeys := ?_, fair := ?_, genuine := ?_, apart := ?_, holds := ?_ }
  · intro r hr
    obtain ⟨r₀, hr₀, -, hinv, -⟩ := hfrom r hr
    rw [hinv]
    exact h.answerKeys r₀ hr₀
  · intro r hr
    obtain ⟨r₀, hr₀, hj, hinv, hack, hlans, -⟩ := hfrom r hr
    rw [Answer.Fair, hj, hinv, hack, hlans]
    exact h.fair r₀ hr₀
  · intro r hr
    obtain ⟨r₀, hr₀, -, hinv, -⟩ := hfrom r hr
    rw [hinv]
    exact h.genuine r₀ hr₀
  · intro r hr
    obtain ⟨r₀, hr₀, hj, hinv, -⟩ := hfrom r hr
    rw [hj, hinv]
    exact h.apart r₀ hr₀
  · intro r hr hremoved
    obtain ⟨r₀, hr₀, hj, hinv, -, -, hflag⟩ := hfrom r hr
    rw [hj, hinv]
    exact h.holds r₀ hr₀ (hflag hremoved)

theorem Sound.removePeer (h : Sound w) (i : ι) (saved : Bool) (name : Text) :
    Sound ((w.forget i name).setSite i (VPN.removePeer saved name (w.sites i)).2) := by
  have hcalm := removePeer_calm saved name (w.sites i)
  refine (h.forget i name).setSite hcalm.1 ?_
  intro r hr hremoved hj
  obtain ⟨r₀, hr₀, heq⟩ := mem_map.mp hr
  by_cases hmark : r₀.joiner = i ∧ r₀.invite.name = name
  · rw [if_pos hmark] at heq
    rw [← heq] at hremoved
    cases hremoved
  · rw [if_neg hmark] at heq
    subst heq
    have hmem := h.holds r₀ hr₀ hremoved
    rw [hj] at hmem
    exact hcalm.2 _ hmem fun hname => hmark ⟨hj, hname⟩

omit [DecidableEq ι] in
theorem Sound.keys (h : Sound w) (ks : List Nat) : Sound { w with keys := ks ++ w.keys } :=
  { h with
    issuedKeys := fun x hx key hkey => mem_append_right _ (h.issuedKeys x hx key hkey)
    answerKeys := fun r hr key hkey => mem_append_right _ (h.answerKeys r hr key hkey)
    spent := fun t ht => by
      obtain ⟨key, body, heq, hkey, hnone⟩ := h.spent t ht
      exact ⟨key, body, heq, mem_append_right _ hkey, hnone⟩ }

/-! ### A new invite -/

omit [DecidableEq ι] in
/-- No answer and no other invite has a fresh key. -/
theorem Sound.issue (h : Sound w) (hfresh : ∀ key ∈ wgKey inv.presharedKey, key ∉ w.keys)
    (hpub : inv.publicKey = (w.sites i).vpnServer.publicKey) : Sound (w.issue i inv) where
  __ := h.keys (wgKey inv.presharedKey).toList
  pending j p hp := by
    obtain ⟨x, hx, hj, hpends⟩ := h.pending j p hp
    exact ⟨x, mem_cons_of_mem _ hx, hj, hpends⟩
  publicKey x hx := by
    rcases mem_cons.mp hx with rfl | hx
    · exact hpub
    · exact h.publicKey x hx
  unique x hx y hy key hxk hyk := by
    rcases mem_cons.mp hx with rfl | hx
    · rcases mem_cons.mp hy with rfl | hy
      · rfl
      · exact absurd (h.issuedKeys y hy key hyk) (hfresh key hxk)
    · rcases mem_cons.mp hy with rfl | hy
      · exact absurd (h.issuedKeys x hx key hxk) (hfresh key hyk)
      · exact h.unique x hx y hy key hxk hyk
  issuedKeys x hx key hkey := by
    rcases mem_cons.mp hx with rfl | hx
    · exact mem_append_left _ (Option.mem_toList.mpr hkey)
    · exact mem_append_right _ (h.issuedKeys x hx key hkey)
  genuine r hr x hx heq := by
    rcases mem_cons.mp hx with rfl | hx
    · obtain ⟨key, -, hkey, -⟩ := h.fair r hr
      have hknown := h.answerKeys r hr key hkey
      rw [hkey] at heq
      exact absurd hknown (hfresh key heq.symm)
    · exact h.genuine r hr x hx heq

theorem pendingPeers_append (hp : p.pending) :
    pendingPeers (withPeers c (c.vpnServer.peers ++ [p])) = pendingPeers c ++ [p] := by
  simp [pendingPeers, hp]

/-- The pending peer of an invite that is in the history, with a key that is in no answer
and no spent ack. -/
theorem Sound.appendPending (h : Sound w) {x : Issued ι} (hx : x ∈ w.issued)
    (hpends : Pends x.invite p) (hp : p.pending)
    (hc : c = withPeers (w.sites x.inviter) ((w.sites x.inviter).vpnServer.peers ++ [p]))
    (hfree : ∀ q ∈ (w.sites x.inviter).vpnServer.peers, q.name ≠ p.name)
    (hanswers : ∀ r ∈ w.answers, wgKey p.presharedKey ≠ wgKey r.invite.presharedKey)
    (hspent : ∀ t ∈ w.spent, ∀ key body, t = .ack body (.hmac key body) →
      wgKey p.presharedKey ≠ some key) : Sound (w.setSite x.inviter c) := by
  -- a pending peer after the step is one from before it, or the new one on its router
  have hfrom : ∀ j, ∀ q ∈ pendingPeers ((w.setSite x.inviter c).sites j),
      q ∈ pendingPeers (w.sites j) ∨ j = x.inviter ∧ q = p := by
    refine World.setSite_all (P := fun j c => ∀ q ∈ pendingPeers c,
      q ∈ pendingPeers (w.sites j) ∨ j = x.inviter ∧ q = p) ?_ fun j q hq => .inl hq
    intro q hq
    rw [hc, pendingPeers_append hp, mem_append, mem_singleton] at hq
    exact hq.imp_right fun hq => ⟨rfl, hq⟩
  have hpub : c.vpnServer.publicKey = (w.sites x.inviter).vpnServer.publicKey := by rw [hc]; rfl
  refine { h with
    pending := ?_, names := ?_, publicKey := ?_, fair := ?_, apart := ?_, holds := ?_, spent := ?_ }
  · intro j q hq
    rcases hfrom j q hq with hq | ⟨rfl, rfl⟩
    · exact h.pending j q hq
    · exact ⟨x, hx, rfl, hpends⟩
  · refine World.setSite_all (P := fun _ c => ((pendingPeers c).map (·.name)).Nodup) ?_ h.names
    rw [hc, pendingPeers_append hp, map_append, nodup_append]
    refine ⟨h.names x.inviter, by simp, ?_⟩
    intro a ha b hb
    obtain ⟨q, hq, rfl⟩ := mem_map.mp ha
    obtain rfl : b = p.name := by simpa using hb
    exact hfree q (mem_pendingPeers.mp hq).1
  · intro y hy
    rw [World.publicKey_setSite hpub]
    exact h.publicKey y hy
  · intro r hr
    rw [Answer.Fair, World.publicKey_setSite hpub]
    exact h.fair r hr
  · intro r hr q hq
    rcases hfrom r.joiner q hq with hq | ⟨-, rfl⟩
    · exact h.apart r hr q hq
    · exact hanswers r hr
  · intro r hr hremoved
    exact World.setSite_all (P := fun j c => r.joiner = j → joinedPeer r.invite ∈ c.vpnServer.peers)
      (fun hj => hc ▸ mem_append_left _ (hj ▸ h.holds r hr hremoved))
      (fun j hj => hj ▸ h.holds r hr hremoved) r.joiner rfl
  · intro t ht
    obtain ⟨key, body, heq, hkey, hnone⟩ := h.spent t ht
    refine ⟨key, body, heq, hkey, ?_⟩
    intro j q hq
    rcases hfrom j q hq with hq | ⟨-, rfl⟩
    · exact hnone j q hq
    · exact hspent t ht key body heq

theorem Sound.createS2SInvite (h : Sound w) (i : ι) (saved : Bool) (now : Nat)
    (psk : Option Text) (r : InviteRequest)
    (hhonest : Honest w (.createS2SInvite i saved now psk r)) :
    Sound (w.step (.createS2SInvite i saved now psk r)) := by
  simp only [World.step, VPN.createS2SInvite, World.generates]
  simp only [Honest, World.generates] at hhonest
  cases hvalid : validateInviteRequest (w.sites i) r with
  | error e => exact h.calm (unchanged _)
  | ok u =>
    rw [hvalid] at hhonest
    cases psk with
    | none => exact h.calm (unchanged _)
    | some psk =>
      have hfresh : ∀ key ∈ wgKey psk, key ∉ w.keys := hhonest psk rfl
      have hissue : Sound (w.issue i (inviteOf now psk r (w.sites i))) := h.issue hfresh rfl
      show Sound ((w.issue i (inviteOf now psk r (w.sites i))).setSite i
        (appendPeer saved (pendingPeer now psk r) (w.sites i)).2)
      rcases appendPeer_cases saved (pendingPeer now psk r) (w.sites i) with heq | ⟨hfree, heq⟩
      · rw [heq]
        exact hissue.calm (unchanged _)
      rw [heq]
      have hpends : Pends (inviteOf now psk r (w.sites i)) (pendingPeer now psk r) :=
        ⟨rfl, rfl, rfl, rfl⟩
      refine hissue.appendPending (x := ⟨i, _⟩) mem_cons_self hpends rfl rfl hfree ?_ ?_
      · intro a ha hkey
        obtain ⟨key, -, hak, -⟩ := h.fair a ha
        rw [hak] at hkey
        exact hfresh key hkey (h.answerKeys a ha key hak)
      · intro t ht key body heq hkey
        obtain ⟨key', body', heq', hknown, -⟩ := h.spent t ht
        rw [heq] at heq'
        obtain ⟨-, hmac⟩ := Token.ack.inj heq'
        obtain ⟨rfl, -⟩ := Mac.hmac.inj hmac
        exact hfresh key hkey hknown

/-! ### An answer -/

/-- A call that fails changes at most the peer list, by one peer; one that succeeds
answers with a MAC under the invite's key. -/
theorem consumeInvite_cases (saved : Bool) (now : Nat) (token : Token) (c : Config) :
    (∃ e c', consumeInvite saved now token c = (.error e, c') ∧ Calm c c' ∧ Keeps c c') ∨
      ∃ inv key, token = .invite inv ∧ wgKey inv.presharedKey = some key ∧
        sameSubnets inv.expectedSubnets (lanSubnets c) ∧
        (∀ q ∈ c.vpnServer.peers, q.name ≠ inv.name) ∧
        consumeInvite saved now token c =
          (.ok (.ack (ackOf now inv c) (.hmac key (ackOf now inv c)), joinedPeer inv),
            withPeers c (c.vpnServer.peers ++ [joinedPeer inv])) := by
  unfold consumeInvite
  split
  · rename_i e _
    exact .inl ⟨e, c, rfl, unchanged c⟩
  rename_i inv hcheck
  rcases appendPeer_cases saved (joinedPeer inv) c with heq | ⟨hfree, heq⟩
  · refine .inl ⟨.nameInUse inv.name, c, ?_, unchanged c⟩
    rw [commitConsume, heq]
    rfl
  have hkept := appended (c := c) (p := joinedPeer inv) rfl
  cases saved with
  | false =>
    refine .inl ⟨.save, _, ?_, hkept⟩
    rw [commitConsume, heq]
    rfl
  | true =>
    cases hkey : wgKey inv.presharedKey with
    | none =>
      refine .inl ⟨.presharedKey, _, ?_, hkept⟩
      simp only [commitConsume, heq, signAck, ackMAC, hkey]
      rfl
    | some key =>
      refine .inr ⟨inv, key, (checkConsume_ok hcheck).1, hkey,
        (checkConsume_ok hcheck).2.2.1, hfree, ?_⟩
      simp only [commitConsume, heq, signAck, ackMAC, hkey]
      rfl

/-- The router joins: it has the peer, and its answer enters the history. -/
theorem Sound.join (h : Sound w) {key : Nat} (now : Nat) (hkey : wgKey inv.presharedKey = some key)
    (hsame : sameSubnets inv.expectedSubnets (lanSubnets (w.sites i)))
    (hfree : ∀ q ∈ (w.sites i).vpnServer.peers, q.name ≠ inv.name)
    (hgenuine : w.Secret key → ∃ x ∈ w.issued, x.invite = inv) :
    Sound { w.setSite i (withPeers (w.sites i) ((w.sites i).vpnServer.peers ++ [joinedPeer inv])) with
      answers := ⟨i, inv, .ack (ackOf now inv (w.sites i)) (.hmac key (ackOf now inv (w.sites i))),
        lanSubnets (w.sites i), false⟩ :: w.answers
      keys := [key] ++ w.keys } := by
  have hkept := appended (c := w.sites i) (p := joinedPeer inv) rfl
  have hs := (h.calm hkept).keys [key]
  -- the invite of any router with this key is the one that is answered
  have hinv : ∀ x ∈ w.issued, wgKey x.invite.presharedKey = some key → inv = x.invite := by
    intro x hx hxk
    obtain ⟨y, hy, rfl⟩ := hgenuine ⟨x, hx, hxk⟩
    rw [h.unique x hx y hy key hxk hkey]
  refine { hs with answerKeys := ?_, fair := ?_, genuine := ?_, apart := ?_, holds := ?_ }
  · intro r hr k hk
    rcases mem_cons.mp hr with rfl | hr
    · rw [hkey] at hk
      rw [← Option.some.inj hk]
      exact mem_cons_self
    · exact hs.answerKeys r hr k hk
  · intro r hr
    rcases mem_cons.mp hr with rfl | hr
    · refine ⟨key, _, hkey, rfl, ?_, hsame⟩
      show (w.sites i).vpnServer.publicKey = ((w.setSite i _).sites i).vpnServer.publicKey
      rw [World.setSite_self]
      rfl
    · exact hs.fair r hr
  · intro r hr x hx heq
    rcases mem_cons.mp hr with rfl | hr
    · exact hinv x hx (heq.symm.trans hkey)
    · exact hs.genuine r hr x hx heq
  · intro r hr p hp
    rcases mem_cons.mp hr with rfl | hr
    · intro heq
      have hp := World.mem_pendingPeers_setSite hkept.1 hp
      obtain ⟨x, hx, -, hpends⟩ := h.pending i p hp
      have hxk : wgKey x.invite.presharedKey = some key := by
        rw [← hpends.presharedKey, heq]
        exact hkey
      -- the name would be taken
      refine hfree p (mem_pendingPeers.mp hp).1 ?_
      rw [hpends.name, hinv x hx hxk]
    · exact hs.apart r hr p hp
  · intro r hr hremoved
    rcases mem_cons.mp hr with rfl | hr
    · show joinedPeer inv ∈ ((w.setSite i _).sites i).vpnServer.peers
      rw [World.setSite_self]
      exact mem_append_right _ mem_cons_self
    · exact hs.holds r hr hremoved

theorem Sound.consumeInvite (h : Sound w) (i : ι) (saved : Bool) (now : Nat)
    (token : Token) (hhonest : Honest w (.consumeInvite i saved now token)) :
    Sound (w.step (.consumeInvite i saved now token)) := by
  simp only [World.step]
  rcases consumeInvite_cases saved now token (w.sites i) with
    ⟨e, c, heq, hcalm⟩ | ⟨inv, key, rfl, hkey, hsame, hfree, heq⟩
  · rw [heq]
    exact (h.calm hcalm).keys _
  have hjoin := h.join now hkey hsame hfree (hhonest key hkey)
  have hkeys : World.presented (.invite inv) = [key] := by
    rw [World.presented, hkey]
    rfl
  rw [heq, hkeys]
  exact hjoin

/-! ### A completed peer -/

/-- After a successful check no other pending peer has the key of the ack. -/
theorem Sound.spend (h : Sound w) {saved : Bool} {now : Nat} {name : Text}
    {token : Token} (hok : (VPN.finalizeInvite saved now name token (w.sites i)).1 = .ok p) :
    ∃ key body, token = .ack body (.hmac key body) ∧ key ∈ w.keys ∧
      ∀ j, ∀ q ∈ pendingPeers ((w.setSite i
        (VPN.finalizeInvite saved now name token (w.sites i)).2).sites j),
        wgKey q.presharedKey ≠ some key := by
  rcases finalizeInvite_cases saved now name token (w.sites i) with
    ⟨e, -, heq⟩ | ⟨body, p₀, front, back, hcheck, hpeers, heq⟩
  · rw [heq] at hok
    cases hok
  obtain ⟨key, ⟨htoken, -⟩, -, hfind, hpending, -, hkey⟩ := checkFinalize_ok hcheck
  have hp₀ : p₀ ∈ pendingPeers (w.sites i) :=
    mem_pendingPeers.mpr ⟨mem_of_find?_eq_some hfind, hpending⟩
  obtain ⟨x, hx, hxi, hpends⟩ := h.pending i p₀ hp₀
  have hxk : wgKey x.invite.presharedKey = some key := by rwa [← hpends.presharedKey]
  refine ⟨key, body, htoken, h.issuedKeys x hx key hxk, ?_⟩
  intro j q hq hqk
  have hcalm := (finalizeInvite_calm saved now name token (w.sites i)).1
  -- a second pending peer with the key would be on the same router under the same name
  obtain ⟨y, hy, hyj, hqpends⟩ := h.pending j q (World.mem_pendingPeers_setSite hcalm hq)
  have hyk : wgKey y.invite.presharedKey = some key := by rwa [← hqpends.presharedKey]
  obtain rfl := h.unique x hx y hy key hxk hyk
  obtain rfl : i = j := hxi.symm.trans hyj
  have hname : q.name = p₀.name := hqpends.name.trans hpends.name.symm
  rw [World.setSite_self, heq, mem_pendingPeers, withPeers_peers] at hq
  have hne : q ≠ finalized body.publicKey p₀ := by
    rintro rfl
    cases hq.2
  have hmem := mem_of_mem_split hq.1 hne
  have hnodup := h.names i
  rw [pendingPeers, hpeers, filter_append, filter_cons_of_pos hpending, map_append,
    map_cons, nodup_middle, nodup_cons, ← map_append,
    ← filter_append] at hnodup
  exact hnodup.1 (mem_map.mpr ⟨q, mem_filter.mpr ⟨hmem, hq.2⟩, hname⟩)

theorem Sound.finalizeInvite (h : Sound w) (i : ι) (saved : Bool) (now : Nat)
    (name : Text) (token : Token) : Sound (w.step (.finalizeInvite i saved now name token)) := by
  have hs := h.calm (finalizeInvite_calm saved now name token (w.sites i))
  simp only [World.step]
  split
  · exact hs
  rename_i p hok
  refine { hs with spent := ?_ }
  intro t ht
  rcases mem_cons.mp ht with rfl | ht
  · exact h.spend hok
  · exact hs.spent t ht

/-! ### Every step -/

theorem Sound.step (w : World ι) (a : Act ι) (h : Sound w) (hhonest : Honest w a) :
    Sound ((linking ι).step w a) := by
  cases a with
  | createS2SInvite i saved now psk r => exact h.createS2SInvite i saved now psk r hhonest
  | consumeInvite i saved now token => exact h.consumeInvite i saved now token hhonest
  | finalizeInvite i saved now name token => exact h.finalizeInvite i saved now name token
  | cancelInvite i saved name => exact h.calm (cancelInvite_calm saved name (w.sites i))
  | gcExpiredInvites i now => exact h.calm (gcExpiredInvites_calm now (w.sites i))
  | addPeer i saved keys r => exact h.calm (addPeer_calm saved keys r (w.sites i))
  | removePeer i saved name => exact h.removePeer i saved name
  | configure i is vs =>
    exact h.calm ⟨⟨rfl, List.Sublist.refl _⟩, fun _ hq _ => hq⟩

theorem reachable_sound (h : (linking ι).Reachable Honest w) : Sound w :=
  h.invariant (fun _ => Sound.init) Sound.step

/-! ## What a completed peer means -/

/-- What a successful `FinalizeInvite` of a router tells about an answer. -/
structure Agreement (w : World ι) (i : ι) (now : Nat) (name : Text) (token : Token)
    (p : WGServerPeer) (r : Answer ι) : Prop where
  /-- the answer is to the invite that is pending under the name and not expired -/
  pending : ∃ x ∈ w.issued, x.inviter = i ∧ x.invite = r.invite ∧ r.invite.name = name ∧
    ∃ q ∈ pendingPeers (w.sites i), Pends r.invite q ∧ expired now q = false
  /-- the token is its ack -/
  ack : r.ack = token
  /-- the joiner is another router -/
  other : r.joiner ≠ i
  /-- the peer has the preshared key and the joiner's public key -/
  inviter : p.name = name ∧ p.pending = false ∧ p.presharedKey = r.invite.presharedKey ∧
    p.publicKey = (w.sites r.joiner).vpnServer.publicKey
  /-- the joiner has the preshared key and the inviter's public key, if it has not
  removed the peer -/
  joiner : r.removed = false → ∃ q ∈ (w.sites r.joiner).vpnServer.peers, q.name = name ∧
    q.presharedKey = p.presharedKey ∧ q.publicKey = (w.sites i).vpnServer.publicKey
  /-- the remote subnets are the networks of the joiner's LANs when it answered -/
  subnets : ∀ n, n ∈ subnetRange p.remoteSubnets ↔ n ∈ subnetRange r.lans
  /-- the ack has not completed a peer before -/
  once : token ∉ w.spent

/-- **Agreement.** -/
theorem finalize_agreement {w : World ι} (hw : (linking ι).Reachable Honest w) {i : ι}
    {saved : Bool} {now : Nat} {name : Text} {token : Token} {p : WGServerPeer}
    (hhonest : Honest w (.finalizeInvite i saved now name token))
    (hok : (finalizeInvite saved now name token (w.sites i)).1 = .ok p) :
    p ∈ (finalizeInvite saved now name token (w.sites i)).2.vpnServer.peers ∧
      ∃ r ∈ w.answers, Agreement w i now name token p r := by
  have h := reachable_sound hw
  rcases finalizeInvite_cases saved now name token (w.sites i) with
    ⟨e, -, heq⟩ | ⟨body, p₀, front, back, hcheck, hpeers, heq⟩
  · rw [heq] at hok
    cases hok
  obtain ⟨key, ⟨rfl, -⟩, hname, hfind, hpending, hexpired, hkey⟩ := checkFinalize_ok hcheck
  obtain rfl : finalized body.publicKey p₀ = p := by
    rw [heq] at hok
    cases saved with
    | false => cases hok
    | true => exact Except.ok.inj hok
  have hp₀name : p₀.name = name := by simpa using List.find?_some hfind
  have hp₀ : p₀ ∈ pendingPeers (w.sites i) :=
    mem_pendingPeers.mpr ⟨mem_of_find?_eq_some hfind, hpending⟩
  obtain ⟨x, hx, hxi, hpends⟩ := h.pending i p₀ hp₀
  have hxk : wgKey x.invite.presharedKey = some key := by rwa [← hpends.presharedKey]
  -- the MAC was made in an answer, and the key says to which invite
  obtain ⟨r, hr, hack⟩ := hhonest ⟨x, hx, hxk⟩
  obtain ⟨key', body', hrk, hrack, hpub, hsame⟩ := h.fair r hr
  rw [hack] at hrack
  obtain ⟨rfl, hmac⟩ := Token.ack.inj hrack
  obtain ⟨rfl, -⟩ := Mac.hmac.inj hmac
  have hinv : r.invite = x.invite := h.genuine r hr x hx (hrk.trans hxk.symm)
  have hrname : r.invite.name = name := by rw [hinv, ← hpends.name, hp₀name]
  have hrpub : r.invite.publicKey = (w.sites i).vpnServer.publicKey := by
    rw [hinv, h.publicKey x hx, hxi]
  have hrpsk : p₀.presharedKey = r.invite.presharedKey := by rw [hinv, hpends.presharedKey]
  constructor
  · rw [heq]
    exact mem_append_right _ mem_cons_self
  refine ⟨r, hr, ?_⟩
  constructor
  · exact ⟨x, hx, hxi, hinv.symm, hrname, p₀, hp₀, hinv ▸ hpends, hexpired⟩
  · exact hack
  · rintro rfl
    exact h.apart r hr p₀ hp₀ (hkey.trans hrk.symm)
  · exact ⟨hp₀name, rfl, hrpsk, hpub⟩
  · intro hremoved
    exact ⟨_, h.holds r hr hremoved, hrname, hrpsk.symm, hrpub⟩
  · intro n
    have hremote : (finalized body.publicKey p₀).remoteSubnets = r.invite.expectedSubnets := by
      rw [hinv]
      exact hpends.remoteSubnets
    rw [hremote]
    exact sameSubnets_iff.mp hsame n
  · intro hspent
    obtain ⟨key'', body'', heq'', -, hnone⟩ := h.spent _ hspent
    obtain ⟨-, hmac''⟩ := Token.ack.inj heq''
    obtain ⟨rfl, -⟩ := Mac.hmac.inj hmac''
    exact hnone i p₀ hp₀ hkey

/-! ### A head office and a branch -/

/-- Thirty-two bytes in base64. -/
def sampleKey (c : Char) : Text :=
  List.replicate 43 c ++ ['=']

def sampleSite (lan : Text) (key : Char) : Config where
  interfaces := [staticLAN "lan" "eth1" lan]
  vpnServer := { publicKey := sampleKey key, address := "10.8.0.1/24" }

/-- The branch is `true`. -/
def company : World Bool where
  sites b := if b then sampleSite "192.168.2.1/24" 'C' else sampleSite "192.168.1.1/24" 'A'

def branchRequest : InviteRequest :=
  ⟨"branch", "head office", "203.0.113.1:51820", ["192.168.2.0/24"]⟩

def branchInvite : Token :=
  .invite (inviteOf 0 (sampleKey 'B') branchRequest (company.sites false))

/-- The head office invites, and the branch joins. -/
def invited : List (Act Bool) :=
  [.createS2SInvite false true 0 (some (sampleKey 'B')) branchRequest,
    .consumeInvite true true 0 branchInvite]

/-- The ack of the branch. -/
def branchAck : Token :=
  match (consumeInvite true 0 branchInvite (company.sites true)).1 with
  | .ok (ack, _) => ack
  | .error _ => .junk

theorem company_init : (linking Bool).Init company :=
  ⟨by decide, rfl, rfl, rfl, rfl⟩

/-- The peer of the head office after the ack. -/
def branchPeer : WGServerPeer :=
  finalized (sampleKey 'C') (pendingPeer 0 (sampleKey 'B') branchRequest)

theorem company_agreement :
    ∃ r ∈ ((linking Bool).run company invited).answers,
      Agreement ((linking Bool).run company invited) false 0 "branch" branchAck branchPeer r := by
  have hguard : Machine.Guarded (linking Bool) Honest company invited := by decide +kernel
  have hreach : (linking Bool).Reachable Honest ((linking Bool).run company invited) :=
    (Machine.Reachable.init company_init).run hguard
  have hhonest : Honest ((linking Bool).run company invited)
      (.finalizeInvite false true 0 "branch" branchAck) := by decide +kernel
  have hok : (finalizeInvite true 0 "branch" branchAck
      (((linking Bool).run company invited).sites false)).1 = .ok branchPeer := by decide +kernel
  exact (finalize_agreement hreach hhonest hok).2

/-- The branch removes its peer before the head office gets the ack. The head office
completes its peer all the same, and the branch has none. -/
theorem joiner_forgot :
    let acts := invited ++ [.removePeer true true "branch"]
    let w := (linking Bool).run company acts
    Machine.Guarded (linking Bool) Honest company
      (acts ++ [.finalizeInvite false true 0 "branch" branchAck]) ∧
    (finalizeInvite true 0 "branch" branchAck (w.sites false)).1 = .ok branchPeer ∧
    (w.sites true).vpnServer.peers = [] := by
  decide +kernel

end Lankeeper.VPN
