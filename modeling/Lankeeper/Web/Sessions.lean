import Lankeeper.Lib.Machine

/-!
# Lankeeper.Web.Sessions — passwords and the sessions they open

`internal/web/auth.go`, as `handleLogin` uses it. The cookie a browser holds is signed, good
for a day, and names a session ID; the server keeps the set of IDs that are valid. A login goes
through two critical sections: `VerifyPassword` reads the hash, and `Login` adds a fresh ID
to the set. `ChangePassword` sets a new hash and drops every ID but that of the request,
`Logout` drops the ID of the request. Any of these may come between the two halves of a
login, which is why the halves are steps of their own here.

The state carries a history beside what the code keeps: to whom each ID was issued and for
which password, which session changed the password last, and the IDs that a logout should
have ended. `sessions_revoked_iff` says which interleavings revoke what they should, and
`session_accepted_iff` how long a session lasts.
-/

namespace Lankeeper.Web

open Lib List

variable {Hash Password Browser Id : Type} [DecidableEq Id]

/-! ## State -/

/-- What a session cookie says. -/
structure Values (Id : Type) where
  authenticated : Bool
  sid : Option Id

/-- The cookie of a request: none, one the store cannot decode, or one signed at some time. -/
inductive Cookie (Id : Type)
  | absent
  | undecodable
  | signed (v : Values Id) (signedAt : Nat)

/-- An ID that was issued. -/
structure Issued (Password Browser Id : Type) where
  id : Id
  browser : Browser
  password : Password
  /-- when its cookie was signed -/
  loginAt : Nat

/-- A login whose password was found right and that has no session yet. -/
structure Pending (Password Browser : Type) where
  browser : Browser
  password : Password
  /-- the number of password changes before its `VerifyPassword` -/
  changes : Nat

structure State (Hash Password Browser Id : Type) where
  /-- the time in seconds -/
  now : Nat
  passwordHash : Hash
  /-- the IDs that are still valid -/
  sessions : List Id
  pending : List (Pending Password Browser)
  /-- history: every ID the store ever signed -/
  issued : List (Issued Password Browser Id)
  /-- history: the number of password changes -/
  changes : Nat
  /-- history: the session that made the last one -/
  changer : Option Id
  /-- history: the IDs issued to a browser before a logout of that browser -/
  ended : List Id

/-- `store.MaxAge`: how many seconds a cookie is good for. -/
def sessionMaxAge : Nat := 86400

namespace State

variable (s : State Hash Password Browser Id)

def issuedIds : List Id :=
  s.issued.map Issued.id

/-- `store.Get`. Nobody can sign but the store, so a signed cookie is one it issued: with the
login, or later by a logout that took the authentication from it. -/
def get : Cookie Id → Option (Values Id)
  | .absent => some ⟨false, none⟩
  | .undecodable => none
  | .signed v signedAt =>
    if (∀ id ∈ v.sid, ∃ o ∈ s.issued, o.id = id ∧ (v.authenticated → o.loginAt = signedAt)) ∧
      s.now ≤ signedAt + sessionMaxAge then some v else none

/-- `sessionID`. -/
def sessionID (c : Cookie Id) : Option Id :=
  (s.get c).bind Values.sid

def isAuthenticated (c : Cookie Id) : Bool :=
  match s.get c with
  | none => false
  | some v => v.authenticated && v.sid.any (· ∈ s.sessions)

/-- `VerifyPassword`: the hash is read here, whenever the comparison is done. -/
def verifyPassword (matchesHash : Hash → Password → Bool) (b : Browser) (password : Password) :
    State Hash Password Browser Id :=
  if matchesHash s.passwordHash password then
    { s with pending := s.pending ++ [⟨b, password, s.changes⟩] }
  else s

/-- The session `id` is added for the pending login `i`. -/
def addSession (i : Nat) (p : Pending Password Browser) (id : Id) : State Hash Password Browser Id :=
  { s with
    sessions := id :: s.sessions
    pending := s.pending.eraseIdx i
    issued := ⟨id, p.browser, p.password, s.now⟩ :: s.issued }

/-- `Login` for the pending login `i`. The ID is 32 random bytes; it never repeats. -/
def login (i : Nat) (id : Id) : State Hash Password Browser Id :=
  match s.pending[i]? with
  | none => s
  | some p => if id ∈ s.issuedIds then s else s.addSession i p id

/-- A pending login that ends without a session: the token or the ID could not be made. -/
def giveUp (i : Nat) : State Hash Password Browser Id :=
  { s with pending := s.pending.eraseIdx i }

def changePassword (c : Cookie Id) (hash : Hash) : State Hash Password Browser Id :=
  { s with
    passwordHash := hash
    sessions := s.sessions.filter fun id => some id = s.sessionID c
    changes := s.changes + 1
    changer := s.sessionID c }

/-- `Logout` of a request from browser `b`. -/
def logout [DecidableEq Browser] (b : Browser) (c : Cookie Id) : State Hash Password Browser Id :=
  match s.get c with
  | none => s
  | some v => { s with
      sessions := s.sessions.filter fun id => some id ≠ v.sid
      ended := s.ended ++ (s.issued.filter fun o => o.browser = b).map Issued.id }

end State

/-- One critical section of one request, or the time that passes. -/
inductive Event (Hash Password Browser Id : Type)
  | verifyPassword (b : Browser) (password : Password)
  | login (i : Nat) (id : Id)
  | giveUp (i : Nat)
  | changePassword (c : Cookie Id) (hash : Hash)
  | logout (b : Browser) (c : Cookie Id)
  | isAuthenticated (c : Cookie Id)
  | pass (seconds : Nat)

variable (matchesHash : Hash → Password → Bool)

def auth [DecidableEq Browser] :
    Machine (State Hash Password Browser Id) (Event Hash Password Browser Id) where
  Init s := s.sessions = [] ∧ s.pending = [] ∧ s.issued = [] ∧ s.changer = none ∧ s.ended = []
  step s
    | .verifyPassword b password => s.verifyPassword matchesHash b password
    | .login i id => s.login i id
    | .giveUp i => s.giveUp i
    | .changePassword c hash => s.changePassword c hash
    | .logout b c => s.logout b c
    | .isAuthenticated _ => s
    | .pass seconds => { s with now := s.now + seconds }

/-! ## What the sessions should be -/

/-- Some cookie with this ID is let in. -/
def Accepts (s : State Hash Password Browser Id) (id : Id) : Prop :=
  ∃ signedAt, s.isAuthenticated (.signed ⟨true, some id⟩ signedAt)

/-- Every session but the one that changed the password last was opened with a password
that matches the hash. -/
def Revoked (s : State Hash Password Browser Id) : Prop :=
  ∀ id, Accepts s id → s.changer ≠ some id →
    ∃ o ∈ s.issued, o.id = id ∧ matchesHash s.passwordHash o.password

/-- No ID issued to a browser before a logout of that browser is let in. -/
def LoggedOut (s : State Hash Password Browser Id) : Prop :=
  ∀ id ∈ s.ended, ¬ Accepts s id

/-- The steps that keep both. A session is opened with no password change since the
password was checked, or with a password that matches the new hash as well. A logout comes
from a browser none of whose IDs is let in but the one in its cookie. -/
def Orderly (s : State Hash Password Browser Id) : Event Hash Password Browser Id → Prop
  | .login i id =>
    ∀ p ∈ s.pending[i]?, id ∉ s.issuedIds →
      p.changes = s.changes ∨ matchesHash s.passwordHash p.password
  | .logout b c =>
    ∀ v ∈ s.get c, ∀ o ∈ s.issued, o.browser = b → Accepts s o.id → v.sid = some o.id
  | _ => True

/-! ## Invariants of every run -/

/-- What holds in whatever order the requests come. -/
structure Inv (s : State Hash Password Browser Id) : Prop where
  sessions_issued : ∀ id ∈ s.sessions, id ∈ s.issuedIds
  ended_issued : ∀ id ∈ s.ended, id ∈ s.issuedIds
  changer_issued : ∀ id ∈ s.changer, id ∈ s.issuedIds
  changes_le : ∀ p ∈ s.pending, p.changes ≤ s.changes
  /-- a password checked since the last change matches the hash -/
  verified : ∀ p ∈ s.pending, p.changes = s.changes → matchesHash s.passwordHash p.password

variable {matchesHash} {s : State Hash Password Browser Id}

/-- A cookie for the ID is not out of date. -/
def Fresh (s : State Hash Password Browser Id) (id : Id) : Prop :=
  ∃ o ∈ s.issued, o.id = id ∧ s.now ≤ o.loginAt + sessionMaxAge

theorem accepts_iff {id : Id} : Accepts s id ↔ Fresh s id ∧ id ∈ s.sessions := by
  unfold Accepts State.isAuthenticated State.get Fresh
  constructor
  · rintro ⟨signedAt, h⟩
    dsimp only at h
    split at h
    · cases h
    · rename_i v hv
      split_ifs at hv with hgood
      cases hv
      obtain ⟨o, ho, hid, hat⟩ := hgood.1 id rfl
      exact ⟨⟨o, ho, hid, hat rfl ▸ hgood.2⟩, by simpa using h⟩
  · rintro ⟨⟨o, ho, rfl, hage⟩, hsession⟩
    refine ⟨o.loginAt, ?_⟩
    dsimp only
    rw [if_pos ⟨by rintro _ ⟨⟩; exact ⟨o, ho, rfl, fun _ => rfl⟩, hage⟩]
    simpa using hsession

/-- The new session is let in, and the others as before. -/
theorem accepts_addSession (i : Nat) (p : Pending Password Browser) {id x : Id} :
    Accepts (s.addSession i p id) x ↔ x = id ∨ Accepts s x := by
  rw [accepts_iff, accepts_iff]
  simp only [Fresh, State.addSession, mem_cons, or_and_right, exists_or, exists_eq_left]
  constructor
  · rintro (⟨⟨rfl, -⟩, -⟩ | ⟨hage, hx | hx⟩)
    · exact .inl rfl
    · exact .inl hx
    · exact .inr ⟨hage, hx⟩
  · rintro (rfl | ⟨hage, hx⟩)
    · exact .inl ⟨⟨rfl, Nat.le_add_right _ _⟩, .inl rfl⟩
    · exact .inr ⟨hage, .inr hx⟩

theorem sessionID_issued {c : Cookie Id} {id : Id} (h : s.sessionID c = some id) :
    id ∈ s.issuedIds := by
  unfold State.sessionID State.get at h
  cases c with
  | absent => cases h
  | undecodable => cases h
  | signed v signedAt =>
    dsimp only at h
    split at h
    · rename_i hall
      obtain ⟨o, ho, rfl, -⟩ := hall.1 id h
      exact mem_map_of_mem ho
    · cases h

variable {s' : State Hash Password Browser Id}

omit [DecidableEq Id] in
/-- A step that issues nothing keeps the history as it is, so only what is pending and what
is valid has to be looked at. -/
theorem Inv.of_issued_eq (h : Inv matchesHash s)
    (hissued : s'.issued = s.issued) (hsessions : ∀ id ∈ s'.sessions, id ∈ s.sessions)
    (hended : ∀ id ∈ s'.ended, id ∈ s.issuedIds) (hchanger : ∀ id ∈ s'.changer, id ∈ s.issuedIds)
    (hle : ∀ p ∈ s'.pending, p.changes ≤ s'.changes)
    (hverified : ∀ p ∈ s'.pending, p.changes = s'.changes →
      matchesHash s'.passwordHash p.password) : Inv matchesHash s' := by
  have hids : s'.issuedIds = s.issuedIds := by
    rw [State.issuedIds, hissued, State.issuedIds]
  constructor
  · intro id hid
    rw [hids]
    exact h.sessions_issued id (hsessions id hid)
  · rwa [hids]
  · rwa [hids]
  · exact hle
  · exact hverified

omit [DecidableEq Id] in
theorem Inv.verifyPassword (h : Inv matchesHash s) (b : Browser) (password : Password) :
    Inv matchesHash (s.verifyPassword matchesHash b password) := by
  unfold State.verifyPassword
  split
  · rename_i hmatch
    refine h.of_issued_eq rfl (fun _ hid => hid) h.ended_issued h.changer_issued ?_ ?_
    · exact forall_mem_append.mpr ⟨h.changes_le, forall_mem_singleton.mpr (Nat.le_refl _)⟩
    · exact forall_mem_append.mpr ⟨h.verified, forall_mem_singleton.mpr fun _ => hmatch⟩
  · exact h

omit [DecidableEq Id] in
theorem Inv.giveUp (h : Inv matchesHash s) (i : Nat) : Inv matchesHash (s.giveUp i) := by
  refine h.of_issued_eq rfl (fun _ hid => hid) h.ended_issued h.changer_issued ?_ ?_
  · intro p hp
    exact h.changes_le p (mem_of_mem_eraseIdx hp)
  · intro p hp
    exact h.verified p (mem_of_mem_eraseIdx hp)

theorem Inv.changePassword (h : Inv matchesHash s) (c : Cookie Id) (hash : Hash) :
    Inv matchesHash (s.changePassword c hash) := by
  refine h.of_issued_eq rfl ?_ h.ended_issued (fun id hid => sessionID_issued hid) ?_ ?_
  · intro id hid
    exact (mem_filter.mp hid).1
  · intro p hp
    exact Nat.le_succ_of_le (h.changes_le p hp)
  · -- whatever is pending was checked before this change
    intro p hp hchanges
    have hle := h.changes_le p hp
    have hnew : p.changes = s.changes + 1 := hchanges
    omega

theorem Inv.logout [DecidableEq Browser] (h : Inv matchesHash s) (b : Browser) (c : Cookie Id) :
    Inv matchesHash (s.logout b c) := by
  unfold State.logout
  split
  · exact h
  refine h.of_issued_eq rfl ?_ ?_ h.changer_issued h.changes_le h.verified
  · intro id hid
    exact (mem_filter.mp hid).1
  · intro id hid
    rcases mem_append.mp hid with hid | hid
    · exact h.ended_issued id hid
    · obtain ⟨o, ho, rfl⟩ := mem_map.mp hid
      exact mem_map_of_mem (mem_filter.mp ho).1

theorem Inv.login (h : Inv matchesHash s) (i : Nat) (id : Id) : Inv matchesHash (s.login i id) := by
  unfold State.login
  split
  · exact h
  rename_i p hp
  split
  · exact h
  have hold : ∀ x ∈ s.issuedIds, x ∈ id :: s.issuedIds :=
    fun x hx => mem_cons_of_mem id hx
  constructor
  · intro x hx
    rcases mem_cons.mp hx with rfl | hx
    · exact mem_cons_self
    · exact hold x (h.sessions_issued x hx)
  · exact fun x hx => hold x (h.ended_issued x hx)
  · exact fun x hx => hold x (h.changer_issued x hx)
  · exact fun p hp => h.changes_le p (mem_of_mem_eraseIdx hp)
  · exact fun p hp => h.verified p (mem_of_mem_eraseIdx hp)

theorem Inv.step [DecidableEq Browser] (h : Inv matchesHash s) (e : Event Hash Password Browser Id) :
    Inv matchesHash ((auth matchesHash).step s e) := by
  cases e with
  | verifyPassword b password => exact h.verifyPassword b password
  | login i id => exact h.login i id
  | giveUp i => exact h.giveUp i
  | changePassword c hash => exact h.changePassword c hash
  | logout b c => exact h.logout b c
  | isAuthenticated c => exact h
  | pass seconds =>
    exact h.of_issued_eq rfl (fun _ hid => hid) h.ended_issued h.changer_issued h.changes_le h.verified

theorem Inv.init [DecidableEq Browser] (h : (auth matchesHash).Init s) : Inv matchesHash s := by
  obtain ⟨hsessions, hpending, -, hchanger, hended⟩ := h
  constructor <;> simp [hsessions, hpending, hchanger, hended]

/-! ## One step -/

section Fewer

variable (hnow : s.now ≤ s'.now) (hissued : s'.issued = s.issued)
  (hsessions : ∀ id ∈ s'.sessions, id ∈ s.sessions)

include hnow hissued hsessions

/-- A step that issues nothing lets in no more. -/
theorem accepts_of_subset {id : Id} (h : Accepts s' id) : Accepts s id := by
  obtain ⟨⟨o, ho, hoid, hage⟩, hid⟩ := accepts_iff.mp h
  exact accepts_iff.mpr ⟨⟨o, hissued ▸ ho, hoid, Nat.le_trans hnow hage⟩, hsessions id hid⟩

theorem keeps_of_subset (hhash : s'.passwordHash = s.passwordHash) (hchanger : s'.changer = s.changer)
    (h : Revoked matchesHash s) : Revoked matchesHash s' := by
  intro id hid hne
  obtain ⟨o, ho, hoid, hmatch⟩ := h id (accepts_of_subset hnow hissued hsessions hid) (hchanger ▸ hne)
  exact ⟨o, hissued ▸ ho, hoid, hhash ▸ hmatch⟩

theorem loggedOut_of_subset (hended : s'.ended = s.ended) (h : LoggedOut s) : LoggedOut s' := by
  intro id hid haccepts
  exact h id (hended ▸ hid) (accepts_of_subset hnow hissued hsessions haccepts)

end Fewer

/-- A login keeps the sessions in order exactly if its password matches the hash of now. -/
theorem login_iff (hinv : Inv matchesHash s) (hrev : Revoked matchesHash s) (hout : LoggedOut s)
    (i : Nat) (id : Id) :
    Revoked matchesHash (s.login i id) ∧ LoggedOut (s.login i id) ↔
      Orderly matchesHash s (.login i id) := by
  unfold State.login
  split
  · rename_i hnone
    refine iff_of_true ⟨hrev, hout⟩ ?_
    intro p hp
    cases hnone.symm.trans hp
  · rename_i p hp
    split
    · rename_i hused
      refine iff_of_true ⟨hrev, hout⟩ ?_
      intro p' _ hfresh
      exact absurd hused hfresh
    · rename_i hfresh
      have hpmem : p ∈ s.pending := mem_of_getElem? hp
      constructor
      · rintro ⟨hrev', -⟩ p' hp' -
        obtain rfl : p = p' := Option.some.inj (hp.symm.trans hp')
        -- the new session is let in, and its ID stands for this login only
        have hchanger : s.changer ≠ some id := fun h => hfresh (hinv.changer_issued id h)
        obtain ⟨o, ho, hoid, hmatch⟩ :=
          hrev' id ((accepts_addSession i p).mpr (.inl rfl)) hchanger
        rcases mem_cons.mp ho with rfl | ho
        · exact .inr hmatch
        · exact absurd (hoid ▸ mem_map_of_mem ho) hfresh
      · intro hord
        have hmatch : matchesHash s.passwordHash p.password := by
          rcases hord p hp hfresh with hsame | hmatch
          · exact hinv.verified p hpmem hsame
          · exact hmatch
        constructor
        · intro x hx hne
          rcases (accepts_addSession i p).mp hx with rfl | hx
          · exact ⟨_, mem_cons_self, rfl, hmatch⟩
          · obtain ⟨o, ho, hoid, hm⟩ := hrev x hx hne
            exact ⟨o, mem_cons_of_mem _ ho, hoid, hm⟩
        · intro x hended hx
          rcases (accepts_addSession i p).mp hx with rfl | hx
          · exact hfresh (hinv.ended_issued x hended)
          · exact hout x hended hx

/-- A password change leaves no session but the one that made it. -/
theorem changePassword_keeps (hout : LoggedOut s) (c : Cookie Id) (hash : Hash) :
    Revoked matchesHash (s.changePassword c hash) ∧ LoggedOut (s.changePassword c hash) := by
  constructor
  · intro id hid hne
    have hkept := (accepts_iff.mp hid).2
    have hsame : some id = s.sessionID c := by
      simpa using (mem_filter.mp hkept).2
    exact absurd hsame.symm hne
  · refine loggedOut_of_subset (s := s) (Nat.le_refl _) rfl ?_ rfl hout
    intro id hid
    exact (mem_filter.mp hid).1

/-- A logout ends all sessions of its browser exactly if the only valid one is that of its
cookie. -/
theorem logout_iff [DecidableEq Browser] (hrev : Revoked matchesHash s) (hout : LoggedOut s)
    (b : Browser) (c : Cookie Id) :
    Revoked matchesHash (s.logout b c) ∧ LoggedOut (s.logout b c) ↔
      Orderly matchesHash s (.logout b c) := by
  unfold State.logout
  split
  · rename_i hnone
    refine iff_of_true ⟨hrev, hout⟩ ?_
    intro v hv
    cases hnone.symm.trans hv
  · rename_i v hv
    have hsub : ∀ id ∈ s.sessions.filter (fun id => some id ≠ v.sid), id ∈ s.sessions :=
      fun id hid => (mem_filter.mp hid).1
    constructor
    · rintro ⟨-, hout'⟩ v' hv' o ho hob haccepts
      obtain rfl : v = v' := Option.some.inj (hv.symm.trans hv')
      by_contra hne
      -- the ID is one of those the logout was to end, and it is still valid
      obtain ⟨hage, hlive⟩ := accepts_iff.mp haccepts
      refine hout' o.id ?_ (accepts_iff.mpr ⟨hage, ?_⟩)
      · refine mem_append_right _ (mem_map_of_mem (mem_filter.mpr ⟨ho, ?_⟩))
        simpa using hob
      · refine mem_filter.mpr ⟨hlive, ?_⟩
        simpa using fun h => hne h.symm
    · intro hord
      constructor
      · exact keeps_of_subset (s := s) (Nat.le_refl _) rfl hsub rfl rfl hrev
      intro id hid haccepts
      obtain ⟨hage, hvalid⟩ := accepts_iff.mp haccepts
      have hbefore : Accepts s id := accepts_iff.mpr ⟨hage, hsub id hvalid⟩
      rcases mem_append.mp hid with hid | hid
      · exact hout id hid hbefore
      · obtain ⟨o, ho, rfl⟩ := mem_map.mp hid
        obtain ⟨homem, hob⟩ := mem_filter.mp ho
        have hcookie := hord v hv o homem (by simpa using hob) hbefore
        have hne : some o.id ≠ v.sid := by simpa using (mem_filter.mp hvalid).2
        exact hne hcookie.symm

theorem step_iff [DecidableEq Browser] (hinv : Inv matchesHash s) (h : Revoked matchesHash s ∧ LoggedOut s)
    (e : Event Hash Password Browser Id) :
    Revoked matchesHash ((auth matchesHash).step s e) ∧ LoggedOut ((auth matchesHash).step s e) ↔
      Orderly matchesHash s e := by
  obtain ⟨hrev, hout⟩ := h
  cases e with
  | verifyPassword b password =>
    refine iff_of_true ?_ trivial
    show Revoked matchesHash (s.verifyPassword matchesHash b password) ∧
      LoggedOut (s.verifyPassword matchesHash b password)
    unfold State.verifyPassword
    split
    · exact ⟨keeps_of_subset (Nat.le_refl _) rfl (fun _ hid => hid) rfl rfl hrev,
        loggedOut_of_subset (Nat.le_refl _) rfl (fun _ hid => hid) rfl hout⟩
    · exact ⟨hrev, hout⟩
  | login i id => exact login_iff hinv hrev hout i id
  | giveUp i =>
    refine iff_of_true ?_ trivial
    exact ⟨keeps_of_subset (s := s) (Nat.le_refl _) rfl (fun _ hid => hid) rfl rfl hrev,
      loggedOut_of_subset (s := s) (Nat.le_refl _) rfl (fun _ hid => hid) rfl hout⟩
  | changePassword c hash => exact iff_of_true (changePassword_keeps hout c hash) trivial
  | logout b c => exact logout_iff hrev hout b c
  | isAuthenticated c => exact iff_of_true ⟨hrev, hout⟩ trivial
  | pass seconds =>
    refine iff_of_true ?_ trivial
    exact ⟨keeps_of_subset (s := s) (Nat.le_add_right _ _) rfl (fun _ hid => hid) rfl rfl hrev,
      loggedOut_of_subset (s := s) (Nat.le_add_right _ _) rfl (fun _ hid => hid) rfl hout⟩

/-- A router that was just started. -/
def start (hash : Hash) : State Hash Password Browser Id :=
  ⟨0, hash, [], [], [], 0, none, []⟩

variable (matchesHash) in
/-- **Revocation over all interleavings.** Throughout a run, sessions other than that of
the last password change were opened with a password that matches the hash, and logouts
ended what was issued to their browser, exactly if every login and every logout of the run
is orderly. -/
theorem sessions_revoked_iff [DecidableEq Browser] (hash : Hash)
    (es : List (Event Hash Password Browser Id)) :
    (∀ pre, pre <+: es →
      Revoked matchesHash ((auth matchesHash).run (start hash) pre) ∧
        LoggedOut ((auth matchesHash).run (start hash) pre)) ↔
      Machine.Guarded (auth matchesHash) (Orderly matchesHash) (start hash) es := by
  have hinit : Inv matchesHash (start hash : State Hash Password Browser Id) :=
    Inv.init ⟨rfl, rfl, rfl, rfl, rfl⟩
  have hprop : Revoked matchesHash (start hash : State Hash Password Browser Id) ∧
      LoggedOut (start hash : State Hash Password Browser Id) := by
    constructor
    · intro id hid
      cases (accepts_iff.mp hid).2
    · intro id hid
      cases hid
  exact Machine.run_iff_guarded_of_invariant
    (P := fun s => Revoked matchesHash s ∧ LoggedOut s) (fun s e hI => hI.step e)
    (fun s e hI hP => step_iff hI hP e) hinit hprop es

/-- Passwords that stand for their own hashes. -/
def plain (hash password : Nat) : Bool :=
  hash == password

/-- Two ways to keep a session. A login whose password was checked before the change opens
its session after it. And a browser that logs in twice has two IDs, of which a logout ends
the one in its cookie. -/
theorem old_password_admitted :
    let late := (auth plain).run (start 1 : State Nat Nat Nat Nat)
      [.verifyPassword 0 1, .changePassword .absent 2, .login 0 7]
    let twice := (auth plain).run (start 1 : State Nat Nat Nat Nat)
      [.verifyPassword 0 1, .login 0 7, .verifyPassword 0 1, .login 0 8,
        .logout 0 (.signed ⟨true, some 8⟩ 0)]
    (late.isAuthenticated (.signed ⟨true, some 7⟩ 0) ∧ late.changer ≠ some 7 ∧
      ¬ ∃ o ∈ late.issued, o.id = 7 ∧ plain late.passwordHash o.password) ∧
      (7 ∈ twice.ended ∧ twice.isAuthenticated (.signed ⟨true, some 7⟩ 0)) := by
  decide

/-! ## How long a session lasts -/

/-- The step opens the session. -/
def Opens (id : Id) (s : State Hash Password Browser Id) : Event Hash Password Browser Id → Prop
  | .login i new => new = id ∧ id ∉ s.issuedIds ∧ s.pending[i]? ≠ none
  | _ => False

/-- The step ends the session: a logout with its cookie, a password change without, or a day
that is over since its login. -/
def Ends (id : Id) (s : State Hash Password Browser Id) : Event Hash Password Browser Id → Prop
  | .logout _ c => s.sessionID c = some id
  | .changePassword c _ => s.sessionID c ≠ some id
  | .pass seconds => ∀ o ∈ s.issued, o.id = id → o.loginAt + sessionMaxAge < s.now + seconds
  | _ => False

theorem accepts_step_iff [DecidableEq Browser] (e : Event Hash Password Browser Id) (id : Id) :
    Accepts ((auth matchesHash).step s e) id ↔ Opens id s e ∨ Accepts s id ∧ ¬ Ends id s e := by
  cases e with
  | verifyPassword b password =>
    simp only [accepts_iff, auth, State.verifyPassword, Opens, Ends]
    split <;> simp [Fresh]
  | login i new =>
    simp only [auth, State.login]
    rcases hp : s.pending[i]? with _ | p
    · simp [Opens, Ends, hp]
    by_cases hnew : new ∈ s.issuedIds
    · have hused : ¬ Opens id s (.login i new) := by
        rintro ⟨rfl, hfresh, -⟩
        exact hfresh hnew
      simp [hnew, hused, Ends]
    · dsimp only
      rw [if_neg hnew, accepts_addSession i p]
      simp only [Opens, Ends, hp, not_false_eq_true, and_true, ne_eq, reduceCtorEq]
      constructor
      · rintro (rfl | h)
        · exact .inl ⟨rfl, hnew⟩
        · exact .inr h
      · rintro (⟨rfl, -⟩ | h)
        · exact .inl rfl
        · exact .inr h
  | giveUp i | isAuthenticated c =>
    simp [accepts_iff, auth, State.giveUp, Fresh, Opens, Ends]
  | changePassword c hash =>
    simp [accepts_iff, auth, State.changePassword, Fresh, Opens, Ends, and_assoc,
      eq_comm (b := s.sessionID c)]
  | logout b c =>
    simp only [accepts_iff, auth, State.logout, Opens, Ends, State.sessionID]
    rcases s.get c with _ | v
    · simp
    · simp [Fresh, and_assoc, eq_comm (b := v.sid)]
  | pass seconds =>
    simp only [accepts_iff, auth, Fresh, Opens, Ends]
    grind

variable (matchesHash) in
/-- **The life of a session.** After any run, an ID is let in exactly if a login of the
run issued it and nothing since was a logout with its cookie, a password change with
another, or the end of the day that its cookie is good for. -/
theorem session_accepted_iff [DecidableEq Browser] (hash : Hash)
    (es : List (Event Hash Password Browser Id)) (id : Id) :
    Accepts ((auth matchesHash).run (start hash) es) id ↔ ∃ pre e rest, es = pre ++ e :: rest ∧
      Opens id ((auth matchesHash).run (start hash) pre) e ∧
      (auth matchesHash).Guarded (fun s e => ¬ Ends id s e)
        ((auth matchesHash).run (start hash) (pre ++ [e])) rest := by
  refine (Machine.run_iff_since (P := (Accepts · id)) (E := fun _ => True)
    (fun _ e _ => accepts_step_iff e id) _ fun _ _ => trivial).trans ?_
  -- at the start nobody is let in
  exact or_iff_right fun h => absurd (accepts_iff.mp h.1).2 not_mem_nil

end Lankeeper.Web
