import Lankeeper.Lib.Machine
import Lankeeper.Lib.Stream
import Mathlib.Logic.Function.Basic

/-!
# Lankeeper.Agent.Client — calls over one connection

`Client.Call` of `internal/agent/client.go` against the connection loop of
`internal/agent/server.go`. Calls take turns with a mutex and share a connection, which is
dialled when there is none. A call sends its request and reads one reply; a failed read or
write closes the connection. Beside each call runs `cancelOnDone`, which pulls the deadline
of the connection into the past when the context of the call ends. It is told that the call
is over, but nothing waits for it to take notice.

Reads and writes are made piece by piece (`Lib.Stream`), so a call can be interrupted in the
middle of a message. The agent may refuse a connection, hang up at any time, and handles the
requests of a connection one after the other.

`unharmed_iff` says when no call suffers from the deadline of an earlier one. Which reply
a call gets is the subject of `Lankeeper.Agent.Pairing`.
-/

namespace Lankeeper.Agent.Client

open Lib Function

/-! ## Messages -/

inductive Outcome (ρ : Type)
  | result (v : ρ)
  | error

/-- A reply; requests are known by their number. -/
structure Response (ρ : Type) where
  id : Option Nat
  outcome : Outcome ρ

/-- What `refuseConn` writes. -/
def busy {ρ : Type} : Response ρ := ⟨none, .error⟩

/-! ## A connection and the loop that serves it -/

inductive Serving (ρ : Type)
  /-- not accepted yet -/
  | pending
  | refusing
  /-- `dec.Decode(&req)` -/
  | reading
  /-- `dispatchWatched` -/
  | handling (n : Nat)
  /-- `enc.Encode(resp)` -/
  | replying (r : Response ρ)
  | closed

structure Link (ι ρ : Type) where
  /-- written by the client, and not read -/
  up : List (Piece Nat) := []
  /-- what the decoder of the agent holds of a request -/
  got : List (Piece Nat) := []
  /-- written by the agent, and not read -/
  down : List (Piece (Response ρ)) := []
  /-- what the decoder of the client holds of a reply -/
  gathered : List (Piece (Response ρ)) := []
  serving : Serving ρ := .pending
  /-- the call whose watcher pulled the deadline into the past -/
  pulled : Option ι := none

inductive ServerEvent (ρ : Type)
  | accept
  | refuse
  | refuseWrite (last : Bool)
  | read
  | finish (o : Outcome ρ)
  | write (last : Bool)
  /-- a failed read or write, a peer that is not authorized, a shutdown -/
  | hangUp

variable {ι ρ : Type}

def Link.serve (l : Link ι ρ) : ServerEvent ρ → Link ι ρ
  | .accept =>
    match l.serving with
    | .pending => { l with serving := .reading }
    | _ => l
  | .refuse =>
    match l.serving with
    | .pending => { l with serving := .refusing }
    | _ => l
  | .refuseWrite last =>
    match l.serving with
    | .refusing =>
      { l with
        down := l.down ++ [⟨busy, last⟩]
        serving := if last then .closed else .refusing }
    | _ => l
  | .read =>
    match l.serving, l.up with
    | .reading, c :: rest =>
      if c.last then
        { l with up := rest, got := [], serving := .handling (Stream.message l.got c) }
      else { l with up := rest, got := l.got ++ [c] }
    -- `watchPeer`: a client that sends before its reply is dropped
    | .handling _, _ :: _ => { l with serving := .closed }
    | _, _ => l
  | .finish o =>
    match l.serving with
    | .handling n => { l with serving := .replying ⟨some n, o⟩ }
    | _ => l
  | .write last =>
    match l.serving with
    | .replying r =>
      { l with
        down := l.down ++ [⟨r, last⟩]
        serving := if last then .reading else .replying r }
    | _ => l
  | .hangUp => { l with serving := .closed }

/-- The reply that a step of the agent is the making of. -/
def Link.answer (l : Link ι ρ) : ServerEvent ρ → Option (Nat × Response ρ)
  | .finish o =>
    match l.serving with
    | .handling n => some (n, ⟨some n, o⟩)
    | _ => none
  | _ => none

@[simp] theorem Link.serve_pulled (l : Link ι ρ) (e : ServerEvent ρ) :
    (l.serve e).pulled = l.pulled := by
  cases e with
  | hangUp => rfl
  | read =>
    unfold Link.serve
    dsimp only
    split
    · split_ifs <;> rfl
    · rfl
    · rfl
  | accept | refuse | refuseWrite _ | finish _ | write _ =>
    unfold Link.serve
    dsimp only
    split <;> rfl

/-! ## Calls -/

inductive Return (ι ρ : Type)
  | ctx
  | dial
  | params
  | io
  /-- the deadline had been pulled by the watcher of this call -/
  | deadline (j : ι)
  /-- the number of the request, and what was read -/
  | reply (n : Nat) (r : Response ρ)

inductive Phase (ι ρ : Type)
  | idle
  /-- waits for `mu` -/
  | waiting
  | locked
  /-- the context was looked at again -/
  | checked
  | connected (k : Nat)
  | sending (n k : Nat)
  | receiving (n k : Nat)
  | returned (r : Return ι ρ)

/-- `cancelOnDone` -/
inductive Watch
  | none
  | watching (k : Nat)
  /-- it has seen the context end -/
  | pulling (k : Nat)
  | gone

structure State (ι ρ : Type) where
  phase : ι → Phase ι ρ
  /-- the contexts that have ended -/
  done : ι → Bool
  watch : ι → Watch
  mu : Option ι
  conn : Option Nat
  nextConn : Nat
  nextID : Nat
  link : Nat → Link ι ρ
  /-- the replies that the agent made -/
  log : List (Nat × Response ρ)

inductive Event (ι ρ : Type)
  | enter (i : ι)
  | lock (i : ι)
  | check (i : ι)
  | dial (i : ι) (ok : Bool)
  | build (i : ι) (ok : Bool)
  | send (i : ι) (last : Bool)
  | recv (i : ι)
  /-- a read or a write fails, for the peer or for the deadline of the call itself -/
  | ioFails (i : ι)
  | cancel (i : ι)
  /-- `Client.Close` -/
  | close
  | wake (i : ι)
  | pull (i : ι)
  | leave (i : ι)
  | server (k : Nat) (e : ServerEvent ρ)

variable [DecidableEq ι]

namespace State

def setPhase (s : State ι ρ) (i : ι) (p : Phase ι ρ) : State ι ρ :=
  { s with phase := update s.phase i p }

def setLink (s : State ι ρ) (k : Nat) (l : Link ι ρ) : State ι ρ :=
  { s with link := update s.link k l }

def setWatch (s : State ι ρ) (i : ι) (w : Watch) : State ι ρ :=
  { s with watch := update s.watch i w }

/-- The call returns and unlocks `mu`. -/
def ret (s : State ι ρ) (i : ι) (r : Return ι ρ) : State ι ρ :=
  { s.setPhase i (.returned r) with mu := none }

/-- `failCall`: the connection is closed, and an ended context is reported in preference. -/
def fail (s : State ι ρ) (i : ι) (r : Return ι ρ) : State ι ρ :=
  { s.ret i (if s.done i then .ctx else r) with conn := none }

end State

open State

/-- One step; what is not possible does nothing. -/
def step (s : State ι ρ) : Event ι ρ → State ι ρ
  | .enter i =>
    match s.phase i with
    | .idle => s.setPhase i (if s.done i then .returned .ctx else .waiting)
    | _ => s
  | .lock i =>
    match s.phase i, s.mu with
    | .waiting, none => { s.setPhase i .locked with mu := some i }
    | _, _ => s
  | .check i =>
    match s.phase i with
    | .locked => if s.done i then s.ret i .ctx else s.setPhase i .checked
    | _ => s
  | .dial i ok =>
    match s.phase i, s.conn with
    | .checked, some k => s.setPhase i (.connected k)
    | .checked, none =>
      if ok then
        { (s.setLink s.nextConn {}).setPhase i (.connected s.nextConn) with
          conn := some s.nextConn
          nextConn := s.nextConn + 1 }
      else s.ret i .dial
    | _, _ => s
  | .build i ok =>
    match s.phase i with
    | .connected k =>
      if ok then
        -- `SetDeadline`, and the watcher is started
        { ((s.setLink k { s.link k with pulled := none }).setWatch i (.watching k)).setPhase i
            (.sending s.nextID k) with
          nextID := s.nextID + 1 }
      else s.ret i .params
    | _ => s
  | .send i last =>
    match s.phase i with
    | .sending n k =>
      match (s.link k).pulled with
      | some j => s.fail i (.deadline j)
      | none =>
        (s.setLink k { s.link k with up := (s.link k).up ++ [⟨n, last⟩] }).setPhase i
          (if last then .receiving n k else .sending n k)
    | _ => s
  | .recv i =>
    match s.phase i with
    | .receiving n k =>
      match (s.link k).pulled, (s.link k).down with
      | some j, _ => s.fail i (.deadline j)
      | none, c :: rest =>
        if c.last then
          (s.setLink k { s.link k with down := rest, gathered := [] }).ret i
            (.reply n (Stream.message (s.link k).gathered c))
        else
          s.setLink k { s.link k with down := rest, gathered := (s.link k).gathered ++ [c] }
      | none, [] => s
    | _ => s
  | .ioFails i =>
    match s.phase i with
    | .sending _ _ | .receiving _ _ => s.fail i .io
    | _ => s
  | .cancel i => { s with done := update s.done i true }
  | .close => if s.mu.isNone then { s with conn := none } else s
  | .wake i =>
    match s.watch i with
    | .watching k => if s.done i then s.setWatch i (.pulling k) else s
    | _ => s
  | .pull i =>
    match s.watch i with
    | .pulling k => (s.setLink k { s.link k with pulled := some i }).setWatch i .gone
    | _ => s
  | .leave i =>
    match s.watch i, s.phase i with
    | .watching _, .returned _ => s.setWatch i .gone
    | _, _ => s
  | .server k e =>
    { s.setLink k ((s.link k).serve e) with log := ((s.link k).answer e).toList ++ s.log }

/-- No call has begun. -/
def system : Machine (State ι ρ) (Event ι ρ) where
  Init s := (∀ i, s.phase i = .idle) ∧ (∀ i, s.watch i = .none) ∧ s.mu = none ∧ s.conn = none ∧
    s.log = []
  step := step

/-! ## Deadlines of earlier calls -/

/-- The call reads or writes on the connection. -/
def Phase.InTrip : Phase ι ρ → Nat → Prop
  | sending _ k', k => k' = k
  | receiving _ k', k => k' = k
  | _, _ => False

/-- No call whose context lives has its reads and writes under a deadline that the watcher
of another call pulled, and none was failed by one. -/
structure Unharmed (s : State ι ρ) : Prop where
  trips : ∀ i k j, (s.phase i).InTrip k → s.done i = false → (s.link k).pulled = some j → j = i
  returns : ∀ i j, s.phase i = .returned (.deadline j) → j = i

/-- A watcher that pulls the deadline of a connection finds no other call on it whose
context lives. -/
def Timely (s : State ι ρ) : Event ι ρ → Prop
  | .pull j => ∀ k, s.watch j = .pulling k → ∀ i, (s.phase i).InTrip k → s.done i = false → i = j
  | _ => True

variable {s : State ι ρ}

/-- A step that moves one call, and pulls no deadline. -/
theorem Unharmed.move (h : Unharmed s) {s' : State ι ρ} {i : ι} {p : Phase ι ρ}
    (hphase : s'.phase = update s.phase i p) (hdone : s'.done = s.done)
    (hlink : ∀ k, (s'.link k).pulled = (s.link k).pulled ∨ (s'.link k).pulled = none)
    (htrip : ∀ k j, p.InTrip k → s.done i = false → (s'.link k).pulled = some j → j = i)
    (hret : ∀ j, p = .returned (.deadline j) → j = i) : Unharmed s' := by
  constructor
  · intro i' k j ht hd hp
    rw [hdone] at hd
    rw [hphase] at ht
    rcases eq_or_ne i' i with rfl | hi
    · rw [update_self] at ht
      exact htrip k j ht hd hp
    · rw [update_of_ne hi] at ht
      rcases hlink k with hl | hl
      · exact h.trips i' k j ht hd (hl ▸ hp)
      · cases hl.symm.trans hp
  · intro i' j hr
    rw [hphase] at hr
    rcases eq_or_ne i' i with rfl | hi
    · rw [update_self] at hr
      exact hret j hr
    · rw [update_of_ne hi] at hr
      exact h.returns i' j hr

omit [DecidableEq ι] in
/-- A link that is set keeps its deadline, or has it renewed. -/
theorem pulled_setLink {k : Nat} {l : Link ι ρ}
    (hl : l.pulled = (s.link k).pulled ∨ l.pulled = none) (k' : Nat) :
    ((s.setLink k l).link k').pulled = (s.link k').pulled ∨
      ((s.setLink k l).link k').pulled = none := by
  unfold State.setLink
  rcases eq_or_ne k' k with rfl | hk
  · simpa using hl
  · simp [update_of_ne hk]

theorem Unharmed.ret (h : Unharmed s) {i : ι} {r : Return ι ρ}
    (hr : ∀ j, r = .deadline j → j = i) : Unharmed (s.ret i r) :=
  h.move rfl rfl (fun _ => .inl rfl) nofun (by rintro j ⟨⟩; exact hr j rfl)

/-- Reads and writes under a pulled deadline fail, and it is the watcher of the call itself
that pulled it, unless the context has ended. -/
theorem Unharmed.fail (h : Unharmed s) {i : ι} {r : Return ι ρ}
    (hr : s.done i = false → ∀ j, r = .deadline j → j = i) : Unharmed (s.fail i r) := by
  refine h.move rfl rfl (fun _ => .inl rfl) nofun ?_
  intro j hj
  cases hd : s.done i with
  | true => simp [hd] at hj
  | false => exact hr hd j (by simpa [hd] using hj)

omit [DecidableEq ι] in
/-- A link changes, and no call moves. -/
theorem Unharmed.keepLink (h : Unharmed s) {k : Nat} {l : Link ι ρ}
    (hl : l.pulled = (s.link k).pulled) : Unharmed (s.setLink k l) := by
  refine ⟨?_, h.returns⟩
  intro i k' j ht hd hp
  rcases pulled_setLink (.inl hl) k' with hk | hk
  · exact h.trips i k' j ht hd (hk ▸ hp)
  · cases hk.symm.trans hp

theorem Unharmed.send (h : Unharmed s) (i : ι) (last : Bool) :
    Unharmed (step s (.send i last : Event ι ρ)) := by
  unfold step
  dsimp only
  split
  · rename_i n k hphase
    have htrip : (s.phase i).InTrip k := by rw [hphase]; rfl
    split
    · rename_i j hp
      refine h.fail ?_
      rintro hd j' ⟨⟩
      exact h.trips i k j htrip hd hp
    · rename_i hp
      refine h.move rfl rfl (pulled_setLink (.inl rfl)) ?_ ?_
      · intro k' j hk' _ hj
        have hk : k' = k := by
          cases last <;> exact hk'.symm
        subst hk
        simp [State.setLink, State.setPhase, hp] at hj
      · intro j hj
        cases last <;> cases hj
  · exact h

theorem Unharmed.recv (h : Unharmed s) (i : ι) : Unharmed (step s (.recv i : Event ι ρ)) := by
  unfold step
  dsimp only
  split
  · rename_i n k hphase
    have htrip : (s.phase i).InTrip k := by rw [hphase]; rfl
    rcases hp : (s.link k).pulled with _ | j <;> rcases hdown : (s.link k).down with _ | ⟨c, rest⟩
    · exact h
    · dsimp only
      split_ifs
      · refine Unharmed.ret ?_ nofun
        exact h.keepLink hp.symm
      · exact h.keepLink hp.symm
    all_goals
      refine h.fail ?_
      rintro hd j' ⟨⟩
      exact h.trips i k j htrip hd hp
  · exact h

/-- A new deadline is set before a call reads or writes. -/
theorem Unharmed.build (h : Unharmed s) (i : ι) (ok : Bool) :
    Unharmed (step s (.build i ok : Event ι ρ)) := by
  unfold step
  dsimp only
  split
  · rename_i k hphase
    split_ifs
    · refine h.move rfl rfl (pulled_setLink (.inr rfl)) ?_ nofun
      intro k' j hk' _ hj
      obtain rfl : k = k' := hk'
      simp [State.setLink, State.setPhase, State.setWatch] at hj
    · exact h.ret nofun
  · exact h

theorem Unharmed.dial (h : Unharmed s) (i : ι) (ok : Bool) :
    Unharmed (step s (.dial i ok : Event ι ρ)) := by
  unfold step
  dsimp only
  split
  · exact h.move rfl rfl (fun _ => .inl rfl) nofun nofun
  · split_ifs
    · exact h.move rfl rfl (pulled_setLink (.inr rfl)) nofun nofun
    · exact h.ret nofun
  · exact h

/-- The one step that can do harm. -/
theorem unharmed_pull_iff (h : Unharmed s) (j : ι) :
    Unharmed (step s (.pull j : Event ι ρ)) ↔ Timely s (.pull j : Event ι ρ) := by
  unfold step Timely
  dsimp only
  split
  · rename_i k hwatch
    constructor
    · rintro h' k' hk' i ht hd
      obtain ⟨⟩ : Watch.pulling k = .pulling k' := hwatch.symm.trans hk'
      have hp : (((s.setLink k { s.link k with pulled := some j }).setWatch j .gone).link k).pulled
          = some j := by
        simp [State.setLink, State.setWatch]
      exact (h'.trips i k j ht hd hp).symm
    · intro hg
      refine ⟨?_, h.returns⟩
      intro i k' j' ht hd hp
      rcases eq_or_ne k' k with rfl | hk
      · have hj : j = j' := by simpa [State.setLink, State.setWatch] using hp
        rw [← hj]
        exact (hg k' hwatch i ht hd).symm
      · apply h.trips i k' j' ht hd
        simpa [State.setLink, State.setWatch, update_of_ne hk] using hp
  · rename_i hno
    constructor
    · intro _ k hk
      exact absurd hk (hno k)
    · exact fun _ => h

theorem unharmed_step_iff (s : State ι ρ) (e : Event ι ρ) (h : Unharmed s) :
    Unharmed (step s e) ↔ Timely s e := by
  -- but for `pull` a step keeps the calls unharmed
  have keeps {e : Event ι ρ} (hstep : Unharmed (step s e)) (ht : Timely s e) :
      Unharmed (step s e) ↔ Timely s e := ⟨fun _ => ht, fun _ => hstep⟩
  cases e with
  | pull j => exact unharmed_pull_iff h j
  | send i last => exact keeps (h.send i last) trivial
  | recv i => exact keeps (h.recv i) trivial
  | build i ok => exact keeps (h.build i ok) trivial
  | dial i ok => exact keeps (h.dial i ok) trivial
  | enter i =>
    refine keeps ?_ trivial
    unfold step
    dsimp only
    split
    · split_ifs
      · exact h.move rfl rfl (fun _ => .inl rfl) nofun nofun
      · exact h.move rfl rfl (fun _ => .inl rfl) nofun nofun
    · exact h
  | lock i =>
    refine keeps ?_ trivial
    unfold step
    dsimp only
    split
    · exact h.move rfl rfl (fun _ => .inl rfl) nofun nofun
    · exact h
  | check i =>
    refine keeps ?_ trivial
    unfold step
    dsimp only
    split
    · split_ifs
      · exact h.ret nofun
      · exact h.move rfl rfl (fun _ => .inl rfl) nofun nofun
    · exact h
  | ioFails i =>
    refine keeps ?_ trivial
    unfold step
    dsimp only
    split
    · exact h.fail nofun
    · exact h.fail nofun
    · exact h
  | cancel i =>
    refine keeps ⟨?_, h.returns⟩ trivial
    intro i' k j ht hd hp
    apply h.trips i' k j ht ?_ hp
    rcases eq_or_ne i' i with rfl | hi
    · simp [step] at hd
    · simpa [step, update_of_ne hi] using hd
  | close =>
    refine keeps ?_ trivial
    unfold step
    dsimp only
    split_ifs
    · exact ⟨h.trips, h.returns⟩
    · exact h
  | wake i =>
    refine keeps ?_ trivial
    unfold step
    dsimp only
    split
    · split_ifs
      · exact ⟨h.trips, h.returns⟩
      · exact h
    · exact h
  | leave i =>
    refine keeps ?_ trivial
    unfold step
    dsimp only
    split
    · exact ⟨h.trips, h.returns⟩
    · exact h
  | server k e =>
    have hlink := h.keepLink (k := k) (l := (s.link k).serve e) (Link.serve_pulled _ e)
    exact keeps ⟨hlink.trips, hlink.returns⟩ trivial

/-- **No call is failed by the deadline of another**, nor on its way to it, at any time of
a run, exactly if each watcher that pulls the deadline of a connection finds there no other
call whose context lives. -/
theorem unharmed_iff {ι ρ : Type} [DecidableEq ι] (s : State ι ρ) (hs : system.Init s)
    (es : List (Event ι ρ)) :
    (∀ pre, pre <+: es → Unharmed (system.run s pre)) ↔ Machine.Guarded system Timely s es := by
  have hstart : Unharmed s := by
    constructor
    · intro i k j ht
      rw [hs.1 i] at ht
      exact ht.elim
    · intro i j hr
      rw [hs.1 i] at hr
      cases hr
  exact Machine.run_iff_guarded unharmed_step_iff hstart es

/-! ## Two calls -/

/-- Nothing has happened yet. -/
def fresh : State Bool Unit where
  phase := fun _ => .idle
  done := fun _ => false
  watch := fun _ => .none
  mu := none
  conn := none
  nextConn := 0
  nextID := 0
  link := fun _ => {}
  log := []

theorem fresh_init : (system : Machine (State Bool Unit) (Event Bool Unit)).Init fresh :=
  ⟨fun _ => rfl, fun _ => rfl, rfl, rfl, rfl⟩

/-- A call up to where its deadline is set. -/
def opening (i : Bool) : List (Event Bool Unit) :=
  [.enter i, .lock i, .check i, .dial i true, .build i true]

/-- The request is sent and answered. -/
def exchange (i : Bool) : List (Event Bool Unit) :=
  [.send i true, .server 0 .read, .server 0 (.finish (.result ())), .server 0 (.write true), .recv i]

/-- The first call is answered and its watcher leaves; its context ends during the second. -/
def orderly : List (Event Bool Unit) :=
  opening false ++ [.server 0 .accept] ++ exchange false ++ [.leave false] ++ opening true ++
    [.cancel false] ++ exchange true

theorem unharmed_orderly :
    Machine.Guarded system Timely fresh orderly ∧ Unharmed (system.run fresh orderly) := by
  have hguarded : Machine.Guarded system Timely fresh orderly := by
    repeat' constructor
  have hall := (unharmed_iff fresh fresh_init orderly).mpr hguarded
  exact ⟨hguarded, hall orderly (List.prefix_refl _)⟩

/-- The context of the first call ends when the call has its reply. Its watcher sees that,
and acts on it when the reply to the second call is there to be read. -/
def lateWatcher : List (Event Bool Unit) :=
  opening false ++ [.server 0 .accept] ++ exchange false ++ [.cancel false, .wake false] ++
    opening true ++ [.send true true, .server 0 .read, .server 0 (.finish (.result ())),
      .server 0 (.write true), .pull false, .recv true]

/-- The second call fails on a deadline it did not set, with its context alive. -/
theorem harmed_by_lateWatcher :
    (system.run fresh lateWatcher).phase false = .returned (.reply 0 ⟨some 0, .result ()⟩) ∧
      (system.run fresh lateWatcher).log =
        [(1, ⟨some 1, .result ()⟩), (0, ⟨some 0, .result ()⟩)] ∧
      (system.run fresh lateWatcher).phase true = .returned (.deadline false) ∧
      (system.run fresh lateWatcher).done true = false :=
  ⟨rfl, rfl, rfl, rfl⟩

end Lankeeper.Agent.Client
