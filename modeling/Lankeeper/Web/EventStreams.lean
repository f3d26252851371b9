import Lankeeper.Lib.Machine
import Lankeeper.Lib.Text
import Mathlib.Data.Finset.Card
import Mathlib.Tactic.Tauto

/-!
# Lankeeper.Web.EventStreams — the broker of the event streams

`internal/web/sse.go`. Handlers of `ServeHTTP` subscribe, forward what arrives on their
channel and unsubscribe when they end; publishers walk over the registered channels under the
read lock, several of them at once. A channel is closed after the lock has been given back, so
that nobody sends on it rests on the order of three things: the last walk that can see it, its
removal, and the close.

A critical section under the write lock is one step, which no walk may be in the middle of: it
excludes everybody else, and what happens outside the lock in the meantime does not look at the
map. A walk takes one step per channel, in any order, as `range` over a map does.

* `Safe` — who may still be sent to is registered, and who is registered is not closed;
* `Ordered` — what has passed through a channel, by publisher;
* `Kept` — where each message is that was published while a stream was registered.

`streams_served` reads them off every reachable state.
-/

namespace Lankeeper.Web.SSE

open Lib Text List Function

/-! ## Messages and goroutines -/

/-- A message. Who has published it, as which of its messages, is only known to the history. -/
structure Message (Publisher : Type) where
  publisher : Publisher
  number : Nat
  text : Text
deriving DecidableEq

def messageText (event jsonData : Text) : Text :=
  "event: " ++ event ++ "\ndata: " ++ jsonData ++ "\n\n"

/-- Where a handler of `ServeHTTP` is. -/
inductive Handler (Publisher : Type)
  /-- It has not subscribed yet. -/
  | fresh
  /-- `ErrTooManySubscribers`. -/
  | refused
  /-- In the `select` of `pump`. -/
  | pumping
  /-- In `send`, with a message that it has taken from the channel. -/
  | writing (m : Message Publisher)
  /-- `pump` has returned. -/
  | leaving
  /-- Removed from the map, but the channel is not closed. -/
  | removed
  | ended
deriving DecidableEq

/-- Where a goroutine that publishes is. -/
inductive Walk (Publisher Stream : Type)
  | idle
  /-- It holds the read lock, and has these channels left. -/
  | sending (m : Message Publisher) (left : Finset Stream)

def maxSSESubscribers : Nat := 32

def sseChannelBuffer : Nat := 16

/-- A stream has at most one channel, so channels go by the stream that made them. -/
structure State (Publisher Stream : Type) where
  clients : Finset Stream := ∅
  queue : Stream → List (Message Publisher) := fun _ => []
  closed : Stream → Bool := fun _ => false
  handler : Stream → Handler Publisher := fun _ => .fresh
  walk : Publisher → Walk Publisher Stream := fun _ => .idle
  panicked : Bool := false
  -- history
  published : Publisher → List (Message Publisher) := fun _ => []
  /-- published while the stream was registered -/
  offered : Stream → List (Message Publisher) := fun _ => []
  /-- not sent, since the buffer was full -/
  dropped : Stream → List (Message Publisher) := fun _ => []
  /-- written to the client -/
  received : Stream → List (Message Publisher) := fun _ => []

inductive Event (Publisher Stream Data : Type)
  | subscribe (i : Stream)
  /-- `Publish` up to the read lock. -/
  | publish (p : Publisher) (event : Text) (data : Data)
  /-- One round of its loop. -/
  | send (p : Publisher) (i : Stream)
  /-- It gives the lock back. -/
  | done (p : Publisher)
  | take (i : Stream)
  | write (i : Stream) (ok : Bool)
  | keepAlive (i : Stream) (ok : Bool)
  /-- `pump` finds the channel closed. -/
  | endOfChannel (i : Stream)
  /-- The context of the request ends. -/
  | hangUp (i : Stream)
  /-- `Unsubscribe` up to the end of its critical section. -/
  | remove (i : Stream)
  | close (i : Stream)

variable {Publisher Stream Data : Type} [DecidableEq Stream]

/-- The message that a handler has taken and not written yet. -/
def Handler.inHand : Handler Publisher → List (Message Publisher)
  | .writing m => [m]
  | _ => []

namespace State

variable (s : State Publisher Stream) (i : Stream)

def goto (h : Handler Publisher) : State Publisher Stream :=
  { s with handler := update s.handler i h }

/-- `Subscribe`. -/
def subscribe (maxClients : Nat) : State Publisher Stream :=
  if maxClients ≤ s.clients.card then s.goto i .refused
  else
    { s with
      clients := insert i s.clients
      queue := update s.queue i []
      closed := update s.closed i false
      handler := update s.handler i .pumping }

/-- `select` with a send and a default. -/
def trySend (m : Message Publisher) : State Publisher Stream :=
  if s.closed i then { s with panicked := true }
  else if (s.queue i).length < sseChannelBuffer then
    { s with queue := update s.queue i (s.queue i ++ [m]) }
  else { s with dropped := update s.dropped i (s.dropped i ++ [m]) }

def closeChannel : State Publisher Stream :=
  if s.closed i then { s with panicked := true }
  else { s with closed := update s.closed i true }.goto i .ended

/-- What has gone into the channel and was not lost on the way to the client. -/
def passed : List (Message Publisher) :=
  s.received i ++ (s.handler i).inHand ++ s.queue i

/-- No walk holds the read lock. -/
def Unlocked : Prop :=
  ∀ p, s.walk p = .idle

end State

section Machine

variable [DecidableEq Publisher] (marshal : Data → Option Text) (maxClients : Nat)

def Enabled (s : State Publisher Stream) : Event Publisher Stream Data → Prop
  | .subscribe i => s.handler i = .fresh ∧ s.Unlocked
  | .publish p _ _ => s.walk p = .idle
  | .send p i => ∃ m left, s.walk p = .sending m left ∧ i ∈ left
  | .done p => ∃ m, s.walk p = .sending m ∅
  | .take i => s.handler i = .pumping ∧ s.queue i ≠ []
  | .write i _ => ∃ m, s.handler i = .writing m
  | .keepAlive i _ => s.handler i = .pumping
  | .endOfChannel i => s.handler i = .pumping ∧ s.queue i = [] ∧ s.closed i
  | .hangUp i => s.handler i = .pumping
  | .remove i => s.handler i = .leaving ∧ s.Unlocked
  | .close i => s.handler i = .removed

def broker : Machine (State Publisher Stream) (Event Publisher Stream Data) where
  Init s := s = {}
  step s
    | .subscribe i => s.subscribe i maxClients
    | .publish p event data =>
      match marshal data with
      | none => s
      | some jsonData =>
        let m := ⟨p, (s.published p).length, messageText event jsonData⟩
        { s with
          walk := update s.walk p (.sending m s.clients)
          published := update s.published p (s.published p ++ [m])
          offered := fun i => if i ∈ s.clients then s.offered i ++ [m] else s.offered i }
    | .send p i =>
      match s.walk p with
      | .idle => s
      | .sending m left =>
        { s.trySend i m with walk := update s.walk p (.sending m (left.erase i)) }
    | .done p => { s with walk := update s.walk p .idle }
    | .take i =>
      match s.queue i with
      | [] => s
      | m :: rest => { s with queue := update s.queue i rest }.goto i (.writing m)
    | .write i ok =>
      match s.handler i, ok with
      | .writing m, true =>
        { s with received := update s.received i (s.received i ++ [m]) }.goto i .pumping
      | _, _ => s.goto i .leaving
    | .keepAlive i ok => if ok then s else s.goto i .leaving
    | .endOfChannel i => s.goto i .leaving
    | .hangUp i => s.goto i .leaving
    | .remove i => { s with clients := s.clients.erase i }.goto i .removed
    | .close i => s.closeChannel i

end Machine

/-! ## What the steps do -/

/-- The handler is registered. -/
def Handler.Registered : Handler Publisher → Prop
  | .pumping => True
  | .writing _ => True
  | .leaving => True
  | _ => False

/-- `pump` has returned. -/
def Handler.Over : Handler Publisher → Prop
  | .leaving => True
  | .removed => True
  | .ended => True
  | _ => False

/-- A step of `pump`: it goes on with what was in the channel, or ends and loses what it was
writing. -/
structure Pumps (s t : State Publisher Stream) : Prop where
  clients : t.clients = s.clients
  closed : t.closed = s.closed
  walk : t.walk = s.walk
  panicked : t.panicked = s.panicked
  published : t.published = s.published
  offered : t.offered = s.offered
  dropped : t.dropped = s.dropped
  handler : ∀ i, t.handler i = s.handler i ∨
    ((s.handler i = .pumping ∨ ∃ m, s.handler i = .writing m) ∧ (t.handler i).Registered)
  passed : ∀ i, t.passed i = s.passed i ∨ (t.handler i = .leaving ∧ (t.passed i).Sublist (s.passed i))

section Steps

variable {s t : State Publisher Stream} {i j : Stream} {h : Handler Publisher}

@[simp] theorem State.goto_self : (s.goto i h).handler i = h :=
  update_self ..

theorem State.goto_of_ne (hne : j ≠ i) : (s.goto i h).handler j = s.handler j :=
  update_of_ne hne ..

/-- The steps of `pump` only touch its own stream. -/
theorem pumps_of_forward {r q : List (Message Publisher)}
    (hi : s.handler i = .pumping ∨ ∃ m, s.handler i = .writing m) (hregistered : h.Registered)
    (hpassed : r ++ h.inHand ++ q = s.passed i ∨
      (h = .leaving ∧ (r ++ h.inHand ++ q).Sublist (s.passed i))) :
    Pumps s { s with
      received := update s.received i r
      handler := update s.handler i h
      queue := update s.queue i q } := by
  refine ⟨rfl, rfl, rfl, rfl, rfl, rfl, rfl, fun j => ?_, fun j => ?_⟩
  · rcases eq_or_ne j i with rfl | hj
    · simp only [update_self]
      exact .inr ⟨hi, hregistered⟩
    · exact .inl (update_of_ne hj ..)
  · rcases eq_or_ne j i with rfl | hj
    · simpa only [State.passed, update_self] using hpassed
    · simp only [State.passed, update_of_ne hj, true_or]

/-- `pump` returns. -/
theorem pumps_leave (hi : s.handler i = .pumping ∨ ∃ m, s.handler i = .writing m) :
    Pumps s (s.goto i .leaving) := by
  have hpassed : (s.received i ++ [] ++ s.queue i).Sublist (s.passed i) :=
    ((nil_sublist _).append_left _).append_right _
  have hstep := pumps_of_forward hi (h := .leaving) trivial (.inr ⟨rfl, hpassed⟩)
  rw [update_eq_self, update_eq_self] at hstep
  exact hstep

/-- A send to a channel that is not closed. -/
theorem trySend_cases (m : Message Publisher) (hopen : s.closed i = false) :
    s.trySend i m = { s with queue := update s.queue i (s.queue i ++ [m]) } ∨
      s.trySend i m = { s with dropped := update s.dropped i (s.dropped i ++ [m]) } := by
  unfold State.trySend
  rw [hopen, if_neg Bool.false_ne_true]
  split
  · exact .inl rfl
  · exact .inr rfl

variable [DecidableEq Publisher] {marshal : Data → Option Text} {maxClients : Nat}

theorem pumps_take (he : Enabled s (.take i : Event Publisher Stream Data)) :
    Pumps s ((broker marshal maxClients).step s (.take i)) := by
  obtain ⟨hi, hqueue⟩ := he
  obtain ⟨m, rest, hcons⟩ := exists_cons_of_ne_nil hqueue
  have hpassed : s.received i ++ (Handler.writing m).inHand ++ rest = s.passed i := by
    simp [State.passed, hi, Handler.inHand, hcons]
  have hstep := pumps_of_forward (.inl hi) (h := .writing m) trivial (.inl hpassed)
  rw [update_eq_self] at hstep
  simp only [broker, hcons]
  exact hstep

theorem pumps_write {ok : Bool} (he : Enabled s (.write i ok : Event Publisher Stream Data)) :
    Pumps s ((broker marshal maxClients).step s (.write i ok)) := by
  obtain ⟨m, hi⟩ := he
  cases ok with
  | false =>
    simp only [broker, hi]
    exact pumps_leave (.inr ⟨m, hi⟩)
  | true =>
    have hpassed : (s.received i ++ [m]) ++ (Handler.pumping).inHand ++ s.queue i = s.passed i := by
      simp [State.passed, hi, Handler.inHand]
    have hstep := pumps_of_forward (.inr ⟨m, hi⟩) (h := .pumping) trivial (.inl hpassed)
    rw [update_eq_self i s.queue] at hstep
    simp only [broker, hi]
    exact hstep

theorem pumps_keepAlive {ok : Bool} (he : Enabled s (.keepAlive i ok : Event Publisher Stream Data)) :
    Pumps s ((broker marshal maxClients).step s (.keepAlive i ok)) := by
  cases ok with
  | false => exact pumps_leave (.inl he)
  | true => exact ⟨rfl, rfl, rfl, rfl, rfl, rfl, rfl, fun _ => .inl rfl, fun _ => .inl rfl⟩

end Steps

/-! ## Nobody sends on a closed channel -/

section Safety

variable {s t : State Publisher Stream} {i j : Stream} {maxClients : Nat}

structure Safe (maxClients : Nat) (s : State Publisher Stream) : Prop where
  few : s.clients.card ≤ maxClients
  fine : s.panicked = false
  registered : ∀ i ∈ s.clients, (s.handler i).Registered
  closed : ∀ i, s.closed i → s.handler i = .ended
  /-- a walk only sees channels that are registered -/
  left : ∀ p m left, s.walk p = .sending m left → left ⊆ s.clients

section

omit [DecidableEq Stream]

theorem Safe.ne_of_mem (h : Safe maxClients s) (hi : ¬ (s.handler i).Registered)
    (hj : j ∈ s.clients) : j ≠ i := by
  rintro rfl
  exact hi (h.registered j hj)

theorem Safe.ne_of_closed (h : Safe maxClients s) (hi : s.handler i ≠ .ended)
    (hj : s.closed j) : j ≠ i := by
  rintro rfl
  exact hi (h.closed j hj)

/-- A channel is open until its handler has ended. -/
theorem Safe.isOpen (h : Safe maxClients s) (hi : s.handler i ≠ .ended) : s.closed i = false := by
  rw [← Bool.not_eq_true]
  exact fun hclosed => h.ne_of_closed hi hclosed rfl

theorem Safe.isOpen_of_mem (h : Safe maxClients s) (hi : i ∈ s.clients) : s.closed i = false := by
  refine h.isOpen fun hended => ?_
  have hregistered := h.registered i hi
  rw [hended] at hregistered
  exact hregistered

theorem Safe.pumps (h : Safe maxClients s) (hst : Pumps s t) : Safe maxClients t := by
  refine ⟨hst.clients ▸ h.few, hst.panicked ▸ h.fine, fun i hi => ?_, fun i hi => ?_,
    fun p m left hp => ?_⟩
  · rw [hst.clients] at hi
    rcases hst.handler i with heq | ⟨-, hregistered⟩
    · rw [heq]
      exact h.registered i hi
    · exact hregistered
  · rw [hst.closed] at hi
    have hended := h.closed i hi
    rcases hst.handler i with heq | ⟨hpumping | ⟨m, hwriting⟩, -⟩
    · rw [heq]
      exact hended
    · cases hended.symm.trans hpumping
    · cases hended.symm.trans hwriting
  · rw [hst.walk] at hp
    rw [hst.clients]
    exact h.left p m left hp

end

theorem Safe.subscribe (h : Safe maxClients s) (hi : s.handler i = .fresh)
    (hunlocked : s.Unlocked) : Safe maxClients (s.subscribe i maxClients) := by
  have hother : ∀ j ∈ s.clients, j ≠ i := fun j => h.ne_of_mem (by rw [hi]; exact id)
  have hopen : ∀ j, s.closed j → j ≠ i := fun j => h.ne_of_closed (by rw [hi]; nofun)
  unfold State.subscribe
  split
  case isTrue =>
    refine ⟨h.few, h.fine, fun j hj => ?_, fun j hj => ?_, h.left⟩
    · rw [State.goto_of_ne (hother j hj)]
      exact h.registered j hj
    · rw [State.goto_of_ne (hopen j hj)]
      exact h.closed j hj
  case isFalse hroom =>
    refine ⟨?_, h.fine, fun j hj => ?_, fun j hj => ?_, fun p m left hp => ?_⟩
    · exact (Finset.card_insert_le ..).trans (Nat.lt_of_not_le hroom)
    · rcases Finset.mem_insert.mp hj with rfl | hj
      · simp [Handler.Registered]
      · simp only [update_of_ne (hother j hj)]
        exact h.registered j hj
    · rcases eq_or_ne j i with rfl | hji
      · simp at hj
      · simp only [update_of_ne hji] at hj ⊢
        exact h.closed j hj
    · cases (hunlocked p).symm.trans hp

theorem Safe.remove (h : Safe maxClients s) (hi : s.handler i = .leaving) (hunlocked : s.Unlocked) :
    Safe maxClients ({ s with clients := s.clients.erase i }.goto i .removed) := by
  refine ⟨?_, h.fine, fun j hj => ?_, fun j hj => ?_, fun p m left hp => ?_⟩
  · exact (Finset.card_le_card (Finset.erase_subset ..)).trans h.few
  · rw [State.goto_of_ne (Finset.ne_of_mem_erase hj)]
    exact h.registered j (Finset.mem_of_mem_erase hj)
  · rw [State.goto_of_ne (h.ne_of_closed (by rw [hi]; nofun) hj)]
    exact h.closed j hj
  · cases (hunlocked p).symm.trans hp

theorem Safe.close (h : Safe maxClients s) (hi : s.handler i = .removed) :
    Safe maxClients (s.closeChannel i) := by
  unfold State.closeChannel
  rw [h.isOpen (by rw [hi]; nofun), if_neg Bool.false_ne_true]
  refine ⟨h.few, h.fine, fun j hj => ?_, fun j hj => ?_, h.left⟩
  · rw [State.goto_of_ne (h.ne_of_mem (by rw [hi]; exact id) hj)]
    exact h.registered j hj
  · rcases eq_or_ne j i with rfl | hji
    · exact State.goto_self
    · rw [State.goto_of_ne hji]
      exact h.closed j ((update_of_ne hji ..).symm.trans hj)

variable [DecidableEq Publisher] {p : Publisher} {m : Message Publisher} {left : Finset Stream}

omit [DecidableEq Stream] in
/-- The walks after a step of one of them. -/
theorem update_walk_iff {walk : Publisher → Walk Publisher Stream} {w v : Walk Publisher Stream}
    {q : Publisher} : update walk p w q = v ↔ q = p ∧ w = v ∨ q ≠ p ∧ walk q = v := by
  rw [update_apply]
  split_ifs with h <;> simp [h]

omit [DecidableEq Stream] in
/-- A walk begins, goes on or ends. -/
theorem Safe.walking (h : Safe maxClients s) {w : Walk Publisher Stream}
    (hw : ∀ m left, w = .sending m left → left ⊆ s.clients)
    {queue dropped offered : Stream → List (Message Publisher)}
    {published : Publisher → List (Message Publisher)} :
    Safe maxClients { s with
      walk := update s.walk p w
      queue := queue
      dropped := dropped
      offered := offered
      published := published } := by
  refine ⟨h.few, h.fine, h.registered, h.closed, fun q m left hq => ?_⟩
  rcases update_walk_iff.mp hq with ⟨-, hq⟩ | ⟨-, hq⟩
  · exact hw m left hq
  · exact h.left q m left hq

theorem Safe.send (h : Safe maxClients s) (hp : s.walk p = .sending m left) (hi : i ∈ left) :
    Safe maxClients { s.trySend i m with walk := update s.walk p (.sending m (left.erase i)) } := by
  have hopen : s.closed i = false := h.isOpen_of_mem (h.left p m left hp hi)
  have hleft := (Finset.erase_subset i left).trans (h.left p m left hp)
  rcases trySend_cases m hopen with heq | heq
  all_goals
    rw [heq]
    exact h.walking (by rintro _ _ ⟨⟩; exact hleft)

end Safety

/-! ## The order of a publisher -/

section Order

variable [DecidableEq Publisher] {s t : State Publisher Stream} {i j : Stream} {p q : Publisher}
  {m : Message Publisher} {left : Finset Stream}

def sentBy (p : Publisher) (l : List (Message Publisher)) : List (Message Publisher) :=
  l.filter (·.publisher = p)

theorem sentBy_concat_self (hm : m.publisher = p) (l : List (Message Publisher)) :
    sentBy p (l ++ [m]) = sentBy p l ++ [m] := by
  simp [sentBy, hm]

theorem sentBy_concat_of_ne (hm : m.publisher ≠ p) (l : List (Message Publisher)) :
    sentBy p (l ++ [m]) = sentBy p l := by
  simp [sentBy, hm]

structure Ordered (s : State Publisher Stream) : Prop where
  passed : ∀ i p, (sentBy p (s.passed i)).Sublist (s.published p)
  /-- what a walk sends is the latest of its publisher, and new to the channels that are left -/
  latest : ∀ p m left, s.walk p = .sending m left → m.publisher = p ∧
    ∃ before, s.published p = before ++ [m] ∧ ∀ i ∈ left, (sentBy p (s.passed i)).Sublist before

omit [DecidableEq Stream] in
/-- Nothing new has passed, and no walk has begun. -/
theorem Ordered.shrink (h : Ordered s) (hpassed : ∀ i, (t.passed i).Sublist (s.passed i))
    (hwalk : ∀ p m left, t.walk p = .sending m left →
      ∃ left', s.walk p = .sending m left' ∧ left ⊆ left')
    (hpublished : t.published = s.published) : Ordered t := by
  refine ⟨fun i p => ?_, fun p m left hp => ?_⟩
  · rw [hpublished]
    exact ((hpassed i).filter _).trans (h.passed i p)
  · obtain ⟨left', hp', hsub⟩ := hwalk p m left hp
    obtain ⟨hm, before, hbefore, hleft⟩ := h.latest p m left' hp'
    rw [hpublished]
    exact ⟨hm, before, hbefore, fun i hi => ((hpassed i).filter _).trans (hleft i (hsub hi))⟩

omit [DecidableEq Stream] in
theorem Ordered.quiet (h : Ordered s) (hpassed : ∀ i, (t.passed i).Sublist (s.passed i))
    (hwalk : t.walk = s.walk) (hpublished : t.published = s.published) : Ordered t :=
  h.shrink hpassed (fun _ _ left hp => ⟨left, hwalk ▸ hp, Finset.Subset.refl _⟩) hpublished

omit [DecidableEq Publisher] in
theorem passed_goto {h : Handler Publisher} (hh : h.inHand = []) (j : Stream) :
    ((s.goto i h).passed j).Sublist (s.passed j) := by
  rcases eq_or_ne j i with rfl | hji
  · simp only [State.passed, State.goto_self, hh, append_nil]
    exact (sublist_append_left ..).append_right _
  · simp only [State.passed, State.goto_of_ne hji]
    exact List.Sublist.refl _

theorem Ordered.subscribe (h : Ordered s) (maxClients : Nat) :
    Ordered (s.subscribe i maxClients) := by
  unfold State.subscribe
  split
  · exact h.quiet (passed_goto rfl) rfl rfl
  refine h.quiet (fun j => ?_) rfl rfl
  rcases eq_or_ne j i with rfl | hji
  · simp only [State.passed, update_self, Handler.inHand, append_nil]
    rw [append_assoc]
    exact sublist_append_left ..
  · simp only [State.passed, update_of_ne hji]
    exact List.Sublist.refl _

omit [DecidableEq Stream] in
/-- A walk begins with a new message. -/
theorem Ordered.publish (h : Ordered s) (hm : m.publisher = p) (hpassed : t.passed = s.passed)
    (hwalk : t.walk = update s.walk p (.sending m left))
    (hpublished : t.published = update s.published p (s.published p ++ [m])) : Ordered t := by
  refine ⟨fun i q => ?_, fun q m' left' hq => ?_⟩
  · rw [hpassed, hpublished]
    rcases eq_or_ne q p with rfl | hqp
    · rw [update_self]
      exact (h.passed i q).trans (sublist_append_left ..)
    · rw [update_of_ne hqp]
      exact h.passed i q
  · rw [hwalk] at hq
    rw [hpassed, hpublished]
    rcases update_walk_iff.mp hq with ⟨rfl, ⟨⟩⟩ | ⟨hqp, hq⟩
    · exact ⟨hm, _, update_self .., fun i _ => h.passed i q⟩
    · rw [update_of_ne hqp]
      exact h.latest q m' left' hq

/-- The message of a walk goes into a channel that was left. -/
theorem Ordered.enqueue (h : Ordered s) (hp : s.walk p = .sending m left) (hi : i ∈ left)
    (hself : t.passed i = s.passed i ++ [m]) (hother : ∀ j, j ≠ i → t.passed j = s.passed j)
    (hwalk : t.walk = update s.walk p (.sending m (left.erase i)))
    (hpublished : t.published = s.published) : Ordered t := by
  obtain ⟨hm, before, hbefore, hleft⟩ := h.latest p m left hp
  -- for another publisher nothing has changed
  have hforeign : ∀ q, q ≠ p → ∀ j, sentBy q (t.passed j) = sentBy q (s.passed j) := by
    intro q hqp j
    by_cases hji : j = i
    · rw [hji, hself, sentBy_concat_of_ne]
      rw [hm]
      exact Ne.symm hqp
    · rw [hother j hji]
  refine ⟨fun j q => ?_, fun q m' left' hq => ?_⟩
  · rw [hpublished]
    rcases eq_or_ne q p with rfl | hqp
    · by_cases hji : j = i
      · rw [hji, hself, sentBy_concat_self hm, hbefore]
        exact (hleft i hi).append_right _
      · rw [hother j hji]
        exact h.passed j q
    · rw [hforeign q hqp]
      exact h.passed j q
  · rw [hwalk] at hq
    rw [hpublished]
    rcases update_walk_iff.mp hq with ⟨rfl, ⟨⟩⟩ | ⟨hqp, hq⟩
    · refine ⟨hm, before, hbefore, fun j hj => ?_⟩
      rw [hother j (Finset.ne_of_mem_erase hj)]
      exact hleft j (Finset.mem_of_mem_erase hj)
    · obtain ⟨hm', before', hbefore', hleft'⟩ := h.latest q m' left' hq
      refine ⟨hm', before', hbefore', fun j hj => ?_⟩
      rw [hforeign q hqp]
      exact hleft' j hj

theorem Ordered.send (h : Ordered s) (hp : s.walk p = .sending m left) (hi : i ∈ left)
    (hopen : s.closed i = false) :
    Ordered { s.trySend i m with walk := update s.walk p (.sending m (left.erase i)) } := by
  rcases trySend_cases m hopen with heq | heq
  · rw [heq]
    refine h.enqueue hp hi ?_ (fun j hji => ?_) rfl rfl
    · simp only [State.passed, update_self, append_assoc]
    · simp only [State.passed, update_of_ne hji]
  · rw [heq]
    refine h.shrink (fun _ => List.Sublist.refl _) (fun q m' left' hq => ?_) rfl
    rcases update_walk_iff.mp hq with ⟨rfl, ⟨⟩⟩ | ⟨-, hq⟩
    · exact ⟨left, hp, Finset.erase_subset ..⟩
    · exact ⟨left', hq, Finset.Subset.refl _⟩

omit [DecidableEq Stream] in
theorem Ordered.pumps (h : Ordered s) (hst : Pumps s t) : Ordered t := by
  refine h.quiet (fun i => ?_) hst.walk hst.published
  rcases hst.passed i with heq | ⟨-, hsub⟩
  · rw [heq]
  · exact hsub

end Order

/-! ## Where a message is -/

section Keeping

variable {s t : State Publisher Stream} {i j : Stream} {p q : Publisher}
  {m : Message Publisher} {left : Finset Stream}

/-- A walk has yet to send the message to the stream. -/
def State.Pending (s : State Publisher Stream) (i : Stream) (m : Message Publisher) : Prop :=
  ∃ p left, s.walk p = .sending m left ∧ i ∈ left

structure Kept (s : State Publisher Stream) : Prop where
  fresh : ∀ i, s.handler i = .fresh → s.offered i = []
  kept : ∀ i, ∀ m ∈ s.offered i,
    m ∈ s.passed i ∨ m ∈ s.dropped i ∨ s.Pending i m ∨ (s.handler i).Over

omit [DecidableEq Stream] in
/-- A step after which nothing is missing that was there before, unless `pump` has returned. -/
theorem Kept.keep (h : Kept s) (hoffered : t.offered = s.offered)
    (hfresh : ∀ i, t.handler i = .fresh → s.handler i = .fresh)
    (hpassed : ∀ i, s.offered i ≠ [] → ∀ m ∈ s.passed i, m ∈ t.passed i ∨ (t.handler i).Over)
    (hdropped : ∀ i, ∀ m ∈ s.dropped i, m ∈ t.dropped i)
    (hpending : ∀ i m, s.Pending i m → t.Pending i m ∨ m ∈ t.passed i ∨ m ∈ t.dropped i)
    (hover : ∀ i, (s.handler i).Over → (t.handler i).Over) : Kept t := by
  refine ⟨fun i hi => ?_, fun i m hm => ?_⟩
  · rw [hoffered]
    exact h.fresh i (hfresh i hi)
  rw [hoffered] at hm
  rcases h.kept i m hm with hp | hd | hw | ho
  · exact (hpassed i (ne_nil_of_mem hm) m hp).imp_right fun ho => .inr (.inr ho)
  · exact .inr (.inl (hdropped i m hd))
  · rcases hpending i m hw with hw | hp | hd
    · exact .inr (.inr (.inl hw))
    · exact .inl hp
    · exact .inr (.inl hd)
  · exact .inr (.inr (.inr (hover i ho)))

omit [DecidableEq Stream] in
/-- A step that leaves the other streams alone, of a stream to which nothing was offered or whose
`pump` has returned. -/
theorem Kept.elsewhere (h : Kept s) (hoffered : t.offered = s.offered)
    (hdropped : t.dropped = s.dropped) (hwalk : t.walk = s.walk)
    (hsame : ∀ j, j ≠ i → t.handler j = s.handler j ∧ t.passed j = s.passed j)
    (hself : s.handler i = .fresh ∧ t.handler i ≠ .fresh ∨ (t.handler i).Over) : Kept t := by
  have hstarted : t.handler i ≠ .fresh := by
    rcases hself with ⟨-, hself⟩ | hself
    · exact hself
    · intro heq
      rw [heq] at hself
      exact hself
  refine h.keep hoffered (fun j hj => ?_) (fun j hj m hm => ?_) ?_ (fun j m hm => ?_) (fun j hj => ?_)
  · rwa [← (hsame j fun heq => hstarted (heq ▸ hj)).1]
  · rcases eq_or_ne j i with rfl | hji
    · exact .inr (hself.resolve_left fun hfresh => hj (h.fresh j hfresh.1))
    · rw [(hsame j hji).2]
      exact .inl hm
  · rw [hdropped]
    exact fun _ _ => id
  · rw [State.Pending, hwalk]
    exact .inl hm
  · rcases eq_or_ne j i with rfl | hji
    · refine hself.resolve_left fun hfresh => ?_
      rw [hfresh.1] at hj
      exact hj
    · rwa [(hsame j hji).1]

theorem goto_elsewhere {h : Handler Publisher} (hji : j ≠ i) :
    (s.goto i h).handler j = s.handler j ∧ (s.goto i h).passed j = s.passed j := by
  simp only [State.passed, State.goto, update_of_ne hji, and_self]

theorem Kept.subscribe (h : Kept s) (hi : s.handler i = .fresh) (maxClients : Nat) :
    Kept (s.subscribe i maxClients) := by
  unfold State.subscribe
  split
  · exact h.elsewhere rfl rfl rfl (fun j => goto_elsewhere) (.inl ⟨hi, by simp⟩)
  · refine h.elsewhere rfl rfl rfl (fun j hji => ?_) (.inl ⟨hi, by simp⟩)
    simp only [State.passed, update_of_ne hji, and_self]

omit [DecidableEq Stream] in
theorem Kept.pumps (h : Kept s) (hst : Pumps s t) : Kept t := by
  refine h.keep hst.offered (fun i hi => ?_) (fun i _ m hm => ?_) ?_ (fun i m hm => ?_) (fun i hi => ?_)
  · rcases hst.handler i with heq | ⟨-, hregistered⟩
    · rwa [← heq]
    · rw [hi] at hregistered
      exact hregistered.elim
  · rcases hst.passed i with heq | ⟨hleaving, -⟩
    · rw [heq]
      exact .inl hm
    · rw [hleaving]
      exact .inr trivial
  · rw [hst.dropped]
    exact fun _ _ => id
  · rw [State.Pending, hst.walk]
    exact .inl hm
  · rcases hst.handler i with heq | ⟨hpumping | ⟨m, hwriting⟩, -⟩
    · rwa [heq]
    · rw [hpumping] at hi
      exact hi.elim
    · rw [hwriting] at hi
      exact hi.elim

variable [DecidableEq Publisher]

theorem Kept.publish (h : Kept s) (hsafe : ∀ i ∈ s.clients, (s.handler i).Registered)
    (hp : s.walk p = .idle) (hpassed : t.passed = s.passed) (hhandler : t.handler = s.handler)
    (hdropped : t.dropped = s.dropped) (hwalk : t.walk = update s.walk p (.sending m s.clients))
    (hoffered : t.offered = fun i => if i ∈ s.clients then s.offered i ++ [m] else s.offered i) :
    Kept t := by
  have hpending : ∀ i m', s.Pending i m' → t.Pending i m' := by
    rintro i m' ⟨q, left, hq, hi⟩
    have hqp : q ≠ p := by
      rintro rfl
      cases hp.symm.trans hq
    refine ⟨q, left, ?_, hi⟩
    rw [hwalk, update_of_ne hqp, hq]
  have hold : ∀ i, ∀ m' ∈ s.offered i,
      m' ∈ t.passed i ∨ m' ∈ t.dropped i ∨ t.Pending i m' ∨ (t.handler i).Over := by
    intro i m' hm'
    rw [hpassed, hdropped, hhandler]
    exact (h.kept i m' hm').imp_right fun hrest =>
      hrest.imp_right fun hrest => hrest.imp_left (hpending i m')
  refine ⟨fun i hi => ?_, fun i m' hm' => ?_⟩
  · rw [hhandler] at hi
    have hclient : i ∉ s.clients := by
      intro hmem
      have hregistered := hsafe i hmem
      rw [hi] at hregistered
      exact hregistered
    simp only [hoffered, if_neg hclient]
    exact h.fresh i hi
  · simp only [hoffered] at hm'
    split at hm'
    case isTrue hclient =>
      rcases mem_append.mp hm' with hm' | hm'
      · exact hold i m' hm'
      · rw [mem_singleton.mp hm']
        refine .inr (.inr (.inl ⟨p, s.clients, ?_, hclient⟩))
        rw [hwalk, update_self]
    case isFalse => exact hold i m' hm'

/-- The walk goes on, and what it has sent is no longer pending. -/
theorem pending_of_send (hp : s.walk p = .sending m left)
    (hwalk : t.walk = update s.walk p (.sending m (left.erase i))) {m' : Message Publisher}
    (hm : s.Pending j m') : t.Pending j m' ∨ (j = i ∧ m' = m) := by
  obtain ⟨q, left', hq, hj⟩ := hm
  rcases eq_or_ne q p with rfl | hqp
  · cases hp.symm.trans hq
    by_cases hji : j = i
    · exact .inr ⟨hji, rfl⟩
    · refine .inl ⟨q, left.erase i, ?_, Finset.mem_erase.mpr ⟨hji, hj⟩⟩
      rw [hwalk, update_self]
  · refine .inl ⟨q, left', ?_, hj⟩
    rw [hwalk, update_of_ne hqp, hq]

theorem Kept.send (h : Kept s) (hp : s.walk p = .sending m left) (hopen : s.closed i = false) :
    Kept { s.trySend i m with walk := update s.walk p (.sending m (left.erase i)) } := by
  rcases trySend_cases m hopen with heq | heq
  · rw [heq]
    refine h.keep rfl (fun _ => id) (fun j _ m' hm' => .inl ?_) (fun _ _ => id)
      (fun j m' hm' => Or.imp_right ?_ (pending_of_send hp rfl hm')) (fun _ => id)
    · rcases eq_or_ne j i with rfl | hji
      · simp only [State.passed, update_self, ← append_assoc]
        exact mem_append_left _ hm'
      · simp only [State.passed, update_of_ne hji]
        exact hm'
    · rintro ⟨rfl, rfl⟩
      exact .inl (by simp [State.passed])
  · rw [heq]
    refine h.keep rfl (fun _ => id) (fun _ _ _ => .inl) (fun j m' hm' => ?_)
      (fun j m' hm' => Or.imp_right ?_ (pending_of_send hp rfl hm')) (fun _ => id)
    · rcases eq_or_ne j i with rfl | hji
      · simp only [update_self]
        exact mem_append_left _ hm'
      · simp only [update_of_ne hji]
        exact hm'
    · rintro ⟨rfl, rfl⟩
      exact .inr (by simp)

end Keeping

/-! ## Every interleaving -/

section Runs

variable [DecidableEq Publisher]

structure Inv (maxClients : Nat) (s : State Publisher Stream) : Prop where
  safe : Safe maxClients s
  ordered : Ordered s
  kept : Kept s

omit [DecidableEq Stream] in
theorem Inv.pumps {maxClients : Nat} {s t : State Publisher Stream} (h : Inv maxClients s)
    (hst : Pumps s t) : Inv maxClients t :=
  ⟨h.safe.pumps hst, h.ordered.pumps hst, h.kept.pumps hst⟩

theorem Inv.step {marshal : Data → Option Text} {maxClients : Nat} {s : State Publisher Stream}
    {e : Event Publisher Stream Data} (h : Inv maxClients s) (he : Enabled s e) :
    Inv maxClients ((broker marshal maxClients).step s e) := by
  have ⟨hsafe, hordered, hkept⟩ := h
  cases e with
  | subscribe i =>
    exact ⟨hsafe.subscribe he.1 he.2, hordered.subscribe maxClients, hkept.subscribe he.1 maxClients⟩
  | publish p event data =>
    simp only [broker]
    split
    · exact h
    · exact ⟨hsafe.walking (by rintro _ _ ⟨⟩; rfl), hordered.publish (p := p) rfl rfl rfl rfl,
        hkept.publish hsafe.registered he rfl rfl rfl rfl rfl⟩
  | send p i =>
    obtain ⟨m, left, hp, hi⟩ := he
    have hopen := hsafe.isOpen_of_mem (hsafe.left p m left hp hi)
    simp only [broker, hp]
    exact ⟨hsafe.send hp hi, hordered.send hp hi hopen, hkept.send hp hopen⟩
  | done p =>
    obtain ⟨m, hp⟩ := he
    refine ⟨hsafe.walking fun _ _ hw => (by cases hw),
      hordered.shrink (fun _ => List.Sublist.refl _) ?_ rfl,
      hkept.keep rfl (fun _ => id) (fun _ _ _ => .inl) (fun _ _ => id) ?_ (fun _ => id)⟩
    · intro q m left hq
      rcases update_walk_iff.mp hq with ⟨-, ⟨⟩⟩ | ⟨-, hq⟩
      exact ⟨left, hq, Finset.Subset.refl _⟩
    · rintro i m' ⟨q, left, hq, hi⟩
      have hqp : q ≠ p := by
        rintro rfl
        cases hp.symm.trans hq
        exact absurd hi (Finset.notMem_empty i)
      exact .inl ⟨q, left, by simp only [broker, update_of_ne hqp, hq], hi⟩
  | take i => exact h.pumps (pumps_take he)
  | write i ok => exact h.pumps (pumps_write he)
  | keepAlive i ok => exact h.pumps (pumps_keepAlive he)
  | endOfChannel i => exact h.pumps (pumps_leave (.inl he.1))
  | hangUp i => exact h.pumps (pumps_leave (.inl he))
  | remove i =>
    exact ⟨hsafe.remove he.1 he.2, hordered.quiet (passed_goto rfl) rfl rfl,
      hkept.elsewhere rfl rfl rfl (fun j => goto_elsewhere) (.inr (by simp [broker, Handler.Over]))⟩
  | close i =>
    have hopen := hsafe.isOpen (i := i) (by rw [show s.handler i = .removed from he]; nofun)
    refine ⟨hsafe.close he, ?_, ?_⟩
    all_goals simp only [broker, State.closeChannel, hopen, if_neg Bool.false_ne_true]
    · exact hordered.quiet (passed_goto rfl) rfl rfl
    · exact hkept.elsewhere rfl rfl rfl (fun j => goto_elsewhere) (.inr (by simp [Handler.Over]))

/-- **Event streams.** Whatever the interleaving, there are at most `maxClients` streams, nothing
panics, a stream receives the messages of a publisher in the order of the publisher, and what was
published while it was registered it misses only if the buffer was full at the time of the send or
its handler has ended before it was written. -/
theorem streams_served (marshal : Data → Option Text) (maxClients : Nat)
    {s : State Publisher Stream}
    (hs : (broker marshal maxClients : Machine _ (Event Publisher Stream Data)).Reachable Enabled s) :
    s.clients.card ≤ maxClients ∧ s.panicked = false ∧
      (∀ i p, (sentBy p (s.received i)).Sublist (s.published p)) ∧
      ∀ i, ∀ m ∈ s.offered i, m ∈ s.received i ∨ m ∈ s.dropped i ∨
        (m ∈ (s.handler i).inHand ++ s.queue i ∨ s.Pending i m) ∨ (s.handler i).Over := by
  obtain ⟨hsafe, hordered, hkept⟩ : Inv maxClients s := by
    refine hs.invariant ?_ fun s e h he => h.step he
    rintro s rfl
    refine ⟨⟨Nat.zero_le _, rfl, nofun, nofun, nofun⟩, ⟨fun _ _ => nil_sublist _, nofun⟩, ?_⟩
    exact ⟨fun _ _ => rfl, nofun⟩
  refine ⟨hsafe.few, hsafe.fine, fun i p => ?_, fun i m hm => ?_⟩
  · have hreceived : (s.received i).Sublist (s.passed i) := by
      rw [State.passed, append_assoc]
      exact sublist_append_left ..
    exact (hreceived.filter _).trans (hordered.passed i p)
  · have hkept := hkept.kept i m hm
    rw [State.passed, append_assoc, mem_append] at hkept
    tauto

end Runs

/-- A broker with one publisher and one stream, for data that is JSON already. -/
def smallBroker : Machine (State Unit Unit) (Event Unit Unit Text) :=
  broker some maxSSESubscribers

/-- The stream is there when the statistics are published. -/
def opening : List (Event Unit Unit Text) :=
  [.subscribe (), .publish () "stats" "1", .send () (), .done ()]

theorem opening_enabled : smallBroker.Guarded Enabled {} opening := by
  refine ⟨⟨rfl, fun _ => rfl⟩, rfl, ⟨_, _, rfl, ?_⟩, ⟨_, rfl⟩, trivial⟩
  decide

theorem reachable_opening {es : List (Event Unit Unit Text)}
    (hes : smallBroker.Guarded Enabled (smallBroker.run {} opening) es) :
    smallBroker.Reachable Enabled (smallBroker.run {} (opening ++ es)) :=
  (Machine.Reachable.init rfl).run (Machine.guarded_append.mpr ⟨opening_enabled, hes⟩)

/-- The handler writes them. -/
theorem statistics_served :
    smallBroker.Reachable Enabled (smallBroker.run {} (opening ++ [.take (), .write () true])) ∧
      ∀ m ∈ (smallBroker.run {} (opening ++ [.take (), .write () true])).offered (),
        m ∈ (smallBroker.run {} (opening ++ [.take (), .write () true])).received () := by
  have hreachable : smallBroker.Reachable Enabled
      (smallBroker.run {} (opening ++ [.take (), .write () true])) :=
    reachable_opening ⟨⟨rfl, nofun⟩, ⟨_, rfl⟩, trivial⟩
  refine ⟨hreachable, fun m hm => ?_⟩
  -- the buffer was not full, nothing is on its way, and the handler is still there
  obtain ⟨-, -, -, hkept⟩ := streams_served some maxSSESubscribers hreachable
  rcases hkept () m hm with hreceived | hdropped | (hqueued | ⟨p, left, hwalk, -⟩) | hover
  · exact hreceived
  · exact absurd hdropped not_mem_nil
  · exact absurd hqueued not_mem_nil
  · cases (show (.idle : Walk Unit Unit) = .sending m left from hwalk)
  · exact (hover : False).elim

/-- The client hangs up first, and the handler never looks at its channel. -/
theorem statistics_missed :
    ∃ s m, smallBroker.Reachable Enabled s ∧ s.handler () = .ended ∧ s.offered () = [m] ∧
      s.dropped () = [] ∧ s.received () = [] := by
  have hreachable : smallBroker.Reachable Enabled
      (smallBroker.run {} (opening ++ [.hangUp (), .remove (), .close ()])) :=
    reachable_opening ⟨rfl, ⟨rfl, fun _ => rfl⟩, rfl, trivial⟩
  exact ⟨_, _, hreachable, rfl, rfl, rfl, rfl⟩

end Lankeeper.Web.SSE
