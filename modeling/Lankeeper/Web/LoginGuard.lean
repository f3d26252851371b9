import Lankeeper.Lib.Machine

/-!
# Lankeeper.Web.LoginGuard — lockouts under concurrent logins

`internal/web/login_guard.go` and `login_budget.go`, as `handleLogin` runs them. A login
request goes through four critical sections: it asks the guard whether its address is
locked out, it reserves a slot of the budget that all addresses share and waits for it, its
password is checked, and the result is recorded. The guard counts the failures of each
address and locks it out from the fifth on, for a minute first and twice as long each time.

Between the first of these sections and the third, other requests of the same address may
record the failure that locks the address out. `never_late_when_alone` says which runs
keep every check out of the lockouts: those in which a failure that earns a lockout finds
no other request of its address on the way to its password check, and the first one finds
no other wrong password being checked. `waiting_starts_late` is the converse for a request
that has its slot: it can start its check in the middle of the lockout.

Times are in nanoseconds.
-/

namespace Lankeeper.Web

open Lib List

variable {Address : Type} [DecidableEq Address]

/-! ## Constants -/

def second : Nat := 1000000000
def loginFailureThreshold : Nat := 5
def loginLockoutBase : Nat := 60 * second
def loginLockoutMax : Nat := 15 * 60 * second
def loginFailureIdleReset : Nat := 60 * 60 * second
def loginBudgetFailures : Nat := 30
def loginBudgetWindow : Nat := 60 * 60 * second
def loginBudgetSpacing : Nat := 30 * second
def loginBudgetMaxWait : Nat := 30 * second

/-! ## State -/

structure LoginRecord where
  failures : Nat := 0
  lockedUntil : Nat := 0
  lastSeen : Nat := 0
deriving DecidableEq

/-- How far a login request has come. -/
inductive Phase
  /-- its address was not locked out -/
  | checked
  /-- it has a slot and waits for it -/
  | reserved (slot : Nat)
  /-- its password is being checked -/
  | verifying (correct : Bool)
  /-- the password was wrong; the budget has counted it, the guard has not -/
  | failed
  /-- the password was right; the guard does not know yet -/
  | passed
  | done
deriving DecidableEq

structure Request (Address : Type) where
  address : Address
  phase : Phase
deriving DecidableEq

/-- Past the lockout check, and the password check has not started. -/
def Request.waiting (r : Request Address) : Bool :=
  match r.phase with
  | .checked => true
  | .reserved _ => true
  | _ => false

/-- A wrong password is being checked, or was and is not recorded. -/
def Request.wrong (r : Request Address) : Bool :=
  match r.phase with
  | .verifying false => true
  | .failed => true
  | _ => false

structure LoginState (Address : Type) where
  now : Nat
  /-- `loginGuard.clients` -/
  clients : Address → Option LoginRecord
  /-- `loginBudget.failures` -/
  budgetFailures : List Nat
  /-- `loginBudget.next` -/
  budgetNext : Nat
  requests : List (Request Address)
  /-- history: a password check started while its address was locked out -/
  late : Bool
  /-- history: the failed checks an address had started when its first lockout was recorded -/
  spent : Address → Nat

namespace LoginState

variable (s : LoginState Address)

/-- The recorded lockout of the address has not expired. -/
def locked (a : Address) : Bool :=
  match s.clients a with
  | none => false
  | some rec => s.now < rec.lockedUntil

def setClient (a : Address) (rec : Option LoginRecord) : LoginState Address :=
  { s with clients := fun b => if b = a then rec else s.clients b }

def move (i : Nat) (r : Request Address) (phase : Phase) : LoginState Address :=
  { s with requests := s.requests.set i { r with phase := phase } }

/-- The wrong passwords of the address that are being checked or not yet recorded. -/
def wrongInFlight (a : Address) : Nat :=
  s.requests.countP fun r => r.address = a && r.wrong

/-! ## The guard -/

/-- `LockedFor`: the time left, and the state without a record that went quiet. -/
def lockedFor (a : Address) : Nat × LoginState Address :=
  match s.clients a with
  | none => (0, s)
  | some rec =>
    if loginFailureIdleReset < s.now - rec.lastSeen then (0, s.setClient a none)
    else (rec.lockedUntil - s.now, s)

/-- The record that `RecordFailure` counts on. -/
def currentRecord (a : Address) : LoginRecord :=
  match s.clients a with
  | none => {}
  | some rec => if loginFailureIdleReset < s.now - rec.lastSeen then {} else rec

/-- The failures of the address once one more is recorded. -/
def failuresNext (a : Address) : Nat :=
  (s.currentRecord a).failures + 1

end LoginState

/-- The lockout a run of failures earns, in the 64 bits of `time.Duration`. -/
def lockoutAfter (failures : Nat) : Nat :=
  let lockout := (BitVec.ofNat 64 loginLockoutBase <<< (failures - loginFailureThreshold)).toInt
  if (loginLockoutMax : Int) < lockout ∨ lockout ≤ 0 then loginLockoutMax else lockout.toNat

namespace LoginState

variable (s : LoginState Address)

/-- `RecordFailure` of the guard. -/
def recordFailure (a : Address) : LoginState Address :=
  let rec_ := s.currentRecord a
  let failures := rec_.failures + 1
  if failures < loginFailureThreshold then
    s.setClient a (some ⟨failures, rec_.lockedUntil, s.now⟩)
  else s.setClient a (some ⟨failures, s.now + lockoutAfter failures, s.now⟩)

/-- `RecordSuccess`. -/
def recordSuccess (a : Address) : LoginState Address :=
  s.setClient a none

/-- One round of `cleanup`. -/
def cleanup : LoginState Address :=
  { s with clients := fun a => (s.clients a).filter fun rec =>
      ¬ (loginFailureIdleReset < s.now - rec.lastSeen ∧ rec.lockedUntil < s.now) }

/-! ## The budget -/

/-- `prune`. -/
def pruned : List Nat :=
  s.budgetFailures.dropWhile fun t => loginBudgetWindow < s.now - t

/-- The time of the next free slot. -/
def nextSlot : Nat :=
  if s.now < s.budgetNext then s.budgetNext else s.now

/-- `Reserve`: the wait, if the queue is not too long. -/
def reserve : Option Nat × LoginState Address :=
  let s := { s with budgetFailures := s.pruned }
  if s.budgetFailures.length < loginBudgetFailures then (some 0, s)
  else
    let start := s.nextSlot
    let wait := start - s.now
    if loginBudgetMaxWait < wait then (none, s)
    else (some wait, { s with budgetNext := start + loginBudgetSpacing })

/-- `RecordFailure` of the budget. -/
def countFailure : LoginState Address :=
  { s with budgetFailures := s.pruned ++ [s.now] }

/-! ## Steps -/

/-- A new request asks the guard; it goes on if its address is not locked out. -/
def check (a : Address) : LoginState Address :=
  let (wait, s) := s.lockedFor a
  if 0 < wait then s else { s with requests := s.requests ++ [⟨a, .checked⟩] }

/-- `awaitLoginBudget`, up to the wait. -/
def await (i : Nat) : LoginState Address :=
  match s.requests[i]? with
  | some ⟨a, .checked⟩ =>
    let (wait, s) := s.reserve
    match wait with
    | none => s.move i ⟨a, .checked⟩ .done
    | some wait => s.move i ⟨a, .checked⟩ (.reserved (s.now + wait))
  | _ => s

/-- `VerifyPassword` starts, once the slot has come. -/
def start (i : Nat) (correct : Bool) : LoginState Address :=
  match s.requests[i]? with
  | some ⟨a, .reserved slot⟩ =>
    if s.now < slot then s
    else { s.move i ⟨a, .reserved slot⟩ (.verifying correct) with late := s.late || s.locked a }
  | _ => s

/-- `VerifyPassword` returns; the budget counts a wrong password. -/
def verdict (i : Nat) : LoginState Address :=
  match s.requests[i]? with
  | some ⟨a, .verifying true⟩ => s.move i ⟨a, .verifying true⟩ .passed
  | some ⟨a, .verifying false⟩ => s.countFailure.move i ⟨a, .verifying false⟩ .failed
  | _ => s

/-- The first lockout of a run of failures: how many checks that run has had by now. -/
def noteSpent (a : Address) (first : Bool) : LoginState Address :=
  if first then
    { s with spent := fun b =>
        if b = a then loginFailureThreshold + s.wrongInFlight a else s.spent b }
  else s

/-- The guard records the result. -/
def record (i : Nat) : LoginState Address :=
  match s.requests[i]? with
  | some ⟨a, .failed⟩ =>
    ((s.recordFailure a).move i ⟨a, .failed⟩ .done).noteSpent a
      (s.failuresNext a = loginFailureThreshold)
  | some ⟨a, .passed⟩ => (s.recordSuccess a).move i ⟨a, .passed⟩ .done
  | _ => s

/-- The client of a waiting request goes away. -/
def leave (i : Nat) : LoginState Address :=
  match s.requests[i]? with
  | some ⟨a, .reserved slot⟩ => s.move i ⟨a, .reserved slot⟩ .done
  | _ => s

end LoginState

/-- One critical section of one request, the sweeper, or time. -/
inductive LoginEvent (Address : Type)
  | tick (d : Nat)
  | check (a : Address)
  | await (i : Nat)
  | start (i : Nat) (correct : Bool)
  | verdict (i : Nat)
  | record (i : Nat)
  | leave (i : Nat)
  | cleanup

/-- A server that was just started. -/
def opened (now : Nat) : LoginState Address :=
  ⟨now, fun _ => none, [], 0, [], false, fun _ => 0⟩

def logins : Machine (LoginState Address) (LoginEvent Address) where
  Init s := ∃ now, s = opened now
  step s
    | .tick d => { s with now := s.now + d }
    | .check a => s.check a
    | .await i => s.await i
    | .start i correct => s.start i correct
    | .verdict i => s.verdict i
    | .record i => s.record i
    | .leave i => s.leave i
    | .cleanup => s.cleanup

/-- No other request of the address is on the way to its password check, and if this is
the first lockout, no other wrong password of the address is being checked. -/
def LoginState.Clear (s : LoginState Address) (i : Nat) (a : Address) : Prop :=
  ∀ r ∈ s.requests.eraseIdx i, r.address = a →
    r.waiting = false ∧ (s.failuresNext a = loginFailureThreshold → r.wrong = false)

instance (s : LoginState Address) (i : Nat) (a : Address) : Decidable (s.Clear i a) :=
  inferInstanceAs (Decidable (∀ r ∈ s.requests.eraseIdx i, _))

/-- A failure that earns a lockout is recorded with nobody else of its address on the way. -/
def Alone (s : LoginState Address) : LoginEvent Address → Prop
  | .record i => ∀ r ∈ s.requests[i]?, r.phase = .failed →
      loginFailureThreshold ≤ s.failuresNext r.address → s.Clear i r.address
  | _ => True

instance (s : LoginState Address) : (e : LoginEvent Address) → Decidable (Alone s e)
  | .record i => inferInstanceAs (Decidable (∀ r ∈ s.requests[i]?, _))
  | .tick _ | .check _ | .await _ | .start _ _ | .verdict _ | .leave _ | .cleanup => isTrue trivial

/-! ## The steps in one line each -/

variable {s : LoginState Address} {a : Address} {i : Nat} {r : Request Address}

omit [DecidableEq Address] in
theorem locked_iff : s.locked a ↔ ∃ rec, s.clients a = some rec ∧ s.now < rec.lockedUntil := by
  unfold LoginState.locked
  cases s.clients a <;> simp

theorem locked_setClient (a b : Address) (rec : Option LoginRecord) :
    (s.setClient a rec).locked b =
      if b = a then rec.any fun rec => s.now < rec.lockedUntil else s.locked b := by
  unfold LoginState.locked LoginState.setClient
  by_cases h : b = a
  · cases rec <;> simp [h]
  · simp [h]

omit [DecidableEq Address] in
/-- Forgetting records unlocks at most. -/
theorem locked_cleanup (h : s.cleanup.locked a) : s.locked a := by
  rw [locked_iff] at h ⊢
  obtain ⟨rec, hrec, hlt⟩ := h
  exact ⟨rec, (Option.filter_eq_some_iff.mp hrec).1, hlt⟩

omit [DecidableEq Address] in
theorem locked_tick {d : Nat} (h : LoginState.locked { s with now := s.now + d } a) :
    s.locked a := by
  rw [locked_iff] at h ⊢
  obtain ⟨rec, hrec, hlt⟩ := h
  have hlt' : s.now + d < rec.lockedUntil := hlt
  exact ⟨rec, hrec, by omega⟩

/-- A request that passes the check is not locked out, and its address is not afterwards. -/
theorem lockedFor_spec (a : Address) :
    (s.lockedFor a).2.requests = s.requests ∧ (s.lockedFor a).2.now = s.now ∧
      (s.lockedFor a).2.late = s.late ∧ (s.lockedFor a).2.spent = s.spent ∧
      (∀ b, (s.lockedFor a).2.locked b → s.locked b) ∧
      ((s.lockedFor a).1 = 0 → (s.lockedFor a).2.locked a = false) := by
  unfold LoginState.lockedFor
  split
  · rename_i hnone
    refine ⟨rfl, rfl, rfl, rfl, fun _ h => h, fun _ => ?_⟩
    simp [LoginState.locked, hnone]
  rename_i rec hrec
  split
  · refine ⟨rfl, rfl, rfl, rfl, ?_, fun _ => ?_⟩
    · intro b hb
      rw [locked_setClient] at hb
      split at hb
      · cases hb
      · exact hb
    · rw [locked_setClient, if_pos rfl]
      rfl
  · refine ⟨rfl, rfl, rfl, rfl, fun _ h => h, fun hwait => ?_⟩
    have hle : rec.lockedUntil - s.now = 0 := hwait
    simp only [LoginState.locked, hrec, decide_eq_false_iff_not]
    omega

omit [DecidableEq Address] in
/-- Reserving a slot touches the budget alone, and no wait is longer than the maximum. -/
theorem reserve_spec :
    s.reserve.2.requests = s.requests ∧ s.reserve.2.now = s.now ∧
      s.reserve.2.clients = s.clients ∧ s.reserve.2.late = s.late ∧
      s.reserve.2.spent = s.spent ∧ ∀ wait ∈ s.reserve.1, wait ≤ loginBudgetMaxWait := by
  unfold LoginState.reserve
  dsimp only
  split
  · refine ⟨rfl, rfl, rfl, rfl, rfl, ?_⟩
    intro wait hwait
    cases hwait
    exact Nat.zero_le _
  · split
    · refine ⟨rfl, rfl, rfl, rfl, rfl, ?_⟩
      intro wait hwait
      cases hwait
    · rename_i hle
      refine ⟨rfl, rfl, rfl, rfl, rfl, ?_⟩
      intro wait hwait
      cases hwait
      exact Nat.not_lt.mp hle

omit [DecidableEq Address] in
theorem mem_set_eraseIdx {l : List (Request Address)} {d : Request Address} (h : r ∈ l.set i d) :
    r = d ∨ r ∈ l.eraseIdx i := by
  rw [eraseIdx_eq_take_drop_succ]
  by_cases hi : i < l.length
  · rw [set_eq_take_append_cons_drop, if_pos hi] at h
    simp only [mem_append, mem_cons] at h ⊢
    tauto
  · rw [set_eq_of_length_le (by omega)] at h
    refine .inr (mem_append_left _ ?_)
    rwa [take_of_length_le (by omega)]

/-! ## What every guarded run keeps -/

/-- Whoever waits for a password check is not locked out, and no address had more failed
checks than the threshold when its first lockout was recorded. -/
structure Fair (s : LoginState Address) : Prop where
  unlocked : ∀ r ∈ s.requests, r.waiting → s.locked r.address = false
  onTime : s.late = false
  bounded : ∀ a, s.spent a ≤ loginFailureThreshold

omit [DecidableEq Address] in
/-- A step that puts at most one request into another phase, one that waits only if it did
before, and that locks nobody out. -/
theorem Fair.of_move {s' : LoginState Address} (h : Fair s) {q : Request Address}
    (hr : s.requests[i]? = some r) (hrequests : s'.requests = s.requests.set i q)
    (haddress : q.address = r.address) (hwaiting : q.waiting → r.waiting)
    (hlocked : ∀ a, s'.locked a → s.locked a) (hlate : s'.late = false)
    (hspent : ∀ a, s'.spent a ≤ loginFailureThreshold) : Fair s' := by
  have hunlocked : ∀ a, s.locked a = false → s'.locked a = false := by
    intro a ha
    rw [← Bool.not_eq_true] at ha ⊢
    exact fun hl => ha (hlocked a hl)
  refine ⟨?_, hlate, hspent⟩
  intro x hx hwait
  rw [hrequests] at hx
  rcases mem_or_eq_of_mem_set hx with hx | rfl
  · exact hunlocked _ (h.unlocked x hx hwait)
  · rw [haddress]
    exact hunlocked _ (h.unlocked r (mem_of_getElem? hr) (hwaiting hwait))

theorem Fair.check (h : Fair s) (a : Address) : Fair (s.check a) := by
  obtain ⟨hrequests, -, hlate, hspent, hmono, hfree⟩ := lockedFor_spec (s := s) a
  have hunlocked : ∀ b, s.locked b = false → (s.lockedFor a).2.locked b = false := by
    intro b hb
    rw [← Bool.not_eq_true] at hb ⊢
    exact fun hl => hb (hmono b hl)
  unfold LoginState.check
  dsimp only
  split
  · refine ⟨?_, hlate ▸ h.onTime, hspent ▸ h.bounded⟩
    intro r hr hwait
    rw [hrequests] at hr
    exact hunlocked _ (h.unlocked r hr hwait)
  · rename_i hwait0
    refine ⟨?_, hlate ▸ h.onTime, hspent ▸ h.bounded⟩
    intro r hr hwait
    have hr' : r ∈ (s.lockedFor a).2.requests ++ [⟨a, .checked⟩] := hr
    rcases mem_append.mp hr' with hr' | hr'
    · rw [hrequests] at hr'
      exact hunlocked _ (h.unlocked r hr' hwait)
    · rw [mem_singleton.mp hr']
      exact hfree (by omega)

section

omit [DecidableEq Address]

theorem Fair.await (h : Fair s) (i : Nat) : Fair (s.await i) := by
  obtain ⟨hrequests, hnow, hclients, hlate, hspent, -⟩ := reserve_spec (s := s)
  have hlocked : ∀ a, s.reserve.2.locked a = s.locked a := by
    intro a
    rw [LoginState.locked, LoginState.locked, hclients, hnow]
  unfold LoginState.await
  split
  · rename_i a hr
    dsimp only
    have hmoved : ∀ phase, Fair (s.reserve.2.move i ⟨a, .checked⟩ phase) := by
      intro phase
      refine h.of_move hr (q := ⟨a, phase⟩) ?_ rfl (fun _ => rfl) ?_ (hlate ▸ h.onTime)
        (hspent ▸ h.bounded)
      · show s.reserve.2.requests.set i _ = _
        rw [hrequests]
      · intro b hb
        rw [← hlocked b]
        exact hb
    split
    · exact hmoved _
    · exact hmoved _
  · exact h

theorem Fair.start (h : Fair s) (i : Nat) (correct : Bool) : Fair (s.start i correct) := by
  unfold LoginState.start
  split
  · rename_i a slot hr
    split
    · exact h
    -- the request has been waiting until now, so its address is not locked out
    have hfree := h.unlocked _ (mem_of_getElem? hr) rfl
    refine h.of_move hr (q := ⟨a, .verifying correct⟩) rfl rfl ?_ (fun _ hl => hl) ?_ h.bounded
    · intro hwait
      cases hwait
    · show (s.late || s.locked a) = false
      rw [h.onTime, hfree]
      rfl
  · exact h

theorem Fair.verdict (h : Fair s) (i : Nat) : Fair (s.verdict i) := by
  unfold LoginState.verdict
  split
  · rename_i a hr
    exact h.of_move hr (q := ⟨a, .passed⟩) rfl rfl (fun hwait => by cases hwait)
      (fun _ hl => hl) h.onTime h.bounded
  · rename_i a hr
    exact h.of_move hr (q := ⟨a, .failed⟩) rfl rfl (fun hwait => by cases hwait)
      (fun _ hl => hl) h.onTime h.bounded
  · exact h

theorem Fair.leave (h : Fair s) (i : Nat) : Fair (s.leave i) := by
  unfold LoginState.leave
  split
  · rename_i a slot hr
    exact h.of_move hr (q := ⟨a, .done⟩) rfl rfl (fun hwait => by cases hwait)
      (fun _ hl => hl) h.onTime h.bounded
  · exact h

end

theorem Fair.success (h : Fair s) (hr : s.requests[i]? = some ⟨a, .passed⟩) :
    Fair ((s.recordSuccess a).move i ⟨a, .passed⟩ .done) := by
  refine h.of_move hr (q := ⟨a, .done⟩) rfl rfl (fun hwait => by cases hwait) ?_ h.onTime h.bounded
  intro b hb
  have hb' : (s.setClient a none).locked b := hb
  rw [locked_setClient] at hb'
  split at hb'
  · cases hb'
  · exact hb'

/-- Below the threshold no lockout is recorded. -/
theorem locked_recordFailure {b : Address} (h : (s.recordFailure a).locked b) :
    s.locked b ∨ (b = a ∧ loginFailureThreshold ≤ s.failuresNext a) := by
  unfold LoginState.recordFailure at h
  dsimp only at h
  split at h
  · rw [locked_setClient] at h
    split at h
    · -- the record keeps the lockout it had, or is a new one without any
      rename_i hba
      have hlt : s.now < (s.currentRecord a).lockedUntil := by simpa using h
      left
      unfold LoginState.currentRecord at hlt
      split at hlt
      · exact absurd hlt (Nat.not_lt_zero _)
      · rename_i rec hrec
        split at hlt
        · exact absurd hlt (Nat.not_lt_zero _)
        · rw [hba, LoginState.locked, hrec]
          exact decide_eq_true hlt
    · exact .inl h
  · rename_i hmany
    rw [locked_setClient] at h
    split at h
    · rename_i hba
      exact .inr ⟨hba, Nat.not_lt.mp hmany⟩
    · exact .inl h

/-- The wrong passwords still in flight once request `i` is done. -/
theorem wrongInFlight_done {phase : Phase} (hi : i < s.requests.length) :
    (s.move i ⟨a, phase⟩ .done).wrongInFlight a =
      (s.requests.eraseIdx i).countP fun r => r.address = a && r.wrong := by
  show (s.requests.set i ⟨a, .done⟩).countP (fun r => r.address = a && r.wrong) = _
  rw [set_eq_take_append_cons_drop, if_pos hi, eraseIdx_eq_take_drop_succ,
    countP_append, countP_append, countP_cons_of_neg (by simp [Request.wrong])]

theorem recordFailure_requests : (s.recordFailure a).requests = s.requests := by
  unfold LoginState.recordFailure
  dsimp only
  split <;> rfl

theorem Fair.failure (h : Fair s) (hr : s.requests[i]? = some ⟨a, .failed⟩)
    (halone : loginFailureThreshold ≤ s.failuresNext a → s.Clear i a) :
    Fair (((s.recordFailure a).move i ⟨a, .failed⟩ .done).noteSpent a
      (s.failuresNext a = loginFailureThreshold)) := by
  obtain ⟨hi, -⟩ := List.getElem?_eq_some_iff.mp hr
  have hnote : ∀ (t : LoginState Address) (first : Bool),
      (t.noteSpent a first).requests = t.requests ∧ (t.noteSpent a first).late = t.late ∧
        ∀ b, (t.noteSpent a first).locked b = t.locked b := by
    intro t first
    unfold LoginState.noteSpent
    split <;> exact ⟨rfl, rfl, fun _ => rfl⟩
  obtain ⟨hreq', hlate', hlocked'⟩ := hnote ((s.recordFailure a).move i ⟨a, .failed⟩ .done)
    (s.failuresNext a = loginFailureThreshold)
  refine ⟨?_, ?_, ?_⟩
  · intro r hmem hwait
    rw [hreq'] at hmem
    rw [hlocked']
    have hmem' : r ∈ s.requests.set i ⟨a, .done⟩ := by
      rw [← recordFailure_requests]
      exact hmem
    rcases mem_set_eraseIdx hmem' with rfl | hother
    · cases hwait
    rw [← Bool.not_eq_true]
    intro hl
    rcases locked_recordFailure hl with hl | ⟨ha, hmany⟩
    · rw [h.unlocked r (mem_of_mem_eraseIdx hother) hwait] at hl
      cases hl
    · -- the failure earned a lockout, and this request should not have been there
      rw [((halone hmany) r hother ha).1] at hwait
      cases hwait
  · rw [hlate']
    show (s.recordFailure a).late = false
    unfold LoginState.recordFailure
    dsimp only
    split <;> exact h.onTime
  · intro b
    have hspent : (s.recordFailure a).spent = s.spent := by
      unfold LoginState.recordFailure
      dsimp only
      split <;> rfl
    unfold LoginState.noteSpent
    split
    · rename_i hfirst
      have hfirst' : s.failuresNext a = loginFailureThreshold := of_decide_eq_true hfirst
      dsimp only
      split
      · rw [wrongInFlight_done (by rw [recordFailure_requests]; exact hi), recordFailure_requests]
        have hnone : (s.requests.eraseIdx i).countP (fun r => r.address = a && r.wrong) = 0 := by
          rw [countP_eq_zero]
          intro r hother hwrong
          rw [Bool.and_eq_true, decide_eq_true_eq] at hwrong
          have hclear := halone (Nat.le_of_eq hfirst'.symm) r hother hwrong.1
          rw [hclear.2 hfirst'] at hwrong
          cases hwrong.2
        omega
      · show (s.recordFailure a).spent b ≤ _
        rw [hspent]
        exact h.bounded b
    · show (s.recordFailure a).spent b ≤ _
      rw [hspent]
      exact h.bounded b

theorem Fair.step (h : Fair s) {e : LoginEvent Address} (halone : Alone s e) :
    Fair (logins.step s e) := by
  cases e with
  | tick d =>
    refine ⟨?_, h.onTime, h.bounded⟩
    intro r hr hwait
    rw [← Bool.not_eq_true]
    intro hl
    exact absurd (locked_tick hl) (by simp [h.unlocked r hr hwait])
  | check a => exact h.check a
  | await i => exact h.await i
  | start i correct => exact h.start i correct
  | verdict i => exact h.verdict i
  | record i =>
    show Fair (s.record i)
    unfold LoginState.record
    split
    · rename_i a hr
      exact h.failure hr (halone _ hr rfl)
    · rename_i a hr
      exact h.success hr
    · exact h
  | leave i => exact h.leave i
  | cleanup =>
    refine ⟨?_, h.onTime, h.bounded⟩
    intro r hr hwait
    rw [← Bool.not_eq_true]
    intro hl
    exact absurd (locked_cleanup hl) (by simp [h.unlocked r hr hwait])

/-! ## A slot in the middle of a lockout -/

/-- However often the failures double it, and wherever the doubling leaves the 64 bits, a
lockout is no shorter than the first one. -/
theorem le_lockoutAfter (failures : Nat) : loginLockoutBase ≤ lockoutAfter failures := by
  unfold lockoutAfter
  generalize failures - loginFailureThreshold = k
  by_cases hk : k < 64
  · revert k
    decide +kernel
  · rw [BitVec.shiftLeft_eq_zero (Nat.not_lt.mp hk)]
    decide

/-- No slot is further away than the maximal wait. -/
def SlotsNear (s : LoginState Address) : Prop :=
  ∀ r ∈ s.requests, ∀ slot, r.phase = .reserved slot → slot ≤ s.now + loginBudgetMaxWait

omit [DecidableEq Address] in
theorem SlotsNear.of_set {s' : LoginState Address} (h : SlotsNear s)
    (hrequests : s'.requests = s.requests.set i r) (hnow : s'.now = s.now)
    (hr : ∀ slot, r.phase = .reserved slot → slot ≤ s.now + loginBudgetMaxWait) : SlotsNear s' := by
  intro q hq slot hslot
  rw [hnow]
  rw [hrequests] at hq
  rcases mem_or_eq_of_mem_set hq with hq | rfl
  · exact h q hq slot hslot
  · exact hr slot hslot

omit [DecidableEq Address] in
theorem SlotsNear.await (h : SlotsNear s) (i : Nat) : SlotsNear (s.await i) := by
  obtain ⟨hrequests, hnow, -, -, -, hwait⟩ := reserve_spec (s := s)
  unfold LoginState.await
  split
  · rename_i a hr
    dsimp only
    split
    · refine h.of_set (i := i) (r := ⟨a, .done⟩) ?_ hnow (fun slot hslot => by cases hslot)
      show s.reserve.2.requests.set i _ = _
      rw [hrequests]
    · rename_i wait hsome
      refine h.of_set (i := i) (r := ⟨a, .reserved (s.now + wait)⟩) ?_ hnow ?_
      · show s.reserve.2.requests.set i ⟨a, .reserved (s.reserve.2.now + wait)⟩ = _
        rw [hrequests, hnow]
      · intro slot hslot
        cases hslot
        exact Nat.add_le_add_left (hwait wait hsome) s.now
  · exact h

theorem SlotsNear.record (h : SlotsNear s) (i : Nat) : SlotsNear (s.record i) := by
  unfold LoginState.record
  split
  · rename_i a hr
    refine h.of_set (i := i) (r := ⟨a, .done⟩) ?_ ?_ (fun slot hslot => by cases hslot)
    · unfold LoginState.noteSpent LoginState.recordFailure
      dsimp only
      split <;> split <;> rfl
    · unfold LoginState.noteSpent LoginState.recordFailure
      dsimp only
      split <;> split <;> rfl
  · rename_i a hr
    exact h.of_set (i := i) (r := ⟨a, .done⟩) rfl rfl (fun slot hslot => by cases hslot)
  · exact h

theorem SlotsNear.step (h : SlotsNear s) (e : LoginEvent Address) : SlotsNear (logins.step s e) := by
  cases e with
  | tick d =>
    intro r hr slot hslot
    have hle := h r hr slot hslot
    show slot ≤ s.now + d + loginBudgetMaxWait
    omega
  | check a =>
    obtain ⟨hrequests, hnow, -⟩ := lockedFor_spec (s := s) a
    show SlotsNear (s.check a)
    unfold LoginState.check
    dsimp only
    split
    · intro r hr slot hslot
      rw [hrequests] at hr
      rw [hnow]
      exact h r hr slot hslot
    · intro r hr slot hslot
      have hr' : r ∈ (s.lockedFor a).2.requests ++ [⟨a, .checked⟩] := hr
      show slot ≤ (s.lockedFor a).2.now + _
      rw [hnow]
      rw [hrequests] at hr'
      rcases mem_append.mp hr' with hr' | hr'
      · exact h r hr' slot hslot
      · rw [mem_singleton.mp hr'] at hslot
        cases hslot
  | await i => exact h.await i
  | start i correct =>
    show SlotsNear (s.start i correct)
    unfold LoginState.start
    split
    · rename_i a slot hr
      split
      · exact h
      · exact h.of_set (i := i) (r := ⟨a, .verifying correct⟩) rfl rfl (fun slot hslot => by cases hslot)
    · exact h
  | verdict i =>
    show SlotsNear (s.verdict i)
    unfold LoginState.verdict
    split
    · rename_i a hr
      exact h.of_set (i := i) (r := ⟨a, .passed⟩) rfl rfl (fun slot hslot => by cases hslot)
    · rename_i a hr
      exact h.of_set (i := i) (r := ⟨a, .failed⟩) rfl rfl (fun slot hslot => by cases hslot)
    · exact h
  | record i => exact h.record i
  | leave i =>
    show SlotsNear (s.leave i)
    unfold LoginState.leave
    split
    · rename_i a slot hr
      exact h.of_set (i := i) (r := ⟨a, .done⟩) rfl rfl (fun slot hslot => by cases hslot)
    · exact h
  | cleanup => exact h

/-- The state after a failure that earns a lockout. -/
theorem record_lockout (hr : s.requests[i]? = some ⟨a, .failed⟩)
    (hmany : loginFailureThreshold ≤ s.failuresNext a) :
    (s.record i).now = s.now ∧ (s.record i).requests = s.requests.set i ⟨a, .done⟩ ∧
      ∃ rec, (s.record i).clients a = some rec ∧ s.now + loginLockoutBase ≤ rec.lockedUntil := by
  have hnotFew : ¬ (s.currentRecord a).failures + 1 < loginFailureThreshold := Nat.not_lt.mpr hmany
  have hrecord : s.recordFailure a = s.setClient a
      (some ⟨s.failuresNext a, s.now + lockoutAfter (s.failuresNext a), s.now⟩) := by
    unfold LoginState.recordFailure
    exact if_neg hnotFew
  have hlockout : s.now + loginLockoutBase ≤ s.now + lockoutAfter (s.failuresNext a) :=
    Nat.add_le_add_left (le_lockoutAfter _) s.now
  unfold LoginState.record
  rw [hr]
  dsimp only
  rw [hrecord]
  unfold LoginState.noteSpent
  split
  · exact ⟨rfl, rfl, _, if_pos rfl, hlockout⟩
  · exact ⟨rfl, rfl, _, if_pos rfl, hlockout⟩

/-- A request that has its slot when its address is locked out comes to its slot in the
middle of the lockout, and starts its check. -/
theorem waiting_starts_late (hnear : SlotsNear s) {j : Nat} {slot : Nat}
    (hr : s.requests[i]? = some ⟨a, .failed⟩) (hmany : loginFailureThreshold ≤ s.failuresNext a)
    (hwait : s.requests[j]? = some ⟨a, .reserved slot⟩) :
    ((logins.step (logins.step (logins.step s (.record i)) (.tick (slot - s.now)))
      (.start j true)).late) := by
  obtain ⟨hnow, hrequests, rec, hrec, huntil⟩ := record_lockout hr hmany
  have hij : i ≠ j := by
    rintro rfl
    cases hr.symm.trans hwait
  have hget : (s.record i).requests[j]? = some ⟨a, .reserved slot⟩ := by
    rw [hrequests, getElem?_set_ne hij]
    exact hwait
  have hslot := hnear _ (mem_of_getElem? hwait) slot rfl
  -- the time at which the slot has come: before the lockout is over
  have hcome : ¬ (s.record i).now + (slot - s.now) < slot := by omega
  have hlocked : LoginState.locked
      { s.record i with now := (s.record i).now + (slot - s.now) } a := by
    refine locked_iff.mpr ⟨rec, hrec, ?_⟩
    show (s.record i).now + (slot - s.now) < rec.lockedUntil
    unfold loginBudgetMaxWait at hslot
    unfold loginLockoutBase at huntil
    have hpos : 0 < second := by decide
    omega
  show (LoginState.start { s.record i with now := (s.record i).now + (slot - s.now) } j true).late
  unfold LoginState.start
  rw [hget]
  dsimp only
  rw [if_neg hcome]
  show ((s.record i).late || _)
  rw [hlocked, Bool.or_true]

/-- A first lockout recorded while another wrong password is being checked. -/
theorem spent_of_wrong (hr : s.requests[i]? = some ⟨a, .failed⟩)
    (hfirst : s.failuresNext a = loginFailureThreshold) (hother : r ∈ s.requests.eraseIdx i)
    (ha : r.address = a) (hwrong : r.wrong) : loginFailureThreshold < (s.record i).spent a := by
  obtain ⟨hi, -⟩ := List.getElem?_eq_some_iff.mp hr
  have hpos : 0 < (s.requests.eraseIdx i).countP fun r => r.address = a && r.wrong :=
    countP_pos_iff.mpr ⟨r, hother, by simp [ha, hwrong]⟩
  unfold LoginState.record
  rw [hr]
  dsimp only
  unfold LoginState.noteSpent
  rw [if_pos (decide_eq_true hfirst)]
  show _ < if a = a then _ else _
  rw [if_pos rfl, wrongInFlight_done (by rw [recordFailure_requests]; exact hi),
    recordFailure_requests]
  omega

/-! ## All interleavings -/

/-- **Lockouts over all interleavings.** If every failure that earns a lockout is recorded
with no other request of its address on the way, no password check ever starts during a
lockout of its address, and no address has more failed checks than the threshold by its
first lockout. And it takes that: in any run, a failure that locks its address out while
another request of the address has its slot can be followed by a check during the lockout,
and a first lockout while another wrong password is being checked is one check too late. -/
theorem never_late_when_alone (now : Nat) :
    (∀ es, Machine.Guarded logins Alone (opened now : LoginState Address) es →
      (logins.run (opened now) es).late = false ∧
        ∀ a, (logins.run (opened now) es).spent a ≤ loginFailureThreshold) ∧
    (∀ (es : List (LoginEvent Address)) (i : Nat) (a : Address),
      (logins.run (opened now) es).requests[i]? = some ⟨a, .failed⟩ →
      loginFailureThreshold ≤ (logins.run (opened now) es).failuresNext a →
      (∀ j slot : Nat, (logins.run (opened now) es).requests[j]? = some ⟨a, .reserved slot⟩ →
        ∃ more, (logins.run (opened now) (es ++ .record i :: more)).late) ∧
      ((logins.run (opened now) es).failuresNext a = loginFailureThreshold →
        (∃ r ∈ (logins.run (opened now) es).requests.eraseIdx i, r.address = a ∧ r.wrong) →
        loginFailureThreshold < (logins.run (opened now) (es ++ [.record i])).spent a)) := by
  have hrunAppend : ∀ es more, logins.run (opened now : LoginState Address) (es ++ more) =
      logins.run (logins.run (opened now) es) more := fun es more => foldl_append
  constructor
  · intro es hes
    have hfair : Fair (logins.run (opened now) es) := by
      refine Machine.Reachable.invariant (P := Fair) ?_ (fun s e hs he => hs.step he)
        (Machine.Reachable.run (Machine.Reachable.init ⟨now, rfl⟩) hes)
      rintro s ⟨now, rfl⟩
      exact ⟨by simp [opened], rfl, fun _ => Nat.zero_le _⟩
    exact ⟨hfair.onTime, hfair.bounded⟩
  · intro es i a hr hmany
    have hnear : SlotsNear (logins.run (opened now) es) := by
      have hstart : SlotsNear (opened now : LoginState Address) := by
        intro r hr'
        cases hr'
      clear hr hmany
      generalize opened now = s at hstart
      induction es generalizing s with
      | nil => exact hstart
      | cons e es ih => exact ih _ (hstart.step e)
    constructor
    · intro j slot hwait
      refine ⟨[.tick (slot - (logins.run (opened now) es).now), .start j true], ?_⟩
      rw [hrunAppend]
      exact waiting_starts_late hnear hr hmany hwait
    · rintro hfirst ⟨r, hother, ha, hwrong⟩
      rw [hrunAppend]
      exact spent_of_wrong hr hfirst hother ha hwrong

/-- A request from one address, from its lockout check to its result. -/
def attempt (i : Nat) (correct : Bool) : List (LoginEvent Nat) :=
  [.check 0, .await i, .start i correct, .verdict i, .record i]

/-- One attempt after the other: the sixth does not get past its lockout check. -/
theorem in_turn_never_late :
    (logins.run (opened 0) ((List.range 6).flatMap fun i => attempt i false)).late = false :=
  ((never_late_when_alone 0).1 _ (by decide +kernel)).1

/-- Six requests ask the guard before any of them fails. Sent one by one after that, the
sixth starts its check a minute before the lockout of the fifth is over; checked at the
same time, the address has had six failed checks by its first lockout. -/
theorem sixth_check_during_lockout :
    let six := List.range 6
    let admitted : List (LoginEvent Nat) := six.map (fun _ => .check 0) ++ six.map .await
    (logins.run (opened 0) (admitted ++
      (List.range 5).flatMap (fun i => [.start i false, .verdict i, .record i]) ++
      [.start 5 false])).late ∧
    (logins.run (opened 0) (admitted ++ six.map (.start · false) ++ six.map .verdict ++
      six.map .record)).spent 0 = 6 := by
  decide +kernel

end Lankeeper.Web
