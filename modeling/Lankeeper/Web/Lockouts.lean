import Mathlib.Algebra.Group.Nat.Defs
import Mathlib.Data.List.Induction
import Mathlib.Order.Lattice
import Lankeeper.Web.LoginGuard

/-!
# Lankeeper.Web.Lockouts — what a run of failures earns

The guard of `internal/web/login_guard.go` by itself, called in any order and for any
addresses. The lockout of a failure depends only on how many failures of its address came
before it, back to the last success or to an hour without one: `lockouts_by_streak` gives
it as a number, without the wrapped shift it is computed by, and says that the sweeper is
never noticed.

Both rest on one view of the state. A record that has been quiet for an hour is as good as
no record, and stays so, hence the guard and its sweeper may drop it or keep it: what
counts is `currentRecord`, at the time of the next call.
-/

namespace Lankeeper.Web

open Lib List Option

variable {Address : Type} [DecidableEq Address]

/-! ## Calls -/

inductive GuardCall (Address : Type)
  | lockedFor (a : Address)
  | recordFailure (a : Address)
  | recordSuccess (a : Address)
  /-- one round of the sweeper -/
  | cleanup

def GuardCall.isSweep : GuardCall Address → Bool
  | .cleanup => true
  | _ => false

/-- The calls of the guard with their times, oldest first. -/
abbrev GuardHistory (Address : Type) := List (Nat × GuardCall Address)

/-- The lockout that `RecordFailure` returns. -/
def earned (failures : Nat) : Nat :=
  if failures < loginFailureThreshold then 0 else lockoutAfter failures

namespace LoginState

/-- The state, looked at from another time. -/
def at_ (s : LoginState Address) (t : Nat) : LoginState Address :=
  { s with now := t }

/-- What a call returns, if anything, and the state after it. -/
def call (s : LoginState Address) : GuardCall Address → Option Nat × LoginState Address
  | .lockedFor a => (some (s.lockedFor a).1, (s.lockedFor a).2)
  | .recordFailure a => (some (earned (s.failuresNext a)), s.recordFailure a)
  | .recordSuccess a => (none, s.recordSuccess a)
  | .cleanup => (none, s.cleanup)

/-- The state after a history. -/
def after (s : LoginState Address) (h : GuardHistory Address) : LoginState Address :=
  h.foldl (fun s e => ((s.at_ e.1).call e.2).2) s

/-- What the calls of a history return. The sweeper runs by itself and returns to nobody. -/
def results (s : LoginState Address) : GuardHistory Address → List (Option Nat)
  | [] => []
  | (t, c) :: h =>
    let rest := results ((s.at_ t).call c).2 h
    if c.isSweep then rest else ((s.at_ t).call c).1 :: rest

end LoginState

/-! ## The streak -/

/-- The failures of the address without a success or a quiet hour between them, the last
of which has no quiet hour after it at `t`. The history is read from its end. -/
def streak (a : Address) (t : Nat) : GuardHistory Address → Nat
  | [] => 0
  | (t', .recordFailure b) :: h =>
    if b = a then if loginFailureIdleReset < t - t' then 0 else streak a t' h + 1
    else streak a t h
  | (_, .recordSuccess b) :: h => if b = a then 0 else streak a t h
  | (_, .lockedFor _) :: h | (_, .cleanup) :: h => streak a t h

/-! ## The lockout as a number -/

/-- The shift leaves the 64 bits from the 28th doubling on. What it leaves in them is
negative, zero, or a multiple of a power of two above the maximum, so the cap applies as it
does to all the doublings from the fourth on. -/
theorem lockoutAfter_eq (failures : Nat) :
    lockoutAfter failures =
      min (loginLockoutBase * 2 ^ (failures - loginFailureThreshold)) loginLockoutMax := by
  unfold lockoutAfter
  generalize failures - loginFailureThreshold = k
  by_cases hk : k < 64
  · revert k
    decide +kernel
  · have hpow : 2 ^ 4 ≤ 2 ^ k := Nat.pow_le_pow_right (by decide) (by omega)
    have hmax : loginLockoutMax ≤ loginLockoutBase * 2 ^ 4 := by decide
    rw [BitVec.shiftLeft_eq_zero (Nat.not_lt.mp hk),
      min_eq_right (hmax.trans (Nat.mul_le_mul_left _ hpow))]
    decide

/-! ## The view -/

namespace LoginState

/-- What the guard knows of the address at `t`. -/
def view (s : LoginState Address) (t : Nat) (a : Address) : LoginRecord :=
  (s.at_ t).currentRecord a

/-- The record after a failure at `t`. -/
def failed (t : Nat) (r : LoginRecord) : LoginRecord where
  failures := r.failures + 1
  lockedUntil :=
    if r.failures + 1 < loginFailureThreshold then r.lockedUntil
    else t + lockoutAfter (r.failures + 1)
  lastSeen := t

variable {s : LoginState Address} {t t' : Nat} {a : Address}

section

omit [DecidableEq Address]

theorem view_eq : s.view t a = match s.clients a with
    | none => {}
    | some rec => if loginFailureIdleReset < t - rec.lastSeen then {} else rec := rfl

theorem view_of_none (h : s.clients a = none) : s.view t a = {} := by
  rw [view_eq, h]

/-- What is quiet stays quiet. -/
theorem view_of_quiet {rec : LoginRecord} (h : s.clients a = some rec)
    (hquiet : loginFailureIdleReset < t - rec.lastSeen) (ht : t ≤ t') : s.view t' a = {} := by
  rw [view_eq, h]
  exact if_pos (by omega)

@[simp] theorem view_at (t₁ : Nat) : (s.at_ t₁).view t a = s.view t a := rfl

end

theorem view_setClient (b : Address) (rec : Option LoginRecord) :
    (s.setClient b rec).view t a =
      if a = b then rec.elim {} fun rec =>
        if loginFailureIdleReset < t - rec.lastSeen then {} else rec else s.view t a := by
  by_cases hab : a = b
  · cases rec <;> simp [view_eq, setClient, hab]
  · simp [view_eq, setClient, hab]

theorem lockedFor_at : (s.at_ t).lockedFor a = match s.clients a with
    | none => (0, s.at_ t)
    | some rec =>
      if loginFailureIdleReset < t - rec.lastSeen then (0, (s.at_ t).setClient a none)
      else (rec.lockedUntil - t, s.at_ t) := rfl

/-- The result of a call is read off the view. -/
theorem call_fst (c : GuardCall Address) :
    ((s.at_ t).call c).1 = match c with
      | .lockedFor a => some ((s.view t a).lockedUntil - t)
      | .recordFailure a => some (earned ((s.view t a).failures + 1))
      | .recordSuccess _ => none
      | .cleanup => none := by
  cases c with
  | lockedFor a =>
    refine congrArg some ?_
    rw [lockedFor_at, view_eq]
    cases s.clients a with
    | none => simp
    | some rec =>
      by_cases hquiet : loginFailureIdleReset < t - rec.lastSeen <;> simp [hquiet]
  | recordFailure a => rfl
  | recordSuccess a => rfl
  | cleanup => rfl

/-- The guard drops a record when it is read only if it is quiet. -/
theorem view_lockedFor (b : Address) (ht : t ≤ t') :
    ((s.at_ t).lockedFor b).2.view t' a = s.view t' a := by
  rw [lockedFor_at]
  cases hrec : s.clients b with
  | none => rfl
  | some rec =>
    by_cases hquiet : loginFailureIdleReset < t - rec.lastSeen
    · simp only [hquiet, if_true, view_setClient, view_at, elim_none]
      split
      case isTrue hab => rw [hab, view_of_quiet hrec hquiet ht]
      case isFalse => rfl
    · simp only [hquiet, if_false, view_at]

omit [DecidableEq Address] in
/-- So does the sweeper. -/
theorem view_cleanup (ht : t ≤ t') : (s.at_ t).cleanup.view t' a = s.view t' a := by
  have hclients : (s.at_ t).cleanup.clients a = (s.clients a).filter fun rec =>
      ¬ (loginFailureIdleReset < t - rec.lastSeen ∧ rec.lockedUntil < t) := rfl
  rw [view_eq, hclients]
  cases hrec : s.clients a with
  | none => rw [view_of_none hrec, filter_none]
  | some rec =>
    by_cases hswept : loginFailureIdleReset < t - rec.lastSeen ∧ rec.lockedUntil < t
    · rw [view_of_quiet hrec hswept.1 ht, filter_some_neg (by simpa using hswept)]
    · rw [view_eq, hrec, filter_some_pos (by exact decide_eq_true hswept)]

theorem view_recordFailure (b : Address) :
    ((s.at_ t).recordFailure b).view t' a =
      if a = b then if loginFailureIdleReset < t' - t then {} else failed t (s.view t b)
      else s.view t' a := by
  have hset : (s.at_ t).recordFailure b = (s.at_ t).setClient b (some (failed t (s.view t b))) := by
    unfold recordFailure failed view
    by_cases hlow : ((s.at_ t).currentRecord b).failures + 1 < loginFailureThreshold
    · simp only [hlow, if_true]
      rfl
    · simp only [hlow, if_false]
      rfl
  rw [hset, view_setClient]
  rfl

/-- How a call changes what is known of an address at a later time. -/
theorem view_call (c : GuardCall Address) (ht : t ≤ t') :
    ((s.at_ t).call c).2.view t' a = match c with
      | .recordFailure b =>
        if a = b then if loginFailureIdleReset < t' - t then {} else failed t (s.view t b)
        else s.view t' a
      | .recordSuccess b => if a = b then {} else s.view t' a
      | .lockedFor _ => s.view t' a
      | .cleanup => s.view t' a := by
  cases c with
  | lockedFor b => exact view_lockedFor b ht
  | recordFailure b => exact view_recordFailure b
  | recordSuccess b => exact view_setClient b none
  | cleanup => exact view_cleanup ht

end LoginState

/-! ## Histories -/

namespace LoginState

/-- The histories whose times do not go back. -/
def InOrder (h : GuardHistory Address) : Prop :=
  h.Pairwise fun e e' => e.1 ≤ e'.1

theorem after_append (s : LoginState Address) (h h' : GuardHistory Address) :
    s.after (h ++ h') = (s.after h).after h' :=
  foldl_append

/-- The guard counts the streak: by induction on the history, from its end. -/
theorem failures_eq_streak (h : GuardHistory Address) :
    ∀ (a : Address) (t : Nat), InOrder h → (∀ e ∈ h, e.1 ≤ t) →
      (((opened 0).after h).view t a).failures = streak a t h.reverse := by
  induction h using reverseRecOn with
  | nil => exact fun _ _ _ _ => rfl
  | append_singleton h e ih =>
    intro a t horder hpast
    have hh : InOrder h := (pairwise_append.mp horder).1
    have hbefore : ∀ e' ∈ h, e'.1 ≤ e.1 := fun e' he' =>
      (pairwise_append.mp horder).2.2 e' he' e (mem_singleton_self e)
    have hlater : e.1 ≤ t := hpast e (by simp)
    have ih_later := ih a t hh fun e' he' => hpast e' (mem_append_left _ he')
    have ih_then := ih a e.1 hh hbefore
    rw [after_append, reverse_append, reverse_singleton, singleton_append]
    obtain ⟨t₀, c⟩ := e
    change ((((((opened 0).after h).at_ t₀).call c).2).view t a).failures = _
    rw [view_call c hlater]
    cases c with
    | lockedFor b => exact ih_later
    | cleanup => exact ih_later
    | recordSuccess b =>
      simp only [streak, eq_comm (a := b)]
      split
      case isTrue => rfl
      case isFalse => exact ih_later
    | recordFailure b =>
      simp only [streak, eq_comm (a := b)]
      split
      case isFalse => exact ih_later
      case isTrue hab =>
        split
        case isTrue => rfl
        case isFalse =>
          rw [← hab]
          exact congrArg (· + 1) ih_then

/-- From `t` on, the guard cannot tell the two states apart. -/
def Alike (t : Nat) (s s' : LoginState Address) : Prop :=
  ∀ t' a, t ≤ t' → s.view t' a = s'.view t' a

variable {s s' : LoginState Address} {t t' : Nat}

theorem Alike.fst (h : Alike t s s') (ht : t ≤ t') (c : GuardCall Address) :
    ((s.at_ t').call c).1 = ((s'.at_ t').call c).1 := by
  rw [call_fst, call_fst]
  cases c with
  | lockedFor a => simp only [h t' a ht]
  | recordFailure a => simp only [h t' a ht]
  | recordSuccess a => rfl
  | cleanup => rfl

theorem Alike.call (h : Alike t s s') (ht : t ≤ t') (c : GuardCall Address) :
    Alike t' ((s.at_ t').call c).2 ((s'.at_ t').call c).2 := by
  intro t₁ a ht₁
  rw [view_call c ht₁, view_call c ht₁, h t₁ a (ht.trans ht₁)]
  cases c with
  | recordFailure b => simp only [h t' b ht]
  | lockedFor b => rfl
  | recordSuccess b => rfl
  | cleanup => rfl

omit [DecidableEq Address] in
theorem Alike.sweep (h : Alike t s s') (ht : t ≤ t') : Alike t' (s.at_ t').cleanup s' := by
  intro t₁ a ht₁
  rw [view_cleanup ht₁, h t₁ a (ht.trans ht₁)]

/-- The history without the rounds of the sweeper. -/
def unswept (h : GuardHistory Address) : GuardHistory Address :=
  h.filter fun e => !e.2.isSweep

/-- One of two states that are alike is swept from time to time. -/
theorem Alike.results (h : GuardHistory Address) :
    ∀ {s s' : LoginState Address} {t : Nat}, Alike t s s' → (∀ e ∈ h, t ≤ e.1) → InOrder h →
      s.results h = s'.results (unswept h) := by
  induction h with
  | nil => exact fun _ _ _ => rfl
  | cons e h ih =>
    intro s s' t halike hfrom horder
    obtain ⟨t₀, c⟩ := e
    have ht : t ≤ t₀ := hfrom _ mem_cons_self
    have hnext := pairwise_cons.mp horder
    by_cases hsweep : c.isSweep
    · cases c with
      | cleanup =>
        exact ih (halike.sweep ht) hnext.1 hnext.2
      | _ => cases hsweep
    · have hkept : unswept ((t₀, c) :: h) = (t₀, c) :: unswept h := by
        simp [unswept, hsweep]
      rw [hkept, LoginState.results, LoginState.results, if_neg hsweep, if_neg hsweep,
        halike.fst ht c, ih (halike.call ht c) hnext.1 hnext.2]

end LoginState

open LoginState

/-- The lockout of a failure is given by how many failures it makes in a row, and doubles
with each from the fifth on, up to a quarter of an hour. The sweeper changes no result. -/
theorem lockouts_by_streak (h : GuardHistory Address) (horder : InOrder h) :
    (∀ front a t back, h = front ++ (t, .recordFailure a) :: back →
      ((((opened 0).after front).at_ t).call (.recordFailure a)).1 =
        some (if streak a t front.reverse + 1 < loginFailureThreshold then 0
          else min (loginLockoutBase * 2 ^ (streak a t front.reverse + 1 - loginFailureThreshold))
            loginLockoutMax)) ∧ (opened 0).results h = (opened 0).results (unswept h) := by
  refine ⟨?_, ?_⟩
  · rintro front a t back rfl
    have hparts := pairwise_append.mp horder
    have hcount := failures_eq_streak front a t hparts.1 fun e he =>
      hparts.2.2 e he _ mem_cons_self
    rw [call_fst]
    simp only [hcount, earned, lockoutAfter_eq]
  · exact Alike.results h (fun _ _ _ => rfl) (t := 0) (fun _ _ => Nat.zero_le _) horder

/-- Five failures in a row, one every ten minutes, with the sweeper in between. -/
theorem fifth_failure_locks_out :
    ((((opened 0).after ((List.range 4).flatMap fun i =>
        [(i * 10 * loginLockoutBase, .recordFailure ()), (i * 10 * loginLockoutBase, .cleanup)])).at_
          (40 * loginLockoutBase)).call (.recordFailure ())).1 = some loginLockoutBase := by
  have horder : InOrder (((List.range 4).flatMap fun i =>
      [(i * 10 * loginLockoutBase, GuardCall.recordFailure ()), (i * 10 * loginLockoutBase, .cleanup)]) ++
        [(40 * loginLockoutBase, .recordFailure ())]) := by
    unfold InOrder
    decide
  rw [(lockouts_by_streak _ horder).1 _ () _ [] rfl]
  decide

end Lankeeper.Web
