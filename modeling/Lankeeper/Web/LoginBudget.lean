import Lankeeper.Web.Lockouts

/-!
# Lankeeper.Web.LoginBudget — slots for password checks

`internal/web/login_budget.go` by itself. While thirty failures lie within the last hour,
`Reserve` hands out slots from one pointer that only moves forward, so the slots are half a
minute apart however the calls fall, also when the failures age out and come back in
between. `slots_spaced` says so, and when it refuses.

The histories here are read from their end: the newest call comes first.
-/

namespace Lankeeper.Web

open Lib LoginState List

variable {Address : Type} {past : BudgetHistory}

/-! ## Histories -/

inductive BudgetCall
  | reserve
  | recordFailure
deriving DecidableEq

/-- The calls of the budget with their times, newest first. -/
abbrev BudgetHistory := List (Nat × BudgetCall)

/-- The budget after a history. -/
def budgetAfter : BudgetHistory → LoginState Address
  | [] => opened 0
  | (t, .reserve) :: past => ((budgetAfter past).at_ t).reserve.2
  | (t, .recordFailure) :: past => ((budgetAfter past).at_ t).countFailure

/-- What `Reserve` returns at `t` after the history: the wait, unless it refuses. -/
def reserveAt (Address : Type) (t : Nat) (past : BudgetHistory) : Option Nat :=
  ((budgetAfter past : LoginState Address).at_ t).reserve.1

/-- The failures of the hour before `t`. -/
def failuresWithin (t : Nat) (past : BudgetHistory) : Nat :=
  past.countP fun e => e.2 = .recordFailure ∧ t - e.1 ≤ loginBudgetWindow

/-- At `t`, password checks are spaced. -/
def Throttled (t : Nat) (past : BudgetHistory) : Prop :=
  loginBudgetFailures ≤ failuresWithin t past

instance (t : Nat) (past : BudgetHistory) : Decidable (Throttled t past) :=
  inferInstanceAs (Decidable (_ ≤ _))

/-- The starts of the slots that were handed out while checks were spaced. -/
def slots (Address : Type) : BudgetHistory → List Nat
  | [] => []
  | (_, .recordFailure) :: past => slots Address past
  | (t, .reserve) :: past =>
    if Throttled t past then
      ((reserveAt Address t past).map (t + ·)).toList ++ slots Address past
    else slots Address past

/-- The first time from `t` on that is half a minute after every slot. -/
def nextFree (t : Nat) (taken : List Nat) : Nat :=
  taken.foldr (fun slot free => max free (slot + loginBudgetSpacing)) t

/-- The calls are made at times that do not go back. -/
def BudgetHistory.InOrder (h : BudgetHistory) : Prop :=
  h.Pairwise fun e e' => e'.1 ≤ e.1

/-! ## Failures that age out -/

/-- The failures of a history, oldest first. -/
def failureTimes (past : BudgetHistory) : List Nat :=
  ((past.filter fun e => e.2 = .recordFailure).map (·.1)).reverse

/-- What is dropped early is also dropped late. -/
theorem dropWhile_dropWhile_append {α : Type} {p q : α → Bool} (h : ∀ x, p x → q x) (l r : List α) :
    (l.dropWhile p ++ r).dropWhile q = (l ++ r).dropWhile q := by
  induction l with
  | nil => rfl
  | cons x l ih =>
    by_cases hp : p x
    · rw [dropWhile_cons_of_pos hp, cons_append, dropWhile_cons_of_pos (h x hp), ih]
    · rw [dropWhile_cons_of_neg hp]

/-- In a sorted list the old failures are those at its beginning. -/
theorem length_dropWhile_old {t : Nat} {l : List Nat} (h : l.Pairwise (· ≤ ·)) :
    (l.dropWhile fun x => loginBudgetWindow < t - x).length =
      l.countP fun x => t - x ≤ loginBudgetWindow := by
  induction l with
  | nil => rfl
  | cons x l ih =>
    have hsorted := pairwise_cons.mp h
    by_cases hold : loginBudgetWindow < t - x
    · rw [dropWhile_cons_of_pos (by exact decide_eq_true hold), ih hsorted.2,
        countP_cons_of_neg (by exact mt of_decide_eq_true (Nat.not_le.mpr hold))]
    have hrecent : ∀ y ∈ x :: l, t - y ≤ loginBudgetWindow := by
      intro y hy
      rcases mem_cons.mp hy with rfl | hy
      · omega
      · have := hsorted.1 y hy
        omega
    rw [dropWhile_cons_of_neg (by simpa using hold),
      countP_eq_length.mpr fun y hy => decide_eq_true (hrecent y hy)]

theorem countP_failureTimes (t : Nat) (past : BudgetHistory) :
    (failureTimes past).countP (fun x => t - x ≤ loginBudgetWindow) = failuresWithin t past := by
  unfold failureTimes failuresWithin
  rw [countP_reverse, countP_map, countP_filter]
  refine countP_congr fun e _ => ?_
  simp [and_comm]

theorem failureTimes_sorted (h : past.InOrder) : (failureTimes past).Pairwise (· ≤ ·) := by
  unfold failureTimes
  rw [pairwise_reverse, pairwise_map]
  exact List.Pairwise.filter _ h

/-! ## The budget after a history -/

/-- `Reserve`, with the start of the next slot as a maximum. -/
theorem reserve_eq (s : LoginState Address) :
    s.reserve =
      if s.pruned.length < loginBudgetFailures then (some 0, { s with budgetFailures := s.pruned })
      else if loginBudgetMaxWait < max s.now s.budgetNext - s.now then
        (none, { s with budgetFailures := s.pruned })
      else (some (max s.now s.budgetNext - s.now),
        { s with
          budgetFailures := s.pruned
          budgetNext := max s.now s.budgetNext + loginBudgetSpacing }) := by
  have hslot : (if s.now < s.budgetNext then s.budgetNext else s.now) = max s.now s.budgetNext := by
    split <;> omega
  unfold reserve nextSlot
  simp only [hslot]

theorem reserve_failures (s : LoginState Address) : s.reserve.2.budgetFailures = s.pruned := by
  rw [reserve_eq]
  split
  · rfl
  · split <;> rfl

theorem failureTimes_cons (t : Nat) (past : BudgetHistory) :
    failureTimes ((t, .reserve) :: past) = failureTimes past ∧
      failureTimes ((t, .recordFailure) :: past) = failureTimes past ++ [t] := by
  simp [failureTimes]

/-- Dropping old failures early does not show later. -/
theorem pruned_after (h : past.InOrder) :
    ∀ {t : Nat}, (∀ e ∈ past, e.1 ≤ t) →
      ((budgetAfter past : LoginState Address).at_ t).pruned =
        (failureTimes past).dropWhile fun x => loginBudgetWindow < t - x := by
  induction past with
  | nil => exact fun _ => rfl
  | cons e past ih =>
    intro t hpast
    have hparts := pairwise_cons.mp h
    obtain ⟨t₀, c⟩ := e
    have hthen := ih hparts.2 hparts.1
    have hlater : t₀ ≤ t := hpast _ mem_cons_self
    have hold : ∀ x, decide (loginBudgetWindow < t₀ - x) →
        decide (loginBudgetWindow < t - x) := by
      intro x hx
      have := of_decide_eq_true hx
      exact decide_eq_true (by omega)
    cases c with
    | reserve =>
      have hkept : (budgetAfter ((t₀, .reserve) :: past) : LoginState Address).budgetFailures =
          (failureTimes past).dropWhile fun x => loginBudgetWindow < t₀ - x :=
        (reserve_failures _).trans hthen
      have hdrop := dropWhile_dropWhile_append hold (failureTimes past) []
      rw [append_nil, append_nil] at hdrop
      rw [(failureTimes_cons t₀ past).1, ← hdrop, ← hkept]
      rfl
    | recordFailure =>
      rw [(failureTimes_cons t₀ past).2, ← dropWhile_dropWhile_append hold, ← hthen]
      rfl

section After

variable {past : BudgetHistory} {t : Nat} (h : past.InOrder) (hpast : ∀ e ∈ past, e.1 ≤ t)

include h hpast

/-- The budget is spent when thirty failures lie within the last hour. -/
theorem length_pruned :
    ((budgetAfter past : LoginState Address).at_ t).pruned.length = failuresWithin t past := by
  rw [pruned_after h hpast, length_dropWhile_old (failureTimes_sorted h), countP_failureTimes]

/-- While failures are few, nothing waits and no slot is taken. -/
theorem reserve_free (hfree : ¬ Throttled t past) : reserveAt Address t past = some 0 ∧
      (budgetAfter ((t, .reserve) :: past) : LoginState Address).budgetNext =
        (budgetAfter past : LoginState Address).budgetNext := by
  have hfew : ((budgetAfter past : LoginState Address).at_ t).pruned.length < loginBudgetFailures := by
    rw [length_pruned h hpast]
    exact Nat.not_le.mp hfree
  rw [reserveAt, budgetAfter, reserve_eq, if_pos hfew]
  exact ⟨rfl, rfl⟩

/-- While they are many, the pointer decides. -/
theorem reserve_throttled (hmany : Throttled t past) {next : Nat}
    (hnext : (budgetAfter past : LoginState Address).budgetNext = next) :
    (reserveAt Address t past,
        (budgetAfter ((t, .reserve) :: past) : LoginState Address).budgetNext) =
      if loginBudgetMaxWait < max t next - t then (none, next)
      else (some (max t next - t), max t next + loginBudgetSpacing) := by
  have hlen : ¬ ((budgetAfter past : LoginState Address).at_ t).pruned.length <
      loginBudgetFailures := by
    rw [length_pruned h hpast]
    exact Nat.not_lt.mpr hmany
  have hnext_at : ((budgetAfter past : LoginState Address).at_ t).budgetNext = next := hnext
  have hnow : ((budgetAfter past : LoginState Address).at_ t).now = t := rfl
  rw [reserveAt, budgetAfter, reserve_eq, if_neg hlen, hnext_at, hnow]
  split <;> rfl

end After

/-! ## The slots -/

theorem nextFree_eq_max (t : Nat) (taken : List Nat) : nextFree t taken = max t (nextFree 0 taken) := by
  induction taken with
  | nil => simp [nextFree]
  | cons slot taken ih =>
    change max (nextFree t taken) _ = max t (max (nextFree 0 taken) _)
    rw [ih, max_assoc]

theorem le_nextFree {t slot : Nat} {taken : List Nat} (h : slot ∈ taken) :
    slot + loginBudgetSpacing ≤ nextFree t taken := by
  induction taken with
  | nil => cases h
  | cons x taken ih =>
    change _ ≤ max (nextFree t taken) _
    rcases mem_cons.mp h with rfl | h
    · exact le_max_right _ _
    · exact (ih h).trans (le_max_left _ _)

/-- The pointer is where the slots end: by induction on the history. -/
theorem budgetNext_after (h : past.InOrder) :
    (budgetAfter past : LoginState Address).budgetNext = nextFree 0 (slots Address past) := by
  induction past with
  | nil => rfl
  | cons e past ih =>
    have hparts := pairwise_cons.mp h
    obtain ⟨t, c⟩ := e
    have hbefore : ∀ e ∈ past, e.1 ≤ t := hparts.1
    have hnext := ih hparts.2
    cases c with
    | recordFailure => exact hnext
    | reserve =>
      by_cases hmany : Throttled t past
      · have hreserve := reserve_throttled hparts.2 hbefore hmany hnext
        rw [slots, if_pos hmany]
        split at hreserve
        case isTrue hlong =>
          rw [Prod.mk.injEq] at hreserve
          rw [hreserve.1, hreserve.2]
          rfl
        case isFalse hshort =>
          rw [Prod.mk.injEq] at hreserve
          rw [hreserve.1, hreserve.2]
          change _ = max (nextFree 0 (slots Address past))
            (t + (max t (nextFree 0 (slots Address past)) - t) + loginBudgetSpacing)
          omega
      · rw [slots, if_neg hmany, (reserve_free hparts.2 hbefore hmany).2, hnext]

/-- What `Reserve` returns, by the slots that are taken. -/
theorem reserveAt_throttled {t : Nat} (h : past.InOrder)
    (hpast : ∀ e ∈ past, e.1 ≤ t) (hmany : Throttled t past) :
    reserveAt Address t past =
      if t + loginBudgetMaxWait < nextFree t (slots Address past) then none
      else some (nextFree t (slots Address past) - t) := by
  have hnext : (budgetAfter past : LoginState Address).budgetNext = _ := budgetNext_after h
  have hreserve := congrArg Prod.fst (reserve_throttled h hpast hmany hnext)
  rw [← nextFree_eq_max] at hreserve
  have hle : t ≤ nextFree t (slots Address past) := by
    rw [nextFree_eq_max]
    exact le_max_left _ _
  have hiff : loginBudgetMaxWait < nextFree t (slots Address past) - t ↔
      t + loginBudgetMaxWait < nextFree t (slots Address past) := by omega
  simp only [hiff] at hreserve
  split at hreserve
  case isTrue hlong => rw [if_pos hlong, hreserve]
  case isFalse hshort => rw [if_neg hshort, hreserve]

/-- Slots are half a minute apart, each after those before it. -/
theorem slots_pairwise {h : BudgetHistory} (horder : h.InOrder) :
    (slots Address h).Pairwise fun later slot => slot + loginBudgetSpacing ≤ later := by
  induction h with
  | nil => exact List.Pairwise.nil
  | cons e past ih =>
    have hparts := pairwise_cons.mp horder
    obtain ⟨t, c⟩ := e
    cases c with
    | recordFailure => exact ih hparts.2
    | reserve =>
      rw [slots]
      split
      case isFalse => exact ih hparts.2
      case isTrue hmany =>
        have hbefore : ∀ e ∈ past, e.1 ≤ t := hparts.1
        rw [reserveAt_throttled hparts.2 hbefore hmany]
        split
        case isTrue => exact ih hparts.2
        case isFalse =>
          refine pairwise_cons.mpr ⟨fun slot hslot => ?_, ih hparts.2⟩
          have hspace : slot + loginBudgetSpacing ≤ nextFree t (slots Address past) := le_nextFree hslot
          change _ ≤ t + (nextFree t (slots Address past) - t)
          omega

/-- With fewer than thirty failures in the last hour a check starts at once. Otherwise it
starts at the next free slot, if that is at most half a minute away, and is refused if it
is not; and the slots are half a minute apart. -/
theorem slots_spaced (Address : Type) (h : BudgetHistory) (horder : h.InOrder) :
    (∀ front t past, h = front ++ (t, .reserve) :: past →
      if Throttled t past then
        (reserveAt Address t past = none ↔
          t + loginBudgetMaxWait < nextFree t (slots Address past)) ∧
          ∀ wait ∈ reserveAt Address t past, wait ≤ loginBudgetMaxWait
      else reserveAt Address t past = some 0) ∧
      (slots Address h).Pairwise fun later slot => slot + loginBudgetSpacing ≤ later := by
  refine ⟨?_, slots_pairwise horder⟩
  rintro front t past rfl
  have hparts := pairwise_cons.mp (pairwise_append.mp horder).2.1
  split
  case isFalse hfree => exact (reserve_free hparts.2 hparts.1 hfree).1
  case isTrue hmany =>
    rw [reserveAt_throttled hparts.2 hparts.1 hmany]
    split
    case isTrue hlong => exact ⟨iff_of_true rfl hlong, fun _ hwait => by cases hwait⟩
    case isFalse hshort =>
      refine ⟨iff_of_false (by simp) hshort, fun wait hwait => ?_⟩
      rw [Option.mem_some_iff] at hwait
      omega

/-- Thirty failures, and three checks at once: the first is made, the second waits for the
next slot and the third is refused. -/
theorem third_check_refused :
    slots Unit ([(0, .reserve), (0, .reserve)] ++ List.replicate 30 (0, .recordFailure)) =
        [loginBudgetSpacing, 0] ∧
      reserveAt Unit 0 ([(0, .reserve), (0, .reserve)] ++ List.replicate 30 (0, .recordFailure)) =
        none := by
  have horder : BudgetHistory.InOrder ((0, .reserve) ::
      ([(0, .reserve), (0, .reserve)] ++ List.replicate 30 (0, .recordFailure))) := by
    unfold BudgetHistory.InOrder
    decide +kernel
  have hreserve := (slots_spaced Unit _ horder).1 [] 0 _ rfl
  rw [if_pos (by decide +kernel)] at hreserve
  exact ⟨by decide +kernel, hreserve.1.mpr (by decide +kernel)⟩

end Lankeeper.Web
