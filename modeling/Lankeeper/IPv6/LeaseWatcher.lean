import Lankeeper.Lib.Text

/-!
# Lankeeper.IPv6.LeaseWatcher — the callback for a changed lease

The lease watcher of `internal/services/ipv6.go` reads the lease state and runs a callback,
which applies the firewall, unless the digest of the state is the last one. The digest is
kept before the callback runs, so a callback that fails has no second try while the state
stays the same. `lease_callback_iff` says when it has one.
-/

namespace Lankeeper.IPv6

open Lib Text List

structure PrefixState where
  timestamp : Int
  reason : Text
  prefixText : Text
  prefixLength : Int
  preferredLifetime : Int
  validLifetime : Int
  rdnss : Text
deriving DecidableEq

/-- `leaseHash`, which leaves the timestamp out. -/
def leaseHash (p : PrefixState) : Text :=
  p.prefixText ++ "/" ++ decimal p.prefixLength ++ "|" ++ p.reason ++ "|" ++
    decimal p.preferredLifetime ++ "|" ++ decimal p.validLifetime ++ "|" ++ p.rdnss

/-- The state that a dispatch reads, if it can, and whether the callback would fail. -/
structure Dispatch where
  state : Option PrefixState
  failed : Bool

/-- `dispatchLeaseLocked`, from the last digest to the next, and whether the callback is
called. Its error is only logged, as is that of `refreshRADropIn`. -/
def dispatchLease (lastLeaseHash : Text) (d : Dispatch) : Text × Bool :=
  match d.state with
  | none => (lastLeaseHash, false)
  | some state =>
    if leaseHash state = lastLeaseHash then (lastLeaseHash, false) else (leaseHash state, true)

/-- `lastLeaseHash` after some dispatches. -/
def lastHash (ds : List Dispatch) : Text :=
  ds.foldl (fun hash d => (dispatchLease hash d).1) []

/-- The next dispatch calls the callback. -/
def Calls (before : List Dispatch) (d : Dispatch) : Prop :=
  (dispatchLease (lastHash before) d).2

/-- The last state that was read. -/
def lastSeen (ds : List Dispatch) : Option PrefixState :=
  (ds.filterMap (·.state)).getLast?

/-- After `pre`, `d` calls the callback for the state `x`, and `e` comes `mid` later. -/
structure Later (ds pre : List Dispatch) (d : Dispatch) (mid : List Dispatch) (e : Dispatch)
    (x : PrefixState) : Prop where
  split : ∃ post, ds = pre ++ d :: (mid ++ e :: post)
  state : d.state = some x
  called : Calls pre d

/-- The state that a dispatch reads has the digest of `x`. -/
def Sees (d : Dispatch) (x : PrefixState) : Prop :=
  ∃ y, d.state = some y ∧ leaseHash y = leaseHash x

/-- The callback failed for `x`, and `e` is the next dispatch that sees a state like it. -/
structure Retry (ds pre : List Dispatch) (d : Dispatch) (mid : List Dispatch) (e : Dispatch)
    (x : PrefixState) : Prop extends Later ds pre d mid e x where
  failed : d.failed
  next : Sees e x
  first : ∀ m ∈ mid, ¬ Sees m x

/-- A callback that failed is called again when its state is next seen. -/
def Retried (ds : List Dispatch) : Prop :=
  ∀ pre d mid e x, Retry ds pre d mid e x → Calls (pre ++ d :: mid) e

/-- A callback that succeeded is not called again before the state changes. -/
def NotRepeated (ds : List Dispatch) : Prop :=
  ∀ pre d mid e x, Later ds pre d mid e x → d.failed = false →
    (∀ m ∈ mid ++ [e], ∀ y, m.state = some y → leaseHash y = leaseHash x) →
      ¬ Calls (pre ++ d :: mid) e

theorem calls_iff {before : List Dispatch} {d : Dispatch} :
    Calls before d ↔ ∃ x, d.state = some x ∧ leaseHash x ≠ lastHash before := by
  unfold Calls dispatchLease
  cases d.state <;> simp [apply_ite Prod.snd]

/-- Every state that is read leaves its digest, whether or not it is a new one. -/
theorem lastHash_append (ds es : List Dispatch) :
    lastHash (ds ++ es) = ((lastSeen es).map leaseHash).getD (lastHash ds) := by
  induction es using reverseRecOn with
  | nil => rw [append_nil]; rfl
  | append_singleton es e ih =>
    have hstep : lastHash (ds ++ (es ++ [e])) = (dispatchLease (lastHash (ds ++ es)) e).1 := by
      simp only [lastHash, foldl_append, foldl_cons, foldl_nil]
    rw [hstep, dispatchLease]
    cases he : e.state with
    | none => simpa [lastSeen, he] using ih
    | some x =>
      have hseen : lastSeen (es ++ [e]) = some x := by simp [lastSeen, he]
      rw [hseen]
      dsimp only
      split_ifs with hsame
      · exact hsame.symm
      · rfl

/-- A dispatch after `d` compares with the last state that was read from `d` on. -/
theorem Later.calls_iff {ds pre mid : List Dispatch} {d e : Dispatch} {x : PrefixState}
    (h : Later ds pre d mid e x) : ∃ y, lastSeen (d :: mid) = some y ∧
      (Calls (pre ++ d :: mid) e ↔ ∃ z, e.state = some z ∧ leaseHash z ≠ leaseHash y) := by
  have hread : lastSeen (d :: mid) ≠ none := by simp [lastSeen, h.state]
  obtain ⟨y, hy⟩ := Option.ne_none_iff_exists'.mp hread
  refine ⟨y, hy, ?_⟩
  rw [IPv6.calls_iff, lastHash_append, hy]
  rfl

/-- **Lease callbacks.** For every sequence of dispatches, a callback that succeeded is not
repeated, and one that failed is retried exactly if the last state seen before one with the
same digest returned has another digest. -/
theorem lease_callback_iff (ds : List Dispatch) : NotRepeated ds ∧
    (Retried ds ↔ ∀ pre d mid e x, Retry ds pre d mid e x →
      ∃ y, lastSeen (d :: mid) = some y ∧ leaseHash y ≠ leaseHash x) := by
  constructor
  · intro pre d mid e x hlater _ hsame hcalls
    obtain ⟨y, hy, hiff⟩ := hlater.calls_iff
    obtain ⟨z, hz, hne⟩ := hiff.mp hcalls
    obtain ⟨m, hm, hmy⟩ := mem_filterMap.mp (mem_of_getLast? hy)
    apply hne
    rw [hsame e (by simp) z hz]
    rcases mem_cons.mp hm with rfl | hm
    · rw [Option.some.inj (hlater.state.symm.trans hmy)]
    · exact (hsame m (mem_append_left _ hm) y hmy).symm
  · refine forall₅_congr fun pre d mid e x => forall_congr' fun hretry => ?_
    obtain ⟨y, hy, hiff⟩ := hretry.calls_iff
    obtain ⟨z, hz, hzx⟩ := hretry.next
    rw [hiff, hz, hy]
    simp [hzx, ne_comm]

/-- A lease whose callback fails, as when the firewall refuses to apply. -/
def refused : Dispatch where
  state := some ⟨0, "REPLY", "2001:db8::", 56, 3600, 7200, []⟩
  failed := true

/-- At the next dispatch the callback is not called. -/
theorem failed_callback_dropped : ¬ Retried [refused, refused] := by
  intro h
  refine absurd (h [] refused [] refused _ ⟨⟨⟨[], rfl⟩, rfl, ?_⟩, rfl, ⟨_, rfl, rfl⟩, nofun⟩) ?_ <;>
    unfold Calls <;> decide

end Lankeeper.IPv6
