import Lankeeper.Lib.Text

/-!
# Lankeeper.DNS.TopLists — the most frequent entries of a map

`topN` of `internal/services/dns.go`. The entries of the map come in any order, and an exchange sort
that stops after `n` rounds brings the largest counts to the front. `topN_top` says that they are
the right ones; the `n` of the callers is 10, and below zero the slice panics.
-/

namespace Lankeeper.DNS

open Lib Text List

structure DomainCount where
  domain : Text
  count : Int
deriving DecidableEq

/-- The inner loop: `x` is at place `i`, and the list is what follows. An entry with a larger count
changes places with the one at `i`. -/
def exchange (x : DomainCount) : List DomainCount → DomainCount × List DomainCount
  | [] => (x, [])
  | y :: ys =>
    if y.count > x.count then ((exchange y ys).1, x :: (exchange y ys).2)
    else ((exchange x ys).1, y :: (exchange x ys).2)

/-- The outer loop, from place `i` on, with `n` rounds to go. -/
def exchangeFrom : Nat → List DomainCount → List DomainCount
  | 0, es => es
  | _, [] => []
  | n + 1, x :: es => (exchange x es).1 :: exchangeFrom n (exchange x es).2

/-- `topN`, for the entries in the order in which the loop over the map meets them. -/
def topN (entries : List DomainCount) (n : Int) : Option (List DomainCount) :=
  let result := exchangeFrom n.toNat entries
  if result.length > n then
    if 0 ≤ n then some (result.take n.toNat) else none
  else some result

/-- The `n` most frequent entries of a map, in order. -/
structure Top (counts : List DomainCount) (n : Int) (result : List DomainCount) : Prop where
  length : (result.length : Int) = min n counts.length
  subset : result ⊆ counts
  distinct : (result.map (·.domain)).Nodup
  sorted : result.Pairwise (·.count ≥ ·.count)
  best : ∀ e ∈ counts, e ∉ result → ∀ r ∈ result, e.count ≤ r.count

/-- The inner loop moves a largest entry to the front. -/
theorem exchange_spec (x : DomainCount) (es : List DomainCount) :
    ((exchange x es).1 :: (exchange x es).2).Perm (x :: es) ∧
      ∀ e ∈ x :: (exchange x es).2, e.count ≤ (exchange x es).1.count := by
  induction es generalizing x with
  | nil => simp [exchange]
  | cons y es ih =>
    unfold exchange
    split
    · rename_i hlarger
      obtain ⟨hperm, hle⟩ := ih y
      rw [forall_mem_cons] at hle
      refine ⟨(Perm.swap _ _ _).trans (hperm.cons x), ?_⟩
      have hx : x.count ≤ (exchange y es).1.count := Int.le_trans (Int.le_of_lt hlarger) hle.1
      simpa using ⟨hx, hle.2⟩
    · rename_i hsmaller
      obtain ⟨hperm, hle⟩ := ih x
      rw [forall_mem_cons] at hle
      refine ⟨(Perm.swap _ _ _).trans ((hperm.cons y).trans (Perm.swap _ _ _)), ?_⟩
      have hy : y.count ≤ (exchange x es).1.count := Int.le_trans (Int.not_lt.mp hsmaller) hle.1
      simpa using ⟨hle.1, hy, hle.2⟩

/-- After `n` rounds the front is in order, and nothing behind it is larger. -/
theorem exchangeFrom_spec (n : Nat) (es : List DomainCount) :
    ∃ top rest, exchangeFrom n es = top ++ rest ∧ (top ++ rest).Perm es ∧
      top.length = min n es.length ∧ top.Pairwise (·.count ≥ ·.count) ∧
      ∀ r ∈ top, ∀ e ∈ rest, e.count ≤ r.count := by
  induction n generalizing es with
  | zero => exact ⟨[], es, by simp [exchangeFrom]⟩
  | succ n ih =>
    cases es with
    | nil => exact ⟨[], [], by simp [exchangeFrom]⟩
    | cons x es =>
      obtain ⟨hperm, hle⟩ := exchange_spec x es
      obtain ⟨top, rest, heq, hrest, hlen, hsorted, hbest⟩ := ih (exchange x es).2
      -- what the round left behind is not larger than what it moved to the front
      have hfront : ∀ e ∈ top ++ rest, e.count ≤ (exchange x es).1.count :=
        fun e he => hle e (mem_cons_of_mem _ (hrest.mem_iff.mp he))
      rw [forall_mem_append] at hfront
      have hsize : (exchange x es).2.length = es.length := by simpa using hperm.length_eq
      refine ⟨(exchange x es).1 :: top, rest, by simp [exchangeFrom, heq],
        (hrest.cons _).trans hperm, ?_, pairwise_cons.mpr ⟨hfront.1, hsorted⟩,
        forall_mem_cons.mpr ⟨hfront.2, hbest⟩⟩
      rw [length_cons, hlen, hsize, length_cons]
      omega

/-- **Top lists.** For every order of the entries of a map and every `n` that is not below zero. -/
theorem topN_top {counts entries : List DomainCount} (hmap : (counts.map (·.domain)).Nodup)
    (horder : entries.Perm counts) {n : Int} (hn : 0 ≤ n) :
    ∃ result, topN entries n = some result ∧ Top counts n result := by
  obtain ⟨top, rest, heq, hperm, hlen, hsorted, hbest⟩ := exchangeFrom_spec n.toNat entries
  have hcounts := hperm.trans horder
  have hsize := hperm.length_eq
  have hsize' := horder.length_eq
  rw [length_append] at hsize
  have htop : topN entries n = some top := by
    unfold topN
    dsimp only
    rw [heq, if_pos hn, length_append]
    split
    · rw [take_left' (by omega)]
    · rw [length_eq_zero_iff.mp (show rest.length = 0 by omega), append_nil]
  refine ⟨top, htop, by omega, ?_, ?_, hsorted, ?_⟩
  · exact fun e he => hcounts.mem_iff.mp (mem_append_left _ he)
  · have hall := (hcounts.map (·.domain)).nodup_iff.mpr hmap
    rw [map_append] at hall
    exact (nodup_append.mp hall).1
  · intro e he hout r hr
    exact hbest r hr e ((mem_append.mp (hcounts.mem_iff.mpr he)).resolve_left hout)

/-- Two of three domains, for an order of the map. -/
def sampleCounts : List DomainCount :=
  [⟨"a.example", 2⟩, ⟨"b.example", 7⟩, ⟨"c.example", 4⟩]

theorem sampleCounts_top : ∃ result, topN sampleCounts.reverse 2 = some result ∧
    Top sampleCounts 2 result :=
  topN_top (by decide) (reverse_perm _) (by decide)

/-- Below zero there is no result. -/
theorem negative_topN : topN sampleCounts (-1) = none := by
  decide

end Lankeeper.DNS
