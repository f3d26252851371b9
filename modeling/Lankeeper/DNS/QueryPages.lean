import Lankeeper.Lib.Machine
import Lankeeper.Lib.Text
import Mathlib.Data.List.DropRight
import Mathlib.Tactic.SplitIfs

/-!
# Lankeeper.DNS.QueryPages — pages of the query log

`recordQuery`, `GetRecentQueries` and `ClearQueryLog` of `internal/services/dns.go`, and the
page parameter of `HandlePage` in `internal/web/handlers/dns.go`.

The buffer is a slice: behind the entries in use its array goes on with cells of zeros and of
entries from before a clear. The offset of a page is computed in 64 bits, so that a large page
number becomes any even number, below zero too, and then the slice reaches into those cells or
past them. `page_served_iff` says for which parameters the page is the right one.
-/

namespace Lankeeper.DNS

open Lib Text List Option

/-! ## Numbers of 64 bits -/

/-- The result of an operation on `int`. -/
def wrap (n : Int) : Int :=
  (n + 9223372036854775808) % 18446744073709551616 - 9223372036854775808

/-- `strconv.ParseUint` behind the first digits: a number that gets too large ends the scan. -/
def scanUint : Nat → Text → Option Nat
  | n, [] => some n
  | n, c :: r =>
    if c.isDigit then
      let m := n * 10 + (c.toNat - '0'.toNat)
      if m < 18446744073709551616 then scanUint m r else some 18446744073709551615
    else none

/-- The number that `strconv.ParseUint` returns, also along with an error. -/
def uintValue (t : Text) : Nat :=
  if t = [] then 0 else (scanUint 0 t).getD 0

/-- The number that `strconv.Atoi` returns, also along with an error. -/
def atoiValue : Text → Int
  | '-' :: r => max (-(uintValue r : Int)) (-9223372036854775808)
  | '+' :: r => min (uintValue r : Int) 9223372036854775807
  | r => min (uintValue r : Int) 9223372036854775807

theorem le_ofDigitChars (t : Text) (n : Nat) : n ≤ Nat.ofDigitChars 10 t n := by
  induction t generalizing n with
  | nil => simp
  | cons c r ih =>
    rw [Nat.ofDigitChars_cons]
    exact le_trans (by omega) (ih _)

/-- Digits are read as their number, up to the largest one. -/
theorem scanUint_digits {t : Text} (h : t.all Char.isDigit) {n : Nat}
    (hn : n < 18446744073709551616) :
    scanUint n t = some (min (Nat.ofDigitChars 10 t n) 18446744073709551615) := by
  induction t generalizing n with
  | nil => simp only [scanUint, Nat.ofDigitChars_nil, some.injEq]; omega
  | cons c r ih =>
    rw [all_cons, Bool.and_eq_true] at h
    simp only [scanUint, h.1, if_true, Nat.ofDigitChars_cons]
    split_ifs with hm
    · rw [ih h.2 hm, Nat.mul_comm]
    · have hle := le_ofDigitChars r (10 * n + (c.toNat - '0'.toNat))
      rw [Nat.min_eq_right (by omega)]

/-- Without digits it is a syntax error, or too large by then. -/
theorem scanUint_other {t : Text} (h : ¬ t.all Char.isDigit) (n : Nat) :
    scanUint n t = none ∨ scanUint n t = some 18446744073709551615 := by
  induction t generalizing n with
  | nil => exact absurd rfl h
  | cons c r ih =>
    by_cases hc : c.isDigit
    · simp only [scanUint, hc, if_true]
      split_ifs
      · exact ih (fun hr => h (by rw [all_cons, hc, hr]; rfl)) _
      · exact .inr rfl
    · exact .inl (by simp [scanUint, hc])

theorem uintValue_cases (t : Text) :
    (∃ n, readNat t = some n ∧ uintValue t = min n 18446744073709551615) ∨
      readNat t = none ∧ (uintValue t = 0 ∨ uintValue t = 18446744073709551615) := by
  unfold readNat uintValue
  by_cases hne : t = []
  · exact .inr ⟨by simp [hne], .inl (if_pos hne)⟩
  by_cases hd : t.all Char.isDigit
  · refine .inl ⟨_, if_pos ⟨hne, hd⟩, ?_⟩
    rw [if_neg hne, scanUint_digits hd (by decide), getD_some]
  · refine .inr ⟨if_neg fun h => hd h.2, ?_⟩
    rw [if_neg hne]
    rcases scanUint_other hd 0 with h | h <;> simp [h]

/-- What `Atoi` returns for a number is the number, or the nearest one of 64 bits; for other
texts it is 0 or one of the extremes. -/
theorem atoiValue_cases (t : Text) :
    (∃ n, readInt t = some n ∧ atoiValue t = max (min n 9223372036854775807) (-9223372036854775808)) ∨
      readInt t = none ∧ (atoiValue t ≤ 0 ∨ atoiValue t = 9223372036854775807) := by
  unfold atoiValue
  split
  · rename_i r
    rcases uintValue_cases r with ⟨n, hn, hv⟩ | ⟨hn, hv⟩
    · exact .inl ⟨-(n : Int), by rw [readInt, hn]; rfl, by omega⟩
    · exact .inr ⟨by rw [readInt, hn]; rfl, by omega⟩
  · rename_i r
    rcases uintValue_cases r with ⟨n, hn, hv⟩ | ⟨hn, hv⟩
    · exact .inl ⟨n, by rw [readInt, hn]; rfl, by omega⟩
    · exact .inr ⟨by rw [readInt, hn]; rfl, by omega⟩
  · rename_i hminus hplus
    rcases uintValue_cases t with ⟨n, hn, hv⟩ | ⟨hn, hv⟩
    · exact .inl ⟨n, by rw [readInt.eq_3 t hminus hplus, hn]; rfl, by omega⟩
    · exact .inr ⟨by rw [readInt.eq_3 t hminus hplus, hn]; rfl, by omega⟩

/-! ## The buffer -/

def bufSize : Nat := 10000

/-- An entry, with its number among all that are recorded. -/
abbrev Entry (ε : Type) := Nat × ε

structure State (ε : Type) where
  /-- `queryBuf`, the oldest entry first -/
  live : List (Entry ε) := []
  /-- the rest of its array -/
  spare : List (Option (Entry ε)) := List.replicate bufSize none
  /-- every entry recorded since the last clear -/
  since : List (Entry ε) := []
  /-- how many were recorded in all -/
  count : Nat := 0

inductive Event (ε : Type)
  /-- `room` is what `append` gets beyond the entries if it moves them to a new array -/
  | record (entry : ε) (room : Nat)
  | clear

variable {ε : Type}

/-- `append(s.queryBuf, x)`: the array behind the slice. -/
def spareAfter (room : Nat) : List (Option (Entry ε)) → List (Option (Entry ε))
  | [] => List.replicate room none
  | _ :: spare => spare

/-- `recordQuery`, of a line that parses. -/
def recordQuery (entry : ε) (room : Nat) (s : State ε) : State ε :=
  { live := (if bufSize ≤ s.live.length then s.live.tail else s.live) ++ [(s.count, entry)]
    spare := spareAfter room s.spare
    since := s.since ++ [(s.count, entry)]
    count := s.count + 1 }

/-- `ClearQueryLog`, the buffer. -/
def clearQueryLog (s : State ε) : State ε :=
  { s with live := [], spare := s.live.map some ++ s.spare, since := [] }

def queryLog : Machine (State ε) (Event ε) where
  Init s := s = {}
  step s
    | .record entry room => recordQuery entry room s
    | .clear => clearQueryLog s

/-- `GetRecentQueries`, unless it panics. -/
def getRecentQueries (limit offset : Int) (s : State ε) : Option (List (Option (Entry ε))) :=
  let cells := s.live.map some ++ s.spare
  if s.live.length ≤ offset then some []
  else
    let last := wrap (s.live.length - offset)
    let first := max (wrap (last - limit)) 0
    -- out of range, `make` or the slice expression panics
    if first ≤ last ∧ last ≤ cells.length then
      some ((cells.take last.toNat).drop first.toNat).reverse
    else none

/-- The offset that `HandlePage` computes, where no parameter is an empty one. -/
def pageOffset (page : Text) : Int :=
  if page ≠ [] ∧ 0 < atoiValue page then wrap ((atoiValue page - 1) * 50) else 0

/-- The page that is asked for. -/
def pageNumber (page : Text) : Nat :=
  match readInt page with
  | some n => if 0 < n then n.toNat else 1
  | none => 1

/-- The entries of a page, the newest first. -/
def block (p : Nat) (s : State ε) : List (Entry ε) :=
  (s.live.reverse.drop ((p - 1) * 50)).take 50

/-- The buffer holds the latest entries, and the page is served. -/
def Served (page : Text) (s : State ε) : Prop :=
  s.live = s.since.rtake bufSize ∧
    getRecentQueries 50 (pageOffset page) s = some ((block (pageNumber page) s).map some)

/-! ## Over a run -/

/-- What holds of the buffer. -/
structure Inv (s : State ε) : Prop where
  live : s.live = s.since.rtake bufSize
  older : ∀ x, x ∈ s.live ∨ some x ∈ s.spare → x.1 < s.count
  apart : ∀ x ∈ s.live, some x ∉ s.spare

theorem mem_spareAfter {room : Nat} {spare : List (Option (Entry ε))} {x : Entry ε}
    (h : some x ∈ spareAfter room spare) : some x ∈ spare := by
  cases spare with
  | nil => simp [spareAfter] at h
  | cons y spare => exact mem_cons_of_mem y h

/-- The latest `n` entries, after one more. -/
theorem rtake_concat {α : Type} (l : List α) (x : α) {n : Nat} (hn : 0 < n) :
    (l ++ [x]).rtake n =
      (if n ≤ (l.rtake n).length then (l.rtake n).tail else l.rtake n) ++ [x] := by
  obtain ⟨m, rfl⟩ := Nat.exists_eq_add_of_lt hn
  rw [Nat.zero_add, rtake_concat_succ]
  simp only [List.rtake, length_drop, tail_drop]
  split_ifs with hlen
  · rw [show l.length - (m + 1) + 1 = l.length - m by omega]
  · rw [show l.length - (m + 1) = l.length - m by omega]

theorem Inv.record {s : State ε} (h : Inv s) (entry : ε) (room : Nat) :
    Inv (recordQuery entry room s) := by
  have hsub : ∀ x ∈ (recordQuery entry room s).live, x ∈ s.live ∨ x = (s.count, entry) := by
    intro x hx
    rcases mem_append.mp hx with hx | hx
    · split_ifs at hx
      · exact .inl (mem_of_mem_tail hx)
      · exact .inl hx
    · exact .inr (mem_singleton.mp hx)
  refine ⟨?_, ?_, ?_⟩
  · rw [recordQuery, rtake_concat _ _ (by decide), ← h.live]
  · rintro x (hx | hx)
    · rcases hsub x hx with hx | rfl
      · exact Nat.lt_succ_of_lt (h.older x (.inl hx))
      · exact Nat.lt_succ_self _
    · exact Nat.lt_succ_of_lt (h.older x (.inr (mem_spareAfter hx)))
  · intro x hx hspare
    have hold := mem_spareAfter hspare
    rcases hsub x hx with hx | rfl
    · exact h.apart x hx hold
    · exact absurd (h.older _ (.inr hold)) (Nat.lt_irrefl _)

theorem inv_run (es : List (Event ε)) : Inv (queryLog.run {} es) := by
  refine Machine.run_invariant (P := Inv) (fun s e h => ?_) ⟨by simp, ?_, fun x hx => by cases hx⟩ es
  · cases e with
    | record entry room => exact h.record entry room
    | clear =>
      refine ⟨rtake_nil _ |>.symm, ?_, fun x hx => by cases hx⟩
      rintro x (hx | hx)
      · cases hx
      · rcases mem_append.mp hx with hx | hx
        · obtain ⟨y, hy, heq⟩ := mem_map.mp hx
          exact h.older x (.inl (some.inj heq ▸ hy))
        · exact h.older x (.inr hx)
  · rintro x (hx | hx)
    · cases hx
    · simp at hx

/-! ## Pages -/

section Pages

variable {s : State ε} {offset : Int} (hlen : s.live.length ≤ bufSize)

include hlen

/-- An offset into the buffer, or past its end. -/
theorem getRecentQueries_of_nonneg (h : 0 ≤ offset) :
    getRecentQueries 50 offset s =
      some (((s.live.reverse.drop offset.toNat).take 50).map some) := by
  unfold bufSize at hlen
  unfold getRecentQueries
  split_ifs with hpast
  · rw [drop_eq_nil_of_le (by rw [length_reverse]; omega)]
    rfl
  have hlast : wrap (s.live.length - offset) = s.live.length - offset := by
    unfold wrap
    omega
  have hfirst : wrap (s.live.length - offset - 50) = s.live.length - offset - 50 := by
    unfold wrap
    omega
  simp only [hlast, hfirst]
  rw [if_pos (by simp only [length_append, length_map]; omega)]
  rw [take_append_of_le_length (by rw [length_map]; omega), ← map_take,
    ← map_drop, ← map_reverse, drop_reverse, take_reverse, length_take]
  rw [show (s.live.length - offset).toNat = s.live.length - offset.toNat by omega]
  congr 4
  omega

/-- A smaller offset than the number of entries never gives an empty page. -/
theorem getRecentQueries_ne_nil (hmin : -9223372036854775808 ≤ offset)
    (h : offset < s.live.length) : getRecentQueries 50 offset s ≠ some [] := by
  unfold bufSize at hlen
  unfold getRecentQueries
  rw [if_neg (by omega)]
  dsimp only
  split_ifs with hrange
  · intro hnil
    have hlength := congrArg List.length (some.inj hnil)
    simp only [length_reverse, length_drop, length_take, length_nil] at hlength
    unfold wrap at hrange hlength
    omega
  · nofun

/-- Before the buffer, what is returned is no entry of it. -/
theorem getRecentQueries_behind {l : List (Option (Entry ε))}
    (h : getRecentQueries 50 (-100) s = some l) : ∀ x ∈ l, x ∈ s.spare := by
  unfold bufSize at hlen
  unfold getRecentQueries at h
  rw [if_neg (by omega)] at h
  dsimp only at h
  split_ifs at h
  obtain rfl := some.inj h
  have hfirst : s.live.length ≤ (max (wrap (wrap (s.live.length - -100) - 50)) 0).toNat := by
    unfold wrap
    omega
  intro x hx
  rw [mem_reverse, drop_take, drop_append,
    drop_eq_nil_of_le (by rwa [length_map]), nil_append] at hx
  exact mem_of_mem_drop (mem_of_mem_take hx)

end Pages

/-- An offset that wraps is one of 64 bits. -/
theorem pageOffset_ge (page : Text) : -9223372036854775808 ≤ pageOffset page := by
  unfold pageOffset wrap
  split_ifs <;> omega

/-- The offset is the one of the page, or the page is past any buffer, or the text was too large a
number before it went wrong. -/
theorem pageOffset_cases (page : Text) :
    pageOffset page = ((pageNumber page - 1) * 50 : Nat) ∨
      (bufSize ≤ (pageNumber page - 1) * 50) ∨ pageOffset page = -100 := by
  unfold pageOffset pageNumber wrap bufSize
  rcases atoiValue_cases page with ⟨n, hn, hv⟩ | ⟨hn, hv⟩
  · have hne : page ≠ [] := by
      rintro rfl
      simp [readInt, readNat] at hn
    rw [hn]
    dsimp only
    by_cases hpos : 0 < n
    · rw [if_pos ⟨hne, by omega⟩, if_pos hpos]
      omega
    · rw [if_neg (by omega), if_neg hpos]
      exact .inl rfl
  · rw [hn]
    dsimp only
    split_ifs <;> omega

/-- The last page whose offset has 64 bits. -/
def lastPage : Int := 184467440737095517

theorem wrap_eq {x : Int} (h : 0 ≤ x) (hx : x ≤ 9223372036854775807) : wrap x = x := by
  unfold wrap
  omega

theorem wrap_le (x : Int) : wrap x ≤ 9223372036854775807 := by
  unfold wrap
  omega

theorem pageOffset_eq_iff (page : Text) :
    pageOffset page = ((pageNumber page - 1) * 50 : Nat) ↔ atoiValue page ≤ lastPage := by
  have hwrap := wrap_le ((atoiValue page - 1) * 50)
  by_cases hpos : page ≠ [] ∧ 0 < atoiValue page
  · rw [pageOffset, if_pos hpos]
    rcases atoiValue_cases page with ⟨n, hn, hv⟩ | ⟨hn, hv⟩
    · rw [pageNumber, hn]
      dsimp only
      rw [if_pos (by omega : 0 < n)]
      by_cases hle : atoiValue page ≤ lastPage
      · unfold lastPage at hle
        refine iff_of_true ?_ hle
        rw [wrap_eq (by omega) (by omega)]
        omega
      · refine iff_of_false ?_ hle
        unfold lastPage at hle
        omega
    · -- no number, taken for the largest one
      rw [pageNumber, hn, hv.resolve_left (by omega)]
      decide
  · have hle : atoiValue page ≤ 0 := by
      by_cases hne : page = []
      · rw [hne]
        decide
      · exact Int.not_lt.mp fun h => hpos ⟨hne, h⟩
    have hone : pageNumber page = 1 := by
      rcases atoiValue_cases page with ⟨n, hn, hv⟩ | ⟨hn, -⟩
      · rw [pageNumber, hn]
        exact if_neg (by omega)
      · rw [pageNumber, hn]
    rw [pageOffset, if_neg hpos, hone]
    exact iff_of_true rfl (by unfold lastPage; omega)

/-- **Pages.** After any history, the page is the right one exactly if the number that `Atoi`
returns is no later page than the last one whose offset has 64 bits, or the offset wraps to one past
the entries and the page is past them too. -/
theorem page_served_iff (es : List (Event ε)) (page : Text) :
    Served page (queryLog.run {} es) ↔
      atoiValue page ≤ lastPage ∨
        ((queryLog.run {} es).live.length ≤ pageOffset page ∧
          (queryLog.run {} es).live.length ≤ (pageNumber page - 1) * 50) := by
  have hinv := inv_run es
  generalize queryLog.run {} es = s at hinv ⊢
  have hlen : s.live.length ≤ bufSize := by
    rw [hinv.live, List.rtake, length_drop]
    omega
  rw [Served, and_iff_right hinv.live, ← pageOffset_eq_iff]
  constructor
  · intro hserved
    by_cases hpast : (s.live.length : Int) ≤ pageOffset page
    · -- nothing is returned, so nothing was asked for
      rw [getRecentQueries, if_pos hpast] at hserved
      have hnil := congrArg List.length (some.inj hserved)
      simp only [block, length_nil, length_map, length_take, length_drop, length_reverse] at hnil
      exact .inr ⟨hpast, by omega⟩
    · have hsome := getRecentQueries_ne_nil hlen (pageOffset_ge page) (by omega)
      have hblock : block (pageNumber page) s ≠ [] := by
        intro hnil
        rw [hserved, hnil] at hsome
        exact hsome rfl
      rcases pageOffset_cases page with heq | hfar | hneg
      · exact .inl heq
      · refine absurd (?_ : block (pageNumber page) s = []) hblock
        rw [block, drop_eq_nil_of_le (by rw [length_reverse]; omega)]
        rfl
      · rw [hneg] at hserved
        obtain ⟨x, hx⟩ := exists_mem_of_ne_nil _ hblock
        have hspare := getRecentQueries_behind hlen hserved (some x) (mem_map_of_mem hx)
        have hlive := mem_reverse.mp (mem_of_mem_drop (mem_of_mem_take hx))
        exact absurd hspare (hinv.apart x hlive)
  · rintro (heq | ⟨hpast, hfar⟩)
    · rw [heq, getRecentQueries_of_nonneg hlen (by omega), Int.toNat_natCast]
      rfl
    · rw [getRecentQueries, if_pos hpast, block, drop_eq_nil_of_le (by rw [length_reverse]; omega)]
      rfl

/-- With an empty buffer, the last page that there is a number for shows zeros, and one below it
panics. -/
theorem large_pages :
    (getRecentQueries 50 (pageOffset "9223372036854775807") ({} : State Unit) =
        some (List.replicate 50 none) ∧
      ¬ Served "9223372036854775807" ({} : State Unit)) ∧
    (getRecentQueries 50 (pageOffset "9223372036854775409") ({} : State Unit) = none ∧
      ¬ Served "9223372036854775409" ({} : State Unit)) := by
  have hzeros : getRecentQueries 50 (pageOffset "9223372036854775807") ({} : State Unit) =
      some (List.replicate 50 none) := by decide +kernel
  have hpanic : getRecentQueries 50 (pageOffset "9223372036854775409") ({} : State Unit) = none := by
    decide +kernel
  refine ⟨⟨hzeros, fun h => ?_⟩, hpanic, fun h => ?_⟩
  · cases congrArg (Option.map List.length) (hzeros.symm.trans h.2)
  · cases hpanic.symm.trans h.2

end Lankeeper.DNS
