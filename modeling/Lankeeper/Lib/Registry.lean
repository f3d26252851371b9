import Mathlib.Data.List.Perm.Basic

/-!
# Lankeeper.Lib.Registry — lists with one entry per key, and a limit

`put` refuses an entry whose key is taken, and every entry once the list is full; `fill`
offers a list of entries one after the other. A registry that is kept up to date entry by
entry, in whatever order its own entries stand, should agree with the one filled anew:

* `put_perm` — a new last offer is answered alike by both;
* `fill_without` — an offer that was refused can be left out;
* `fill_erase_iff` — an entry may be erased together with its offer exactly if nobody else
  offered its key and nobody was refused for want of room.
-/

namespace Lankeeper.Lib.Registry

open List

variable {α κ : Type} (key : α → κ) (limit : Nat)

/-- The key is taken. -/
def Taken (l : List α) (k : κ) : Prop :=
  ∃ b ∈ l, key b = k

variable {key} {l l' as pre post : List α} {a b : α} {k : κ}

theorem Taken.perm (h : l.Perm l') : Taken key l k ↔ Taken key l' k := by
  simp only [Taken, h.mem_iff]

theorem Taken.append_singleton : Taken key (l ++ [a]) k ↔ Taken key l k ∨ key a = k := by
  simp [Taken, or_and_right, exists_or]

variable [DecidableEq κ] (key)

instance (l : List α) (k : κ) : Decidable (Taken key l k) :=
  inferInstanceAs (Decidable (∃ b ∈ l, _))

/-- Enter `a`, unless the list is full or the key taken. -/
def put (l : List α) (a : α) : List α :=
  if limit ≤ l.length ∨ Taken key l (key a) then l else l ++ [a]

def fill (l as : List α) : List α :=
  as.foldl (put key limit) l

variable {key limit}

variable (key limit) in
theorem put_cases (l : List α) (a : α) :
    (limit ≤ l.length ∨ Taken key l (key a)) ∧ put key limit l a = l ∨
      (l.length < limit ∧ ¬ Taken key l (key a)) ∧ put key limit l a = l ++ [a] := by
  unfold put
  split
  · rename_i h
    exact .inl ⟨h, rfl⟩
  · rename_i h
    rw [not_or, Nat.not_le] at h
    exact .inr ⟨h, rfl⟩

theorem put_perm (h : l.Perm l') (a : α) : (put key limit l a).Perm (put key limit l' a) := by
  have hsame : limit ≤ l.length ∨ Taken key l (key a) ↔
      limit ≤ l'.length ∨ Taken key l' (key a) := by
    rw [h.length_eq, Taken.perm h]
  unfold put
  split
  · rename_i hrefused
    rw [if_pos (hsame.mp hrefused)]
    exact h
  · rename_i hmade
    rw [if_neg (fun hrefused => hmade (hsame.mpr hrefused))]
    exact h.append_right [a]

theorem fill_cons (l : List α) (a : α) (as : List α) :
    fill key limit l (a :: as) = fill key limit (put key limit l a) as :=
  rfl

theorem fill_append (l as bs : List α) :
    fill key limit l (as ++ bs) = fill key limit (fill key limit l as) bs :=
  foldl_append

variable (key limit) in
/-- What was there stays in front, and what is entered was offered. -/
theorem fill_eq_append (l as : List α) :
    ∃ entered, fill key limit l as = l ++ entered ∧ ∀ a ∈ entered, a ∈ as := by
  induction as generalizing l with
  | nil => exact ⟨[], by simp [fill], by simp⟩
  | cons a as ih =>
    rw [fill_cons]
    obtain ⟨entered, heq, hmem⟩ := ih (put key limit l a)
    rcases put_cases key limit l a with ⟨-, hput⟩ | ⟨-, hput⟩
    · rw [hput] at heq ⊢
      exact ⟨entered, heq, fun x hx => mem_cons_of_mem a (hmem x hx)⟩
    rw [hput] at heq ⊢
    refine ⟨a :: entered, by rw [heq]; simp, ?_⟩
    intro x hx
    rcases mem_cons.mp hx with rfl | hx
    · exact mem_cons_self
    · exact mem_cons_of_mem a (hmem x hx)

/-- What is entered has a key that was free at the start. -/
theorem not_taken_of_mem_fill (h : b ∈ fill key limit l as) (hb : b ∉ l) :
    ¬ Taken key l (key b) := by
  induction as generalizing l with
  | nil => exact absurd h hb
  | cons a as ih =>
    rw [fill_cons] at h
    rcases put_cases key limit l a with ⟨-, hput⟩ | ⟨⟨-, hfree⟩, hput⟩
    · rw [hput] at h
      exact ih h hb
    rw [hput] at h
    by_cases hba : b = a
    · rw [hba]
      exact hfree
    · intro ht
      refine ih h (by simp [hb, hba]) ?_
      exact Taken.append_singleton.mpr (.inl ht)

theorem mem_fill_of_mem (h : b ∈ l) (as : List α) : b ∈ fill key limit l as := by
  obtain ⟨entered, heq, -⟩ := fill_eq_append key limit l as
  rw [heq]
  exact mem_append_left entered h

theorem Taken.fill (h : Taken key l k) (as : List α) : Taken key (fill key limit l as) k := by
  obtain ⟨b, hb, hk⟩ := h
  exact ⟨b, mem_fill_of_mem hb as, hk⟩

theorem Taken.of_fill (h : Taken key (Registry.fill key limit l as) k) :
    Taken key l k ∨ Taken key as k := by
  obtain ⟨entered, heq, hmem⟩ := fill_eq_append key limit l as
  obtain ⟨b, hb, hk⟩ := h
  rw [heq] at hb
  rcases mem_append.mp hb with hb | hb
  · exact .inl ⟨b, hb, hk⟩
  · exact .inr ⟨b, hmem b hb, hk⟩

theorem fill_full (h : limit ≤ l.length) (as : List α) : fill key limit l as = l := by
  induction as with
  | nil => rfl
  | cons a as ih => rw [fill_cons, put, if_pos (.inl h), ih]

variable (key) in
/-- Entering stops at the limit. -/
theorem length_fill_le (h : l.length ≤ limit) (as : List α) :
    (fill key limit l as).length ≤ limit := by
  induction as generalizing l with
  | nil => exact h
  | cons a as ih =>
    rw [fill_cons]
    apply ih
    rcases put_cases key limit l a with ⟨-, hput⟩ | ⟨⟨hlt, -⟩, hput⟩
    · rw [hput]
      exact h
    · rw [hput, length_append, length_singleton]
      omega

/-- With room left at the end, nobody was refused for want of room. -/
theorem taken_of_room (h : (fill key limit l as).length < limit) (ha : a ∈ as) :
    Taken key (fill key limit l as) (key a) := by
  induction as generalizing l with
  | nil => simp at ha
  | cons b as ih =>
    rw [fill_cons] at h ⊢
    rcases mem_cons.mp ha with rfl | ha
    · apply Taken.fill
      rcases put_cases key limit l a with ⟨hfull | htaken, hput⟩ | ⟨-, hput⟩
      · -- a full list stays as it is, so there would be no room at the end
        rw [hput, fill_full hfull] at h
        omega
      · rw [hput]
        exact htaken
      · rw [hput]
        exact Taken.append_singleton.mpr (.inr rfl)
    · exact ih h ha

variable (limit) in
/-- A key that was free at the start is entered at most once. -/
theorem countP_fill_le (h : ¬ Taken key l k) (as : List α) :
    (fill key limit l as).countP (fun b => key b = k) ≤ 1 := by
  have hput : ∀ l : List α, l.countP (fun b => key b = k) ≤ 1 → ∀ a,
      (put key limit l a).countP (fun b => key b = k) ≤ 1 := by
    intro l hl a
    rcases put_cases key limit l a with ⟨-, hput⟩ | ⟨⟨-, hfree⟩, hput⟩
    · rw [hput]
      exact hl
    rw [hput, countP_append]
    by_cases hk : key a = k
    · have hnone : l.countP (fun b => key b = k) = 0 := by
        rw [countP_eq_zero]
        intro b hb hbk
        exact hfree ⟨b, hb, (of_decide_eq_true hbk).trans hk.symm⟩
      rw [hnone, countP_singleton]
      split <;> omega
    · simpa [hk] using hl
  have hstart : l.countP (fun b => key b = k) ≤ 1 := by
    have hnone : l.countP (fun b => key b = k) = 0 := by
      rw [countP_eq_zero]
      intro b hb hbk
      exact h ⟨b, hb, of_decide_eq_true hbk⟩
    omega
  clear h
  induction as generalizing l with
  | nil => exact hstart
  | cons a as ih => exact ih (hput l hstart a)

/-- A second entry with the key of the first would have been refused. -/
theorem not_taken_of_perm_cons (hfree : ¬ Taken key l (key b))
    (h : (fill key limit l as).Perm (b :: l')) : ¬ Taken key l' (key b) := by
  rintro ⟨c, hc, hk⟩
  have hle := countP_fill_le limit hfree as
  rw [h.countP_eq, countP_cons_of_pos (by simp)] at hle
  have hpos : 0 < l'.countP (fun x => key x = key b) :=
    countP_pos_iff.mpr ⟨c, hc, by simpa using hk⟩
  omega

/-- An offer that left no entry of its key can be left out. -/
theorem fill_without (h : a ∉ fill key limit l (pre ++ a :: post)) :
    fill key limit l (pre ++ post) = fill key limit l (pre ++ a :: post) := by
  rw [fill_append, fill_append, fill_cons] at *
  rcases put_cases key limit (fill key limit l pre) a with ⟨-, hput⟩ | ⟨-, hput⟩
  · rw [hput]
  · -- an entry that is made stays
    exact absurd (mem_fill_of_mem (by rw [hput]; simp) post) h

/-- Two fillings with the same offers, one of which starts with an entry more. Nobody
offers that entry's key again, and nobody is refused there for want of room. -/
theorem fill_perm_cons (h : l.Perm (a :: l')) (hother : ¬ Taken key as (key a))
    (hall : ∀ x ∈ as, Taken key (fill key limit l as) (key x)) :
    (fill key limit l as).Perm (a :: fill key limit l' as) := by
  induction as generalizing l l' with
  | nil => exact h
  | cons x as ih =>
    have hx : key x ≠ key a := fun hk => hother ⟨x, mem_cons_self, hk⟩
    have hrest : ¬ Taken key as (key a) := by
      rintro ⟨y, hy, hk⟩
      exact hother ⟨y, mem_cons_of_mem x hy, hk⟩
    have hsame : Taken key l (key x) ↔ Taken key l' (key x) := by
      rw [Taken.perm h]
      simp [Taken, hx.symm]
    have hlen : l.length = l'.length + 1 := h.length_eq
    have hallRest : ∀ y ∈ as, Taken key (fill key limit (put key limit l x) as) (key y) :=
      fun y hy => hall y (mem_cons_of_mem x hy)
    rw [fill_cons, fill_cons]
    rcases put_cases key limit l x with ⟨hrefused, hput⟩ | ⟨⟨hroom, hfree⟩, hput⟩
    · have htaken : Taken key l (key x) := by
        rcases hrefused with hfull | htaken
        · -- a full list stays as it is, so whoever is in it at the end was in it before
          have := hall x mem_cons_self
          rwa [fill_cons, hput, fill_full hfull] at this
        · exact htaken
      have hput' : put key limit l' x = l' := if_pos (.inr (hsame.mp htaken))
      rw [hput] at hallRest ⊢
      rw [hput']
      exact ih h hrest hallRest
    · have hput' : put key limit l' x = l' ++ [x] := by
        apply if_neg
        rw [not_or]
        exact ⟨by omega, fun ht => hfree (hsame.mpr ht)⟩
      rw [hput] at hallRest ⊢
      rw [hput']
      exact ih (h.append_right [x]) hrest hallRest

/-- **Erasing an entry together with its offer** gives what the remaining offers fill
exactly if nobody else offered the key and nobody was refused for want of room. -/
theorem fill_erase_iff (hfree : ¬ Taken key l (key a))
    (hb : b ∈ fill key limit l (pre ++ a :: post)) (hkey : key b = key a) :
    (fill key limit l (pre ++ a :: post)).Perm (b :: fill key limit l (pre ++ post)) ↔
      ¬ Taken key (pre ++ post) (key a) ∧
        ∀ x ∈ pre ++ post, Taken key (fill key limit l (pre ++ a :: post)) (key x) := by
  constructor
  · intro h
    have hroom : (fill key limit l (pre ++ post)).length < limit := by
      have hstart : l.length < limit := by
        by_contra hfull
        rw [fill_full (Nat.not_lt.mp hfull)] at hb
        exact hfree ⟨b, hb, hkey⟩
      have hle := length_fill_le key (Nat.le_of_lt hstart) (pre ++ a :: post)
      rw [h.length_eq, length_cons] at hle
      omega
    have hall : ∀ x ∈ pre ++ post, Taken key (fill key limit l (pre ++ post)) (key x) :=
      fun x hx => taken_of_room hroom hx
    have honce := not_taken_of_perm_cons (hkey ▸ hfree) h
    constructor
    · rintro ⟨x, hx, hk⟩
      exact honce (hkey ▸ hk ▸ hall x hx)
    · intro x hx
      obtain ⟨y, hy, hk⟩ := hall x hx
      exact ⟨y, h.mem_iff.mpr (mem_cons_of_mem b hy), hk⟩
  · rintro ⟨hother, hall⟩
    have hpre : ¬ Taken key pre (key a) := by
      rintro ⟨x, hx, hk⟩
      exact hother ⟨x, mem_append_left post hx, hk⟩
    have hpost : ¬ Taken key post (key a) := by
      rintro ⟨x, hx, hk⟩
      exact hother ⟨x, mem_append_right pre hx, hk⟩
    have hfree' : ¬ Taken key (fill key limit l pre) (key a) := by
      intro ht
      rcases ht.of_fill with ht | ht
      · exact hfree ht
      · exact hpre ht
    have hperm : (fill key limit l (pre ++ a :: post)).Perm (a :: fill key limit l (pre ++ post)) := by
      rw [fill_append, fill_append, fill_cons] at *
      rcases put_cases key limit (fill key limit l pre) a with
        ⟨-, hput⟩ | ⟨-, hput⟩
      · -- had the offer been refused, no entry would have the key
        rw [hput] at hb
        rcases Taken.of_fill ⟨b, hb, hkey⟩ with ht | ht
        · exact absurd ht hfree'
        · exact absurd ht hpost
      · rw [hput] at hall ⊢
        refine fill_perm_cons perm_append_comm hpost ?_
        exact fun x hx => hall x (mem_append_right pre hx)
    have hba : b = a := by
      rcases mem_cons.mp (hperm.mem_iff.mp hb) with h | h
      · exact h
      · exact absurd ⟨b, h, hkey⟩ (not_taken_of_perm_cons hfree hperm)
    rw [hba]
    exact hperm

end Lankeeper.Lib.Registry
