import Mathlib.Data.List.Forall2

/-!
# Lankeeper.Lib.Basic — early returns and first matches

Go code that checks one thing after the other and returns at the first error is a chain
of binds in `Except`. `bind_ok_iff` takes a chain that came to its end apart.

A loop that changes the first entry of a list with some property is `find?` with
`findIdx` and `set`, or `eraseP`. `exists_split_of_find` says what it leaves alone.

A reader that gives up at the first piece it cannot read is `mapM` in `Option`.
`mapM_eq_some_iff` compares what it read with the pieces, as `List.Forall₂` does.
-/

namespace Lankeeper.Lib

open List Option

variable {ε α β : Type} {x : Except ε α} {f : α → Option β} {as : List α} {bs : List β}

/-- `if b { return err }`. -/
def failIf (b : Prop) [Decidable b] (e : ε) : Except ε Unit :=
  if b then .error e else .ok ()

/-- A check that applies if `b`. -/
def checkIf (b : Prop) [Decidable b] (check : Except ε Unit) : Except ε Unit :=
  if b then check else .ok ()

theorem failIf_ok_iff {b : Prop} [Decidable b] {e : ε} {u : Unit} : failIf b e = .ok u ↔ ¬ b := by
  unfold failIf
  split <;> simp [*]

theorem failIf_ok {b : Prop} [Decidable b] {e : ε} (h : failIf b e = .ok ()) : ¬ b :=
  failIf_ok_iff.mp h

theorem bind_ok_iff {f : α → Except ε β} {b : β} :
    (x >>= f) = .ok b ↔ ∃ a, x = .ok a ∧ f a = .ok b := by
  cases x <;> simp [bind, Except.bind]

theorem exists_of_bind_ok {f : α → Except ε β} {b : β}
    (h : (x >>= f) = .ok b) : ∃ a, x = .ok a ∧ f a = .ok b :=
  bind_ok_iff.mp h

theorem map_ok_iff {f : α → β} {b : β} : x.map f = .ok b ↔ ∃ a, x = .ok a ∧ f a = b := by
  cases x <;> simp [Except.map]

theorem ite_error_ok_iff {p : Prop} [Decidable p] {e : ε} {a : α} :
    (if p then .error e else x) = .ok a ↔ ¬ p ∧ x = .ok a := by
  split <;> simp [*]

theorem mapError_ok_iff {ε' : Type} {f : ε → ε'} {a : α} : x.mapError f = .ok a ↔ x = .ok a := by
  cases x <;> simp [Except.mapError]

theorem of_mapError_ok {ε' : Type} {f : ε → ε'} {a : α} (h : x.mapError f = .ok a) : x = .ok a :=
  mapError_ok_iff.mp h

/-- A call that failed has left the state as it was. -/
def Undone {σ : Type} (r : Except ε α × σ) (s : σ) : Prop :=
  ∀ e, r.1 = .error e → r.2 = s

theorem undone_iff {σ : Type} {r : Except ε α} {s s' : σ} :
    Undone (r, s') s ↔ (∃ a, r = .ok a) ∨ s' = s := by
  cases r with
  | error e => simp [Undone]
  | ok a => simp [Undone]

theorem exists_split_of_find {p : α → Bool} {l : List α} {x : α} (h : l.find? p = some x) :
    ∃ front back, l = front ++ x :: back ∧ (∀ y ∈ front, ¬ p y) ∧
      l.eraseP p = front ++ back ∧ ∀ y, l.set (l.findIdx p) y = front ++ y :: back := by
  obtain ⟨hx, front, back, rfl, hfront⟩ := List.find?_eq_some_iff_append.mp h
  have hnone : ∀ y ∈ front, ¬ p y := by
    intro y hy
    simpa using hfront y hy
  refine ⟨front, back, rfl, hnone, ?_, ?_⟩
  · rw [eraseP_append_right _ hnone, eraseP_cons_of_pos hx]
  intro y
  have hidx : (front ++ x :: back).findIdx p = front.length := by
    have hlen : front.findIdx p = front.length := findIdx_eq_length.mpr fun y hy => by
      simpa using hfront y hy
    rw [findIdx_append, hlen, if_neg (Nat.lt_irrefl _), findIdx_cons, hx]
    simp
  rw [hidx, set_append_right _ _ (Nat.le_refl _), Nat.sub_self, set_cons_zero]

/-- A loop that skips entries. -/
theorem flatMap_if_eq_map_filter (p : α → Bool) (f : α → β) (l : List α) :
    (l.flatMap fun a => if p a then [f a] else []) = (l.filter p).map f := by
  induction l with
  | nil => rfl
  | cons a l ih =>
    rw [flatMap_cons, filter_cons, ih]
    split <;> rfl

/-! ## Lists read piece by piece -/

theorem mapM_eq_some_iff : as.mapM f = some bs ↔ List.Forall₂ (fun a b => f a = some b) as bs := by
  induction as generalizing bs with
  | nil => simp [eq_comm]
  | cons a as ih =>
    rw [mapM_cons]
    constructor
    · intro h
      obtain ⟨b, hb, h⟩ := bind_eq_some_iff.mp h
      obtain ⟨bs', hbs, h⟩ := bind_eq_some_iff.mp h
      obtain rfl : b :: bs' = bs := some.inj h
      exact .cons hb (ih.mp hbs)
    · rintro (_ | ⟨hb, hbs⟩)
      rw [hb, ih.mpr hbs]
      rfl

theorem exists_mapM_iff : (∃ bs, as.mapM f = some bs) ↔ ∀ a ∈ as, (f a).isSome := by
  constructor
  · rintro ⟨bs, h⟩
    have hall := mapM_eq_some_iff.mp h
    clear h
    induction hall with
    | nil => simp
    | cons hb _ ih => exact forall_mem_cons.mpr ⟨by rw [hb]; rfl, ih⟩
  · intro h
    induction as with
    | nil => exact ⟨[], rfl⟩
    | cons a as ih =>
      obtain ⟨ha, has⟩ := forall_mem_cons.mp h
      obtain ⟨b, hb⟩ := isSome_iff_exists.mp ha
      obtain ⟨bs, hbs⟩ := ih has
      exact ⟨b :: bs, mapM_eq_some_iff.mpr (.cons hb (mapM_eq_some_iff.mp hbs))⟩

/-- What was read comes from a piece. -/
theorem exists_of_mem_mapM
    (h : as.mapM f = some bs) {b : β} (hb : b ∈ bs) : ∃ a ∈ as, f a = some b := by
  have hall := mapM_eq_some_iff.mp h
  clear h
  induction hall with
  | nil => cases hb
  | cons hfirst _ ih =>
    rcases mem_cons.mp hb with rfl | hb
    · exact ⟨_, mem_cons_self, hfirst⟩
    · obtain ⟨a, ha, hab⟩ := ih hb
      exact ⟨a, mem_cons_of_mem _ ha, hab⟩

/-- A search in what was read is a search in the pieces. -/
theorem findSome_of_mapM {γ : Type} (h : as.mapM f = some bs) (g : β → Option γ) :
    bs.findSome? g = as.findSome? fun a => (f a).bind g := by
  have hall := mapM_eq_some_iff.mp h
  clear h
  induction hall with
  | nil => rfl
  | cons hb _ ih => simp only [findSome?_cons, hb, bind_some, ih]

/-! ## Lists compared entry by entry -/

variable {R : α → β → Prop}

theorem exists_right_of_mem (h : List.Forall₂ R as bs) {a : α} (ha : a ∈ as) : ∃ b ∈ bs, R a b := by
  induction h with
  | nil => cases ha
  | @cons a' b as bs hab _ ih =>
    rcases mem_cons.mp ha with rfl | ha
    · exact ⟨b, mem_cons_self .., hab⟩
    · obtain ⟨c, hc, hr⟩ := ih ha
      exact ⟨c, mem_cons_of_mem _ hc, hr⟩

/-- What undoes the relation entry by entry gives the first list back. -/
theorem map_eq_of_forall₂ {f : β → α} (h : List.Forall₂ R as bs)
    (hf : ∀ a ∈ as, ∀ b ∈ bs, R a b → f b = a) : bs.map f = as := by
  induction h with
  | nil => rfl
  | cons hab _ ih =>
    have hhead := hf _ (mem_cons_self ..) _ (mem_cons_self ..) hab
    have htail := ih fun a ha b hb => hf a (mem_cons_of_mem _ ha) b (mem_cons_of_mem _ hb)
    rw [map_cons, hhead, htail]

end Lankeeper.Lib
