import Lankeeper.Lib.Address
import Mathlib.Data.Set.Defs

/-!
# Lankeeper.Lib.Network — IP networks

Go's `net.IPNet` in normal form: the host bits are zero, and a network of IPv4
addresses mapped into IPv6 is the IPv4 network, because `Contains` and `String`
treat it as one. Two networks are nested or disjoint, so comparing each base
address with the other network decides whether they share an address
(`overlaps_eq_false_iff`). `Apart` says so of two lists of networks.
-/

namespace Lankeeper.Lib

/-- The first `len` bits of an address. -/
def maskTo (f : Family) (a len : Nat) : Nat :=
  a >>> (f.bits - len) <<< (f.bits - len)

/-- Is the prefix one of IPv4 addresses mapped into IPv6? -/
def Prefix.isMapped (p : Prefix) : Bool :=
  p.family = .ip6 ∧ 96 ≤ p.len ∧ p.addr >>> 32 = 0xffff

/-- A network: no base address has bits outside the family's or behind the mask. -/
structure Network where
  family : Family
  base : Nat
  len : Nat
  len_le : len ≤ family.bits
  base_lt : base >>> family.bits = 0
  masked : maskTo family base len = base
  unmapped : Prefix.isMapped ⟨family, base, len⟩ = false
deriving DecidableEq

namespace Network

open Text

/-- The prefix, with a mapped one as what it maps. -/
def unmap (p : Prefix) : Prefix :=
  if p.isMapped then ⟨.ip4, p.addr &&& 0xffffffff, p.len - 96⟩ else p

theorem maskTo_maskTo (f : Family) (a len : Nat) : maskTo f (maskTo f a len) len = maskTo f a len := by
  unfold maskTo
  rw [Nat.shiftLeft_shiftRight]

/-- Masking leaves the bits in front of the IPv4 address alone. -/
theorem unmap_unmapped (p : Prefix) : Prefix.isMapped
    ⟨(unmap p).family, maskTo (unmap p).family (unmap p).addr (unmap p).len, (unmap p).len⟩ =
      false := by
  unfold unmap
  split
  · rfl
  rename_i hp
  rw [← Bool.not_eq_true]
  intro hmasked
  apply hp
  simp only [Prefix.isMapped, decide_eq_true_eq] at hmasked ⊢
  obtain ⟨hfam, hlen, haddr⟩ := hmasked
  refine ⟨hfam, hlen, ?_⟩
  have hhost : 32 = (p.family.bits - p.len) + (32 - (p.family.bits - p.len)) := by
    rw [hfam]
    simp only [Family.bits]
    omega
  rw [hhost, Nat.shiftRight_add] at haddr ⊢
  rwa [maskTo, Nat.shiftLeft_shiftRight] at haddr

/-- The network of a prefix. -/
def ofPrefix (p : Prefix) : Option Network :=
  let q := unmap p
  if h : q.len ≤ q.family.bits ∧ maskTo q.family q.addr q.len >>> q.family.bits = 0 then
    some ⟨q.family, maskTo q.family q.addr q.len, q.len, h.1, h.2, maskTo_maskTo _ _ _,
      unmap_unmapped p⟩
  else none

/-- `net.ParseCIDR`, the network. -/
def parse (t : Text) : Option Network :=
  (Prefix.parseCIDR t).bind ofPrefix

/-- `Contains`. -/
def contains (n : Network) (f : Family) (a : Nat) : Bool :=
  f = n.family ∧ a >>> (n.family.bits - n.len) = n.base >>> (n.family.bits - n.len)

/-- One of the networks contains the base address of the other. -/
def overlaps (n m : Network) : Bool :=
  n.contains m.family m.base || m.contains n.family n.base

/-- The addresses of a network. -/
def addresses (n : Network) : Set (Family × Nat) :=
  {a | n.contains a.1 a.2}

variable {n m : Network} {f : Family} {a : Nat}

theorem contains_iff :
    n.contains f a ↔
      f = n.family ∧ a >>> (n.family.bits - n.len) = n.base >>> (n.family.bits - n.len) := by
  simp [contains]

theorem contains_base (n : Network) : n.contains n.family n.base :=
  contains_iff.mpr ⟨rfl, rfl⟩

/-- How many addresses the network has. -/
def size (n : Network) : Nat :=
  2 ^ (n.family.bits - n.len)

theorem size_pos (n : Network) : 0 < n.size :=
  Nat.two_pow_pos _

/-- The base address is a multiple of the size. -/
theorem size_dvd_base (n : Network) : n.size ∣ n.base := by
  have hmasked := n.masked
  rw [maskTo, Nat.shiftLeft_eq] at hmasked
  exact ⟨_, by rw [Nat.mul_comm]; exact hmasked.symm⟩

theorem base_add_size_le (n : Network) : n.base + n.size ≤ 2 ^ n.family.bits := by
  have hlt : n.base < 2 ^ n.family.bits := by
    have hbase := n.base_lt
    rw [Nat.shiftRight_eq_div_pow] at hbase
    exact (Nat.div_eq_zero_iff_lt (Nat.two_pow_pos _)).mp hbase
  -- both are multiples of the size
  obtain ⟨k, hk⟩ := n.size_dvd_base
  obtain ⟨m, hm⟩ := (Nat.pow_dvd_pow 2 (Nat.sub_le n.family.bits n.len) : n.size ∣ _)
  rw [hk, hm] at hlt ⊢
  have hkm : k < m := Nat.lt_of_mul_lt_mul_left hlt
  calc n.size * k + n.size = n.size * (k + 1) := (Nat.mul_succ _ _).symm
    _ ≤ n.size * m := Nat.mul_le_mul_left _ hkm

/-- The addresses are those from the base address on. -/
theorem contains_iff_between :
    n.contains f a ↔ f = n.family ∧ n.base ≤ a ∧ a < n.base + n.size := by
  rw [contains_iff, Nat.shiftRight_eq_div_pow, Nat.shiftRight_eq_div_pow]
  change _ ∧ a / n.size = n.base / n.size ↔ _
  obtain ⟨k, hk⟩ := n.size_dvd_base
  rw [hk, Nat.mul_div_cancel_left k n.size_pos, Nat.div_eq_iff n.size_pos, Nat.mul_comm k]
  have hpos := n.size_pos
  refine and_congr_right fun _ => ?_
  omega

theorem maskTo_ip4 (ha : a < 2 ^ 32) (len : Nat) : maskTo .ip4 a len >>> 32 = 0 := by
  rw [maskTo, Nat.shiftLeft_eq, Nat.shiftRight_eq_div_pow, Nat.shiftRight_eq_div_pow]
  exact Nat.div_eq_of_lt (Nat.lt_of_le_of_lt (Nat.div_mul_le_self _ _) ha)

/-- An IPv4 prefix has a network. -/
theorem exists_ofPrefix_ip4 {a len : Nat} (ha : a < 2 ^ 32) (hlen : len ≤ 32) :
    ∃ n, ofPrefix ⟨.ip4, a, len⟩ = some n := by
  have hunmap : unmap ⟨.ip4, a, len⟩ = ⟨.ip4, a, len⟩ := rfl
  simp only [ofPrefix, hunmap]
  rw [dif_pos ⟨hlen, maskTo_ip4 ha len⟩]
  exact ⟨_, rfl⟩

/-- The network of an IPv4 prefix. -/
theorem ofPrefix_ip4 {a len : Nat} (h : ofPrefix ⟨.ip4, a, len⟩ = some n) :
    n.family = .ip4 ∧ n.len = len ∧ n.contains .ip4 a := by
  -- an IPv4 prefix is not a mapped one
  have hunmap : unmap ⟨.ip4, a, len⟩ = ⟨.ip4, a, len⟩ := rfl
  simp only [ofPrefix, hunmap] at h
  split at h
  · cases h
    refine ⟨rfl, rfl, contains_iff.mpr ⟨rfl, ?_⟩⟩
    simp only [maskTo, Nat.shiftLeft_shiftRight]
  · cases h

/-- Shifting the host bits out, or more, makes an address of the network the base. -/
theorem shiftRight_eq_of_contains {a k : Nat}
    (h : n.contains f a) (hk : n.family.bits - n.len ≤ k) : a >>> k = n.base >>> k := by
  obtain ⟨d, rfl⟩ := Nat.exists_eq_add_of_le hk
  rw [Nat.shiftRight_add, Nat.shiftRight_add, (contains_iff.mp h).2]

/-- The shorter prefix contains the base address of the longer one, if they share an
address. -/
theorem contains_of_common (hlen : n.len ≤ m.len) (hn : n.contains f a) (hm : m.contains f a) :
    n.contains m.family m.base := by
  obtain ⟨hfn, hna⟩ := contains_iff.mp hn
  obtain ⟨hfm, hma⟩ := contains_iff.mp hm
  have hfam : m.family = n.family := hfm.symm.trans hfn
  refine contains_iff.mpr ⟨hfam, ?_⟩
  -- the host bits of `n` are those of `m` and some more
  have hsplit : n.family.bits - n.len = (m.family.bits - m.len) + (m.len - n.len) := by
    have hle := m.len_le
    rw [hfam] at hle ⊢
    omega
  rw [← hna, hsplit, Nat.shiftRight_add, Nat.shiftRight_add, hma]

theorem overlaps_eq_true_iff : n.overlaps m ↔ ∃ a, a ∈ n.addresses ∧ a ∈ m.addresses := by
  constructor
  · intro h
    rcases Bool.or_eq_true_iff.mp h with h | h
    · exact ⟨(m.family, m.base), h, m.contains_base⟩
    · exact ⟨(n.family, n.base), n.contains_base, h⟩
  · rintro ⟨a, hn, hm⟩
    rcases Nat.le_total n.len m.len with hlen | hlen
    · exact Bool.or_eq_true_iff.mpr (.inl (contains_of_common hlen hn hm))
    · exact Bool.or_eq_true_iff.mpr (.inr (contains_of_common hlen hm hn))

/-- **Overlap test.** It fails exactly for networks without a common address. -/
theorem overlaps_eq_false_iff : n.overlaps m = false ↔ ∀ a ∈ n.addresses, a ∉ m.addresses := by
  rw [← Bool.not_eq_true, overlaps_eq_true_iff]
  simp only [not_exists, not_and]

/-! ## Sets of networks -/

/-- No address is in both. -/
def Apart (a b : List Network) : Prop :=
  ∀ n ∈ a, ∀ m ∈ b, ∀ x ∈ n.addresses, x ∉ m.addresses

theorem apart_iff {a b : List Network} : Apart a b ↔ ∀ n ∈ a, ∀ m ∈ b, n.overlaps m = false := by
  simp only [Apart, overlaps_eq_false_iff]

instance (a b : List Network) : Decidable (Apart a b) :=
  decidable_of_iff _ apart_iff.symm

theorem Apart.symm {a b : List Network} (h : Apart a b) : Apart b a := by
  intro m hm n hn x hxm hxn
  exact h n hn m hm x hxn hxm

theorem apart_nil (a : List Network) : Apart a [] := by
  intro n _ m hm
  cases hm

theorem nil_apart (a : List Network) : Apart [] a :=
  (apart_nil a).symm

end Network

end Lankeeper.Lib
