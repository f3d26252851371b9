import Lankeeper.Lib.Basic
import Lankeeper.Lib.Text
import Mathlib.Algebra.Group.Nat.Defs
import Mathlib.Tactic.Common

/-!
# Lankeeper.Lib.Address — address and prefix literals

What Go's `net.ParseIP` and `net.ParseCIDR` accept, and which addresses the
literal covers. An IPv4 literal has four decimal octets without leading zeros. An
IPv6 literal has eight groups of one to four hexadecimal digits, where `::` stands
for one or more groups of zeros and the last two groups may be written as an IPv4
literal. Zones are refused.

The one fact about the syntax that the other modules use is `Prefix.parse_chars`:
a literal has no character outside a small set.
-/

namespace Lankeeper.Lib

open List Option

/-! ## Literals -/

inductive Family
  | ip4 | ip6
deriving DecidableEq

def Family.bits : Family → Nat
  | .ip4 => 32
  | .ip6 => 128

namespace Address

open Text

def octet (t : Text) : Option Nat :=
  if t.length ≤ 3 ∧ (t.head? = some '0' → t.length = 1) then
    (readNat t).bind fun n => if n ≤ 255 then some n else none
  else none

def parseIPv4 (t : Text) : Option Nat :=
  match (t.splitOn '.').mapM octet with
  | some [a, b, c, d] => some (((a * 256 + b) * 256 + c) * 256 + d)
  | _ => none

def hexDigit (c : Char) : Option Nat :=
  if c.isDigit then some (c.toNat - '0'.toNat)
  else if 'a' ≤ c ∧ c ≤ 'f' then some (c.toNat - 'a'.toNat + 10)
  else if 'A' ≤ c ∧ c ≤ 'F' then some (c.toNat - 'A'.toNat + 10)
  else none

def hexGroup (t : Text) : Option Nat :=
  if 1 ≤ t.length ∧ t.length ≤ 4 then
    (t.mapM hexDigit).map fun ds => ds.foldl (fun n d => n * 16 + d) 0
  else none

/-- The groups between the colons; the last may be an IPv4 literal. -/
def groups : List Text → Option (List Nat)
  | [] => some []
  | [g] =>
    match parseIPv4 g with
    | some a => some [a / 65536, a % 65536]
    | none => (hexGroup g).map ([·])
  | g :: gs => (hexGroup g).bind fun x => (groups gs).map (x :: ·)

/-- The text on both sides of the first `::`. -/
def cutEllipsis : Text → Option (Text × Text)
  | [] => none
  | [_] => none
  | c :: d :: r =>
    if c = ':' ∧ d = ':' then some ([], r) else (cutEllipsis (d :: r)).map fun p => (c :: p.1, p.2)

def valueOf (gs : List Nat) : Nat :=
  gs.foldl (fun n g => n * 65536 + g) 0

/-- The groups of one side of a `::`. -/
def sideGroups (read : List Text → Option (List Nat)) (t : Text) : Option (List Nat) :=
  if t = [] then some [] else read (t.splitOn ':')

def parseIPv6 (t : Text) : Option Nat :=
  match cutEllipsis t with
  | none => (groups (t.splitOn ':')).bind fun gs => if gs.length = 8 then some (valueOf gs) else none
  | some (l, r) =>
    (sideGroups (List.mapM hexGroup) l).bind fun a => (sideGroups groups r).bind fun b =>
      if a.length + b.length ≤ 7 then
        some (valueOf (a ++ List.replicate (8 - (a.length + b.length)) 0 ++ b))
      else none

/-- `net.ParseIP`: the first separator decides the family. -/
def parseIP (t : Text) : Option (Family × Nat) :=
  match t.find? fun c => c = '.' ∨ c = ':' ∨ c = '%' with
  | some '.' => (parseIPv4 t).map (.ip4, ·)
  | some ':' => (parseIPv6 t).map (.ip6, ·)
  | _ => none

/-- `ip.To4() == nil`: neither an IPv4 address nor one mapped into IPv6. -/
def onlyIPv6 (a : Family × Nat) : Bool :=
  a.1 = .ip6 ∧ a.2 >>> 32 ≠ 0xffff

/-- The address `ip.To4()` gives. -/
def asIPv4 (a : Family × Nat) : Option Nat :=
  if onlyIPv6 a then none else some (a.2 &&& 0xffffffff)

end Address

/-- The addresses that agree with `addr` in the first `len` bits. -/
structure Prefix where
  family : Family
  addr : Nat
  len : Nat
deriving DecidableEq

namespace Prefix

open Text Address

def contains (p : Prefix) (a : Nat) : Bool :=
  a >>> (p.family.bits - p.len) == p.addr >>> (p.family.bits - p.len)

/-- `strings.Cut` at a slash. -/
def cutSlash : Text → Option (Text × Text)
  | [] => none
  | c :: r => if c = '/' then some ([], r) else (cutSlash r).map fun p => (c :: p.1, p.2)

/-- `net.ParseCIDR`. -/
def parseCIDR (t : Text) : Option Prefix :=
  (cutSlash t).bind fun p => (parseIP p.1).bind fun a => (readNat p.2).bind fun n =>
    if n ≤ a.1.bits then some ⟨a.1, a.2, n⟩ else none

/-- A prefix, or an address that stands for itself. -/
def parse (t : Text) : Option Prefix :=
  match parseCIDR t with
  | some p => some p
  | none => (parseIP t).map fun a => ⟨a.1, a.2, a.1.bits⟩

end Prefix

/-! ## Characters of literals -/

namespace Address

open Text

/-- The characters of an address literal. -/
def isAddressChar (c : Char) : Bool :=
  (hexDigit c).isSome || c == '.' || c == ':' || c == '/'

variable {c : Char} {t : Text} {n a : Nat}

/-- A digit is a hexadecimal digit. -/
theorem isAddressChar_of_isDigit (h : c.isDigit) : isAddressChar c := by
  simp [isAddressChar, hexDigit, h]

theorem isAddressChar_toNat_le (h : isAddressChar c) : c.toNat ≤ 102 := by
  have hle : ∀ d : Char, c ≤ d → c.toNat ≤ d.toNat := fun d hd => UInt32.le_iff_toNat_le.mp hd
  simp only [isAddressChar, hexDigit, Bool.or_eq_true, beq_iff_eq] at h
  rcases h with ((h | rfl) | rfl) | rfl
  · split_ifs at h with hd ha hA
    · exact Nat.le_trans (Char.isDigit_iff_toNat.mp hd).2 (by decide)
    · exact hle 'f' ha.2
    · exact Nat.le_trans (hle 'F' hA.2) (by decide)
    · cases h
  all_goals decide

/-- White space is no part of a literal. -/
theorem not_isSpace_of_isAddressChar (h : isAddressChar c) : ¬ isSpace c := by
  have hall : ∀ n < 103, isAddressChar (Char.ofNat n) → ¬ isSpace (Char.ofNat n) := by
    decide +kernel
  have hc := isAddressChar_toNat_le h
  rw [← Char.ofNat_toNat c] at h ⊢
  exact hall c.toNat (by omega) h

theorem readNat_digits (h : readNat t = some n) : ∀ c ∈ t, c.isDigit := by
  unfold readNat at h
  split at h
  · rename_i hd
    exact all_eq_true.mp hd.2
  · cases h

theorem octet_digits (h : octet t = some n) : ∀ c ∈ t, c.isDigit := by
  unfold octet at h
  split at h
  · obtain ⟨m, hm, -⟩ := bind_eq_some_iff.mp h
    exact readNat_digits hm
  · cases h

/-- What a reader demands of its pieces holds of every piece of a list it reads. -/
theorem forall_of_mapM {α β : Type} {f : α → Option β} {P : α → Prop}
    (hf : ∀ a b, f a = some b → P a) {as : List α} {bs : List β} (h : as.mapM f = some bs) :
    ∀ a ∈ as, P a := by
  intro a ha
  obtain ⟨b, hb⟩ := isSome_iff_exists.mp (exists_mapM_iff.mp ⟨bs, h⟩ a ha)
  exact hf a b hb

theorem parseIPv4_chars (h : parseIPv4 t = some a) : ∀ c ∈ t, isAddressChar c := by
  unfold parseIPv4 at h
  split at h
  · rename_i hm
    exact forall_of_splitOn rfl (forall_of_mapM
      (fun _ _ hn c hc => isAddressChar_of_isDigit (octet_digits hn c hc)) hm)
  · cases h

theorem octet_le (h : octet t = some n) : n ≤ 255 := by
  unfold octet at h
  split at h
  · obtain ⟨m, -, hm⟩ := bind_eq_some_iff.mp h
    split_ifs at hm with hle
    rwa [← some.inj hm]
  · cases h

theorem parseIPv4_lt (h : parseIPv4 t = some a) : a < 2 ^ 32 := by
  unfold parseIPv4 at h
  split at h
  · rename_i x y z w hm
    have hle : ∀ n ∈ [x, y, z, w], n ≤ 255 := by
      intro n hn
      obtain ⟨piece, -, hpiece⟩ := exists_of_mem_mapM hm hn
      exact octet_le hpiece
    simp only [forall_mem_cons] at hle
    rw [← some.inj h]
    omega
  · cases h

theorem hexGroup_chars (h : hexGroup t = some n) : ∀ c ∈ t, isAddressChar c := by
  unfold hexGroup at h
  split at h
  · obtain ⟨ds, hds, -⟩ := map_eq_some_iff.mp h
    refine forall_of_mapM ?_ hds
    intro c d hd
    simp [isAddressChar, hd]
  · cases h

theorem groups_chars {gs : List Text} {ns : List Nat} (h : groups gs = some ns) :
    ∀ g ∈ gs, ∀ c ∈ g, isAddressChar c := by
  induction gs using groups.induct generalizing ns with
  | case1 => intro g hg; cases hg
  | case2 g a ha =>
    intro g' hg
    obtain rfl := mem_singleton.mp hg
    exact parseIPv4_chars ha
  | case3 g hg4 =>
    intro g' hg
    obtain rfl := mem_singleton.mp hg
    rw [groups, hg4] at h
    obtain ⟨n, hn, -⟩ := map_eq_some_iff.mp h
    exact hexGroup_chars hn
  | case4 g gs hne ih =>
    rw [groups] at h
    · obtain ⟨x, hx, h⟩ := bind_eq_some_iff.mp h
      obtain ⟨xs, hxs, -⟩ := map_eq_some_iff.mp h
      intro g' hg
      rcases mem_cons.mp hg with rfl | hg
      · exact hexGroup_chars hx
      · exact ih hxs g' hg
    · exact hne

theorem sideGroups_chars {read : List Text → Option (List Nat)}
    (hread : ∀ gs ns, read gs = some ns → ∀ g ∈ gs, ∀ c ∈ g, isAddressChar c) {ns : List Nat}
    (h : sideGroups read t = some ns) : ∀ c ∈ t, isAddressChar c := by
  unfold sideGroups at h
  split at h
  · rename_i ht
    intro c hc
    rw [ht] at hc
    cases hc
  · exact forall_of_splitOn rfl (hread _ _ h)

theorem cutEllipsis_chars {l r : Text} (h : cutEllipsis t = some (l, r)) :
    t = l ++ ':' :: ':' :: r := by
  induction t using cutEllipsis.induct generalizing l with
  | case1 => cases h
  | case2 => cases h
  | case3 c d rest hc =>
    simp only [cutEllipsis, hc, and_self, if_true, some.injEq, Prod.mk.injEq] at h
    simp [← h.1, ← h.2, hc.1, hc.2]
  | case4 c d rest hc ih =>
    simp only [cutEllipsis, hc, if_false, map_eq_some_iff, Prod.mk.injEq] at h
    obtain ⟨⟨l', r'⟩, hcut, rfl, rfl⟩ := h
    rw [ih hcut]
    rfl

theorem parseIPv6_chars (h : parseIPv6 t = some a) : ∀ c ∈ t, isAddressChar c := by
  unfold parseIPv6 at h
  split at h
  · obtain ⟨gs, hgs, -⟩ := bind_eq_some_iff.mp h
    exact forall_of_splitOn rfl (groups_chars hgs)
  rename_i l r hcut
  obtain ⟨as, has, h⟩ := bind_eq_some_iff.mp h
  obtain ⟨bs, hbs, -⟩ := bind_eq_some_iff.mp h
  have hl : ∀ c ∈ l, isAddressChar c :=
    sideGroups_chars (fun _ _ hm => forall_of_mapM (fun _ _ => hexGroup_chars) hm) has
  have hr : ∀ c ∈ r, isAddressChar c := sideGroups_chars (fun _ _ => groups_chars) hbs
  intro c hc
  rw [cutEllipsis_chars hcut] at hc
  rcases mem_append.mp hc with hc | hc
  · exact hl c hc
  · rcases mem_cons.mp hc with rfl | hc
    · rfl
    · rcases mem_cons.mp hc with rfl | hc
      · rfl
      · exact hr c hc

theorem colon_not_mem_of_parseIPv4 (h : parseIPv4 t = some a) : ':' ∉ t := by
  unfold parseIPv4 at h
  split at h
  · rename_i hm
    have hpieces : ∀ piece ∈ t.splitOn '.', ∀ c ∈ piece, c ≠ ':' := by
      refine forall_of_mapM ?_ hm
      intro piece n hn c hc
      have hdigit := octet_digits hn c hc
      rintro rfl
      cases hdigit
    intro hmem
    exact forall_of_splitOn (by decide) hpieces ':' hmem rfl
  · cases h

/-- An address is an IPv4 literal, or has a colon in it. -/
theorem parseIP_cases {f : Family} (h : parseIP t = some (f, a)) :
    (f = .ip4 ∧ parseIPv4 t = some a) ∨ (f = .ip6 ∧ ':' ∈ t) := by
  unfold parseIP at h
  split at h
  · obtain ⟨n, hn, heq⟩ := map_eq_some_iff.mp h
    simp only [Prod.mk.injEq] at heq
    exact .inl ⟨heq.1.symm, by rw [hn, heq.2]⟩
  · rename_i hf
    obtain ⟨n, hn, heq⟩ := map_eq_some_iff.mp h
    simp only [Prod.mk.injEq] at heq
    exact .inr ⟨heq.1.symm, mem_of_find?_eq_some hf⟩
  · cases h

/-- A literal has a separator in it. -/
theorem parseIP_separator {a : Family × Nat} (h : parseIP t = some a) :
    ∃ c ∈ t, c.isAlphanum = false := by
  unfold parseIP at h
  split at h
  · rename_i hf
    exact ⟨'.', mem_of_find?_eq_some hf, rfl⟩
  · rename_i hf
    exact ⟨':', mem_of_find?_eq_some hf, rfl⟩
  · cases h

theorem parseIP_chars {a : Family × Nat} (h : parseIP t = some a) :
    t ≠ [] ∧ ∀ c ∈ t, isAddressChar c := by
  constructor
  · rintro rfl
    cases h
  unfold parseIP at h
  split at h
  · obtain ⟨n, hn, -⟩ := map_eq_some_iff.mp h
    exact parseIPv4_chars hn
  · obtain ⟨n, hn, -⟩ := map_eq_some_iff.mp h
    exact parseIPv6_chars hn
  · cases h

end Address

namespace Prefix

open Text Address

variable {t : Text} {p : Prefix}

theorem cutSlash_spec {l r : Text} (h : cutSlash t = some (l, r)) :
    t = l ++ '/' :: r ∧ t.takeWhile (· ≠ '/') = l := by
  induction t generalizing l with
  | nil => cases h
  | cons c t ih =>
    unfold cutSlash at h
    split at h
    · rename_i hc
      cases h
      simp [hc]
    · rename_i hc
      obtain ⟨⟨l', r'⟩, hcut, heq⟩ := map_eq_some_iff.mp h
      obtain ⟨rfl, rfl⟩ := Prod.mk.inj heq
      obtain ⟨ht, htake⟩ := ih hcut
      rw [takeWhile_cons_of_pos (by simpa using hc), htake, ht]
      exact ⟨rfl, rfl⟩

theorem parse_chars (h : parse t = some p) : t ≠ [] ∧ ∀ c ∈ t, isAddressChar c := by
  unfold parse at h
  split at h
  · rename_i q hq
    obtain ⟨⟨l, r⟩, hcut, hq⟩ := bind_eq_some_iff.mp hq
    obtain ⟨a, ha, hq⟩ := bind_eq_some_iff.mp hq
    obtain ⟨n, hn, -⟩ := bind_eq_some_iff.mp hq
    rw [(cutSlash_spec hcut).1]
    constructor
    · simp
    intro c hc
    rcases mem_append.mp hc with hc | hc
    · exact (parseIP_chars ha).2 c hc
    · rcases mem_cons.mp hc with rfl | hc
      · rfl
      · exact isAddressChar_of_isDigit (readNat_digits hn c hc)
  · obtain ⟨a, ha, -⟩ := map_eq_some_iff.mp h
    exact parseIP_chars ha

theorem slash_mem (h : parseCIDR t = some p) : '/' ∈ t := by
  obtain ⟨⟨l, r⟩, hcut, -⟩ := bind_eq_some_iff.mp h
  rw [(cutSlash_spec hcut).1]
  exact mem_append_right l mem_cons_self

theorem parseCIDR_chars (h : parseCIDR t = some p) : ∀ c ∈ t, isAddressChar c :=
  (parse_chars (p := p) (by rw [parse, h])).2

/-- The numbers of an IPv4 prefix are in range. -/
theorem parseCIDR_ip4 {a len : Nat} (h : parseCIDR t = some ⟨.ip4, a, len⟩) :
    a < 2 ^ 32 ∧ len ≤ 32 := by
  obtain ⟨⟨l, m⟩, -, h⟩ := bind_eq_some_iff.mp h
  obtain ⟨⟨f, x⟩, hx, h⟩ := bind_eq_some_iff.mp h
  obtain ⟨n, -, h⟩ := bind_eq_some_iff.mp h
  split_ifs at h with hn
  obtain ⟨rfl, rfl, rfl⟩ := Prefix.mk.inj (some.inj h)
  rcases parseIP_cases hx with ⟨-, hx4⟩ | ⟨hfam, -⟩
  · exact ⟨parseIPv4_lt hx4, hn⟩
  · cases hfam

theorem parse_separator (h : parse t = some p) : ∃ c ∈ t, c.isAlphanum = false := by
  unfold parse at h
  split at h
  · rename_i q hq
    exact ⟨'/', slash_mem hq, rfl⟩
  · obtain ⟨a, ha, -⟩ := map_eq_some_iff.mp h
    exact parseIP_separator ha

end Prefix

end Lankeeper.Lib
