import Lankeeper.Lib.Network

/-!
# Lankeeper.Lib.NetworkText — the text of a network

Go's `IPNet.String`: an IPv4 base address as four decimal octets, an IPv6 one as
groups of hexadecimal digits with `::` for the first longest run of two or more
zero groups, then the length of the mask.

The one result is the round trip `Network.parse_toText`: the text reads back as the
network.
-/

namespace Lankeeper.Lib

namespace Address

open Text List Option

/-! ## IPv4 -/

/-- The text of an IPv4 address. -/
def dotted (a : Nat) : Text :=
  ['.'].intercalate [decimal ((a / 16777216 % 256 : Nat) : Int), decimal ((a / 65536 % 256 : Nat) : Int),
    decimal ((a / 256 % 256 : Nat) : Int), decimal ((a % 256 : Nat) : Int)]

theorem octet_decimal {n : Nat} (h : n < 256) : octet (decimal (n : Int)) = some n := by
  have hall : ∀ n < 256, octet (decimal ((n : Nat) : Int)) = some n := by decide +kernel
  exact hall n h

variable {c : Char} {a : Nat} {gs : List Nat}

/-- A decimal number has no separator of address literals in it. -/
theorem decimal_no_separator {n : Nat} (h : c ∈ decimal (n : Int)) : c.isDigit :=
  Nat.isDigit_of_mem_toDigits (by decide) (by decide) h

theorem parseIPv4_dotted (h : a >>> 32 = 0) : parseIPv4 (dotted a) = some a := by
  have hlt : a < 4294967296 := by
    rw [Nat.shiftRight_eq_div_pow] at h
    omega
  have hsplit : (dotted a).splitOn '.' =
      [decimal ((a / 16777216 % 256 : Nat) : Int), decimal ((a / 65536 % 256 : Nat) : Int),
        decimal ((a / 256 % 256 : Nat) : Int), decimal ((a % 256 : Nat) : Int)] := by
    refine splitOn_intercalate '.' ?_ (by simp)
    simp only [forall_mem_cons]
    refine ⟨?_, ?_, ?_, ?_, by simp⟩
    all_goals
      intro hdot
      exact absurd (decimal_no_separator hdot) (by decide)
  unfold parseIPv4
  rw [hsplit]
  simp only [mapM_cons, mapM_nil, octet_decimal (Nat.mod_lt _ (by decide : 0 < 256)),
    Option.pure_def, Option.bind_eq_bind, Option.bind_some, Option.some.injEq]
  omega

theorem parseIP_dotted (h : a >>> 32 = 0) : parseIP (dotted a) = some (.ip4, a) := by
  have hfirst : (dotted a).find? (fun c => c = '.' ∨ c = ':' ∨ c = '%') = some '.' := by
    -- the digits in front of the first dot are passed over
    have hnone : (decimal ((a / 16777216 % 256 : Nat) : Int)).find?
        (fun c => c = '.' ∨ c = ':' ∨ c = '%') = none := by
      rw [find?_eq_none]
      intro c hc
      have hdigit := decimal_no_separator hc
      simp only [decide_eq_true_eq]
      rintro (rfl | rfl | rfl) <;> exact absurd hdigit (by decide)
    simp only [dotted, intercalate, intersperse, flatten_cons, find?_append, hnone]
    simp
  rw [parseIP, hfirst]
  simp [parseIPv4_dotted h]

/-! ## Groups of hexadecimal digits -/

def hexChar (d : Nat) : Char :=
  if d < 10 then Char.ofNat (d + 48) else Char.ofNat (d + 87)

theorem hexDigit_hexChar {d : Nat} (h : d < 16) : hexDigit (hexChar d) = some d := by
  have hall : ∀ d < 16, hexDigit (hexChar d) = some d := by decide
  exact hall d h

/-- A group, without leading zeros. -/
def hexText (x : Nat) : Text :=
  (if 0x1000 ≤ x then [hexChar (x / 0x1000 % 16)] else []) ++
  (if 0x100 ≤ x then [hexChar (x / 0x100 % 16)] else []) ++
  (if 0x10 ≤ x then [hexChar (x / 0x10 % 16)] else []) ++ [hexChar (x % 16)]

theorem hexText_chars {x : Nat} (h : c ∈ hexText x) : (hexDigit c).isSome := by
  have hdigit : ∀ n, (hexDigit (hexChar (n % 16))).isSome := by
    intro n
    rw [hexDigit_hexChar (Nat.mod_lt _ (by decide))]
    rfl
  unfold hexText at h
  split_ifs at h <;> simp only [mem_append, mem_singleton, not_mem_nil, or_false,
    false_or] at h <;> grind

theorem hexText_ne_nil (x : Nat) : hexText x ≠ [] := by
  simp [hexText]

theorem not_mem_hexText (hc : hexDigit c = none) (x : Nat) : c ∉ hexText x := by
  intro h
  have hsome := hexText_chars h
  rw [hc] at hsome
  cases hsome

theorem hexGroup_hexText {x : Nat} (h : x < 65536) : hexGroup (hexText x) = some x := by
  have hd : ∀ n, hexDigit (hexChar (n % 16)) = some (n % 16) := fun n =>
    hexDigit_hexChar (Nat.mod_lt _ (by decide))
  unfold hexText
  split_ifs
  all_goals
    simp only [hexGroup, nil_append, append_nil, cons_append, length_cons,
      length_nil, mapM_cons, mapM_nil, hd, Option.pure_def, Option.bind_eq_bind,
      Option.bind_some, Option.map_some, foldl_cons, foldl_nil]
    simp only [Nat.reduceAdd, Nat.reduceLeDiff, and_self, if_true, Option.some.injEq]
    omega

/-! ## IPv6 -/

/-- The last `k` groups of an address. -/
def groupsOf : Nat → Nat → List Nat
  | 0, _ => []
  | k + 1, a => groupsOf k (a / 65536) ++ [a % 65536]

/-- Groups with colons between them. -/
def colons (gs : List Nat) : Text :=
  [':'].intercalate (gs.map hexText)

/-- How many groups at the front are zero. -/
def zeroRun (gs : List Nat) : Nat :=
  (gs.takeWhile (· = 0)).length

/-- The start and the length of the first longest run of two or more zero groups, from
group `i` on and against the best one in front of it. The length is 0 if there is none. -/
def longestRun : Nat → List Nat → Nat × Nat → Nat × Nat
  | _, [], best => best
  | i, g :: gs, best =>
    let l := zeroRun (g :: gs)
    longestRun (i + 1) gs (if 2 ≤ l ∧ best.2 < l then (i, l) else best)

/-- The text of an IPv6 address. -/
def ip6Text (a : Nat) : Text :=
  let gs := groupsOf 8 a
  match longestRun 0 gs (0, 0) with
  | (_, 0) => colons gs
  | (start, l) => colons (gs.take start) ++ ':' :: ':' :: colons (gs.drop (start + l))

theorem length_groupsOf (k a : Nat) : (groupsOf k a).length = k := by
  induction k generalizing a with
  | zero => rfl
  | succ k ih => simp [groupsOf, ih]

theorem groupsOf_lt {k g : Nat} (h : g ∈ groupsOf k a) : g < 65536 := by
  induction k generalizing a with
  | zero => cases h
  | succ k ih =>
    rcases mem_append.mp h with h | h
    · exact ih h
    · rw [mem_singleton.mp h]
      exact Nat.mod_lt _ (by decide)

theorem valueOf_groupsOf {k : Nat} (h : a >>> (16 * k) = 0) : valueOf (groupsOf k a) = a := by
  induction k generalizing a with
  | zero => simpa [groupsOf, valueOf] using h.symm
  | succ k ih =>
    have hhigh : (a / 65536) >>> (16 * k) = 0 := by
      have hdiv : a / 65536 = a >>> 16 := by simp [Nat.shiftRight_eq_div_pow]
      rw [hdiv, ← Nat.shiftRight_add]
      rwa [Nat.mul_succ, Nat.add_comm] at h
    have hvalue := ih hhigh
    unfold valueOf at hvalue ⊢
    rw [groupsOf, foldl_append, hvalue]
    simp only [foldl_cons, foldl_nil]
    omega

/-- A place of the given length in the list where every group is zero. -/
def IsRun (gs : List Nat) (r : Nat × Nat) : Prop :=
  r.2 = 0 ∨ 2 ≤ r.2 ∧ ∃ front back, gs = front ++ replicate r.2 0 ++ back ∧ front.length = r.1

theorem zeroRun_front (gs : List Nat) : ∃ back, gs = replicate (zeroRun gs) 0 ++ back := by
  refine ⟨gs.dropWhile (· = 0), ?_⟩
  have hzero : gs.takeWhile (· = 0) = replicate (zeroRun gs) 0 := by
    rw [eq_replicate_iff]
    refine ⟨rfl, ?_⟩
    intro g hg
    simpa using mem_takeWhile_imp hg
  rw [← hzero, takeWhile_append_dropWhile]

theorem longestRun_isRun (front gs : List Nat) {best : Nat × Nat} (h : IsRun (front ++ gs) best) :
    IsRun (front ++ gs) (longestRun front.length gs best) := by
  induction gs generalizing front best with
  | nil => exact h
  | cons g gs ih =>
    have hnext : IsRun ((front ++ [g]) ++ gs)
        (if 2 ≤ zeroRun (g :: gs) ∧ best.2 < zeroRun (g :: gs)
          then (front.length, zeroRun (g :: gs)) else best) := by
      rw [append_assoc, singleton_append]
      split_ifs with hlonger
      · obtain ⟨back, hback⟩ := zeroRun_front (g :: gs)
        refine .inr ⟨hlonger.1, front, back, ?_, rfl⟩
        rw [append_assoc]
        exact congrArg (front ++ ·) hback
      · exact h
    have hrun := ih (front ++ [g]) hnext
    rw [append_assoc, singleton_append, length_append, length_singleton] at hrun
    exact hrun

theorem colons_cons_cons (g g' : Nat) (gs : List Nat) :
    colons (g :: g' :: gs) = hexText g ++ ':' :: colons (g' :: gs) := by
  simp [colons, intercalate]

theorem colons_singleton (g : Nat) : colons [g] = hexText g := by
  simp [colons, intercalate]

theorem splitOn_colons (h : gs ≠ []) : (colons gs).splitOn ':' = gs.map hexText := by
  refine splitOn_intercalate ':' ?_ (by simpa using h)
  intro t ht
  obtain ⟨g, -, rfl⟩ := mem_map.mp ht
  exact not_mem_hexText (by decide) g

theorem colons_eq_nil : colons gs = [] ↔ gs = [] := by
  constructor
  · intro h
    rcases gs with _ | ⟨g, _ | ⟨g', gs⟩⟩
    · rfl
    · exact absurd (colons_singleton g ▸ h) (hexText_ne_nil g)
    · rw [colons_cons_cons] at h
      simp at h
  · rintro rfl
    rfl

/-- No `::` begins in a piece without colons. -/
theorem cutEllipsis_append {p : Text} (h : ':' ∉ p) (t : Text) :
    cutEllipsis (p ++ t) = (cutEllipsis t).map fun q => (p ++ q.1, q.2) := by
  induction p with
  | nil => simp
  | cons c p ih =>
    have hc : c ≠ ':' := fun heq => h (heq ▸ mem_cons_self)
    have hrest := ih fun hp => h (mem_cons_of_mem _ hp)
    rcases hpt : p ++ t with _ | ⟨d, r⟩
    · obtain ⟨rfl, rfl⟩ := append_eq_nil_iff.mp hpt
      rfl
    · rw [cons_append, hpt, cutEllipsis, if_neg (fun hcd => hc hcd.1), ← hpt, hrest, Option.map_map]
      rfl

/-- No `::` begins between groups. -/
theorem cutEllipsis_colons (gs : List Nat) (t : Text) :
    cutEllipsis (colons gs ++ t) = (cutEllipsis t).map fun q => (colons gs ++ q.1, q.2) := by
  induction gs with
  | nil => simp [colons]
  | cons g gs ih =>
    have hg : ':' ∉ hexText g := not_mem_hexText (by decide) g
    rcases gs with _ | ⟨g', gs⟩
    · rw [colons_singleton]
      exact cutEllipsis_append hg t
    rw [colons_cons_cons, append_assoc, cutEllipsis_append hg, cons_append]
    -- the group behind the colon does not begin with one
    rcases hnext : colons (g' :: gs) ++ t with _ | ⟨d, r⟩
    · have hnil := (append_eq_nil_iff.mp hnext).1
      exact absurd (colons_eq_nil.mp hnil) (cons_ne_nil _ _)
    have hd : d ≠ ':' := by
      rintro rfl
      rcases hx : hexText g' with _ | ⟨e, x⟩
      · exact hexText_ne_nil g' hx
      have he : e = ':' := by
        rcases gs with _ | ⟨g'', gs⟩
        · rw [colons_singleton, hx] at hnext
          exact (cons.inj hnext).1
        · rw [colons_cons_cons, hx] at hnext
          exact (cons.inj hnext).1
      have hmem : ':' ∈ hexText g' := by rw [hx, he]; exact mem_cons_self
      exact not_mem_hexText (by decide) g' hmem
    rw [cutEllipsis, if_neg (fun hcd => hd hcd.2), ← hnext, ih, Option.map_map, Option.map_map]
    congr 1
    funext q
    simp

theorem mapM_hexText (h : ∀ g ∈ gs, g < 65536) : (gs.map hexText).mapM hexGroup = some gs := by
  induction gs with
  | nil => rfl
  | cons g gs ih =>
    rw [map_cons, mapM_cons, hexGroup_hexText (h g mem_cons_self),
      ih fun x hx => h x (mem_cons_of_mem _ hx)]
    rfl

theorem parseIPv4_hexText (g : Nat) : parseIPv4 (hexText g) = none := by
  unfold parseIPv4
  rw [splitOn_eq_singleton (not_mem_hexText (by decide) g)]
  rcases hoctet : octet (hexText g) with _ | n <;> simp [hoctet]

theorem groups_hexText (h : ∀ g ∈ gs, g < 65536) : groups (gs.map hexText) = some gs := by
  induction gs with
  | nil => rfl
  | cons g gs ih =>
    have hg := hexGroup_hexText (h g mem_cons_self)
    rcases gs with _ | ⟨g', gs⟩
    · simp [groups, parseIPv4_hexText, hg]
    · rw [map_cons, map_cons, groups, hg, ← map_cons, ih fun x hx => h x (mem_cons_of_mem _ hx)]
      · rfl
      · simp

/-- Both readers of the groups beside a `::` read them back. -/
theorem sideGroups_colons {read : List Text → Option (List Nat)}
    (h : read (gs.map hexText) = some gs) : sideGroups read (colons gs) = some gs := by
  unfold sideGroups
  split
  · rename_i hnil
    rw [colons_eq_nil.mp hnil]
  · rename_i hne
    rw [splitOn_colons fun hgs => hne (colons_eq_nil.mpr hgs), h]

theorem parseIPv6_colons (hlen : gs.length = 8) (hlt : ∀ g ∈ gs, g < 65536) :
    parseIPv6 (colons gs) = some (valueOf gs) := by
  have hne : gs ≠ [] := by
    rintro rfl
    cases hlen
  have hcut := cutEllipsis_colons gs []
  rw [append_nil] at hcut
  simp [parseIPv6, hcut, cutEllipsis, splitOn_colons hne, groups_hexText hlt, hlen]

theorem parseIPv6_ellipsis {front back : List Nat} {l : Nat} (hl : 1 ≤ l)
    (hlen : front.length + l + back.length = 8)
    (hlt : ∀ g ∈ front ++ replicate l 0 ++ back, g < 65536) :
    parseIPv6 (colons front ++ ':' :: ':' :: colons back) =
      some (valueOf (front ++ replicate l 0 ++ back)) := by
  have hcut := cutEllipsis_colons front (':' :: ':' :: colons back)
  have hfront : ∀ g ∈ front, g < 65536 := fun g hg => hlt g (by simp [hg])
  have hback : ∀ g ∈ back, g < 65536 := fun g hg => hlt g (by simp [hg])
  have hzeros : 8 - (front.length + back.length) = l := by omega
  have hshort : front.length + back.length ≤ 7 := by omega
  rw [parseIPv6, hcut]
  simp only [cutEllipsis, and_self, if_true, map_some, append_nil,
    sideGroups_colons (mapM_hexText hfront), sideGroups_colons (groups_hexText hback),
    bind_some, hshort, hzeros]

/-- The two forms of the text. -/
theorem ip6Text_cases (a : Nat) :
    ip6Text a = colons (groupsOf 8 a) ∨ ∃ front l back, 1 ≤ l ∧
      groupsOf 8 a = front ++ replicate l 0 ++ back ∧
      ip6Text a = colons front ++ ':' :: ':' :: colons back := by
  have hrun : IsRun (groupsOf 8 a) (longestRun 0 (groupsOf 8 a) (0, 0)) :=
    longestRun_isRun [] (groupsOf 8 a) (.inl rfl)
  unfold ip6Text
  generalize groupsOf 8 a = gs at hrun
  rcases hlongest : longestRun 0 gs (0, 0) with ⟨start, _ | l⟩
  · exact .inl (by simp only [hlongest])
  rw [hlongest] at hrun
  rcases hrun with hzero | ⟨hl, front, back, hgs, hstart⟩
  · cases hzero
  simp only at hl hgs hstart
  have htake : gs.take start = front := by
    rw [hgs, ← hstart, append_assoc]
    exact take_left
  have hdrop : gs.drop (start + (l + 1)) = back := by
    rw [hgs]
    exact drop_left' (by simp [hstart])
  refine .inr ⟨front, l + 1, back, by omega, hgs, ?_⟩
  simp only [hlongest, htake, hdrop]

theorem parseIPv6_ip6Text (h : a >>> 128 = 0) : parseIPv6 (ip6Text a) = some a := by
  have hvalue : valueOf (groupsOf 8 a) = a := valueOf_groupsOf h
  have hlen := length_groupsOf 8 a
  have hlt : ∀ g ∈ groupsOf 8 a, g < 65536 := fun g hg => groupsOf_lt hg
  rcases ip6Text_cases a with heq | ⟨front, l, back, hl, hgs, heq⟩
  · rw [heq, parseIPv6_colons hlen hlt, hvalue]
  · rw [hgs] at hvalue hlen hlt
    rw [heq, parseIPv6_ellipsis hl (by simpa [Nat.add_assoc] using hlen) hlt, hvalue]

theorem colons_chars (h : c ∈ colons gs) : c = ':' ∨ (hexDigit c).isSome := by
  rcases mem_intercalate h with rfl | ⟨piece, hp, hc⟩
  · exact .inl rfl
  · obtain ⟨g, -, rfl⟩ := mem_map.mp hp
    exact .inr (hexText_chars hc)

theorem ip6Text_chars (h : c ∈ ip6Text a) : c = ':' ∨ (hexDigit c).isSome := by
  rcases ip6Text_cases a with heq | ⟨front, l, back, -, -, heq⟩
  · exact colons_chars (heq ▸ h)
  rw [heq] at h
  rcases mem_append.mp h with h | h
  · exact colons_chars h
  · rcases mem_cons.mp h with rfl | h
    · exact .inl rfl
    · rcases mem_cons.mp h with rfl | h
      · exact .inl rfl
      · exact colons_chars h

theorem colon_mem_ip6Text (a : Nat) : ':' ∈ ip6Text a := by
  rcases ip6Text_cases a with heq | ⟨front, l, back, -, -, heq⟩
  · rw [heq]
    have hlen := length_groupsOf 8 a
    rcases hgs : groupsOf 8 a with _ | ⟨g, _ | ⟨g', gs⟩⟩
    · rw [hgs] at hlen
      cases hlen
    · rw [hgs] at hlen
      cases hlen
    · simp [colons_cons_cons]
  · simp [heq]

theorem parseIP_ip6Text (h : a >>> 128 = 0) : parseIP (ip6Text a) = some (.ip6, a) := by
  have hfirst : (ip6Text a).find? (fun c => c = '.' ∨ c = ':' ∨ c = '%') = some ':' := by
    have hsome : ((ip6Text a).find? fun c => c = '.' ∨ c = ':' ∨ c = '%').isSome := by
      rw [find?_isSome]
      exact ⟨':', colon_mem_ip6Text a, by decide⟩
    obtain ⟨c, hc⟩ := isSome_iff_exists.mp hsome
    -- of the separators only the colon is in the text
    have hsep : c = '.' ∨ c = ':' ∨ c = '%' := by simpa using find?_some hc
    rw [hc]
    rcases ip6Text_chars (mem_of_find?_eq_some hc) with rfl | hdigit
    · rfl
    · rcases hsep with rfl | rfl | rfl
      · exact absurd hdigit (by decide)
      · rfl
      · exact absurd hdigit (by decide)
  rw [parseIP, hfirst]
  simp [parseIPv6_ip6Text h]

/-! ## Networks -/

/-- `IP.String`. -/
def ipText : Family → Nat → Text
  | .ip4, a => dotted a
  | .ip6, a => ip6Text a

theorem parseIP_ipText {f : Family} (h : a >>> f.bits = 0) :
    parseIP (ipText f a) = some (f, a) := by
  cases f with
  | ip4 => exact parseIP_dotted h
  | ip6 => exact parseIP_ip6Text h

theorem ipText_chars {f : Family} (h : c ∈ ipText f a) :
    c = '.' ∨ c = ':' ∨ (hexDigit c).isSome := by
  cases f with
  | ip4 =>
    rcases mem_intercalate h with hdot | ⟨piece, hp, hc⟩
    · exact .inl hdot
    · simp only [mem_cons, not_mem_nil, or_false] at hp
      have hdigit : c.isDigit := by
        rcases hp with rfl | rfl | rfl | rfl <;> exact decimal_no_separator hc
      exact .inr (.inr (by simp [hexDigit, hdigit]))
  | ip6 => exact .inr (ip6Text_chars h)

theorem slash_not_mem_ipText (f : Family) (a : Nat) : '/' ∉ ipText f a := by
  intro h
  exact absurd (ipText_chars h) (by decide)

end Address

namespace Network

open Text Address

/-- `IPNet.String`. -/
def toText (n : Network) : Text :=
  ipText n.family n.base ++ '/' :: decimal (n.len : Int)

theorem cutSlash_append {t : Text} (h : '/' ∉ t) (r : Text) :
    Prefix.cutSlash (t ++ '/' :: r) = some (t, r) := by
  induction t with
  | nil => simp [Prefix.cutSlash]
  | cons c t ih =>
    have hc : c ≠ '/' := fun heq => h (heq ▸ List.mem_cons_self)
    have hrest := ih fun ht => h (List.mem_cons_of_mem _ ht)
    rw [List.cons_append, Prefix.cutSlash, if_neg hc, hrest]
    rfl

/-- **Round trip.** -/
theorem parse_toText (n : Network) : parse (toText n) = some n := by
  have hlen : readNat (decimal (n.len : Int)) = some n.len := readNat_decimal.mpr rfl
  have hprefix : Prefix.parseCIDR (toText n) = some ⟨n.family, n.base, n.len⟩ := by
    simp [Prefix.parseCIDR, toText, cutSlash_append (slash_not_mem_ipText _ _),
      parseIP_ipText n.base_lt, hlen, n.len_le]
  have hunmap : unmap ⟨n.family, n.base, n.len⟩ = ⟨n.family, n.base, n.len⟩ := by
    rw [unmap, n.unmapped]
    rfl
  rw [parse, hprefix, Option.bind_some, ofPrefix]
  simp only [hunmap, n.masked, n.base_lt, n.len_le, and_self, dif_pos]

example : (parse "2001:db8:0:0:1::5/32").map toText = some "2001:db8::/32" := by decide

end Network

end Lankeeper.Lib
