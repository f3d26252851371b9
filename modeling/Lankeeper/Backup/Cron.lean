import Lankeeper.Lib.Basic
import Lankeeper.Lib.Text

/-!
# Lankeeper.Backup.Cron — the fields of a backup schedule

`internal/services/backup_schedule.go`, `parseField` and below. A field is a comma list
of atoms, each a value, a range `lo-hi` or `*`, with an optional step. `parseField` reads
it into a set of 64 bits with a loop that sets one bit per step.

The counter of that loop is a 64-bit `int`. Where the first step leaves the `int`s the
counter wraps around, is then below the end of the range, and is used as a negative
shift count, which panics. `parseField_correct_iff` says that nothing else goes wrong.
-/

namespace Lankeeper.Backup

open Lib Text List

/-! ## Sets of field values -/

/-- `fieldSet`. -/
abbrev FieldSet := BitVec 64

namespace FieldSet

/-- `f | 1<<n`, for a shift count that does not panic. -/
def withBit (f : FieldSet) (n : Int) : FieldSet :=
  f ||| 1#64 <<< n.toNat

def has (f : FieldSet) (n : Int) : Bool :=
  decide (0 ≤ n) && decide (n < 64) && (f &&& 1#64 <<< n.toNat) != 0

theorem has_iff {f : FieldSet} {n : Int} : has f n ↔ 0 ≤ n ∧ n < 64 ∧ f.getLsbD n.toNat := by
  have hbit : n < 64 → (f &&& 1#64 <<< n.toNat ≠ 0 ↔ f.getLsbD n.toNat) := by
    intro hn
    have htwo : BitVec.twoPow 64 n.toNat ≠ 0#64 := by
      intro h
      have hget := BitVec.getLsbD_twoPow (w := 64) n.toNat n.toNat
      rw [h] at hget
      simp at hget
      omega
    rw [← BitVec.twoPow_eq, BitVec.and_twoPow]
    split <;> simp_all
  simp only [has, Bool.and_eq_true, decide_eq_true_eq, bne_iff_ne, and_assoc]
  constructor
  · rintro ⟨h0, h64, h⟩
    exact ⟨h0, h64, (hbit h64).mp h⟩
  · rintro ⟨h0, h64, h⟩
    exact ⟨h0, h64, (hbit h64).mpr h⟩

@[simp] theorem has_zero (n : Int) : has 0#64 n = false := by
  simp [has]

theorem has_withBit {f : FieldSet} {n v : Int} (h0 : 0 ≤ n) (h64 : n < 64) :
    has (withBit f n) v ↔ has f v ∨ v = n := by
  have hbit : (withBit f n).getLsbD v.toNat ↔
      f.getLsbD v.toNat ∨ v.toNat = n.toNat := by
    rw [withBit, BitVec.getLsbD_or, ← BitVec.twoPow_eq, BitVec.getLsbD_twoPow]
    have hn : n.toNat < 64 := by omega
    rw [decide_eq_true hn, Bool.true_and, Bool.or_eq_true, decide_eq_true_eq,
      eq_comm (a := n.toNat)]
  rw [has_iff, has_iff, hbit]
  constructor
  · rintro ⟨hv0, hv64, h | h⟩
    · exact .inl ⟨hv0, hv64, h⟩
    · exact .inr (by omega)
  · rintro (⟨hv0, hv64, h⟩ | rfl)
    · exact ⟨hv0, hv64, .inl h⟩
    · exact ⟨h0, h64, .inr rfl⟩

end FieldSet

open FieldSet

/-- `makeFieldSet`, whose loop stays within the bounds of a field. -/
def makeFieldSet (min max : Int) (all : Bool) : FieldSet :=
  if all then (List.range (max + 1 - min).toNat).foldl (fun f (i : Nat) => f.withBit (min + i)) 0#64
  else 0#64

variable {min max lo hi v : Int} {t : Text} {atoms : List Text}

theorem has_makeFieldSet (h0 : 0 ≤ min) (h63 : max ≤ 63) :
    (makeFieldSet min max true).has v ↔ min ≤ v ∧ v ≤ max := by
  have hrange : ∀ n : Nat, min + n ≤ 64 →
      (((List.range n).foldl (fun f (i : Nat) => FieldSet.withBit f (min + i)) 0#64).has v ↔
        min ≤ v ∧ v < min + n) := by
    intro n hn
    induction n with
    | zero =>
      simp only [range_zero, foldl_nil, has_zero, Bool.false_eq_true, false_iff]
      omega
    | succ n ih =>
      rw [range_succ, foldl_append, foldl_cons, foldl_nil,
        has_withBit (by omega) (by omega), ih (by omega)]
      omega
  rw [makeFieldSet, if_pos rfl]
  rcases Int.lt_or_le max min with hlt | hle
  · have hnone : (max + 1 - min).toNat = 0 := by omega
    rw [hnone]
    simp only [range_zero, foldl_nil, has_zero, Bool.false_eq_true, false_iff]
    omega
  · rw [hrange _ (by omega)]
    omega

/-! ## Reading an atom -/

/-- The errors of `parseField`, with what their texts quote. -/
inductive FieldError
  | badStep (atom : Text)
  | badRange (base : Text)
  | badNumber (base : Text)
  | outOfRange (lo hi min max : Int)
  | emptyField (spec : Text)
deriving DecidableEq

/-- What `parseAtom` returns. -/
structure Atom where
  lo : Int
  hi : Int
  step : Int
deriving DecidableEq

def splitStep (atom : Text) : Except FieldError (Text × Int) :=
  match cut '/' atom with
  | none => .ok (atom, 1)
  | some (base, raw) =>
    match atoi raw with
    | none => .error (.badStep atom)
    | some s => if s < 1 then .error (.badStep atom) else .ok (base, s)

def parseRange (base : Text) (min max : Int) : Except FieldError (Int × Int) :=
  if base = ['*'] then .ok (min, max)
  else
    match cut '-' base with
    | some (l, r) =>
      match atoi l, atoi r with
      | some a, some b => .ok (a, b)
      | _, _ => .error (.badRange base)
    | none =>
      match atoi base with
      | some n => .ok (n, n)
      | none => .error (.badNumber base)

def parseAtom (atom : Text) (min max : Int) : Except FieldError Atom := do
  let (base, step) ← splitStep atom
  let (lo, hi) ← parseRange base min max
  if lo < min ∨ hi > max ∨ lo > hi then .error (.outOfRange lo hi min max)
  else .ok ⟨lo, hi, step⟩

/-! ## Setting the bits -/

/-- How `parseField` can end without a set. -/
inductive Fault
  | returned (e : FieldError)
  /-- A negative shift count. -/
  | panicked
  /-- A loop that has not ended after the passes it was given. -/
  | unfinished
deriving DecidableEq

def maxInt : Int := 9223372036854775807

/-- `i += step` on 64 bits. -/
def advance (i step : Int) : Int :=
  (i + step).bmod 18446744073709551616

/-- `for i := lo; i <= hi; i += step { out |= 1 << i }`, for a number of passes. -/
def setSteps (hi step : Int) : Nat → Int → FieldSet → Except Fault FieldSet
  | 0, _, _ => .error .unfinished
  | passes + 1, i, out =>
    if hi < i then .ok out
    else if i < 0 then .error .panicked
    else setSteps hi step passes (advance i step) (out.withBit i)

/-- The atoms of a field: its pieces, trimmed, without the empty ones. -/
def atomsOf (spec : Text) : List Text :=
  ((spec.splitOn ',').map trimSpace).filter (· ≠ [])

/-- The loop over the atoms. -/
def setAtoms (min max : Int) : List Text → FieldSet → Except Fault FieldSet
  | [], out => .ok out
  | atom :: atoms, out =>
    match parseAtom atom min max with
    | .error e => .error (.returned e)
    | .ok a => do
      -- a pass per value of the range, and one that leaves the loop
      let out ← setSteps a.hi a.step ((a.hi - a.lo).toNat + 2) a.lo out
      setAtoms min max atoms out

def parseField (spec : Text) (min max : Int) : Except Fault FieldSet :=
  if spec = ['*'] then .ok (makeFieldSet min max true)
  else do
    let out ← setAtoms min max (atomsOf spec) 0#64
    if out = 0#64 then .error (.returned (.emptyField spec)) else .ok out

/-! ## What an atom denotes -/

/-- The ranges an atom without a step can be read as. -/
inductive ReadsRange (min max : Int) : Text → Int → Int → Prop
  | all : ReadsRange min max ['*'] min max
  | value {t : Text} {n : Int} : readInt t = some n → ReadsRange min max t n n
  | range {l r : Text} {lo hi : Int} : readInt l = some lo → readInt r = some hi →
    ReadsRange min max (l ++ '-' :: r) lo hi

/-- The ranges and steps an atom can be read as. -/
inductive ReadsAtom (min max : Int) : Text → Atom → Prop
  | plain {t : Text} {lo hi : Int} : ReadsRange min max t lo hi → ReadsAtom min max t ⟨lo, hi, 1⟩
  | stepped {t raw : Text} {lo hi step : Int} : ReadsRange min max t lo hi →
    readInt raw = some step → 1 ≤ step → ReadsAtom min max (t ++ '/' :: raw) ⟨lo, hi, step⟩

/-- The values `lo`, `lo + step`, and so on up to `hi`. -/
def Atom.Covers (a : Atom) (v : Int) : Prop :=
  v ≤ a.hi ∧ ∃ k : Nat, v = a.lo + k * a.step

/-- `v` is a value of the atom. -/
def Denotes (min max : Int) (atom : Text) (v : Int) : Prop :=
  ∃ a, ReadsAtom min max atom a ∧ a.Covers v

/-- The characters of numbers. -/
def isNumberChar (c : Char) : Bool :=
  c.isDigit || c == '+' || c == '-'

theorem chars_of_readInt {n : Int} (h : readInt t = some n) : ∀ c ∈ t, isNumberChar c := by
  obtain ⟨d, r, rfl, hd, hr⟩ := readInt_chars h
  rw [forall_mem_cons]
  refine ⟨?_, fun c hc => by simp [isNumberChar, hr c hc]⟩
  rcases hd with hd | rfl | rfl
  · simp [isNumberChar, hd]
  · rfl
  · rfl

/-- A minus sign in a number is its first character. -/
theorem head_of_readInt {n : Int} (h : readInt t = some n) (hmem : '-' ∈ t) :
    ∃ r, t = '-' :: r := by
  obtain ⟨d, r, rfl, -, hr⟩ := readInt_chars h
  rcases mem_cons.mp hmem with rfl | hmem
  · exact ⟨r, rfl⟩
  · exact absurd (hr _ hmem) (by decide)

theorem ReadsRange.chars (h : ReadsRange min max t lo hi) : ∀ c ∈ t, isNumberChar c ∨ c = '*' := by
  cases h with
  | all => simp
  | value hn => exact fun c hc => .inl (chars_of_readInt hn c hc)
  | range hl hr =>
    rw [forall_mem_append, forall_mem_cons]
    exact ⟨fun c hc => .inl (chars_of_readInt hl c hc), .inl rfl,
      fun c hc => .inl (chars_of_readInt hr c hc)⟩

theorem ReadsRange.slash_not_mem (h : ReadsRange min max t lo hi) : '/' ∉ t :=
  fun hmem => absurd (h.chars _ hmem) (by decide)

theorem parseRange_reads {base : Text}
    (h : parseRange base min max = .ok (lo, hi)) : ReadsRange min max base lo hi := by
  unfold parseRange at h
  split at h
  · rename_i hstar
    subst hstar
    cases h
    exact .all
  · split at h
    · rename_i l r hcut
      split at h
      · rename_i a b ha hb
        cases h
        rw [(cut_eq_some.mp hcut).1]
        exact .range (atoi_eq_some.mp ha).1 (atoi_eq_some.mp hb).1
      · cases h
    · split at h
      · rename_i n hn
        cases h
        exact .value (atoi_eq_some.mp hn).1
      · cases h

/-- A base that `parseRange` accepts reads as no other range. -/
theorem parseRange_unique {base : Text} {min max lo hi lo' hi' : Int}
    (h : parseRange base min max = .ok (lo, hi)) (hr : ReadsRange min max base lo' hi') :
    lo' = lo ∧ hi' = hi := by
  cases hr with
  | all =>
    rw [parseRange, if_pos rfl] at h
    cases h
    exact ⟨rfl, rfl⟩
  | value hn =>
    have hstar : base ≠ ['*'] := by
      rintro rfl
      cases hn
    rw [parseRange, if_neg hstar] at h
    split at h
    · -- a number with a minus sign in it has nothing before the sign
      rename_i l r hcut
      obtain ⟨hbase, hl⟩ := cut_eq_some.mp hcut
      have hmem : '-' ∈ base := by
        rw [hbase]
        simp
      obtain ⟨r', hr'⟩ := head_of_readInt hn hmem
      have hnil : l = [] := by
        rcases l with _ | ⟨c, l⟩
        · rfl
        · rw [hr', cons_append] at hbase
          rw [(List.cons.inj hbase).1] at hl
          exact absurd (mem_cons_self ..) hl
      rw [hnil] at h
      cases h
    · split at h
      · rename_i m hm
        cases h
        rw [(atoi_eq_some.mp hm).1] at hn
        cases hn
        exact ⟨rfl, rfl⟩
      · cases h
  | @range l r _ _ hl hr =>
    have hstar : l ++ '-' :: r ≠ ['*'] := by
      intro heq
      have hmem : '-' ∈ l ++ '-' :: r := by simp
      rw [heq] at hmem
      exact absurd hmem (by decide)
    rw [parseRange, if_neg hstar] at h
    by_cases hmem : '-' ∈ l
    · -- then the base starts with the sign, and the first piece is empty
      obtain ⟨l', rfl⟩ := head_of_readInt hl hmem
      rw [cons_append, show '-' :: (l' ++ '-' :: r) = [] ++ '-' :: (l' ++ '-' :: r) from rfl,
        cut_append (not_mem_nil)] at h
      cases h
    · rw [cut_append hmem] at h
      dsimp only at h
      split at h
      · rename_i a b ha hb
        cases h
        rw [(atoi_eq_some.mp ha).1] at hl
        rw [(atoi_eq_some.mp hb).1] at hr
        cases hl
        cases hr
        exact ⟨rfl, rfl⟩
      · cases h

/-- What `parseAtom` accepts lies within the bounds, and is the only way to read the
atom. -/
theorem parseAtom_spec {atom : Text} {a : Atom} (h : parseAtom atom min max = .ok a) :
    (min ≤ a.lo ∧ a.hi ≤ max ∧ a.lo ≤ a.hi) ∧ (1 ≤ a.step ∧ a.step ≤ maxInt) ∧
      ∀ b, ReadsAtom min max atom b ↔ b = a := by
  obtain ⟨⟨base, step⟩, hsplit, h⟩ := exists_of_bind_ok h
  obtain ⟨⟨lo, hi⟩, hrange, h⟩ := exists_of_bind_ok h
  dsimp only at h
  split at h
  · cases h
  rename_i hbounds
  cases h
  dsimp only
  refine ⟨by omega, ?_⟩
  unfold splitStep at hsplit
  split at hsplit
  · rename_i hcut
    cases hsplit
    refine ⟨by unfold maxInt; omega, fun b => ⟨?_, ?_⟩⟩
    · rintro (hr | ⟨hr, -, -⟩)
      · obtain ⟨rfl, rfl⟩ := parseRange_unique hrange hr
        rfl
      · exact absurd hcut (by rw [cut_append hr.slash_not_mem]; exact Option.some_ne_none _)
    · rintro rfl
      exact .plain (parseRange_reads hrange)
  · rename_i base' raw hcut
    split at hsplit
    · cases hsplit
    rename_i s hs
    split at hsplit
    · cases hsplit
    rename_i hpos
    cases hsplit
    obtain ⟨hread, -, hmax⟩ := atoi_eq_some.mp hs
    refine ⟨⟨by omega, hmax⟩, fun b => ⟨?_, ?_⟩⟩
    · rintro (hr | ⟨hr, hstep, -⟩)
      · have hmem := hr.slash_not_mem
        rw [← cut_eq_none, hcut] at hmem
        cases hmem
      · rw [cut_append hr.slash_not_mem] at hcut
        cases hcut
        obtain ⟨rfl, rfl⟩ := parseRange_unique hrange hr
        cases hread.symm.trans hstep
        rfl
    · rintro rfl
      rw [(cut_eq_some.mp hcut).1]
      exact .stepped (parseRange_reads hrange) hread (by omega)

theorem denotes_iff_covers {atom : Text} {a : Atom}
    (h : parseAtom atom min max = .ok a) : Denotes min max atom v ↔ a.Covers v := by
  obtain ⟨-, -, hreads⟩ := parseAtom_spec h
  constructor
  · rintro ⟨b, hb, hv⟩
    rwa [(hreads b).mp hb] at hv
  · intro hv
    exact ⟨a, (hreads a).mpr rfl, hv⟩

/-! ## The loops -/

theorem advance_eq {i step : Int} (h0 : 0 ≤ i) (h1 : 1 ≤ step) (h : i + step ≤ maxInt) :
    advance i step = i + step := by
  unfold maxInt at h
  exact Int.bmod_eq_of_le (by omega) (by omega)

theorem advance_neg {i step : Int} (h0 : 0 ≤ i) (h63 : i ≤ 63) (hmax : step ≤ maxInt)
    (h : maxInt < i + step) : advance i step < 0 := by
  unfold maxInt at h hmax
  unfold advance
  rw [Int.bmod_def]
  omega

/-- The stepping loop ends and has set what the atom covers from `i` on. -/
theorem setSteps_ok {hi step : Int} (h63 : hi ≤ 63) (h1 : 1 ≤ step) {passes : Nat} {i : Int}
    (h0 : 0 ≤ i) (hfit : i ≤ hi → i + step ≤ maxInt) (hpasses : hi + 2 ≤ i + passes)
    (hsome : 1 ≤ passes) (out : FieldSet) :
    ∃ out', setSteps hi step passes i out = .ok out' ∧
      ∀ v, out'.has v ↔ out.has v ∨ (Atom.mk i hi step).Covers v := by
  induction passes generalizing i out with
  | zero => omega
  | succ passes ih =>
    unfold setSteps
    split
    · rename_i hend
      refine ⟨out, rfl, fun v => ⟨.inl, ?_⟩⟩
      rintro (h | ⟨hv, k, hk⟩)
      · exact h
      · have hle : 0 ≤ (k : Int) * step := Int.mul_nonneg (by omega) (by omega)
        dsimp only at hv hk
        omega
    · rename_i hin
      have hnext := advance_eq h0 h1 (hfit (by omega))
      rw [if_neg (by omega), hnext]
      have hfit' : i + step ≤ hi → i + step + step ≤ maxInt := by
        unfold maxInt
        omega
      rcases ih (i := i + step) (by omega) hfit' (by omega) (by omega) (out.withBit i) with
        ⟨out', hok, hhas⟩
      refine ⟨out', hok, fun v => ?_⟩
      rw [hhas, has_withBit h0 (by omega)]
      -- the first value of the atom is `i`, the others are those from `i + step` on
      constructor
      · rintro ((h | rfl) | ⟨hv, k, hk⟩)
        · exact .inl h
        · exact .inr ⟨by dsimp only; omega, 0, by simp⟩
        · refine .inr ⟨hv, k + 1, ?_⟩
          dsimp only at hk ⊢
          rw [Int.natCast_add, Int.add_mul]
          omega
      · rintro (h | ⟨hv, k, hk⟩)
        · exact .inl (.inl h)
        rcases k with _ | k
        · exact .inl (.inr (by simpa using hk))
        · refine .inr ⟨hv, k, ?_⟩
          dsimp only at hk ⊢
          rw [Int.natCast_add, Int.add_mul] at hk
          omega

/-- A first step that leaves the `int`s panics at the next shift. -/
theorem setSteps_panics {lo hi step : Int} (h0 : 0 ≤ lo) (hle : lo ≤ hi) (h63 : hi ≤ 63)
    (hmax : step ≤ maxInt) (h : maxInt < lo + step) (passes : Nat) (out : FieldSet) :
    setSteps hi step (passes + 2) lo out = .error .panicked := by
  have hneg := advance_neg h0 (by omega) hmax h
  rw [setSteps, if_neg (by omega), if_neg (by omega), setSteps, if_neg (by omega), if_pos hneg]

theorem parseAtom_of_setAtoms {out out' : FieldSet} (h : setAtoms min max atoms out = .ok out') :
    ∀ atom ∈ atoms, ∃ a, parseAtom atom min max = .ok a := by
  induction atoms generalizing out with
  | nil => exact fun _ hmem => by cases hmem
  | cons atom atoms ih =>
    unfold setAtoms at h
    split at h
    · cases h
    · rename_i a ha
      obtain ⟨out₁, -, hrest⟩ := exists_of_bind_ok h
      rintro b (_ | ⟨_, hb⟩)
      · exact ⟨a, ha⟩
      · exact ih hrest b hb

/-- Up to the first malformed atom, the first step of every atom stays an `int`. -/
def Fits (min max : Int) : List Text → Prop
  | [] => True
  | atom :: atoms =>
    match parseAtom atom min max with
    | .error _ => True
    | .ok a => a.lo + a.step ≤ maxInt ∧ Fits min max atoms

instance Fits.decidable (min max : Int) : (atoms : List Text) → Decidable (Fits min max atoms)
  | [] => isTrue trivial
  | atom :: atoms =>
    have := Fits.decidable min max atoms
    match h : parseAtom atom min max with
    | .error _ => isTrue (by rw [Fits, h]; trivial)
    | .ok a => decidable_of_iff (a.lo + a.step ≤ maxInt ∧ Fits min max atoms) (by rw [Fits, h])

section Bounds

variable (h0 : 0 ≤ min) (h63 : max ≤ 63)

include h0 h63

theorem setAtoms_panics (h : ¬ Fits min max atoms) (out : FieldSet) :
    setAtoms min max atoms out = .error .panicked := by
  induction atoms generalizing out with
  | nil => exact absurd trivial h
  | cons atom atoms ih =>
    unfold Fits at h
    unfold setAtoms
    split
    · rename_i e he
      rw [he] at h
      exact absurd trivial h
    rename_i a ha
    obtain ⟨hbounds, hstep, -⟩ := parseAtom_spec ha
    rw [ha] at h
    by_cases hfit : a.lo + a.step ≤ maxInt
    · rcases @setSteps_ok a.hi a.step (by omega) hstep.1 ((a.hi - a.lo).toNat + 2) a.lo
        (by omega) (fun _ => hfit) (by omega) (by omega) out with ⟨out', hok, -⟩
      rw [hok]
      exact ih (fun hrest => h ⟨hfit, hrest⟩) out'
    · rw [setSteps_panics (by omega) hbounds.2.2 (by omega) hstep.2 (by omega)]
      rfl

/-- A field whose steps fit is read to its end, or is refused for a malformed atom. -/
theorem setAtoms_spec (h : Fits min max atoms) (out : FieldSet) :
    (∃ e, setAtoms min max atoms out = .error (.returned e)) ∨
    ∃ out', setAtoms min max atoms out = .ok out' ∧
      (∀ atom ∈ atoms, ∃ a, parseAtom atom min max = .ok a) ∧
      ∀ v, out'.has v ↔ out.has v ∨ ∃ atom ∈ atoms, Denotes min max atom v := by
  induction atoms generalizing out with
  | nil => exact .inr ⟨out, rfl, by simp, by simp⟩
  | cons atom atoms ih =>
    unfold Fits at h
    unfold setAtoms
    split
    · rename_i e he
      exact .inl ⟨e, rfl⟩
    rename_i a ha
    obtain ⟨hbounds, hstep, -⟩ := parseAtom_spec ha
    rw [ha] at h
    rcases @setSteps_ok a.hi a.step (by omega) hstep.1 ((a.hi - a.lo).toNat + 2) a.lo
      (by omega) (fun _ => h.1) (by omega) (by omega) out with ⟨out₁, hok, hhas⟩
    rw [hok]
    rcases ih h.2 out₁ with herr | ⟨out', hok', hall, hhas'⟩
    · exact .inl herr
    refine .inr ⟨out', hok', ?_, ?_⟩
    · rintro b (_ | ⟨_, hb⟩)
      · exact ⟨a, ha⟩
      · exact hall b hb
    · intro v
      rw [hhas', hhas, ← denotes_iff_covers ha]
      simp only [mem_cons, exists_eq_or_imp, or_assoc]

end Bounds

/-! ## The field as a whole -/

/-- `parseField` ends without a panic; the set it returns has exactly the values within
the bounds that some atom denotes; and a field with a value out of bounds is refused. -/
structure FieldCorrect (spec : Text) (min max : Int) : Prop where
  noPanic : parseField spec min max ≠ .error .panicked
  ends : parseField spec min max ≠ .error .unfinished
  exact : ∀ out, parseField spec min max = .ok out → ∀ v,
    out.has v ↔ (min ≤ v ∧ v ≤ max) ∧ ∃ atom ∈ atomsOf spec, Denotes min max atom v
  refused : ∀ atom ∈ atomsOf spec, ∀ v, Denotes min max atom v → ¬ (min ≤ v ∧ v ≤ max) →
    ∃ e, parseField spec min max = .error (.returned e)

/-- An accepted atom has no value out of bounds. -/
theorem within_of_denotes {atom : Text} {a : Atom}
    (ha : parseAtom atom min max = .ok a) (hv : Denotes min max atom v) : min ≤ v ∧ v ≤ max := by
  obtain ⟨hbounds, hstep, -⟩ := parseAtom_spec ha
  obtain ⟨hle, k, hk⟩ := (denotes_iff_covers ha).mp hv
  have hnonneg : 0 ≤ (k : Int) * a.step := Int.mul_nonneg (by omega) (by omega)
  omega

theorem parseAtom_star (hle : min ≤ max) : parseAtom ['*'] min max = .ok ⟨min, max, 1⟩ := by
  have hbounds : ¬ (min < min ∨ max > max ∨ min > max) := by omega
  show (if min < min ∨ max > max ∨ min > max then _ else _) = _
  rw [if_neg hbounds]

theorem fieldCorrect_star (h0 : 0 ≤ min) (hle : min ≤ max) (h63 : max ≤ 63) :
    FieldCorrect ['*'] min max := by
  have hparse : parseField ['*'] min max = .ok (makeFieldSet min max true) := if_pos rfl
  have hatoms : atomsOf ['*'] = [['*']] := by decide
  have hatom := parseAtom_star hle
  refine ⟨?_, ?_, ?_, ?_⟩
  · rw [hparse]
    nofun
  · rw [hparse]
    nofun
  · intro out hout v
    cases hparse.symm.trans hout
    rw [has_makeFieldSet h0 h63, hatoms]
    constructor
    · intro hv
      refine ⟨hv, ['*'], mem_singleton.mpr rfl, (denotes_iff_covers hatom).mpr ?_⟩
      exact ⟨hv.2, (v - min).toNat, by dsimp only; omega⟩
    · exact fun h => h.1
  · intro atom hmem v hv hout
    rw [hatoms, mem_singleton] at hmem
    rw [hmem] at hv
    exact absurd (within_of_denotes hatom hv) hout

/-- **Cron fields.** `parseField` is correct exactly if, up to the first malformed atom, the
lower end of an atom and its step add up to an `int`. -/
theorem parseField_correct_iff (spec : Text) {min max : Int} (h0 : 0 ≤ min) (hle : min ≤ max)
    (h63 : max ≤ 63) : FieldCorrect spec min max ↔ Fits min max (atomsOf spec) := by
  by_cases hstar : spec = ['*']
  · subst hstar
    have hatoms : atomsOf ['*'] = [['*']] := by decide
    have hfits : Fits min max [['*']] := by
      rw [Fits, parseAtom_star hle]
      exact ⟨by unfold maxInt; dsimp only; omega, trivial⟩
    rw [hatoms]
    exact ⟨fun _ => hfits, fun _ => fieldCorrect_star h0 hle h63⟩
  have hparse : parseField spec min max = (setAtoms min max (atomsOf spec) 0#64 >>= fun out =>
      if out = 0#64 then .error (.returned (.emptyField spec)) else .ok out) := if_neg hstar
  constructor
  · intro hcorrect
    by_contra hfits
    rw [setAtoms_panics h0 h63 hfits] at hparse
    exact hcorrect.noPanic hparse
  · intro hfits
    rcases setAtoms_spec h0 h63 hfits 0#64 with ⟨e, herr⟩ | ⟨out, hok, hall, hhas⟩
    · rw [herr] at hparse
      refine ⟨?_, ?_, ?_, ?_⟩
      · rw [hparse]
        nofun
      · rw [hparse]
        nofun
      · rw [hparse]
        nofun
      · intro _ _ _ _ _
        exact ⟨e, hparse⟩
    · -- every atom was read, so none has a value out of bounds
      have hwithin : ∀ atom ∈ atomsOf spec, ∀ v, Denotes min max atom v → min ≤ v ∧ v ≤ max := by
        intro atom hmem v hv
        obtain ⟨a, ha⟩ := hall atom hmem
        exact within_of_denotes ha hv
      have hexact : ∀ v, out.has v ↔
          (min ≤ v ∧ v ≤ max) ∧ ∃ atom ∈ atomsOf spec, Denotes min max atom v := by
        intro v
        rw [hhas, has_zero]
        constructor
        · rintro (h | ⟨atom, hmem, hv⟩)
          · cases h
          · exact ⟨hwithin atom hmem v hv, atom, hmem, hv⟩
        · exact fun h => .inr h.2
      rw [hok] at hparse
      change _ = if out = 0#64 then _ else _ at hparse
      refine ⟨?_, ?_, ?_, ?_⟩
      · rw [hparse]
        split <;> nofun
      · rw [hparse]
        split <;> nofun
      · intro out' hout'
        rw [hparse] at hout'
        split_ifs at hout'
        cases hout'
        exact hexact
      · intro atom hmem v hv hout
        exact absurd (hwithin atom hmem v hv) hout

/-- An hour field with a step, and the set of 1, 4, 7, 10 and 22 it is read into. -/
theorem hours_with_a_step :
    FieldCorrect "1-11/3,22" 0 23 ∧
      parseField "1-11/3,22" 0 23 = .ok ([1, 4, 7, 10, 22].foldl FieldSet.withBit 0#64) :=
  ⟨(parseField_correct_iff _ (by decide) (by decide) (by decide)).mpr (by decide), by decide⟩

/-- A minute field that panics: its one value is 1, and its step is the largest `int`. -/
theorem largest_step_panics :
    parseField "1/9223372036854775807" 0 59 = .error .panicked ∧
      ¬ FieldCorrect "1/9223372036854775807" 0 59 := by
  have hpanic : parseField "1/9223372036854775807" 0 59 = .error .panicked := by decide
  exact ⟨hpanic, fun h => h.noPanic hpanic⟩

end Lankeeper.Backup
