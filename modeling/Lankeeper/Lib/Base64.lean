import Lankeeper.Lib.Text

/-!
# Lankeeper.Lib.Base64 — base64 in the URL alphabet, without padding

`base64.RawURLEncoding`. The decoder takes the digits in quanta of four. It skips line
breaks wherever they stand, and in a last quantum that is shorter it does not look at the
bits that fill no byte. So many texts decode to the same bytes, and `mem_of_decode` says
which characters they can have beside the digits.
-/

namespace Lankeeper.Lib.Base64

/-! ## The alphabet -/

/-- `decodeMap`. -/
def digit (c : Char) : Option Nat :=
  if 'A' ≤ c ∧ c ≤ 'Z' then some (c.toNat - 'A'.toNat)
  else if 'a' ≤ c ∧ c ≤ 'z' then some (c.toNat - 'a'.toNat + 26)
  else if c.isDigit then some (c.toNat - '0'.toNat + 52)
  else if c = '-' then some 62
  else if c = '_' then some 63
  else none

/-- The character of a digit. -/
def char (n : Nat) : Char :=
  if n < 26 then Char.ofNat ('A'.toNat + n)
  else if n < 52 then Char.ofNat ('a'.toNat + (n - 26))
  else if n < 62 then Char.ofNat ('0'.toNat + (n - 52))
  else if n = 62 then '-'
  else '_'

theorem digit_char_of_lt {n : Nat} (h : n < 64) : digit (char n) = some n := by
  have hall : ∀ n : Fin 64, digit (char n) = some n.val := by decide
  exact hall ⟨n, h⟩

theorem digit_char (n : Nat) : (digit (char n)).isSome := by
  by_cases h : n < 64
  · rw [digit_char_of_lt h]
    rfl
  · have hchar : char n = '_' := by
      unfold char
      rw [if_neg (by omega), if_neg (by omega), if_neg (by omega), if_neg (by omega)]
    rw [hchar]
    rfl

/-- The digits are printable characters of ASCII. -/
theorem toNat_of_digit {c : Char} (h : (digit c).isSome) : 45 ≤ c.toNat ∧ c.toNat ≤ 122 := by
  have hle : ∀ {a b : Char}, a ≤ b → a.toNat ≤ b.toNat := fun h => UInt32.le_iff_toNat_le.mp h
  unfold digit at h
  split_ifs at h with hupper hlower hdigit hminus hline
  · have h₁ : 65 ≤ c.toNat := hle hupper.1
    have h₂ : c.toNat ≤ 90 := hle hupper.2
    omega
  · have h₁ : 97 ≤ c.toNat := hle hlower.1
    have h₂ : c.toNat ≤ 122 := hle hlower.2
    omega
  · simp only [Char.isDigit, Bool.and_eq_true, decide_eq_true_eq] at hdigit
    have h₁ : 48 ≤ c.toNat := UInt32.le_iff_toNat_le.mp hdigit.1
    have h₂ : c.toNat ≤ 57 := UInt32.le_iff_toNat_le.mp hdigit.2
    omega
  · rw [hminus]
    decide
  · rw [hline]
    decide
  · cases h

/-! ## Encoding -/

/-- `EncodeToString`. -/
def encode : Bytes → Text
  | [] => []
  | [a] => [char (a.toNat / 4), char (a.toNat % 4 * 16)]
  | [a, b] =>
    [char (a.toNat / 4), char (a.toNat % 4 * 16 + b.toNat / 16), char (b.toNat % 16 * 4)]
  | a :: b :: c :: rest =>
    char (a.toNat / 4) :: char (a.toNat % 4 * 16 + b.toNat / 16) ::
      char (b.toNat % 16 * 4 + c.toNat / 64) :: char (c.toNat % 64) :: encode rest

theorem mem_encode {bs : Bytes} : ∀ c ∈ encode bs, (digit c).isSome := by
  fun_induction encode bs with
  | case1 => simp
  | case2 a => simp [digit_char]
  | case3 a b => simp [digit_char]
  | case4 a b c rest ih => simpa [digit_char] using ih

/-! ## Decoding -/

def isLineBreak (c : Char) : Bool :=
  c == '\n' || c == '\r'

/-- The bytes of a quantum. -/
def quantum : List Nat → Option Bytes
  | [] => some []
  | [_] => none
  | [a, b] => some [UInt8.ofNat (a * 4 + b / 16)]
  | [a, b, c] => some [UInt8.ofNat (a * 4 + b / 16), UInt8.ofNat (b % 16 * 16 + c / 4)]
  | a :: b :: c :: d :: _ =>
    some [UInt8.ofNat (a * 4 + b / 16), UInt8.ofNat (b % 16 * 16 + c / 4),
      UInt8.ofNat (c % 4 * 64 + d)]

/-- `decodeQuantum` over and over, with the digits read of the current quantum. -/
def decodeFrom (dbuf : List Nat) : Text → Option Bytes
  | [] => quantum dbuf
  | c :: t =>
    match digit c with
    | some d =>
      if dbuf.length < 3 then decodeFrom (dbuf ++ [d]) t
      else (quantum (dbuf ++ [d])).bind fun bs => (decodeFrom [] t).map (bs ++ ·)
    | none => if isLineBreak c then decodeFrom dbuf t else none

/-- `DecodeString`. -/
def decode (t : Text) : Option Bytes :=
  decodeFrom [] t

theorem mem_of_decodeFrom {dbuf : List Nat} {t : Text} {bs : Bytes} (h : decodeFrom dbuf t = some bs) :
    ∀ c ∈ t, (digit c).isSome ∨ isLineBreak c := by
  induction t generalizing dbuf bs with
  | nil => simp
  | cons c t ih =>
    rw [List.forall_mem_cons]
    unfold decodeFrom at h
    split at h
    · rename_i d hd
      refine ⟨.inl (by rw [hd]; rfl), ?_⟩
      split at h
      · exact ih h
      · obtain ⟨q, -, hrest⟩ := Option.bind_eq_some_iff.mp h
        obtain ⟨bs', hbs', -⟩ := Option.map_eq_some_iff.mp hrest
        exact ih hbs'
    · split at h
      · rename_i hbreak
        exact ⟨.inr hbreak, ih h⟩
      · cases h

/-- What decodes consists of digits and line breaks. -/
theorem mem_of_decode {t : Text} {bs : Bytes} (h : decode t = some bs) :
    ∀ c ∈ t, (digit c).isSome ∨ isLineBreak c :=
  mem_of_decodeFrom h

/-- **Round trip.** -/
theorem decode_encode (bs : Bytes) : decode (encode bs) = some bs := by
  have hbyte : ∀ (n : Nat) (b : UInt8), n = b.toNat → UInt8.ofNat n = b := by
    rintro _ b rfl
    exact UInt8.ofNat_toNat
  unfold decode
  fun_induction encode bs with
  | case1 => rfl
  | case2 a =>
    have ha := a.toNat_lt
    simp (disch := omega) only [decodeFrom, digit_char_of_lt]
    simp only [List.nil_append, List.cons_append, List.length_nil, List.length_cons, quantum,
      Nat.reduceAdd, Nat.reduceLT, if_true]
    rw [hbyte _ a (by omega)]
  | case3 a b =>
    have ha := a.toNat_lt
    have hb := b.toNat_lt
    simp (disch := omega) only [decodeFrom, digit_char_of_lt]
    simp only [List.nil_append, List.cons_append, List.length_nil, List.length_cons, quantum,
      Nat.reduceAdd, Nat.reduceLT, if_true]
    rw [hbyte _ a (by omega), hbyte _ b (by omega)]
  | case4 a b c rest ih =>
    have ha := a.toNat_lt
    have hb := b.toNat_lt
    have hc := c.toNat_lt
    simp (disch := omega) only [decodeFrom, digit_char_of_lt]
    simp only [List.nil_append, List.cons_append, List.length_nil, List.length_cons, quantum,
      Nat.reduceAdd, Nat.reduceLT, if_true, if_false, Option.bind_some, ih, Option.map_some]
    rw [hbyte _ a (by omega), hbyte _ b (by omega), hbyte _ c (by omega)]

end Lankeeper.Lib.Base64
