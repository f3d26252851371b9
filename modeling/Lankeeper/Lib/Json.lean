import Lankeeper.Lib.Text

/-!
# Lankeeper.Lib.Json — the strings of Go's `encoding/json`

`json.Marshal` writes a text as a quoted string in which some characters are escaped, and a
byte slice as a string of base64. Both are given here with the number of bytes they take:
`length_jsonString` adds up the widths of the characters, `length_base64` rounds up to
groups of three bytes.
-/

namespace Lankeeper.Lib

namespace Json

open Text List

/-! ## Strings -/

/-- The bytes of an ASCII literal. -/
def ascii (s : String) : Bytes :=
  s.toList.map fun c => UInt8.ofNat c.toNat

/-- A lower-case hexadecimal digit. -/
def hexByte (n : Nat) : UInt8 :=
  UInt8.ofNat (if n < 10 then 48 + n else 87 + n)

/-- `\uXXXX`. -/
def unicodeEscape (n : Nat) : Bytes :=
  [0x5c, 0x75, hexByte (n / 4096 % 16), hexByte (n / 256 % 16), hexByte (n / 16 % 16),
    hexByte (n % 16)]

/-- The characters with an escape of two bytes, and its second byte. -/
def shortEscape (c : Char) : Option UInt8 :=
  if c = '\x22' then some 0x22
  else if c = '\\' then some 0x5c
  else if c = '\x08' then some 0x62
  else if c = '\x0c' then some 0x66
  else if c = '\n' then some 0x6e
  else if c = '\r' then some 0x72
  else if c = '\t' then some 0x74
  else none

/-- The characters written by their number: controls, what HTML reserves, and the two line
separators of JavaScript. -/
def needsUnicode (c : Char) : Bool :=
  c.toNat < 0x20 || c == '<' || c == '>' || c == '&' || c == '\u2028' || c == '\u2029'

/-- One character of a string, as `appendString` writes it. -/
def escapeRune (c : Char) : Bytes :=
  match shortEscape c with
  | some b => [0x5c, b]
  | none => if needsUnicode c then unicodeEscape c.toNat else String.utf8EncodeChar c

def jsonString (t : Text) : Bytes :=
  0x22 :: t.flatMap escapeRune ++ [0x22]

/-- The bytes a character takes inside a string. -/
def runeWidth (c : Char) : Nat :=
  if (shortEscape c).isSome then 2 else if needsUnicode c then 6 else c.utf8Size

def textWidth (t : Text) : Nat :=
  t.foldr (fun c n => runeWidth c + n) 0

theorem length_escapeRune (c : Char) : (escapeRune c).length = runeWidth c := by
  unfold escapeRune runeWidth
  cases shortEscape c with
  | some b => rfl
  | none =>
    simp only [Option.isSome_none, Bool.false_eq_true, if_false]
    split
    · rfl
    · exact String.length_utf8EncodeChar c

theorem length_flatMap_escapeRune (t : Text) : (t.flatMap escapeRune).length = textWidth t := by
  induction t with
  | nil => rfl
  | cons c t ih =>
    rw [flatMap_cons, length_append, length_escapeRune, ih]
    rfl

theorem length_jsonString (t : Text) : (jsonString t).length = textWidth t + 2 := by
  simp only [jsonString, length_append, length_cons, length_nil, length_flatMap_escapeRune]

theorem textWidth_replicate (n : Nat) (c : Char) : textWidth (replicate n c) = n * runeWidth c := by
  induction n with
  | zero => simp [textWidth]
  | succ n ih =>
    rw [replicate_succ, Nat.succ_mul, ← ih, Nat.add_comm]
    rfl

/-! ## Byte slices -/

/-- A digit of base64. -/
def base64Digit (n : Nat) : UInt8 :=
  UInt8.ofNat
    (if n < 26 then 65 + n
    else if n < 52 then 71 + n
    else if n < 62 then n - 4
    else if n = 62 then 43
    else 47)

/-- `base64.StdEncoding`. -/
def base64 : Bytes → Bytes
  | [] => []
  | [a] => [base64Digit (a.toNat / 4), base64Digit (a.toNat % 4 * 16), 0x3d, 0x3d]
  | [a, b] =>
    [base64Digit (a.toNat / 4), base64Digit (a.toNat % 4 * 16 + b.toNat / 16),
      base64Digit (b.toNat % 16 * 4), 0x3d]
  | a :: b :: c :: rest =>
    base64Digit (a.toNat / 4) :: base64Digit (a.toNat % 4 * 16 + b.toNat / 16) ::
      base64Digit (b.toNat % 16 * 4 + c.toNat / 64) :: base64Digit (c.toNat % 64) :: base64 rest

theorem length_base64 (bs : Bytes) : (base64 bs).length = 4 * ((bs.length + 2) / 3) := by
  fun_induction base64 bs with
  | case1 => rfl
  | case2 a => simp
  | case3 a b => simp
  | case4 a b c rest ih =>
    simp only [length_cons, ih]
    omega

/-! ## UTF-8 -/

/-- The loop of `utf8.Valid`: no byte fails to start a character. -/
def validUpTo : Nat → Bytes → Bool
  | 0, _ => true
  | _, [] => true
  | n + 1, bs => decodeRune bs != ('\ufffd', 1) && validUpTo n (bs.drop (decodeRune bs).2)

/-- `utf8.Valid`. -/
def utf8Valid (bs : Bytes) : Bool :=
  validUpTo bs.length bs

theorem decodeRune_ascii {b : UInt8} (h : b < 0x80) (rest : Bytes) :
    decodeRune (b :: rest) = (Char.ofNat b.toNat, 1) := by
  match rest with
  | [] => simp [decodeRune, h]
  | [_] => simp [decodeRune, h]
  | [_, _] => simp [decodeRune, h]
  | _ :: _ :: _ :: _ => simp [decodeRune, h]

theorem runesUpTo_replicate {b : UInt8} (h : b < 0x80) (n : Nat) :
    runesUpTo n (replicate n b) = replicate n (Char.ofNat b.toNat) := by
  induction n with
  | zero => rfl
  | succ n ih =>
    rw [replicate_succ, replicate_succ, runesUpTo, decodeRune_ascii h, drop_one, tail_cons, ih]
    exact cons_ne_nil _ _

/-- The UTF-8 encoding of a text. -/
def utf8 (t : Text) : Bytes :=
  t.flatMap String.utf8EncodeChar

end Json

end Lankeeper.Lib
