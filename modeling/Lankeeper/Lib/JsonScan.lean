import Lankeeper.Lib.Text

/-!
# Lankeeper.Lib.JsonScan — where a JSON value ends

The scanner of Go's `encoding/json`, as its `Decoder` uses it to find the end of a value in
bytes that are still coming in. It is a machine that takes one byte at a time: `step` says
whether the value goes on, closes with this byte, has ended before it, or cannot be one.

`scan` runs it. What it finds does not change when more bytes come (`scan_append`), white
space in front is skipped (`scan_space`), and a value that opens with a brace ends with
a byte of its own (`lt_of_more`).
-/

namespace Lankeeper.Lib.JsonScan

open List

/-- The white space of JSON. -/
def isSpace (c : UInt8) : Bool :=
  c == 0x20 || c == 0x0a || c == 0x0d || c == 0x09

def isDigit (c : UInt8) : Bool :=
  0x30 ≤ c && c ≤ 0x39

def isHexDigit (c : UInt8) : Bool :=
  isDigit c || (0x61 ≤ c && c ≤ 0x66) || (0x41 ≤ c && c ≤ 0x46)

/-- What is open around the current place. -/
inductive ParseState
  | objectKey
  | objectValue
  | arrayValue
deriving DecidableEq

/-- The step functions of the scanner. -/
inductive Mode
  | beginValue
  | beginValueOrEmpty
  | beginString
  | beginStringOrEmpty
  | endValue
  | inString
  | inStringEsc
  /-- hexadecimal digits still to come -/
  | inStringEscU (digits : Nat)
  | neg
  /-- a number that begins with `1` to `9` -/
  | one
  | zero
  | dot
  | dot0
  | exp
  | expSign
  | exp0
  /-- the letters of `true`, `false` or `null` still to come -/
  | literal (rest : Bytes)
deriving DecidableEq

structure Scanner where
  mode : Mode
  stack : List ParseState

inductive Verdict
  | more (s : Scanner)
  /-- an object or an array is closed by this byte -/
  | closed (stack : List ParseState)
  /-- the value ended before this byte -/
  | ended
  | bad

def start : Scanner := ⟨.beginValue, []⟩

def maxNestingDepth : Nat := 10000

def push (ps : ParseState) (mode : Mode) (stack : List ParseState) : Verdict :=
  if stack.length < maxNestingDepth then .more ⟨mode, ps :: stack⟩ else .bad

def beginValue (stack : List ParseState) (c : UInt8) : Verdict :=
  if isSpace c then .more ⟨.beginValue, stack⟩
  else if c == 0x7b then push .objectKey .beginStringOrEmpty stack
  else if c == 0x5b then push .arrayValue .beginValueOrEmpty stack
  else if c == 0x22 then .more ⟨.inString, stack⟩
  else if c == 0x2d then .more ⟨.neg, stack⟩
  else if c == 0x30 then .more ⟨.zero, stack⟩
  else if c == 0x74 then .more ⟨.literal [0x72, 0x75, 0x65], stack⟩
  else if c == 0x66 then .more ⟨.literal [0x61, 0x6c, 0x73, 0x65], stack⟩
  else if c == 0x6e then .more ⟨.literal [0x75, 0x6c, 0x6c], stack⟩
  else if isDigit c then .more ⟨.one, stack⟩
  else .bad

def beginString (stack : List ParseState) (c : UInt8) : Verdict :=
  if isSpace c then .more ⟨.beginString, stack⟩
  else if c == 0x22 then .more ⟨.inString, stack⟩
  else .bad

def endValue (stack : List ParseState) (c : UInt8) : Verdict :=
  match stack with
  | [] => .ended
  | ps :: rest =>
    if isSpace c then .more ⟨.endValue, stack⟩
    else
      match ps with
      | .objectKey => if c == 0x3a then .more ⟨.beginValue, .objectValue :: rest⟩ else .bad
      | .objectValue =>
        if c == 0x2c then .more ⟨.beginString, .objectKey :: rest⟩
        else if c == 0x7d then .closed rest
        else .bad
      | .arrayValue =>
        if c == 0x2c then .more ⟨.beginValue, stack⟩
        else if c == 0x5d then .closed rest
        else .bad

/-- Behind the digits of an integer. -/
def afterInt (stack : List ParseState) (c : UInt8) : Verdict :=
  if c == 0x2e then .more ⟨.dot, stack⟩
  else if c == 0x65 || c == 0x45 then .more ⟨.exp, stack⟩
  else endValue stack c

def expDigit (stack : List ParseState) (c : UInt8) : Verdict :=
  if isDigit c then .more ⟨.exp0, stack⟩ else .bad

def isEscape (c : UInt8) : Bool :=
  c == 0x62 || c == 0x66 || c == 0x6e || c == 0x72 || c == 0x74 || c == 0x5c || c == 0x2f ||
    c == 0x22

def step (s : Scanner) (c : UInt8) : Verdict :=
  match s.mode with
  | .beginValue => beginValue s.stack c
  | .beginValueOrEmpty =>
    if isSpace c then .more s
    else if c == 0x5d then endValue s.stack c
    else beginValue s.stack c
  | .beginString => beginString s.stack c
  | .beginStringOrEmpty =>
    if isSpace c then .more s
    else if c == 0x7d then endValue (.objectValue :: s.stack.tail) c
    else beginString s.stack c
  | .endValue => endValue s.stack c
  | .inString =>
    if c == 0x22 then .more ⟨.endValue, s.stack⟩
    else if c == 0x5c then .more ⟨.inStringEsc, s.stack⟩
    else if c < 0x20 then .bad
    else .more s
  | .inStringEsc =>
    if isEscape c then .more ⟨.inString, s.stack⟩
    else if c == 0x75 then .more ⟨.inStringEscU 3, s.stack⟩
    else .bad
  | .inStringEscU digits =>
    if isHexDigit c then
      .more ⟨if digits = 0 then .inString else .inStringEscU (digits - 1), s.stack⟩
    else .bad
  | .neg =>
    if c == 0x30 then .more ⟨.zero, s.stack⟩
    else if isDigit c then .more ⟨.one, s.stack⟩
    else .bad
  | .one => if isDigit c then .more s else afterInt s.stack c
  | .zero => afterInt s.stack c
  | .dot => if isDigit c then .more ⟨.dot0, s.stack⟩ else .bad
  | .dot0 =>
    if isDigit c then .more s
    else if c == 0x65 || c == 0x45 then .more ⟨.exp, s.stack⟩
    else endValue s.stack c
  | .exp =>
    if c == 0x2b || c == 0x2d then .more ⟨.expSign, s.stack⟩ else expDigit s.stack c
  | .expSign => expDigit s.stack c
  | .exp0 => if isDigit c then .more s else endValue s.stack c
  | .literal rest =>
    match rest with
    | [] => endValue s.stack c
    | l :: ls => if c == l then .more ⟨if ls = [] then .endValue else .literal ls, s.stack⟩ else .bad

/-- What is found at the front of bytes: a value of so many bytes, or more are needed. -/
inductive Found
  | more
  | value (n : Nat)
  | bad
deriving DecidableEq

def Found.shift (k : Nat) : Found → Found
  | value n => value (k + n)
  | f => f

/-- The loop of `readValue`. -/
def scan (s : Scanner) : Bytes → Found
  | [] => .more
  | c :: cs =>
    match step s c with
    | .more s' => (scan s' cs).shift 1
    | .closed stack => if stack = [] then .value 1 else (scan ⟨.endValue, stack⟩ cs).shift 1
    | .ended => .value 0
    | .bad => .bad

theorem Found.shift_eq_value {f : Found} {k n : Nat} :
    f.shift k = .value n ↔ ∃ m, f = .value m ∧ n = k + m := by
  cases f with
  | more => simp [shift]
  | bad => simp [shift]
  | value m => simp [shift, eq_comm]

theorem Found.shift_eq_more {f : Found} {k : Nat} : f.shift k = .more ↔ f = .more := by
  cases f <;> simp [shift]

variable {s : Scanner} {b : Bytes} {n : Nat} {stack : List ParseState} {c : UInt8}

theorem scan_le (h : scan s b = .value n) : n ≤ b.length := by
  induction b generalizing s n with
  | nil => cases h
  | cons c cs ih =>
    rw [length_cons]
    unfold scan at h
    split at h
    · obtain ⟨m, hm, rfl⟩ := Found.shift_eq_value.mp h
      have := ih hm
      omega
    · split_ifs at h
      · cases h
        omega
      · obtain ⟨m, hm, rfl⟩ := Found.shift_eq_value.mp h
        have := ih hm
        omega
    · cases h
      omega
    · cases h

/-! ## Inside an object -/

/-- The value goes on inside an object or an array, or closes it. -/
def Inner (v : Verdict) : Prop :=
  v ≠ .ended ∧ ∀ s', v = .more s' → s'.stack ≠ []

theorem inner_more {m : Mode} {stack : List ParseState} (h : stack ≠ []) : Inner (.more ⟨m, stack⟩) :=
  ⟨nofun, by rintro s' ⟨⟩; exact h⟩

theorem inner_bad : Inner .bad :=
  ⟨nofun, nofun⟩

theorem inner_closed (stack : List ParseState) : Inner (.closed stack) :=
  ⟨nofun, nofun⟩

theorem inner_ite {p : Prop} [Decidable p] {v v' : Verdict} (h : Inner v) (h' : Inner v') :
    Inner (if p then v else v') := by
  split
  · exact h
  · exact h'

theorem inner_push (ps : ParseState) (m : Mode) : Inner (push ps m stack) :=
  inner_ite (inner_more (cons_ne_nil _ _)) inner_bad

theorem inner_beginValue (h : stack ≠ []) : Inner (beginValue stack c) := by
  unfold beginValue
  refine inner_ite (inner_more h) (inner_ite (inner_push _ _) (inner_ite (inner_push _ _) ?_))
  repeat' apply inner_ite
  all_goals
    first
    | exact inner_more h
    | exact inner_bad

theorem inner_beginString (h : stack ≠ []) : Inner (beginString stack c) :=
  inner_ite (inner_more h) (inner_ite (inner_more h) inner_bad)

theorem inner_endValue (h : stack ≠ []) : Inner (endValue stack c) := by
  cases stack with
  | nil => exact absurd rfl h
  | cons ps rest =>
    have hcons (ps' : ParseState) : ps' :: rest ≠ [] := cons_ne_nil _ _
    refine inner_ite (inner_more h) ?_
    cases ps with
    | objectKey => exact inner_ite (inner_more (hcons _)) inner_bad
    | objectValue =>
      exact inner_ite (inner_more (hcons _)) (inner_ite (inner_closed _) inner_bad)
    | arrayValue => exact inner_ite (inner_more h) (inner_ite (inner_closed _) inner_bad)

theorem inner_afterInt (h : stack ≠ []) : Inner (afterInt stack c) :=
  inner_ite (inner_more h) (inner_ite (inner_more h) (inner_endValue h))

theorem inner_expDigit (h : stack ≠ []) : Inner (expDigit stack c) :=
  inner_ite (inner_more h) inner_bad

/-- Inside an object or an array nothing ends but with a byte that closes it. -/
theorem inner_step (hs : s.stack ≠ []) : Inner (step s c) := by
  obtain ⟨mode, stack⟩ := s
  unfold step
  cases mode with
  | beginValue => exact inner_beginValue hs
  | beginString => exact inner_beginString hs
  | endValue => exact inner_endValue hs
  | zero => exact inner_afterInt hs
  | expSign => exact inner_expDigit hs
  | beginValueOrEmpty =>
    exact inner_ite (inner_more hs) (inner_ite (inner_endValue hs) (inner_beginValue hs))
  | beginStringOrEmpty =>
    exact inner_ite (inner_more hs)
      (inner_ite (inner_endValue (cons_ne_nil _ _)) (inner_beginString hs))
  | literal rest =>
    cases rest with
    | nil => exact inner_endValue hs
    | cons l ls => exact inner_ite (inner_more hs) inner_bad
  | one => exact inner_ite (inner_more hs) (inner_afterInt hs)
  | exp => exact inner_ite (inner_more hs) (inner_expDigit hs)
  | exp0 => exact inner_ite (inner_more hs) (inner_endValue hs)
  | dot0 => exact inner_ite (inner_more hs) (inner_ite (inner_more hs) (inner_endValue hs))
  | inString | inStringEsc | inStringEscU _ | neg | dot =>
    dsimp only
    repeat' apply inner_ite
    all_goals
      first
      | exact inner_more hs
      | exact inner_bad

/-- An object that is not complete ends behind what is there. -/
theorem lt_of_more_open (hs : s.stack ≠ []) (h : scan s b = .more) {rest : Bytes}
    (hv : scan s (b ++ rest) = .value n) : b.length < n := by
  induction b generalizing s n with
  | nil =>
    -- a byte is needed for any end, since this is inside an object
    cases rest with
    | nil => cases hv
    | cons c cs =>
      have hinner : Inner (step s c) := inner_step hs
      rw [nil_append, scan] at hv
      split at hv
      · obtain ⟨m, -, rfl⟩ := Found.shift_eq_value.mp hv
        exact Nat.lt_add_right m Nat.one_pos
      · split_ifs at hv
        · cases hv
          simp
        · obtain ⟨m, -, rfl⟩ := Found.shift_eq_value.mp hv
          exact Nat.lt_add_right m Nat.one_pos
      · rename_i hstep
        exact absurd hstep hinner.1
      · cases hv
  | cons c cs ih =>
    have hinner : Inner (step s c) := inner_step hs
    rw [cons_append, scan] at hv
    rw [scan] at h
    rw [length_cons]
    split at hv
    · rename_i s' hstep
      rw [hstep] at h
      obtain ⟨m, hm, rfl⟩ := Found.shift_eq_value.mp hv
      have := ih (hinner.2 s' hstep) (Found.shift_eq_more.mp h) hm
      omega
    · rename_i stack hstep
      rw [hstep] at h
      dsimp only at h
      split_ifs at h hv with hstack
      obtain ⟨m, hm, rfl⟩ := Found.shift_eq_value.mp hv
      have := ih hstack (Found.shift_eq_more.mp h) hm
      omega
    · rename_i hstep
      exact absurd hstep hinner.1
    · cases hv

/-! ## White space in front -/

theorem scan_space {w : Bytes} (hw : ∀ c ∈ w, isSpace c) (b : Bytes) :
    scan start (w ++ b) = (scan start b).shift w.length := by
  induction w with
  | nil =>
    cases h : scan start b <;> simp [h, Found.shift]
  | cons c cs ih =>
    have hc : step start c = .more start := if_pos (hw c mem_cons_self)
    rw [cons_append, scan, hc]
    dsimp only
    rw [ih fun c' hc' => hw c' (mem_cons_of_mem c hc')]
    cases scan start b with
    | more | bad => rfl
    | value n =>
      simp only [Found.shift, length_cons, Found.value.injEq]
      omega

/-- An opening brace. -/
def brace : UInt8 := 0x7b

theorem lt_of_more (h : scan start (brace :: b) = .more) {rest : Bytes}
    (hv : scan start (brace :: b ++ rest) = .value n) : (brace :: b).length < n := by
  have hstep : step start brace = .more ⟨.beginStringOrEmpty, [.objectKey]⟩ := rfl
  rw [scan, hstep] at h
  rw [cons_append, scan, hstep] at hv
  obtain ⟨m, hm, rfl⟩ := Found.shift_eq_value.mp hv
  have := lt_of_more_open (cons_ne_nil _ _) (Found.shift_eq_more.mp h) hm
  rw [length_cons]
  omega

end Lankeeper.Lib.JsonScan
