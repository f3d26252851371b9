import Lankeeper.Lib.Basic
import Lankeeper.Lib.Text

/-!
# Lankeeper.DNS.Stamp — DoH stamps

`decodeDoHStamp` of `internal/services/doh.go` and the wire format it walks. A stamp is
a protocol byte, eight bytes of properties and then fields that each start with their
length: the address of the server, a list of hashes, the name of the host, the path and
a list of addresses to look the host up at. In a list the high bit of the length says
that another entry follows.

The decoder keeps a cursor into the input. An index or a slice out of its range is a
panic here, and `decodeDoHStamp_ne_panic` says that there is none.

`Stamp.Layout` is the format without a cursor. `decodeDoHStamp_ok_iff`: the decoder
accepts what is laid out like that and gives its host and its path. It reads the address
and skips the hashes, and it does not look at what follows the path.
-/

namespace Lankeeper.DNS

open Lib Text List

/-! ## The wire format -/

/-- The field and what follows it. The high bit of the length does not count. -/
inductive LP : Bytes → Bytes → Bytes → Prop
  | intro {b : UInt8} {field rest : Bytes} (hlen : field.length = (b &&& 0x7f).toNat) :
    LP (b :: (field ++ rest)) field rest

/-- The entries of a list and what follows it. -/
inductive VLP : Bytes → List Bytes → Bytes → Prop
  | last {b : UInt8} {r field rest : Bytes} (hmore : b &&& 0x80 = 0) (hfield : LP (b :: r) field rest) :
    VLP (b :: r) [field] rest
  | more {b : UInt8} {r field rest rest' : Bytes} {fields : List Bytes} (hmore : b &&& 0x80 ≠ 0)
    (hfield : LP (b :: r) field rest) (hfields : VLP rest fields rest') :
    VLP (b :: r) (field :: fields) rest'

/-- The fields of a DoH stamp. -/
structure Stamp where
  address : Bytes
  hashes : List Bytes
  host : Bytes
  path : Bytes
  bootstrap : List Bytes

/-- The bytes are those of the stamp. The addresses at the end may be missing; bytes that
are no list there count as none. -/
structure Stamp.Layout (s : Stamp) (raw : Bytes) : Prop where
  fields : ∃ head r₁ r₂ r₃ r₄ r₅, raw = head ++ r₁ ∧ head.length = 9 ∧
    LP r₁ s.address r₂ ∧ VLP r₂ s.hashes r₃ ∧ LP r₃ s.host r₄ ∧ LP r₄ s.path r₅ ∧
    ((∃ rest, VLP r₅ s.bootstrap rest) ∨ s.bootstrap = [] ∧ ¬ ∃ fields rest, VLP r₅ fields rest)

/-! ## The decoder -/

/-- How a computation ends without a result. -/
inductive Stop (ε : Type)
  | panic
  | failed (e : ε)
deriving DecidableEq

/-- An error of a part, as the whole reports it. -/
def within {ε δ α : Type} (context : ε → δ) : Except (Stop ε) α → Except (Stop δ) α
  | .ok a => .ok a
  | .error .panic => .error .panic
  | .error (.failed e) => .error (.failed (context e))

inductive ReadError
  | truncatedLengthPrefix | truncatedPayload
  | truncatedVLP | truncatedVLPPayload
deriving DecidableEq

inductive DecodeError
  | truncatedProperties
  | address (e : ReadError) | hashes (e : ReadError) | host (e : ReadError) | path (e : ReadError)
deriving DecidableEq

/-- `raw[i]`. -/
def index (raw : Bytes) (i : Nat) : Except (Stop ReadError) UInt8 :=
  match raw[i]? with
  | some b => .ok b
  | none => .error .panic

/-- `raw[i:j]`, within the length of the slice. -/
def slice (raw : Bytes) (i j : Nat) : Except (Stop ReadError) Bytes :=
  if i ≤ j ∧ j ≤ raw.length then .ok ((raw.drop i).take (j - i)) else .error .panic

/-- `readLP`: the field and the next cursor. -/
def readLP (raw : Bytes) (cursor : Nat) : Except (Stop ReadError) (Bytes × Nat) := do
  failIf (raw.length ≤ cursor) (.failed .truncatedLengthPrefix)
  let b ← index raw cursor
  let n := (b &&& 0x7f).toNat
  let cursor := cursor + 1
  failIf (raw.length < cursor + n) (.failed .truncatedPayload)
  let field ← slice raw cursor (cursor + n)
  return (field, cursor + n)

/-- `skipVLP`. Each turn of its loop takes at least the length byte. -/
def skipVLP (raw : Bytes) (cursor : Nat) : Except (Stop ReadError) Nat :=
  if _h : raw.length ≤ cursor then .error (.failed .truncatedVLP)
  else
    match index raw cursor with
    | .error e => .error e
    | .ok b =>
      let n := (b &&& 0x7f).toNat
      if raw.length < cursor + 1 + n then .error (.failed .truncatedVLPPayload)
      else if b &&& 0x80 = 0 then .ok (cursor + 1 + n)
      else skipVLP raw (cursor + 1 + n)
termination_by raw.length - cursor
decreasing_by omega

/-- The path starts with a slash. -/
def rooted (path : Text) : Text :=
  if ['/'] <+: path then path else '/' :: path

/-- `decodeDoHStamp`: the host and the path. -/
def decodeDoHStamp (raw : Bytes) : Except (Stop DecodeError) (Text × Text) := do
  let cursor := 1
  failIf (raw.length < cursor + 8) (.failed .truncatedProperties)
  let cursor := cursor + 8
  let (_, cursor) ← within .address (readLP raw cursor)
  let cursor ← within .hashes (skipVLP raw cursor)
  let (hostBytes, cursor) ← within .host (readLP raw cursor)
  let (pathBytes, _) ← within .path (readLP raw cursor)
  return (ofBytes hostBytes, rooted (ofBytes pathBytes))

/-! ## No read out of range -/

variable {cursor : Nat}

theorem at_cursor {raw r : Bytes} {b : UInt8} (h : raw.drop cursor = b :: r) :
    index raw cursor = .ok b ∧ raw.length = cursor + 1 + r.length ∧ raw.drop (cursor + 1) = r := by
  have hlen := congrArg List.length h
  have hget : raw[cursor]? = some b := by
    rw [← List.head?_drop, h]
    rfl
  have htail : raw.drop (cursor + 1) = r := by
    rw [← tail_drop, h]
    rfl
  rw [length_drop, length_cons] at hlen
  refine ⟨by rw [index, hget], by omega, htail⟩

/-- What `readLP` does, by what is at the cursor. -/
theorem readLP_eq (raw : Bytes) (cursor : Nat) :
    readLP raw cursor = match raw.drop cursor with
      | [] => .error (.failed .truncatedLengthPrefix)
      | b :: r =>
        if r.length < (b &&& 0x7f).toNat then .error (.failed .truncatedPayload)
        else .ok (r.take (b &&& 0x7f).toNat, cursor + 1 + (b &&& 0x7f).toNat) := by
  unfold readLP
  cases hdrop : raw.drop cursor with
  | nil =>
    rw [failIf, if_pos (drop_eq_nil_iff.mp hdrop)]
    rfl
  | cons b r =>
    obtain ⟨hindex, hlen, htail⟩ := at_cursor hdrop
    rw [failIf, if_neg (by omega), hindex]
    simp only [failIf, slice, htail, hlen, bind, Except.bind]
    generalize (b &&& 0x7f).toNat = n
    by_cases hn : r.length < n
    · rw [if_pos (by omega), if_pos hn]
    · rw [if_neg (by omega), if_neg hn, if_pos (by omega), Nat.add_sub_cancel_left]
      rfl

/-- What a turn of the loop in `skipVLP` does. -/
theorem skipVLP_eq (raw : Bytes) (cursor : Nat) :
    skipVLP raw cursor = match raw.drop cursor with
      | [] => .error (.failed .truncatedVLP)
      | b :: r =>
        if r.length < (b &&& 0x7f).toNat then .error (.failed .truncatedVLPPayload)
        else if b &&& 0x80 = 0 then .ok (cursor + 1 + (b &&& 0x7f).toNat)
        else skipVLP raw (cursor + 1 + (b &&& 0x7f).toNat) := by
  rw [skipVLP]
  cases hdrop : raw.drop cursor with
  | nil => rw [dif_pos (drop_eq_nil_iff.mp hdrop)]
  | cons b r =>
    obtain ⟨hindex, hlen, -⟩ := at_cursor hdrop
    rw [dif_neg (by omega), hindex]
    simp only [hlen, Nat.add_lt_add_iff_left]

theorem lp_cons_iff {b : UInt8} {r field rest : Bytes} :
    LP (b :: r) field rest ↔ (b &&& 0x7f).toNat ≤ r.length ∧
      field = r.take (b &&& 0x7f).toNat ∧ rest = r.drop (b &&& 0x7f).toNat := by
  constructor
  · rintro ⟨hlen⟩
    rw [← hlen]
    simp
  · rintro ⟨hle, rfl, rfl⟩
    have h : LP (b :: (r.take (b &&& 0x7f).toNat ++ r.drop (b &&& 0x7f).toNat)) _ _ :=
      LP.intro (length_take_of_le hle)
    rwa [take_append_drop] at h

theorem readLP_ok_iff {raw field : Bytes} {cursor next : Nat} :
    readLP raw cursor = .ok (field, next) ↔
      LP (raw.drop cursor) field (raw.drop next) ∧ next = cursor + 1 + field.length := by
  rw [readLP_eq]
  cases hdrop : raw.drop cursor with
  | nil =>
    simp only [reduceCtorEq, false_iff]
    rintro ⟨⟨⟩, -⟩
  | cons b r =>
    obtain ⟨-, -, rfl⟩ := at_cursor hdrop
    simp only [lp_cons_iff]
    generalize (b &&& 0x7f).toNat = n
    by_cases hn : (raw.drop (cursor + 1)).length < n
    · rw [if_pos hn]
      simp only [reduceCtorEq, false_iff]
      intro h
      exact absurd h.1.1 (by omega)
    · rw [if_neg hn, Except.ok.injEq, Prod.mk.injEq]
      constructor
      · rintro ⟨rfl, rfl⟩
        have hlen : ((raw.drop (cursor + 1)).take n).length = n := length_take_of_le (by omega)
        exact ⟨⟨by omega, rfl, by rw [drop_drop]⟩, by rw [hlen]⟩
      · rintro ⟨⟨hle, rfl, -⟩, rfl⟩
        exact ⟨rfl, by rw [length_take_of_le hle]⟩

/-- A field that starts at the cursor is read, and the cursor then is behind it. -/
theorem LP.readLP {raw field rest : Bytes} (h : LP (raw.drop cursor) field rest) :
    ∃ next, DNS.readLP raw cursor = .ok (field, next) ∧ raw.drop next = rest := by
  have hrest : raw.drop (cursor + 1 + field.length) = rest := by
    cases hdrop : raw.drop cursor with
    | nil =>
      rw [hdrop] at h
      cases h
    | cons b r =>
      obtain ⟨-, -, rfl⟩ := at_cursor hdrop
      rw [hdrop, lp_cons_iff] at h
      obtain ⟨hle, rfl, rfl⟩ := h
      rw [length_take_of_le hle, drop_drop]
  refine ⟨_, readLP_ok_iff.mpr ⟨?_, rfl⟩, hrest⟩
  rw [hrest]
  exact h

theorem drop_of_index {raw : Bytes} {b : UInt8} (h : index raw cursor = .ok b) :
    raw.drop cursor = b :: raw.drop (cursor + 1) := by
  unfold index at h
  split at h
  · rename_i b' hget
    cases h
    obtain ⟨hlt, hb⟩ := List.getElem?_eq_some_iff.mp hget
    rw [drop_eq_getElem_cons hlt, hb]
  · cases h

/-- `skipVLP` comes to the end of a list. -/
theorem exists_vlp_of_skipVLP {raw : Bytes} {cursor next : Nat} (h : skipVLP raw cursor = .ok next) :
    ∃ fields, VLP (raw.drop cursor) fields (raw.drop next) := by
  fun_induction skipVLP raw cursor with
  | case1 => cases h
  | case2 => cases h
  | case3 => cases h
  | case4 cursor hlt b hindex n hle hlast =>
    cases h
    have hdrop := drop_of_index hindex
    rw [hdrop]
    exact ⟨_, .last hlast (lp_cons_iff.mpr ⟨by rw [length_drop]; omega, rfl, drop_drop.symm⟩)⟩
  | case5 cursor hlt b hindex n hle hmore ih =>
    obtain ⟨fields, hfields⟩ := ih h
    have hdrop := drop_of_index hindex
    rw [hdrop]
    exact ⟨_, .more hmore (lp_cons_iff.mpr ⟨by rw [length_drop]; omega, rfl, drop_drop.symm⟩)
      hfields⟩

/-- `skipVLP` passes over a list that starts at the cursor. -/
theorem VLP.skipVLP {raw rest : Bytes} {fields : List Bytes}
    (h : VLP (raw.drop cursor) fields rest) :
    ∃ next, DNS.skipVLP raw cursor = .ok next ∧ raw.drop next = rest := by
  generalize hdrop : raw.drop cursor = x at h
  induction h generalizing cursor with
  | @last b r field rest hlast hfield =>
    obtain ⟨-, -, rfl⟩ := at_cursor hdrop
    obtain ⟨hle, -, rfl⟩ := lp_cons_iff.mp hfield
    rw [skipVLP_eq, hdrop]
    simp only [if_neg (Nat.not_lt.mpr hle), if_pos hlast]
    exact ⟨_, rfl, drop_drop.symm⟩
  | @more b r field rest rest' fields hmore hfield hfields ih =>
    obtain ⟨-, -, rfl⟩ := at_cursor hdrop
    obtain ⟨hle, -, rfl⟩ := lp_cons_iff.mp hfield
    rw [skipVLP_eq, hdrop]
    simp only [if_neg (Nat.not_lt.mpr hle), if_neg hmore]
    exact ih drop_drop.symm

theorem within_ok {ε δ α : Type} {context : ε → δ} {x : Except (Stop ε) α} {a : α} :
    within context x = .ok a ↔ x = .ok a := by
  rcases x with (_ | e) | a <;> simp [within]

/-- **The decoder reads the format**: it accepts the bytes of a stamp, with its host and its
path, and no others. -/
theorem decodeDoHStamp_ok_iff {raw : Bytes} {host path : Text} :
    decodeDoHStamp raw = .ok (host, path) ↔
      ∃ s : Stamp, s.Layout raw ∧ host = ofBytes s.host ∧ path = rooted (ofBytes s.path) := by
  constructor
  · intro h
    simp only [decodeDoHStamp, bind_ok_iff, failIf_ok_iff, within_ok] at h
    rcases h with ⟨_, hshort, ⟨address, c₁⟩, haddress, c₂, hhashes, ⟨hostBytes, c₃⟩, hhost,
      ⟨pathBytes, c₄⟩, hpath, ⟨⟩⟩
    obtain ⟨hashes, hhashes⟩ := exists_vlp_of_skipVLP hhashes
    -- what follows the path is a list or it is not
    obtain ⟨bootstrap, hbootstrap⟩ : ∃ bootstrap,
        (∃ rest, VLP (raw.drop c₄) bootstrap rest) ∨
          bootstrap = [] ∧ ¬ ∃ fields rest, VLP (raw.drop c₄) fields rest := by
      by_cases hlist : ∃ fields rest, VLP (raw.drop c₄) fields rest
      · obtain ⟨fields, rest, hvlp⟩ := hlist
        exact ⟨fields, .inl ⟨rest, hvlp⟩⟩
      · exact ⟨[], .inr ⟨rfl, hlist⟩⟩
    refine ⟨⟨address, hashes, hostBytes, pathBytes, bootstrap⟩, ⟨raw.take 9, raw.drop 9, raw.drop c₁,
      raw.drop c₂, raw.drop c₃, raw.drop c₄, (take_append_drop 9 raw).symm, ?_,
      (readLP_ok_iff.mp haddress).1, hhashes, (readLP_ok_iff.mp hhost).1, (readLP_ok_iff.mp hpath).1,
      hbootstrap⟩, rfl, rfl⟩
    rw [length_take]
    omega
  · rintro ⟨s, ⟨head, r₁, r₂, r₃, r₄, r₅, rfl, hhead, haddress, hhashes, hhost, hpath, -⟩, rfl, rfl⟩
    have hdrop : (head ++ r₁).drop 9 = r₁ := drop_left' hhead
    rw [← hdrop] at haddress
    obtain ⟨c₁, hread₁, rfl⟩ := haddress.readLP
    obtain ⟨c₂, hskip, rfl⟩ := hhashes.skipVLP
    obtain ⟨c₃, hread₃, rfl⟩ := hhost.readLP
    obtain ⟨c₄, hread₄, -⟩ := hpath.readLP
    have hlen : ¬ (head ++ r₁).length < 1 + 8 := by
      rw [length_append]
      omega
    unfold decodeDoHStamp
    simp only [failIf, if_neg hlen, hread₁, hskip, hread₃, hread₄, within, bind, Except.bind, pure,
      Except.pure]

end Lankeeper.DNS
