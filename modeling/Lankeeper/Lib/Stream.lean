import Mathlib.Data.List.Basic

/-!
# Lankeeper.Lib.Stream — messages that arrive in pieces

A byte stream carries messages one after the other, and a reader gets them in pieces. What
a piece says is which message it belongs to and whether it is the last of it. A reader
gathers pieces until it has a last one, and takes what it gathered for the message of the
first piece, so what an earlier reader left behind would be taken for the message of
a later one.
-/

namespace Lankeeper.Lib

structure Piece (α : Type*) where
  msg : α
  last : Bool

namespace Stream

variable {α : Type*} {m : α} {c : Piece α} {cs front rest : List (Piece α)}

/-- The message that is read when the piece `c` completes the pieces gathered before. -/
def message (gathered : List (Piece α)) (c : Piece α) : α :=
  match gathered with
  | [] => c.msg
  | first :: _ => first.msg

/-- Pieces of `m`, and not the last one. -/
def Begun (m : α) (cs : List (Piece α)) : Prop :=
  ∀ c ∈ cs, c.msg = m ∧ c.last = false

/-- All pieces of `m`. -/
def Complete (m : α) (cs : List (Piece α)) : Prop :=
  ∃ front c, cs = front ++ [c] ∧ Begun m front ∧ c.msg = m ∧ c.last

theorem begun_nil (m : α) : Begun m [] :=
  nofun

theorem Begun.push (h : Begun m cs) : Begun m (cs ++ [⟨m, false⟩]) :=
  List.forall_mem_append.mpr ⟨h, List.forall_mem_singleton.mpr ⟨rfl, rfl⟩⟩

theorem Begun.finish (h : Begun m cs) : Complete m (cs ++ [⟨m, true⟩]) :=
  ⟨cs, _, rfl, h, rfl, rfl⟩

/-- A message that is not complete has no last piece. -/
theorem Begun.not_last (h : Begun m (front ++ c :: rest)) : c.last = false :=
  (h c (by simp)).2

/-- Only the last piece of a complete message is marked, and reading up to it gives the
message and leaves nothing. -/
theorem Complete.read (h : Complete m (front ++ c :: rest)) (hc : c.last) :
    rest = [] ∧ message front c = m := by
  obtain ⟨before, last, heq, hbefore, hmsg, -⟩ := h
  rcases List.eq_nil_or_concat rest with rfl | ⟨rest', d, rfl⟩
  · obtain ⟨rfl, hcl⟩ := List.append_inj' heq rfl
    obtain rfl := List.singleton_inj.mp hcl
    refine ⟨rfl, ?_⟩
    cases front with
    | nil => exact hmsg
    | cons first tail => exact (hbefore first List.mem_cons_self).1
  · -- `c` would be one of the pieces before the last
    have hsplit : front ++ c :: rest' = before := by
      have h' : (front ++ c :: rest') ++ [d] = before ++ [last] := by simpa using heq
      exact (List.append_inj' h' rfl).1
    have hmem : c ∈ before := hsplit ▸ List.mem_append_right _ List.mem_cons_self
    rw [(hbefore c hmem).2] at hc
    cases hc

end Stream

end Lankeeper.Lib
