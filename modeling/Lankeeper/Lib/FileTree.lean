import Lankeeper.Lib.Path

/-!
# Lankeeper.Lib.FileTree — a file tree with symbolic links

A state of the file system is a partial map from locations to nodes. `walk`
resolves a list of components the way the kernel does: `..` is taken after the
links before it have been followed, a link costs one unit of a link budget, and
every component but the last must be a directory. With `create` set the last
component may be missing, as for `open(2)` with `O_CREAT`.

Rules used by the developments above this one:

* `Walks.mono` / `Walks.unique` — the budget does not change where a walk ends;
* `Walks.split` / `Walks.trans` — a walk splits at, and composes over, any point;
* `Walks.toCreate` — `O_CREAT` only adds results;
* `Reaches.straight` — a path that does not climb leads where its names lead.
-/

namespace Lankeeper.Lib

open Lib.Path List

inductive Node where
  | dir
  | file
  | symlink (target : Text)
deriving DecidableEq

/-- A file system state: the root is a directory, every other node stands in a
directory, and no link is empty. -/
structure FileTree where
  node : Loc → Option Node
  root_dir : node [] = some .dir
  parent_dir : ∀ l n, (node (l ++ [n])).isSome → node l = some .dir
  link_ne : ∀ l, node l ≠ some (.symlink [])

inductive Errno where
  | enoent
  | enotdir
  | eloop
deriving DecidableEq, Repr

namespace FileTree

variable (fs : FileTree)

/-! ## Walking a path -/

/-- Where a link's target is read from: the root, or the directory it is in. -/
def linkStart (cur : Loc) (target : Text) : Loc :=
  if isAbs target then [] else cur

/-- One pass over the components. `follow` takes over at the first link, with
the link's target in front of what is left. -/
def walkWith (create : Bool) (follow : Loc → List Comp → Except Errno Loc) :
    Loc → List Comp → Except Errno Loc
  | cur, [] => .ok cur
  | cur, .skip :: cs => walkWith create follow cur cs
  | cur, .up :: cs => walkWith create follow cur.dropLast cs
  | cur, .name n :: cs =>
    match fs.node (cur ++ [n]) with
    | none => if create && cs.isEmpty then .ok (cur ++ [n]) else .error .enoent
    | some .dir => walkWith create follow (cur ++ [n]) cs
    | some .file => if cs.isEmpty then .ok (cur ++ [n]) else .error .enotdir
    | some (.symlink t) => follow (linkStart cur t) (comps t ++ cs)

/-- Path resolution following at most `links` links. -/
def walk (create : Bool) : (links : Nat) → Loc → List Comp → Except Errno Loc
  | 0 => walkWith fs create fun _ _ => .error .eloop
  | links + 1 => walkWith fs create (walk create links)

variable {fs} {create : Bool}

/-! ## One component at a time -/

@[simp] theorem walk_nil (k : Nat) (cur : Loc) : fs.walk create k cur [] = .ok cur := by
  cases k <;> rfl

@[simp] theorem walk_skip (k : Nat) (cur : Loc) (cs : List Comp) :
    fs.walk create k cur (.skip :: cs) = fs.walk create k cur cs := by
  cases k <;> rfl

@[simp] theorem walk_up (k : Nat) (cur : Loc) (cs : List Comp) :
    fs.walk create k cur (.up :: cs) = fs.walk create k cur.dropLast cs := by
  cases k <;> rfl

variable {cur l d : Loc} {n : Name} {k m : Nat} {cs : List Comp} {p : Text}

theorem walk_name_none (h : fs.node (cur ++ [n]) = none) (k : Nat) (cs : List Comp) :
    fs.walk create k cur (.name n :: cs) =
      if create && cs.isEmpty then .ok (cur ++ [n]) else .error .enoent := by
  cases k <;> simp only [walk, walkWith, h]

theorem walk_name_dir (h : fs.node (cur ++ [n]) = some .dir) (k : Nat) (cs : List Comp) :
    fs.walk create k cur (.name n :: cs) = fs.walk create k (cur ++ [n]) cs := by
  cases k <;> simp only [walk, walkWith, h]

theorem walk_name_file (h : fs.node (cur ++ [n]) = some .file) (k : Nat) (cs : List Comp) :
    fs.walk create k cur (.name n :: cs) =
      if cs.isEmpty then .ok (cur ++ [n]) else .error .enotdir := by
  cases k <;> simp only [walk, walkWith, h]

theorem walk_name_link {t : Text} (h : fs.node (cur ++ [n]) = some (.symlink t)) (k : Nat)
    (cs : List Comp) :
    fs.walk create (k + 1) cur (.name n :: cs) =
      fs.walk create k (linkStart cur t) (comps t ++ cs) := by
  simp only [walk, walkWith, h]

theorem walk_name_link_zero {t : Text} (h : fs.node (cur ++ [n]) = some (.symlink t))
    (cs : List Comp) : fs.walk create 0 cur (.name n :: cs) = .error .eloop := by
  simp only [walk, walkWith, h]

/-- Everything a successful walk can have done with its first component. -/
theorem walk_name_cases (h : fs.walk create k cur (.name n :: cs) = .ok l) :
    (fs.node (cur ++ [n]) = none ∧ create ∧ cs = [] ∧ l = cur ++ [n]) ∨
    (fs.node (cur ++ [n]) = some .dir ∧ fs.walk create k (cur ++ [n]) cs = .ok l) ∨
    (fs.node (cur ++ [n]) = some .file ∧ cs = [] ∧ l = cur ++ [n]) ∨
    (∃ t j, fs.node (cur ++ [n]) = some (.symlink t) ∧ k = j + 1 ∧
      fs.walk create j (linkStart cur t) (comps t ++ cs) = .ok l) := by
  rcases hnode : fs.node (cur ++ [n]) with _ | _ | _ | t
  · rw [walk_name_none hnode] at h
    split at h
    · next hc =>
      simp only [Bool.and_eq_true, List.isEmpty_iff] at hc
      exact .inl ⟨rfl, hc.1, hc.2, (Except.ok.inj h).symm⟩
    · cases h
  · rw [walk_name_dir hnode] at h
    exact .inr (.inl ⟨rfl, h⟩)
  · rw [walk_name_file hnode] at h
    split at h
    · next hc => exact .inr (.inr (.inl ⟨rfl, List.isEmpty_iff.mp hc, (Except.ok.inj h).symm⟩))
    · cases h
  · cases k with
    | zero =>
      rw [walk_name_link_zero hnode] at h
      cases h
    | succ j =>
      rw [walk_name_link hnode] at h
      exact .inr (.inr (.inr ⟨t, j, rfl, rfl, h⟩))

/-! ## Walks as derivations

Every rule below is an induction over the steps a successful walk took. -/

variable (fs create) in
/-- `Walks fs create k cur cs l`: the components lead from `cur` to `l` over at
most `k` links. -/
inductive Walks : Nat → Loc → List Comp → Loc → Prop
  | nil (k : Nat) (cur : Loc) : Walks k cur [] cur
  | skip {k : Nat} {cur l : Loc} {cs : List Comp} : Walks k cur cs l → Walks k cur (.skip :: cs) l
  | up {k : Nat} {cur l : Loc} {cs : List Comp} :
      Walks k cur.dropLast cs l → Walks k cur (.up :: cs) l
  | made (k : Nat) {cur : Loc} {n : Name} : create → fs.node (cur ++ [n]) = none →
      Walks k cur [.name n] (cur ++ [n])
  | dir {k : Nat} {cur l : Loc} {n : Name} {cs : List Comp} : fs.node (cur ++ [n]) = some .dir →
      Walks k (cur ++ [n]) cs l → Walks k cur (.name n :: cs) l
  | file (k : Nat) {cur : Loc} {n : Name} : fs.node (cur ++ [n]) = some .file →
      Walks k cur [.name n] (cur ++ [n])
  | link {k : Nat} {cur l : Loc} {n : Name} {t : Text} {cs : List Comp} :
      fs.node (cur ++ [n]) = some (.symlink t) → Walks k (linkStart cur t) (comps t ++ cs) l →
      Walks (k + 1) cur (.name n :: cs) l

theorem Walks.walk_eq (h : Walks fs create k cur cs l) : fs.walk create k cur cs = .ok l := by
  induction h with
  | nil k cur => exact walk_nil k cur
  | skip _ ih => rw [walk_skip, ih]
  | up _ ih => rw [walk_up, ih]
  | made k hc hn => simp [walk_name_none hn, hc]
  | dir hn _ ih => rw [walk_name_dir hn, ih]
  | file k hn => simp [walk_name_file hn]
  | link hn _ ih => rw [walk_name_link hn, ih]

theorem walks_of_walk_eq (h : fs.walk create k cur cs = .ok l) : Walks fs create k cur cs l := by
  -- on the budget first (each link spends one), then on the components
  induction k using Nat.strong_induction_on generalizing cur cs with
  | _ k ihk =>
  induction cs generalizing cur with
  | nil =>
    obtain rfl : cur = l := by simpa using h
    exact .nil k cur
  | cons c cs ih =>
    rcases c with _ | _ | n
    · exact .skip (ih (by simpa using h))
    · exact .up (ih (by simpa using h))
    rcases walk_name_cases h with ⟨hn, hc, rfl, rfl⟩ | ⟨hn, hw⟩ | ⟨hn, rfl, rfl⟩ |
      ⟨t, j, hn, rfl, hw⟩
    · exact .made k hc hn
    · exact .dir hn (ih hw)
    · exact .file k hn
    · exact .link hn (ihk j (by omega) hw)

theorem walk_eq_iff : fs.walk create k cur cs = .ok l ↔ Walks fs create k cur cs l :=
  ⟨walks_of_walk_eq, Walks.walk_eq⟩

/-! ## Budgets -/

theorem Walks.mono (hkm : k ≤ m) (h : Walks fs create k cur cs l) : Walks fs create m cur cs l := by
  induction h generalizing m with
  | nil k cur => exact .nil m cur
  | skip _ ih => exact .skip (ih hkm)
  | up _ ih => exact .up (ih hkm)
  | made k hc hn => exact .made m hc hn
  | dir hn _ ih => exact .dir hn (ih hkm)
  | file k hn => exact .file m hn
  | link hn _ ih =>
    obtain ⟨m', rfl⟩ : ∃ m', m = m' + 1 := ⟨m - 1, by omega⟩
    exact .link hn (ih (by omega))

/-- Two successful walks of the same components end at the same place. -/
theorem Walks.unique {l' : Loc} (h : Walks fs create k cur cs l) (h' : Walks fs create m cur cs l') :
    l = l' := by
  have h₁ := (h.mono (Nat.le_max_left k m)).walk_eq
  have h₂ := (h'.mono (Nat.le_max_right k m)).walk_eq
  rw [h₁] at h₂
  exact Except.ok.inj h₂

/-- `O_CREAT` does not change where an existing path leads. -/
theorem Walks.toCreate (h : Walks fs false k cur cs l) : Walks fs true k cur cs l := by
  induction h with
  | nil k cur => exact .nil k cur
  | skip _ ih => exact .skip ih
  | up _ ih => exact .up ih
  | made k hc hn => exact .made k rfl hn
  | dir hn _ ih => exact .dir hn ih
  | file k hn => exact .file k hn
  | link hn _ ih => exact .link hn ih

/-- A walk that ends at something that exists creates nothing. -/
theorem Walks.ofCreate (h : Walks fs create k cur cs l) (hl : (fs.node l).isSome) :
    Walks fs false k cur cs l := by
  induction h with
  | nil k cur => exact .nil k cur
  | skip _ ih => exact .skip (ih hl)
  | up _ ih => exact .up (ih hl)
  | made k _ hn =>
    rw [hn] at hl
    cases hl
  | dir hn _ ih => exact .dir hn (ih hl)
  | file k hn => exact .file k hn
  | link hn _ ih => exact .link hn (ih hl)

/-! ## Splitting and composing -/

theorem walks_skip_iff : Walks fs create k cur (.skip :: cs) l ↔ Walks fs create k cur cs l := by
  rw [← walk_eq_iff, walk_skip, walk_eq_iff]

theorem walks_up_iff :
    Walks fs create k cur (.up :: cs) l ↔ Walks fs create k cur.dropLast cs l := by
  rw [← walk_eq_iff, walk_up, walk_eq_iff]

theorem dir_dropLast (h : fs.node cur = some .dir) : fs.node cur.dropLast = some .dir := by
  rcases eq_nil_or_concat cur with rfl | ⟨c, n, rfl⟩
  · exact fs.root_dir
  · simp only [concat_eq_append, dropLast_concat] at h ⊢
    exact fs.parent_dir c n (by simp [h])

theorem dir_linkStart (h : fs.node cur = some .dir) (t : Text) :
    fs.node (linkStart cur t) = some .dir := by
  unfold linkStart
  split
  · exact fs.root_dir
  · exact h

/-- A walk over `a ++ b` resolves `a` to a directory first, and only `b` may end
in a missing entry. -/
theorem Walks.split {a b : List Comp} (hb : b ≠ []) (hcur : fs.node cur = some .dir)
    (h : Walks fs create k cur (a ++ b) l) :
    ∃ mid j, j ≤ k ∧ fs.node mid = some .dir ∧ Walks fs false k cur a mid ∧
      Walks fs create j mid b l := by
  induction k using Nat.strong_induction_on generalizing cur a with
  | _ k ihk =>
  induction a generalizing cur with
  | nil => exact ⟨cur, k, le_rfl, hcur, .nil k cur, h⟩
  | cons c a iha =>
    rcases c with _ | _ | n
    · obtain ⟨mid, j, hj, hmid, hwa, hwb⟩ := iha hcur (walks_skip_iff.mp h)
      exact ⟨mid, j, hj, hmid, .skip hwa, hwb⟩
    · obtain ⟨mid, j, hj, hmid, hwa, hwb⟩ := iha (dir_dropLast hcur) (walks_up_iff.mp h)
      exact ⟨mid, j, hj, hmid, .up hwa, hwb⟩
    rcases walk_name_cases h.walk_eq with ⟨_, _, hnil, _⟩ | ⟨hn, hw⟩ | ⟨_, hnil, _⟩ |
      ⟨t, j, hn, hk, hw⟩
    · exact absurd (append_eq_nil_iff.mp hnil).2 hb
    · obtain ⟨mid, j, hj, hmid, hwa, hwb⟩ := iha hn (walks_of_walk_eq hw)
      exact ⟨mid, j, hj, hmid, .dir hn hwa, hwb⟩
    · exact absurd (append_eq_nil_iff.mp hnil).2 hb
    -- the target's components join the left part
    subst hk
    have hw' : Walks fs create j (linkStart cur t) ((comps t ++ a) ++ b) l := by
      rw [append_assoc]
      exact walks_of_walk_eq hw
    obtain ⟨mid, i, hi, hmid, hwa, hwb⟩ := ihk j (by omega) (dir_linkStart hcur t) hw'
    exact ⟨mid, i, by omega, hmid, .link hn hwa, hwb⟩

/-- Two walks compose when the first one ends in a directory. -/
theorem Walks.trans {mid : Loc} {a b : List Comp} (ha : Walks fs false k cur a mid)
    (hmid : fs.node mid = some .dir) (hb : Walks fs create m mid b l) :
    Walks fs create (k + m) cur (a ++ b) l := by
  induction ha with
  | nil k cur => exact hb.mono (by omega)
  | skip _ ih => exact .skip (ih hmid hb)
  | up _ ih => exact .up (ih hmid hb)
  | made k hc hn => simp at hc
  | dir hn _ ih => exact .dir hn (ih hmid hb)
  | file k hn =>
    cases hn.symm.trans hmid
  | @link k cur l n t cs hn _ ih =>
    have hw := ih hmid hb
    rw [append_assoc] at hw
    rw [Nat.add_right_comm]
    exact .link hn hw

/-- Every place a walk without `O_CREAT` reaches from a directory exists. -/
theorem Walks.exists (h : Walks fs false k cur cs l) (hcur : fs.node cur = some .dir) :
    (fs.node l).isSome := by
  induction h with
  | nil k cur => simp [hcur]
  | skip _ ih => exact ih hcur
  | up _ ih => exact ih (dir_dropLast hcur)
  | made k hc _ => simp at hc
  | dir hn _ ih => exact ih hn
  | file k hn => simp [hn]
  | link _ _ ih => exact ih (dir_linkStart hcur _)

/-! ## Texts of locations -/

/-- The path of a location is walked name by name. -/
theorem walk_comps_toText (k : Nat) (cur l : Loc) :
    fs.walk create k cur (comps (toText l)) = fs.walk create k cur (l.map .name) := by
  rw [comps_toText, walk_skip]
  split
  · next h => rw [h, walk_skip]; rfl
  · rfl

/-! ## Straight paths -/

variable (fs) in
/-- The components lead from `cur` to `l` within some budget. -/
def Reaches (cur : Loc) (cs : List Comp) (l : Loc) : Prop :=
  ∃ k, Walks fs false k cur cs l

theorem Reaches.unique {l' : Loc} (h : fs.Reaches cur cs l) (h' : fs.Reaches cur cs l') :
    l = l' := by
  obtain ⟨k, hk⟩ := h
  obtain ⟨m, hm⟩ := h'
  exact hk.unique hm

/-- Without `..` the skipped components can be left out. What stands before them
(the target of a link on the way) is left alone. -/
theorem Walks.dropSkips {x : List Comp} (hup : .up ∉ cs) (h : Walks fs create k cur (x ++ cs) l) :
    Walks fs create k cur (x ++ (names cs).map .name) l := by
  generalize hxs : x ++ cs = xs at h
  induction h generalizing x cs with
  | nil k cur =>
    obtain ⟨rfl, rfl⟩ := append_eq_nil_iff.mp hxs
    exact .nil k cur
  | @skip k cur l cs' _ ih =>
    rcases append_eq_cons_iff.mp hxs with ⟨rfl, rfl⟩ | ⟨x', rfl, rfl⟩
    · have hcs : .up ∉ cs' := fun hm => hup (mem_cons_of_mem _ hm)
      have hw := ih hcs (nil_append cs')
      exact hw
    · exact .skip (ih hup rfl)
  | up _ ih =>
    rcases append_eq_cons_iff.mp hxs with ⟨rfl, rfl⟩ | ⟨x', rfl, rfl⟩
    · exact absurd (mem_cons_self ..) hup
    · exact .up (ih hup rfl)
  | made k hc hn =>
    rcases append_eq_cons_iff.mp hxs with ⟨rfl, rfl⟩ | ⟨x', rfl, hx⟩
    · exact .made k hc hn
    · obtain ⟨rfl, rfl⟩ := append_eq_nil_iff.mp hx.symm
      exact .made k hc hn
  | dir hn _ ih =>
    rcases append_eq_cons_iff.mp hxs with ⟨rfl, rfl⟩ | ⟨x', rfl, rfl⟩
    · exact .dir hn (ih (x := []) (fun hm => hup (mem_cons_of_mem _ hm)) rfl)
    · exact .dir hn (ih hup rfl)
  | file k hn =>
    rcases append_eq_cons_iff.mp hxs with ⟨rfl, rfl⟩ | ⟨x', rfl, hx⟩
    · exact .file k hn
    · obtain ⟨rfl, rfl⟩ := append_eq_nil_iff.mp hx.symm
      exact .file k hn
  | link hn _ ih =>
    rcases append_eq_cons_iff.mp hxs with ⟨rfl, rfl⟩ | ⟨x', rfl, rfl⟩
    · exact .link hn (ih (fun hm => hup (mem_cons_of_mem _ hm)) rfl)
    · have hw := ih hup (append_assoc ..)
      rw [append_assoc] at hw
      exact .link hn hw

/-- **A path that does not climb leads where its names lead.** -/
theorem Reaches.straight (hc : climbs cs = false) (h : fs.Reaches [] cs l) :
    fs.Reaches [] ((names cs).map .name) l := by
  induction cs with
  | nil => exact h
  | cons c cs ih =>
    cases c with
    | skip =>
      obtain ⟨k, hk⟩ := h
      exact ih hc ⟨k, walks_skip_iff.mp hk⟩
    | up =>
      obtain ⟨k, hk⟩ := h
      exact ih hc ⟨k, walks_up_iff.mp hk⟩
    | name n =>
      obtain ⟨k, hk⟩ := h
      refine ⟨k, Walks.dropSkips (x := []) ?_ hk⟩
      simpa using of_decide_eq_false hc

theorem walks_toText :
    Walks fs create k cur (comps (toText d)) l ↔ Walks fs create k cur (d.map .name) l := by
  rw [← walk_eq_iff, walk_comps_toText, walk_eq_iff]

theorem reaches_toText : fs.Reaches cur (comps (toText d)) l ↔ fs.Reaches cur (d.map .name) l := by
  unfold Reaches
  simp only [walks_toText]

/-! ## System calls -/

/-- The kernel's limit on links followed in one lookup. -/
def maxLinks : Nat := 40

variable (fs) in
/-- A path as a system call reads it, relative to the working directory `cwd`. -/
def lookup (create : Bool) (cwd : Loc) (p : Text) : Except Errno Loc :=
  if p = [] then .error .enoent
  else fs.walk create maxLinks (linkStart cwd p) (comps p)

variable (fs) in
/-- The place `open(2)` with `O_CREAT` opens or creates for an absolute path. -/
def openCreat (p : Text) : Except Errno Loc :=
  fs.lookup true [] p

variable (fs) in
/-- The existing node an absolute path leads to, links followed. -/
def stat (p : Text) : Except Errno Loc :=
  fs.lookup false [] p

variable (fs) in
/-- The existing entry a path names, its last component not followed, as
`unlink(2)` and `lstat(2)` see it. -/
def lstat (p : Text) : Option Loc :=
  match (comps p).getLast? with
  | some (.name n) =>
    match fs.walk false maxLinks [] (comps p).dropLast with
    | .ok d => if (fs.node (d ++ [n])).isSome then some (d ++ [n]) else none
    | .error _ => none
  | _ => none

@[simp] theorem linkStart_nil (p : Text) : linkStart [] p = [] := by
  unfold linkStart
  split <;> rfl

theorem lookup_eq_ok_iff {cwd : Loc} : fs.lookup create cwd p = .ok l ↔
    p ≠ [] ∧ Walks fs create maxLinks (linkStart cwd p) (comps p) l := by
  unfold lookup
  split
  · next hp => simp [hp]
  · next hp => simp [hp, walk_eq_iff]

theorem openCreat_eq_ok_iff :
    fs.openCreat p = .ok l ↔ p ≠ [] ∧ Walks fs true maxLinks [] (comps p) l := by
  unfold openCreat
  rw [lookup_eq_ok_iff, linkStart_nil]

theorem stat_eq_ok_iff : fs.stat p = .ok l ↔ p ≠ [] ∧ Walks fs false maxLinks [] (comps p) l := by
  unfold stat
  rw [lookup_eq_ok_iff, linkStart_nil]

theorem openCreat_of_stat (h : fs.stat p = .ok l) : fs.openCreat p = .ok l := by
  obtain ⟨hp, hw⟩ := stat_eq_ok_iff.mp h
  exact openCreat_eq_ok_iff.mpr ⟨hp, hw.toCreate⟩

/-- The entry a path names: its last component, in the directory that the rest
leads to. -/
theorem lstat_eq_some_iff {e : Loc} : fs.lstat p = some e ↔
    ∃ init n d, comps p = init ++ [.name n] ∧ Walks fs false maxLinks [] init d ∧
      (fs.node (d ++ [n])).isSome ∧ e = d ++ [n] := by
  constructor
  · intro h
    unfold lstat at h
    split at h
    · next n hn =>
      split at h
      · next d hd =>
        split at h
        · next hsome =>
          exact ⟨_, n, d, (dropLast_append_getLast? _ hn).symm, walks_of_walk_eq hd, hsome,
            (Option.some.inj h).symm⟩
        · cases h
      · cases h
    · cases h
  · rintro ⟨init, n, d, hcs, hd, hsome, rfl⟩
    unfold lstat
    simp only [hcs, List.getLast?_concat, dropLast_concat, hd.walk_eq, hsome, if_true]

/-! ## Trees without links -/

/-- There is no link anywhere. -/
def NoLinks (fs : FileTree) : Prop :=
  ∀ l t, fs.node l ≠ some (.symlink t)

/-- Without links, names lead to where they say. -/
theorem NoLinks.walks_eq (h : NoLinks fs) (hw : Walks fs create k cur cs d) (hcs : cs = l.map .name) :
    d = cur ++ l := by
  induction hw generalizing l with
  | nil k cur =>
    obtain rfl : l = [] := by simpa using hcs.symm
    simp
  | skip _ ih => cases l <;> cases hcs
  | up _ ih => cases l <;> cases hcs
  | made k hc hn =>
    obtain ⟨m, rfl, hm⟩ := map_eq_singleton_iff.mp hcs.symm
    rw [Comp.name.inj hm]
  | dir hn _ ih =>
    cases l with
    | nil => cases hcs
    | cons m l =>
      rw [map_cons, List.cons.injEq] at hcs
      rw [ih hcs.2, Comp.name.inj hcs.1]
      simp
  | file k hn =>
    obtain ⟨m, rfl, hm⟩ := map_eq_singleton_iff.mp hcs.symm
    rw [Comp.name.inj hm]
  | link hn _ _ => exact absurd hn (h _ _)

/-! ## Finite trees -/

/-- Every listed path stands in a listed directory or in the root. -/
def Listed (es : List (Text × Node)) : Prop :=
  ∀ e ∈ es, (dir e.1 = toText [] ∨ es.lookup (dir e.1) = some .dir) ∧ e.2 ≠ .symlink []

instance (es : List (Text × Node)) : Decidable (Listed es) :=
  inferInstanceAs (Decidable (∀ e ∈ es, _))

/-- The tree that holds the listed paths and nothing else. -/
def ofList (es : List (Text × Node)) (h : Listed es) : FileTree where
  node l := if l = [] then some .dir else es.lookup (toText l)
  root_dir := rfl
  parent_dir l n hn := by
    rw [if_neg (by simp), Option.isSome_iff_exists] at hn
    obtain ⟨v, hv⟩ := hn
    have hmem : (toText (l ++ [n]), v) ∈ es := by
      obtain ⟨l₁, l₂, rfl, _⟩ := lookup_eq_some_iff.mp hv
      simp
    rcases (h _ hmem).1 with hroot | hdir
    · rw [dir_toText_concat] at hroot
      rw [if_pos (toText_injective hroot)]
    · rw [dir_toText_concat] at hdir
      split
      · rfl
      · exact hdir
  link_ne l hl := by
    split at hl
    · cases hl
    · obtain ⟨l₁, l₂, rfl, _⟩ := lookup_eq_some_iff.mp hl
      exact (h (toText l, .symlink []) (by simp)).2 rfl

theorem ofList_noLinks {es : List (Text × Node)} (h : Listed es)
    (hes : ∀ e ∈ es, ∀ t, e.2 ≠ .symlink t) : NoLinks (ofList es h) := by
  intro l t hl
  simp only [ofList] at hl
  split at hl
  · cases hl
  · obtain ⟨l₁, l₂, rfl, _⟩ := lookup_eq_some_iff.mp hl
    exact hes (toText l, .symlink t) (by simp) t rfl

end FileTree

end Lankeeper.Lib
