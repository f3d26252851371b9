import Lankeeper.Lib.FileTree
import Mathlib.Data.Fintype.EquivFin

/-!
# Lankeeper.Lib.Detour — a climbing path is not determined by its text

`Reaches.straight` says that a path without a `..` after a name leads where its
names lead. This file is the converse. A path that climbs has a tree in which it
leads somewhere none of a given list of plain paths leads: every location is a
directory, except that the name climbed out of is a link to a deep directory
(`detour`). The `..` then climbs out of the deep directory.

* `plain` — the tree of directories only, where a path means its text;
* `detour_arrive` — the part before the `..` ends in the deep directory;
* `detour_straight` — where a plain path leads in that tree;
* `exists_detour` — the result.
-/

namespace Lankeeper.Lib.FileTree

open Lib.Path List

/-! ## Directories only -/

/-- Every location is a directory. -/
def plain : FileTree where
  node _ := some .dir
  root_dir := rfl
  parent_dir _ _ _ := rfl
  link_ne _ := by simp

theorem plain_walks (cur : Loc) (cs : List Comp) : plain.Walks false 0 cur cs (lexWalk cur cs) := by
  induction cs generalizing cur with
  | nil => exact .nil 0 cur
  | cons c cs ih =>
    cases c with
    | skip => exact .skip (ih cur)
    | up => exact .up (ih cur.dropLast)
    | name n => exact .dir rfl (ih (cur ++ [n]))

/-! ## One link -/

/-- Directories only, but for a link at `lk` that leads to `far`. -/
def detour (lk far : Loc) (hlk : lk ≠ []) : FileTree where
  node l :=
    if l = lk then some (.symlink (toText far))
    else if lk <+: l then none
    else some .dir
  root_dir := by
    rw [if_neg hlk.symm, if_neg]
    intro h
    exact hlk (prefix_nil.mp h)
  parent_dir l n hn := by
    by_cases hl : lk <+: l
    · -- nothing stands below the link
      have hne : l ++ [n] ≠ lk := by
        intro h
        have hlen := hl.length_le
        rw [← h, length_append, length_singleton] at hlen
        omega
      rw [if_neg hne, if_pos (hl.trans (prefix_append l [n]))] at hn
      cases hn
    · have hne : l ≠ lk := by
        rintro rfl
        exact hl (prefix_refl l)
      rw [if_neg hne, if_neg hl]
  link_ne l hl := by
    split at hl
    · simp [toText] at hl
    · split at hl <;> simp at hl

section Detour

variable {lk far : Loc} {q : Name} (hlk : lk ≠ [])

theorem detour_node_link : (detour lk far hlk).node lk = some (.symlink (toText far)) :=
  if_pos rfl

variable (far) in
theorem detour_node_dir {l : Loc} (h : ¬ lk <+: l) : (detour lk far hlk).node l = some .dir := by
  have hne : l ≠ lk := by
    rintro rfl
    exact h (prefix_refl l)
  show (if l = lk then _ else if lk <+: l then none else some Node.dir) = _
  rw [if_neg hne, if_neg h]

variable (hq : lk.head? ≠ some q)

include hq in
/-- Below `q` there are directories only. -/
theorem detour_node_far {l : Loc} (hl : l.head? = some q) :
    (detour lk far hlk).node l = some .dir := by
  apply detour_node_dir
  rintro ⟨r, rfl⟩
  obtain ⟨n, t, rfl⟩ := exists_cons_of_ne_nil hlk
  exact hq (by simpa using hl)

variable (far) in
include hq in
/-- Below `q` a path that does not climb past `q` means its text. -/
theorem detour_walks_far {cur : Loc} (cs : List Comp) (hcur : cur.head? = some q)
    (hups : cs.count .up < cur.length) :
    (detour lk far hlk).Walks false 0 cur cs (lexWalk cur cs) ∧
      (lexWalk cur cs).head? = some q := by
  induction cs generalizing cur with
  | nil => exact ⟨.nil 0 cur, hcur⟩
  | cons c cs ih =>
    cases c with
    | skip =>
      have h := ih hcur (by simpa using hups)
      exact ⟨.skip h.1, h.2⟩
    | up =>
      rw [count_cons_self] at hups
      have hdrop : cur.dropLast.head? = some q := by
        rcases cur with _ | ⟨m, _ | ⟨m', cur⟩⟩
        · cases hcur
        · simp at hups
        · exact hcur
      have h := ih hdrop (by rw [length_dropLast]; omega)
      exact ⟨.up h.1, h.2⟩
    | name n =>
      have hhead : (cur ++ [n]).head? = some q := by
        rw [List.head?_append, hcur]
        rfl
      have hups' : cs.count .up < (cur ++ [n]).length := by
        simp at hups ⊢
        omega
      have h := ih hhead hups'
      exact ⟨.dir (detour_node_far hlk hq hhead) h.1, h.2⟩

variable (hfar : far.head? = some q)

include hq hfar in
/-- The link's target is walked to its end. -/
theorem detour_walks_target : (detour lk far hlk).Walks false 0 [] (comps (toText far)) far := by
  rw [← walk_eq_iff, walk_comps_toText, walk_eq_iff]
  rcases far with _ | ⟨m, r⟩
  · cases hfar
  have hm : m = q := by simpa using hfar
  subst hm
  have h := detour_walks_far (m :: r) hlk hq (r.map .name) (rfl : [m].head? = some m) (by
    rw [count_eq_zero.mpr (by simp)]
    simp)
  rw [lexWalk_names] at h
  exact .dir (detour_node_far hlk hq rfl) h.1

variable {cs : List Comp}

include hq hfar in
/-- A path whose names end at the link leads to the far directory. -/
theorem detour_arrive_of_no_up {cur : Loc} (hup : .up ∉ cs)
    (hnames : names cs ≠ []) (hcur : cur ++ names cs = lk) :
    (detour lk far hlk).Walks false 1 cur cs far := by
  have hfard : (detour lk far hlk).node far = some .dir := detour_node_far hlk hq hfar
  have hpos : 0 < far.length := by
    rcases far with _ | ⟨m, r⟩
    · cases hfar
    · simp
  induction cs generalizing cur with
  | nil => exact absurd rfl hnames
  | cons c cs ih =>
    have hcs : .up ∉ cs := fun hm => hup (mem_cons_of_mem _ hm)
    cases c with
    | skip => exact .skip (ih hcs hnames hcur)
    | up => exact absurd (mem_cons_self ..) hup
    | name n =>
      by_cases hlast : names cs = []
      · -- `n` is the link
        have hn : (detour lk far hlk).node (cur ++ [n]) = some (.symlink (toText far)) := by
          have : cur ++ [n] = lk := by simpa [hlast] using hcur
          rw [this]
          exact detour_node_link hlk
        have hrest : (detour lk far hlk).Walks false 0 far cs far := by
          have h := (detour_walks_far far hlk hq cs hfar (by
            rw [count_eq_zero.mpr hcs]
            exact hpos)).1
          rwa [lexWalk_of_no_up far hcs, hlast, append_nil] at h
        exact .link hn ((detour_walks_target hlk hq hfar).trans hfard hrest)
      · have hn : (detour lk far hlk).node (cur ++ [n]) = some .dir := by
          apply detour_node_dir
          intro hpre
          have hlen := hpre.length_le
          rw [← hcur] at hlen
          simp at hlen
          exact hlast hlen
        exact .dir hn (ih hcs hlast (by simpa using hcur))

include hq hfar in
theorem detour_arrive (hc : climbs cs = false) (hnames : names cs = lk) :
    (detour lk far hlk).Walks false 1 [] cs far := by
  induction cs with
  | nil => exact absurd hnames.symm hlk
  | cons c cs ih =>
    cases c with
    | skip => exact .skip (ih hc hnames)
    | up => exact .up (ih hc hnames)
    | name n =>
      refine detour_arrive_of_no_up hlk hq hfar ?_ (by simp) hnames
      simpa using of_decide_eq_false hc

include hq hfar in
/-- Where a plain path leads: through the link, or nowhere near it. -/
theorem detour_straight {d l : Loc} (h : (detour lk far hlk).Reaches [] (d.map .name) l) :
    far <+: l ∨ l = d := by
  have hfard : (detour lk far hlk).node far = some .dir := detour_node_far hlk hq hfar
  by_cases hd : lk <+: d
  · left
    obtain ⟨r, rfl⟩ := hd
    have hto : (detour lk far hlk).Walks false 1 [] (lk.map .name) far := by
      have hno : Comp.up ∉ lk.map Comp.name := by simp
      have hnames : names (lk.map Comp.name) = lk := by
        have h := lexWalk_of_no_up [] hno
        simpa using h.symm
      exact detour_arrive_of_no_up hlk hq hfar hno (by rw [hnames]; exact hlk) (by simpa using hnames)
    have hrest := (detour_walks_far far hlk hq (r.map .name) hfar (by
      rw [count_eq_zero.mpr (by simp)]
      rcases far with _ | ⟨m, t⟩
      · cases hfar
      · simp)).1
    have hend : l = far ++ r := by
      apply h.unique
      refine ⟨1 + 0, ?_⟩
      rw [map_append]
      simpa using hto.trans hfard hrest
    rw [hend]
    exact prefix_append far r
  · right
    -- every prefix of `d` is a directory
    have hwalk : ∀ (cur r : Loc), cur ++ r = d →
        (detour lk far hlk).Walks false 0 cur (r.map .name) d := by
      intro cur r hr
      induction r generalizing cur with
      | nil =>
        rw [append_nil] at hr
        rw [hr]
        exact .nil 0 d
      | cons n r ih =>
        have hr' : (cur ++ [n]) ++ r = d := by simpa using hr
        refine .dir (detour_node_dir far hlk ?_) (ih _ hr')
        intro hpre
        exact hd (hpre.trans ⟨r, hr'⟩)
    exact h.unique ⟨0, hwalk [] d rfl⟩

include hq hfar in
/-- Every path leads to a directory. -/
theorem detour_total {cur : Loc} (hups : cs.count .up < far.length)
    (hcur : (detour lk far hlk).node cur = some .dir) :
    ∃ mid, (detour lk far hlk).Walks false 1 cur cs mid ∧
      (detour lk far hlk).node mid = some .dir := by
  have hfard : (detour lk far hlk).node far = some .dir := detour_node_far hlk hq hfar
  induction cs generalizing cur with
  | nil => exact ⟨cur, .nil 1 cur, hcur⟩
  | cons c cs ih =>
    cases c with
    | skip =>
      obtain ⟨mid, hw, hmid⟩ := ih (by simpa using hups) hcur
      exact ⟨mid, .skip hw, hmid⟩
    | up =>
      rw [count_cons_self] at hups
      obtain ⟨mid, hw, hmid⟩ := ih (by omega) (dir_dropLast hcur)
      exact ⟨mid, .up hw, hmid⟩
    | name n =>
      have hups' : cs.count .up < far.length := by simpa using hups
      by_cases hn : cur ++ [n] = lk
      · have hlink : (detour lk far hlk).node (cur ++ [n]) = some (.symlink (toText far)) := by
          rw [hn]
          exact detour_node_link hlk
        obtain ⟨hw, hhead⟩ := detour_walks_far far hlk hq cs hfar hups'
        exact ⟨_, .link hlink ((detour_walks_target hlk hq hfar).trans hfard hw),
          detour_node_far hlk hq hhead⟩
      · have hpre : ¬ lk <+: cur ++ [n] := by
          intro hpre
          rcases prefix_concat_iff.mp (by simpa using hpre) with heq | hcp
          · exact hn (by simpa using heq.symm)
          -- then `cur` would be the link or below it
          have hnd : (detour lk far hlk).node cur ≠ some .dir := by
            show (if cur = lk then _ else if lk <+: cur then none else some Node.dir) ≠ _
            split
            · simp
            · simp
          exact hnd hcur
        have hdir := detour_node_dir far hlk hpre
        obtain ⟨mid, hw, hmid⟩ := ih hups' hdir
        exact ⟨mid, .dir hdir hw, hmid⟩

end Detour

/-! ## The result -/

theorem exists_fresh (ns : List Name) : ∃ q : Name, q ∉ ns := by
  let f : ℕ → Name := fun k => ⟨List.replicate (k + 1) 'q', by
    refine ⟨by simp, ?_, ?_, by simp⟩
    · simp [replicate_succ]
    · simp [replicate_succ]⟩
  have hinj : Function.Injective f := by
    intro a b hab
    have h := congrArg (fun n : Name => n.text.length) hab
    simpa [f] using h
  have : Infinite Name := Infinite.of_injective f hinj
  obtain ⟨q, hq⟩ := Infinite.exists_notMem_finset ns.toFinset
  exact ⟨q, by simpa using hq⟩

/-- A run of `q`s is not completed by other names. -/
theorem replicate_not_prefix_lexWalk {D : Nat} {q : Name} {cur : Loc} {cs : List Comp}
    (hq : q ∉ names cs) (hcur : ¬ List.replicate D q <+: cur) :
    ¬ List.replicate D q <+: lexWalk cur cs := by
  induction cs generalizing cur with
  | nil => exact hcur
  | cons c cs ih =>
    cases c with
    | skip => exact ih hq hcur
    | up => exact ih hq fun h => hcur (h.trans ( dropLast_prefix cur))
    | name n =>
      simp only [names_name, mem_cons, not_or] at hq
      refine ih hq.2 fun h => ?_
      rcases prefix_concat_iff.mp (by simpa using h) with heq | hpre
      · have hmem : n ∈ List.replicate D q := by simp [heq]
        exact hq.1 (eq_of_mem_replicate hmem).symm
      · exact hcur hpre

/-- **A path that climbs is not determined by its text.** For every climbing path
there is a tree where it leads to a place that none of the locations `ds` names,
and where a second path `ps` still leads to a directory. -/
theorem exists_detour {cs : List Comp} (hc : climbs cs) (ps : List Comp) (ds : List Loc) :
    ∃ fs : FileTree,
      (∃ mid, fs.Walks false 1 [] ps mid ∧ fs.node mid = some .dir) ∧
      ∃ l, fs.Walks false 1 [] cs l ∧ ∀ d ∈ ds, ¬ fs.Reaches [] (d.map .name) l := by
  obtain ⟨a, b, rfl, ha, hne⟩ := exists_climb hc
  obtain ⟨q, hfresh⟩ := exists_fresh (names (a ++ .up :: b) ++ ds.flatten)
  rw [mem_append, not_or, names_append, mem_append, not_or] at hfresh
  obtain ⟨⟨hqa, hqb⟩, hqds⟩ := hfresh
  let D := ps.count .up + b.count .up + 1
  have hq : (names a).head? ≠ some q := fun h => hqa (mem_of_mem_head? h)
  have hfar : (List.replicate (D + 1) q).head? = some q := rfl
  refine ⟨detour (names a) (List.replicate (D + 1) q) hne, ?_, ?_⟩
  · have hups : ps.count .up < (List.replicate (D + 1) q).length := by
      rw [length_replicate]
      omega
    exact detour_total hne hq hfar hups (FileTree.root_dir _)
  · have hups : (Comp.up :: b).count .up < (List.replicate (D + 1) q).length := by
      rw [count_cons_self, length_replicate]
      omega
    obtain ⟨hw, hhead⟩ := detour_walks_far (List.replicate (D + 1) q) hne hq _ hfar hups
    refine ⟨_, (detour_arrive hne hq hfar ha rfl).trans (detour_node_far hne hq hfar) hw, ?_⟩
    intro d hd hreach
    rcases detour_straight hne hq hfar hreach with hpre | heq
    · -- one `q` is gone, and no later name brings it back
      have hshort : ¬ List.replicate (D + 1) q <+: (List.replicate (D + 1) q).dropLast := by
        intro h
        have hlen := h.length_le
        rw [length_dropLast, length_replicate] at hlen
        omega
      rw [names_up] at hqb
      exact replicate_not_prefix_lexWalk hqb hshort hpre
    · have hqd : q ∈ d := heq ▸ mem_of_mem_head? hhead
      exact hqds (mem_flatten.mpr ⟨d, hd, hqd⟩)

end Lankeeper.Lib.FileTree
