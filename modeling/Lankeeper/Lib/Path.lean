import Lankeeper.Lib.Text

/-!
# Lankeeper.Lib.Path — slash-separated paths, lexically

Texts are character lists. A path is read as a list of components (`Comp`): an
empty or `.` segment is skipped, `..` climbs, anything else names an entry. The
functions of Go's `path/filepath` used by the agent (`IsAbs`, `Clean`, `Join`,
`Dir`, `Base`) are defined on texts; `clean_eq_toText` says what `Clean` is on a
rooted path: the text of the location the components lead to when every
component is an ordinary directory.
-/

namespace Lankeeper.Lib

open List

namespace Path

/-! ## Names, locations, components -/

/-- What can stand between two slashes and name a directory entry. -/
def IsName (s : Text) : Prop :=
  s ≠ [] ∧ s ≠ ['.'] ∧ s ≠ ['.', '.'] ∧ '/' ∉ s

instance (s : Text) : Decidable (IsName s) :=
  inferInstanceAs (Decidable (_ ∧ _ ∧ _ ∧ _))

/-- A directory entry's name. -/
structure Name where
  text : Text
  ok : IsName text
deriving DecidableEq

/-- A place in the tree: the names from the root down. -/
abbrev Loc := List Name

/-- One component of a path. -/
inductive Comp where
  | skip
  | up
  | name (n : Name)
deriving DecidableEq

def comp (s : Text) : Comp :=
  if h : IsName s then .name ⟨s, h⟩
  else if s = ['.', '.'] then .up
  else .skip

/-- The components of a path, in order. -/
def comps (p : Text) : List Comp :=
  (p.splitOn '/').map comp

/-- The path of a location relative to the root. -/
def relText (l : Loc) : Text :=
  ['/'].intercalate (l.map (·.text))

/-- The absolute path of a location. -/
def toText (l : Loc) : Text :=
  '/' :: relText l

/-- `filepath.IsAbs`. -/
def isAbs (p : Text) : Bool :=
  p.head? == some '/'

/-! ## Clean, Join, Dir, Base -/

/-- The stack of components `Clean` keeps, the last one first. `..` removes the
name before it; at the root it is dropped, in a relative path it stays. -/
def cleanComps (rooted : Bool) (acc : List Comp) : List Comp → List Comp
  | [] => acc.reverse
  | .skip :: cs => cleanComps rooted acc cs
  | .name n :: cs => cleanComps rooted (.name n :: acc) cs
  | .up :: cs =>
    match acc with
    | .name _ :: acc' => cleanComps rooted acc' cs
    | _ => cleanComps rooted (if rooted then acc else .up :: acc) cs

def compText : Comp → Text
  | .skip => ['.']
  | .up => ['.', '.']
  | .name n => n.text

/-- `filepath.Clean`. -/
def clean (p : Text) : Text :=
  let body := ['/'].intercalate ((cleanComps (isAbs p) [] (comps p)).map compText)
  if isAbs p then '/' :: body
  else if body = [] then ['.']
  else body

/-- `filepath.Join` of two elements: an empty first element is left out. -/
def join (a b : Text) : Text :=
  if a ≠ [] then clean (a ++ '/' :: b)
  else if b ≠ [] then clean b
  else []

/-- `filepath.Dir`: everything up to the last slash, cleaned. -/
def dir (p : Text) : Text :=
  clean (p.rdropWhile (· ≠ '/'))

/-- `filepath.Base`: the last element, trailing slashes removed first. -/
def base (p : Text) : Text :=
  if p = [] then ['.']
  else
    let q := p.rdropWhile (· = '/')
    if q = [] then ['/'] else q.rtakeWhile (· ≠ '/')

/-- Where the components lead from `l` if every one of them is an ordinary
directory. -/
def lexWalk (l : Loc) : List Comp → Loc
  | [] => l
  | .skip :: cs => lexWalk l cs
  | .up :: cs => lexWalk l.dropLast cs
  | .name n :: cs => lexWalk (l ++ [n]) cs

/-! ## Components of concatenated paths -/

theorem comps_append_slash (a b : Text) : comps (a ++ '/' :: b) = comps a ++ comps b := by
  unfold comps
  rw [splitOn_eq_splitOnP, splitOn_eq_splitOnP, splitOn_eq_splitOnP,
    splitOnP_append_cons _ _ (by simp), map_append]

@[simp] theorem comps_nil : comps [] = [.skip] := by decide

theorem comps_slash_cons (p : Text) : comps ('/' :: p) = .skip :: comps p := by
  have h := comps_append_slash [] p
  simpa using h

theorem comp_name (n : Name) : comp n.text = .name n := by
  simp [comp, n.ok]

/-- A text without a slash is one component. -/
theorem comps_of_not_mem {s : Text} (h : '/' ∉ s) : comps s = [comp s] := by
  have hs : s.splitOn '/' = [s] := by
    have hone : ∀ l ∈ [s], '/' ∉ l := by simpa using h
    simpa using splitOn_intercalate '/' hone (by simp)
  simp [comps, hs]

theorem comps_name (n : Name) : comps n.text = [.name n] := by
  rw [comps_of_not_mem n.ok.2.2.2, comp_name]

theorem relText_cons_cons (n m : Name) (l : Loc) :
    relText (n :: m :: l) = n.text ++ '/' :: relText (m :: l) := by
  simp [relText, List.intercalate]

variable {l : Loc} {p : Text} {cs : List Comp}

theorem relText_append {a : Loc} (ha : a ≠ []) (hl : l ≠ []) :
    relText (a ++ l) = relText a ++ '/' :: relText l := by
  induction a with
  | nil => exact absurd rfl ha
  | cons n a ih =>
    cases a with
    | nil =>
      obtain ⟨m, l, rfl⟩ := exists_cons_of_ne_nil hl
      rw [singleton_append, relText_cons_cons]
      simp [relText]
    | cons m a =>
      rw [cons_append, cons_append, relText_cons_cons, relText_cons_cons,
        ← cons_append, ih (cons_ne_nil _ _)]
      simp

theorem comps_relText : ∀ (l : Loc),
    comps (relText l) = if l = [] then [.skip] else l.map .name
  | [] => by decide
  | [n] => by simpa [relText] using comps_name n
  | n :: m :: l => by
    rw [relText_cons_cons, comps_append_slash, comps_name, comps_relText (m :: l)]
    simp

/-- Reading back the text of a location gives its names, up to skipped
components. -/
theorem comps_toText (l : Loc) :
    comps (toText l) = .skip :: (if l = [] then [.skip] else l.map .name) := by
  unfold toText
  rw [comps_slash_cons, comps_relText]

theorem toText_injective : Function.Injective toText := by
  intro a b h
  have hc := congrArg comps h
  rw [comps_toText, comps_toText] at hc
  have hinj : Function.Injective Comp.name := fun _ _ h => Comp.name.inj h
  by_cases ha : a = [] <;> by_cases hb : b = []
  · rw [ha, hb]
  · cases b with
    | nil => exact absurd rfl hb
    | cons n l => simp [ha] at hc
  · cases a with
    | nil => exact absurd rfl ha
    | cons n l => simp [hb] at hc
  · simpa [ha, hb, hinj.list_map.eq_iff] using hc

/-! ## Lexical walks -/

theorem lexWalk_append (l : Loc) (a b : List Comp) :
    lexWalk l (a ++ b) = lexWalk (lexWalk l a) b := by
  induction a generalizing l with
  | nil => rfl
  | cons c a ih => cases c <;> exact ih _

@[simp] theorem lexWalk_names (l ns : Loc) : lexWalk l (ns.map .name) = l ++ ns := by
  induction ns generalizing l with
  | nil => simp [lexWalk]
  | cons n ns ih => simp [lexWalk, ih]

@[simp] theorem lexWalk_comps_relText (l ns : Loc) : lexWalk l (comps (relText ns)) = l ++ ns := by
  rw [comps_relText]
  split
  · next h => simp [h, lexWalk]
  · exact lexWalk_names l ns

@[simp] theorem lexWalk_comps_toText (l ns : Loc) : lexWalk l (comps (toText ns)) = l ++ ns := by
  rw [toText, comps_slash_cons]
  exact lexWalk_comps_relText l ns

/-! ## Clean on rooted paths -/

/-- The stack `Clean` keeps on a rooted path is the location reached so far. -/
theorem cleanComps_rooted (l : Loc) (cs : List Comp) :
    cleanComps true (l.reverse.map .name) cs = (lexWalk l cs).map .name := by
  induction cs generalizing l with
  | nil => simp [cleanComps, lexWalk]
  | cons c cs ih =>
    cases c with
    | skip => exact ih l
    | name n => simpa [cleanComps, lexWalk] using ih (l ++ [n])
    | up =>
      rcases eq_nil_or_concat l with rfl | ⟨l', n, rfl⟩
      · exact ih []
      · simpa [cleanComps, lexWalk] using ih l'

theorem clean_eq_toText (h : isAbs p) : clean p = toText (lexWalk [] (comps p)) := by
  have hc := cleanComps_rooted [] (comps p)
  simp only [reverse_nil, map_nil] at hc
  simp only [clean, h, if_true, hc, map_map, toText, relText]
  rfl

@[simp] theorem isAbs_toText (l : Loc) : isAbs (toText l) := rfl

@[simp] theorem clean_toText (l : Loc) : clean (toText l) = toText l := by
  rw [clean_eq_toText (isAbs_toText l), lexWalk_comps_toText, nil_append]

theorem compText_ne_slash (c : Comp) : compText c ≠ [] ∧ '/' ∉ compText c := by
  cases c with
  | skip => exact ⟨by simp [compText], by decide⟩
  | up => exact ⟨by simp [compText], by decide⟩
  | name n => exact ⟨n.ok.1, n.ok.2.2.2⟩

/-- A path is rooted exactly when its cleaned form is. -/
theorem isAbs_clean (p : Text) : isAbs (clean p) = isAbs p := by
  cases h : isAbs p with
  | true => rw [clean_eq_toText h, isAbs_toText]
  | false =>
    -- the cleaned text starts with its first component, which has no slash
    have hbody : ∀ cs : List Comp, isAbs (['/'].intercalate (cs.map compText)) = false := by
      intro cs
      cases cs with
      | nil => decide
      | cons c cs =>
        obtain ⟨hne, hslash⟩ := compText_ne_slash c
        obtain ⟨a, t, hat⟩ := exists_cons_of_ne_nil hne
        have ha : a ≠ '/' := by
          intro ha
          simp [hat, ha] at hslash
        cases cs with
        | nil => simpa [isAbs, hat] using ha
        | cons d cs => simpa [isAbs, List.intercalate, hat] using ha
    unfold clean
    simp only [h, Bool.false_eq_true, if_false]
    split
    · decide
    · exact hbody _

/-! ## The last component -/

theorem toText_concat (l : Loc) (n : Name) :
    toText (l ++ [n]) = (if l = [] then [] else toText l) ++ '/' :: n.text := by
  induction l with
  | nil => simp [toText, relText]
  | cons m l ih =>
    cases l with
    | nil => simp [toText, relText, List.intercalate]
    | cons k l =>
      have hrel : relText (m :: k :: l ++ [n]) = m.text ++ toText (k :: l ++ [n]) := by
        simpa [toText] using relText_cons_cons m k (l ++ [n])
      rw [toText, hrel, ih]
      simp [toText, relText_cons_cons]

theorem dir_toText_concat (l : Loc) (n : Name) : dir (toText (l ++ [n])) = toText l := by
  have hn : '/' ∉ n.text := n.ok.2.2.2
  unfold dir
  rw [toText_concat, Text.rdropWhile_ne hn]
  split
  · next h => subst h; decide
  · have habs : isAbs (toText l ++ ['/']) := rfl
    rw [clean_eq_toText habs, comps_append_slash, lexWalk_append, lexWalk_comps_toText]
    simp [lexWalk]

theorem base_toText_concat (l : Loc) (n : Name) : base (toText (l ++ [n])) = n.text := by
  have hn : '/' ∉ n.text := n.ok.2.2.2
  obtain ⟨t, c, hc⟩ := eq_nil_or_concat n.text |>.resolve_left n.ok.1
  have hcs : c ≠ '/' := by
    intro h
    exact hn (by simp [hc, h])
  have hbase : ∀ pre : Text, base (pre ++ '/' :: n.text) = n.text := by
    intro pre
    have hdrop : (pre ++ '/' :: n.text).rdropWhile (· = '/') = pre ++ '/' :: n.text := by
      rw [hc]
      simp only [concat_eq_append]
      rw [← cons_append, ← append_assoc, rdropWhile_concat_neg _ _ _ (by simpa using hcs)]
    unfold base
    simp only [hdrop, Text.rtakeWhile_ne hn]
    simp
  rw [toText_concat, hbase]

/-! ## Paths that do not climb

A `..` before every name stays at the root, whatever the tree holds. A `..`
after a name climbs out of what that name leads to. -/

/-- The names among the components. -/
def names (cs : List Comp) : Loc :=
  cs.filterMap fun
    | .name n => some n
    | _ => none

/-- Some `..` stands after a name. -/
def climbs : List Comp → Bool
  | [] => false
  | .name _ :: cs => decide (.up ∈ cs)
  | _ :: cs => climbs cs

@[simp] theorem names_nil : names [] = [] := rfl

@[simp] theorem names_up (cs : List Comp) : names (.up :: cs) = names cs := rfl

@[simp] theorem names_name (n : Name) (cs : List Comp) : names (.name n :: cs) = n :: names cs :=
  rfl

theorem names_append (a b : List Comp) : names (a ++ b) = names a ++ names b :=
  filterMap_append ..

theorem lexWalk_of_no_up (l : Loc) (h : .up ∉ cs) : lexWalk l cs = l ++ names cs := by
  induction cs generalizing l with
  | nil => simp [lexWalk]
  | cons c cs ih =>
    have hcs : .up ∉ cs := fun hm => h (mem_cons_of_mem _ hm)
    cases c with
    | skip => exact ih l hcs
    | name n => simpa [lexWalk] using ih (l ++ [n]) hcs
    | up => exact absurd (mem_cons_self ..) h

theorem lexWalk_of_not_climbs (h : climbs cs = false) : lexWalk [] cs = names cs := by
  induction cs with
  | nil => rfl
  | cons c cs ih =>
    cases c with
    | skip => exact ih h
    | up => exact ih h
    | name n => simpa [lexWalk] using lexWalk_of_no_up [n] (of_decide_eq_false h)

/-- The first `..` that climbs, and what stands before it. -/
theorem exists_climb (h : climbs cs) :
    ∃ a b, cs = a ++ .up :: b ∧ climbs a = false ∧ names a ≠ [] := by
  induction cs with
  | nil => cases h
  | cons c cs ih =>
    cases c with
    | skip =>
      obtain ⟨a, b, hcs, ha, hne⟩ := ih h
      exact ⟨.skip :: a, b, by rw [hcs]; rfl, ha, hne⟩
    | up =>
      obtain ⟨a, b, hcs, ha, hne⟩ := ih h
      exact ⟨.up :: a, b, by rw [hcs]; rfl, ha, hne⟩
    | name n =>
      obtain ⟨a, b, hcs, ha⟩ := eq_append_cons_of_mem (of_decide_eq_true h)
      exact ⟨.name n :: a, b, by rw [hcs]; rfl, decide_eq_false ha, by simp⟩

/-- The first component of a path whose first character is neither `.` nor `/`
is a name with that character in front. -/
theorem comps_cons {c : Char} (hdot : c ≠ '.') (hslash : c ≠ '/') (p : Text) :
    ∃ (n : Name) (cs : List Comp), n.text.head? = some c ∧ comps (c :: p) = .name n :: cs := by
  have hhead : ∀ w : Text, '/' ∉ w → ∃ n : Name, n.text.head? = some c ∧ comps (c :: w) = [.name n] := by
    intro w hw
    have hok : IsName (c :: w) := by
      refine ⟨by simp, ?_, ?_, by simp [hw, hslash.symm]⟩
      · intro h
        exact hdot (List.cons.inj h).1
      · intro h
        exact hdot (List.cons.inj h).1
    exact ⟨⟨c :: w, hok⟩, rfl, comps_name ⟨c :: w, hok⟩⟩
  by_cases hp : '/' ∈ p
  · obtain ⟨w, r, hpr, hw⟩ := eq_append_cons_of_mem hp
    obtain ⟨n, hn, hcs⟩ := hhead w hw
    refine ⟨n, comps r, hn, ?_⟩
    rw [hpr, ← cons_append, comps_append_slash, hcs]
    rfl
  · obtain ⟨n, hn, hcs⟩ := hhead p hp
    exact ⟨n, [], hn, hcs⟩

/-! ## Joins of clean pieces -/

theorem join_toText_relText (l r : Loc) : join (toText l) (relText r) = toText (l ++ r) := by
  have hne : toText l ≠ [] := by simp [toText]
  have habs : isAbs (toText l ++ '/' :: relText r) := rfl
  unfold join
  rw [if_pos hne, clean_eq_toText habs, comps_append_slash, lexWalk_append, lexWalk_comps_toText,
    lexWalk_comps_relText]
  simp

/-- Without `..` a path keeps every name, rooted or not. -/
theorem cleanComps_of_no_up (rooted : Bool) (acc : List Comp) (h : .up ∉ cs) :
    cleanComps rooted acc cs = acc.reverse ++ cs.filter (· ≠ .skip) := by
  induction cs generalizing acc with
  | nil => simp [cleanComps]
  | cons c cs ih =>
    have hcs : .up ∉ cs := fun hm => h (mem_cons_of_mem _ hm)
    cases c with
    | skip => simpa [cleanComps] using ih acc hcs
    | name n => simpa [cleanComps] using ih (.name n :: acc) hcs
    | up => exact absurd (mem_cons_self ..) h

theorem isAbs_relText (l : Loc) : isAbs (relText l) = false := by
  cases l with
  | nil => rfl
  | cons n l =>
    obtain ⟨a, s, hat⟩ := exists_cons_of_ne_nil n.ok.1
    have ha : a ≠ '/' := by
      intro ha
      exact n.ok.2.2.2 (by simp [hat, ha])
    cases l with
    | nil => simp [isAbs, relText, hat, ha]
    | cons m l => simp [isAbs, relText_cons_cons, hat, ha]

theorem relText_ne_nil (h : l ≠ []) : relText l ≠ [] := by
  intro hnil
  have hcs := comps_relText l
  rw [hnil, if_neg h, comps_nil] at hcs
  cases l with
  | nil => exact h rfl
  | cons n l => simp at hcs

/-- A relative path whose components are names, some of them skipped, cleans to the names. -/
theorem clean_eq_relText (hl : l ≠ []) (habs : isAbs p = false) (hup : .up ∉ comps p)
    (h : (comps p).filter (· ≠ .skip) = l.map .name) : clean p = relText l := by
  have hbody : (['/'] : Text).intercalate ((l.map Comp.name).map compText) = relText l := by
    rw [map_map]
    rfl
  have hkept : cleanComps false [] (comps p) = l.map .name := by
    rw [cleanComps_of_no_up false [] hup, h]
    rfl
  unfold clean
  simp only [habs, Bool.false_eq_true, if_false, hkept, hbody, if_neg (relText_ne_nil hl)]

theorem filter_map_name (l : Loc) : (l.map Comp.name).filter (· ≠ .skip) = l.map Comp.name := by
  simp [filter_map, Function.comp_def]

theorem clean_relText (hl : l ≠ []) : clean (relText l) = relText l := by
  have hcs : comps (relText l) = l.map .name := by
    rw [comps_relText, if_neg hl]
  refine clean_eq_relText hl (isAbs_relText l) ?_ ?_
  · simp [hcs]
  · rw [hcs, filter_map_name]

/-- A slash behind a path of names is cleaned away. -/
theorem clean_relText_slash (hl : l ≠ []) : clean (relText l ++ ['/']) = relText l := by
  have hcs : comps (relText l ++ ['/']) = l.map .name ++ [.skip] := by
    rw [comps_append_slash, comps_relText, if_neg hl, comps_nil]
  have habs : isAbs (relText l ++ ['/']) = false := by
    have hrel := isAbs_relText l
    obtain ⟨c, t, hct⟩ := exists_cons_of_ne_nil (relText_ne_nil hl)
    rw [hct] at hrel ⊢
    exact hrel
  refine clean_eq_relText hl habs ?_ ?_
  · simp [hcs]
  · rw [hcs, filter_append, filter_map_name]
    simp

theorem join_name_relText (n : Name) (r : Loc) : join n.text (relText r) = relText (n :: r) := by
  have hne : n :: r ≠ [] := cons_ne_nil n r
  have hcs : comps (n.text ++ '/' :: relText r) =
      .name n :: (if r = [] then [.skip] else r.map .name) := by
    rw [comps_append_slash, comps_name, comps_relText]
    rfl
  have habs : isAbs (n.text ++ '/' :: relText r) = false := by
    have hrel := isAbs_relText [n]
    obtain ⟨c, t, hct⟩ := exists_cons_of_ne_nil n.ok.1
    simp only [relText, map_cons, map_nil, intercalate_singleton] at hrel
    rw [hct] at hrel ⊢
    exact hrel
  rw [join, if_pos n.ok.1]
  refine clean_eq_relText hne habs ?_ ?_
  · rw [hcs]
    split <;> simp
  · rw [hcs]
    split
    · next h => simp [h]
    · rw [filter_cons_of_pos (by simp), filter_map_name]
      rfl

/-! ## Components of a cleaned path

A cleaned path is the text of the components `Clean` keeps, none of which is skipped. -/

theorem comp_compText {c : Comp} (h : c ≠ .skip) : comp (compText c) = c := by
  cases c with
  | skip => exact absurd rfl h
  | up => decide
  | name n => exact comp_name n

theorem comps_intercalate (h : .skip ∉ cs) :
    comps (['/'].intercalate (cs.map compText)) = if cs = [] then [.skip] else cs := by
  split
  · next hnil => subst hnil; decide
  rename_i hne
  unfold comps
  rw [splitOn_intercalate '/' ?_ (by simpa using hne), map_map]
  · refine (map_congr_left ?_).trans (map_id cs)
    intro c hc
    exact comp_compText fun hskip => h (hskip ▸ hc)
  · intro t ht
    obtain ⟨c, -, rfl⟩ := mem_map.mp ht
    exact (compText_ne_slash c).2

theorem skip_not_mem_cleanComps (rooted : Bool) {acc : List Comp} (h : .skip ∉ acc)
    (cs : List Comp) : .skip ∉ cleanComps rooted acc cs := by
  induction cs generalizing acc with
  | nil => simpa [cleanComps] using h
  | cons c cs ih =>
    cases c with
    | skip => exact ih h
    | name n => exact ih (by simpa using h)
    | up =>
      unfold cleanComps
      split
      · exact ih (by simp at h; exact h)
      · split
        · exact ih h
        · exact ih (by simpa using h)

theorem length_cleanComps_le (rooted : Bool) (acc cs : List Comp) :
    (cleanComps rooted acc cs).length ≤ acc.length + cs.length := by
  induction cs generalizing acc with
  | nil => simp [cleanComps]
  | cons c cs ih =>
    cases c with
    | skip =>
      have hle := ih acc
      simp only [cleanComps, length_cons]
      omega
    | name n =>
      have hle := ih (.name n :: acc)
      simp only [cleanComps, length_cons] at hle ⊢
      omega
    | up =>
      unfold cleanComps
      split
      · next m acc' =>
        have hle := ih acc'
        simp only [length_cons]
        omega
      · split
        · have hle := ih acc
          simp only [length_cons]
          omega
        · have hle := ih (.up :: acc)
          simp only [length_cons] at hle ⊢
          omega

/-- Names at the end of a path stay. -/
theorem cleanComps_append_names (rooted : Bool) (acc cs : List Comp) (l : Loc) :
    cleanComps rooted acc (cs ++ l.map .name) = cleanComps rooted acc cs ++ l.map .name := by
  induction cs generalizing acc with
  | nil =>
    rw [nil_append, cleanComps_of_no_up _ _ (by simp), cleanComps]
    simp [filter_map, Function.comp_def]
  | cons c cs ih =>
    cases c with
    | skip => exact ih acc
    | name n => exact ih (.name n :: acc)
    | up =>
      rw [cons_append]
      unfold cleanComps
      split
      · exact ih _
      · exact ih _

/-- The components `Clean` keeps. -/
theorem comps_clean (p : Text) :
    comps (clean p) = (if isAbs p then [.skip] else []) ++
      (if cleanComps (isAbs p) [] (comps p) = [] then [.skip]
        else cleanComps (isAbs p) [] (comps p)) := by
  have hskip := skip_not_mem_cleanComps (isAbs p) not_mem_nil (comps p)
  have hbody := comps_intercalate hskip
  unfold clean
  cases habs : isAbs p with
  | true =>
    simp only [habs, if_true] at hbody ⊢
    rw [comps_slash_cons, hbody]
    rfl
  | false =>
    simp only [habs, Bool.false_eq_true, if_false, nil_append] at hbody ⊢
    split
    · next hnil =>
      rw [hnil] at hbody
      rw [← hbody]
      decide
    · exact hbody

theorem clean_of_not_isAbs (h : isAbs p = false) :
    clean p = ['.'] ∨
      ∃ cs, cs ≠ [] ∧ .skip ∉ cs ∧ clean p = ['/'].intercalate (cs.map compText) := by
  unfold clean
  simp only [h, Bool.false_eq_true, if_false]
  split
  · exact .inl rfl
  · next hbody =>
    refine .inr ⟨_, ?_, skip_not_mem_cleanComps false not_mem_nil (comps p), rfl⟩
    intro hnil
    rw [hnil] at hbody
    exact hbody rfl

/-- Components that are neither skipped nor climb are names. -/
theorem exists_names (hskip : .skip ∉ cs) (hup : .up ∉ cs) : ∃ l : Loc, cs = l.map .name := by
  induction cs with
  | nil => exact ⟨[], rfl⟩
  | cons c cs ih =>
    rw [mem_cons, not_or] at hskip hup
    obtain ⟨l, rfl⟩ := ih hskip.2 hup.2
    cases c with
    | skip => exact absurd rfl hskip.1
    | up => exact absurd rfl hup.1
    | name n => exact ⟨n :: l, rfl⟩

/-- A path all of whose components are names is written with single slashes. -/
theorem eq_relText_of_comps (h : comps p = l.map .name) : p = relText l := by
  have htext : ∀ (ts : List Text) (l : Loc), ts.map comp = l.map .name → ts = l.map (·.text) := by
    intro ts
    induction ts with
    | nil =>
      intro l hl
      cases l with
      | nil => rfl
      | cons n l => simp at hl
    | cons t ts ih =>
      intro l hl
      cases l with
      | nil => simp at hl
      | cons n l =>
        rw [map_cons, map_cons, List.cons.injEq] at hl
        have ht : t = n.text := by
          have hcomp := hl.1
          unfold comp at hcomp
          split at hcomp
          · exact congrArg Name.text (Comp.name.inj hcomp)
          · split at hcomp <;> cases hcomp
        rw [map_cons, ← ih l hl.2, ht]
  rw [relText, ← htext _ l h]
  exact (intercalate_splitOn '/').symm

/-- `Clean` keeps names at the end, and of what stands in front at most as many components
as there are. -/
theorem exists_comps_clean_append {root : Text} (hroot : root ≠ []) (hl : l ≠ []) :
    ∃ front, comps (clean (root ++ '/' :: relText l)) = front ++ l.map .name ∧
      front.length ≤ (comps root).length := by
  have hkept : ∀ cs : List Comp, cs ++ l.map Comp.name ≠ [] := by simp [hl]
  have hcs := comps_clean (root ++ '/' :: relText l)
  rw [comps_append_slash, comps_relText, if_neg hl, cleanComps_append_names,
    if_neg (hkept _), ← append_assoc] at hcs
  refine ⟨_, hcs, ?_⟩
  obtain ⟨c, r, rfl⟩ := exists_cons_of_ne_nil hroot
  by_cases hc : c = '/'
  · subst hc
    have habs : isAbs ('/' :: r ++ '/' :: relText l) := rfl
    have hle := length_cleanComps_le true [] (comps r)
    rw [habs, if_pos rfl, comps_slash_cons, cleanComps]
    simp only [length_append, length_cons, length_nil] at hle ⊢
    omega
  · have habs : isAbs (c :: r ++ '/' :: relText l) = false := by
      simp [isAbs, hc]
    have hle := length_cleanComps_le false [] (comps (c :: r))
    rw [habs, if_neg (by decide)]
    simpa using hle

/-- What `Join` puts beneath a directory with a slash behind it are names. -/
theorem join_relText_beneath {root t : Text} (hl : l ≠ [])
    (h : join root (relText l) = root ++ '/' :: t) : ∃ l' : Loc, l' ≠ [] ∧ t = relText l' := by
  unfold join at h
  by_cases hroot : root = []
  · -- a relative path with nothing in front is not rooted when it is cleaned
    subst hroot
    rw [if_neg (by simp), if_pos (relText_ne_nil hl)] at h
    have habs := isAbs_clean (relText l)
    rw [h, isAbs_relText] at habs
    cases habs
  · rw [if_pos hroot] at h
    obtain ⟨front, hcs, hlen⟩ := exists_comps_clean_append hroot hl
    rw [h, comps_append_slash] at hcs
    -- so the components of `t` are among the names
    have hsuffix : ∃ x, l.map Comp.name = x ++ comps t := by
      rcases append_eq_append_iff.mp hcs with ⟨x, hx, hnames⟩ | ⟨x, hx, hnames⟩
      · have hnil : x = [] := by
          rw [hx, length_append] at hlen
          exact length_eq_zero_iff.mp (by omega)
        exact ⟨[], by simpa [hnil] using hnames.symm⟩
      · exact ⟨x, hnames⟩
    obtain ⟨x, hx⟩ := hsuffix
    obtain ⟨l₁, l₂, rfl, hl₁, hl₂⟩ := map_eq_append_iff.mp hx
    refine ⟨l₂, ?_, eq_relText_of_comps hl₂.symm⟩
    rintro rfl
    have hne : comps t ≠ [] := by simp [comps]
    exact hne hl₂.symm

end Path

end Lankeeper.Lib
