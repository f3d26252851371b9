import Mathlib.Data.List.DropRight
import Mathlib.Tactic.Common

/-!
# Lankeeper.Lib.Text — Go's `strings` on character lists

Texts are lists of characters. White space comes in two kinds that differ outside
ASCII: `isSpace` is Go's `unicode.IsSpace`, `isAsciiSpace` is C's `isspace` in the
POSIX locale. `fields` is parametrised by the kind, and its lemmas say what does
not change the words of a text: white space around it, and the kind of white
space where the two agree.
-/

namespace Lankeeper.Lib

open List

/-- A Go string, as its characters. -/
abbrev Text := List Char

-- one named proof, shared by every membership test on lists of texts
instance : LawfulBEq Text := inferInstance

namespace Text

/-- Literals stand for their characters. -/
scoped instance : Coe String Text := ⟨String.toList⟩

/-! ## White space -/

/-- C's `isspace`. -/
def isAsciiSpace (c : Char) : Bool :=
  c == ' ' || c == '\t' || c == '\n' || c == '\x0b' || c == '\x0c' || c == '\r'

/-- Go's `unicode.IsSpace`. -/
def isSpace (c : Char) : Bool :=
  isAsciiSpace c || c == '\u0085' || c == '\u00a0' || c == '\u1680' ||
    (decide ('\u2000' ≤ c) && decide (c ≤ '\u200a')) || c == '\u2028' || c == '\u2029' ||
    c == '\u202f' || c == '\u205f' || c == '\u3000'

/-! ## Trimming and splitting -/

/-- `strings.TrimFunc`: characters of one kind dropped at both ends. -/
def trim (cut : Char → Bool) (s : Text) : Text :=
  (s.dropWhile cut).rdropWhile cut

/-- `strings.TrimSpace`. -/
def trimSpace (s : Text) : Text :=
  trim isSpace s

/-- `strings.TrimPrefix`. -/
def trimPrefix (p s : Text) : Text :=
  if p <+: s then s.drop p.length else s

/-- `strings.TrimSuffix`. -/
def trimSuffix (p s : Text) : Text :=
  if p <:+ s then s.take (s.length - p.length) else s

/-- `strings.Fields`, for one kind of white space. -/
def fields (sp : Char → Bool) (s : Text) : List Text :=
  (s.splitOnP sp).filter (· ≠ [])

/-- `strings.Cut` at a character: the text on both sides of its first occurrence. -/
def cut (sep : Char) : Text → Option (Text × Text)
  | [] => none
  | c :: t => if c = sep then some ([], t) else (cut sep t).map fun p => (c :: p.1, p.2)

variable {sep c : Char} {t s : Text} {sp : Char → Bool} {n : Int}

theorem cut_append {l : Text} (hl : sep ∉ l) (r : Text) :
    cut sep (l ++ sep :: r) = some (l, r) := by
  induction l with
  | nil => simp [cut]
  | cons c l ih =>
    rw [mem_cons, not_or] at hl
    rw [cons_append, cut, if_neg (Ne.symm hl.1), ih hl.2]
    rfl

theorem cut_eq_none : cut sep t = none ↔ sep ∉ t := by
  constructor
  · intro h hmem
    obtain ⟨l, r, rfl⟩ := append_of_mem hmem
    induction l with
    | nil => simp [cut] at h
    | cons c l ih =>
      rw [cons_append, cut] at h
      split_ifs at h
      exact ih (Option.map_eq_none_iff.mp h) (by simp)
  · intro h
    induction t with
    | nil => rfl
    | cons c t ih =>
      rw [mem_cons, not_or] at h
      rw [cut, if_neg (Ne.symm h.1), ih h.2]
      rfl

theorem cut_eq_some {l r : Text} : cut sep t = some (l, r) ↔ t = l ++ sep :: r ∧ sep ∉ l := by
  constructor
  · intro h
    induction t generalizing l with
    | nil => cases h
    | cons c t ih =>
      rw [cut] at h
      split at h
      · rename_i hc
        obtain ⟨rfl, rfl⟩ := h
        simp [hc]
      · rename_i hc
        obtain ⟨⟨l', r'⟩, hcut, heq⟩ := Option.map_eq_some_iff.mp h
        obtain ⟨rfl, rfl⟩ := Prod.mk.inj heq
        obtain ⟨rfl, hmem⟩ := ih hcut
        exact ⟨rfl, by simp [hmem, Ne.symm hc]⟩
  · rintro ⟨rfl, hmem⟩
    exact cut_append hmem r

theorem mem_intercalate {pieces : List Text} (h : c ∈ [sep].intercalate pieces) :
    c = sep ∨ ∃ piece ∈ pieces, c ∈ piece := by
  induction pieces with
  | nil => cases h
  | cons piece pieces ih =>
    rcases pieces with _ | ⟨next, pieces⟩
    · exact .inr ⟨piece, mem_cons_self, by simpa [List.intercalate] using h⟩
    have h' : c ∈ piece ∨ c = sep ∨ c ∈ [sep].intercalate (next :: pieces) := by
      simpa [List.intercalate, List.intersperse] using h
    rcases h' with h' | h' | h'
    · exact .inr ⟨piece, mem_cons_self, h'⟩
    · exact .inl h'
    · rcases ih h' with hs | ⟨q, hq, hcq⟩
      · exact .inl hs
      · exact .inr ⟨q, mem_cons_of_mem _ hq, hcq⟩

theorem mem_intercalate_of_mem {α : Type} {sep c : α} {pieces : List (List α)} {piece : List α}
    (hp : piece ∈ pieces) (hc : c ∈ piece) : c ∈ [sep].intercalate pieces := by
  induction pieces with
  | nil => cases hp
  | cons first pieces ih =>
    rcases pieces with _ | ⟨next, pieces⟩
    · rw [mem_singleton.mp hp] at hc
      simpa [List.intercalate] using hc
    have hcons : [sep].intercalate (first :: next :: pieces) =
        first ++ sep :: [sep].intercalate (next :: pieces) := by
      simp [List.intercalate, List.intersperse]
    rw [hcons]
    rcases mem_cons.mp hp with rfl | hp
    · exact mem_append_left _ hc
    · exact mem_append_right _ (mem_cons_of_mem _ (ih hp))

/-- What every piece between separators has, and the separator has, the text has. -/
theorem forall_of_splitOn {P : Char → Prop} (hsep : P sep)
    (h : ∀ piece ∈ t.splitOn sep, ∀ c ∈ piece, P c) : ∀ c ∈ t, P c := by
  intro c hc
  have heq : [sep].intercalate (t.splitOn sep) = t := intercalate_splitOn sep
  rw [← heq] at hc
  rcases mem_intercalate hc with rfl | ⟨piece, hp, hcp⟩
  · exact hsep
  · exact h piece hp c hcp

/-- Splitting at a separator that stands between two texts. -/
theorem splitOn_append_cons (sep : Char) (a b : Text) :
    (a ++ sep :: b).splitOn sep = a.splitOn sep ++ b.splitOn sep :=
  splitOnP_append_cons a b (by simp)

/-- No piece has the separator in it. -/
theorem not_mem_of_mem_splitOn {piece : Text} (h : piece ∈ t.splitOn sep) : sep ∉ piece := by
  have hpieces : ∀ t : Text, ∀ piece ∈ t.splitOnP (· == sep), sep ∉ piece := by
    intro t
    induction t with
    | nil => simp [splitOnP_nil]
    | cons c t ih =>
      rw [splitOnP_cons_eq_if_modifyHead]
      split_ifs with hc
      · simpa using ih
      obtain ⟨l, ls, hls⟩ := exists_cons_of_ne_nil (splitOnP_ne_nil (· == sep) t)
      rw [hls] at ih ⊢
      rw [modifyHead_cons, forall_mem_cons]
      rw [forall_mem_cons] at ih
      refine ⟨?_, ih.2⟩
      rw [mem_cons, not_or]
      exact ⟨fun heq => hc (by simp [heq]), ih.1⟩
  exact hpieces t piece h

/-- Lines that each end with the separator, in front of anything. -/
theorem splitOn_lines_append {ls : List Text} (h : ∀ l ∈ ls, sep ∉ l) (t : Text) :
    (ls.flatMap (· ++ [sep]) ++ t).splitOn sep = ls ++ t.splitOn sep := by
  induction ls with
  | nil => rfl
  | cons l ls ih =>
    rw [forall_mem_cons] at h
    rw [flatMap_cons, append_assoc, append_assoc, singleton_append,
      splitOn_append_cons, ih h.2, splitOn_eq_singleton h.1]
    rfl

/-- Lines that each end with the separator are what splitting gives back exactly if none of
them has it inside. -/
theorem splitOn_lines_iff (sep : Char) (ls : List Text) :
    (ls.flatMap (· ++ [sep])).splitOn sep = ls ++ [[]] ↔ ∀ l ∈ ls, sep ∉ l := by
  constructor
  · intro h l hl
    exact not_mem_of_mem_splitOn (h ▸ mem_append_left _ hl)
  · intro h
    simpa using splitOn_lines_append h []

section Cut

variable {d : Char} {t : Text}

theorem takeWhile_ne_self (h : d ∉ t) : t.takeWhile (· ≠ d) = t := by
  rw [takeWhile_eq_self_iff]
  intro c hc
  exact decide_eq_true fun heq => h (heq ▸ hc)

/-- What stands in front of the first `d`. -/
theorem takeWhile_ne (h : d ∉ t) (r : Text) : (t ++ d :: r).takeWhile (· ≠ d) = t := by
  rw [takeWhile_append_of_pos (takeWhile_eq_self_iff.mp (takeWhile_ne_self h))]
  simp

theorem dropWhile_ne (h : d ∉ t) (r : Text) : (t ++ d :: r).dropWhile (· ≠ d) = d :: r := by
  rw [dropWhile_append_of_pos (takeWhile_eq_self_iff.mp (takeWhile_ne_self h))]
  simp

/-- What stands behind the last `d`. -/
theorem rtakeWhile_ne (h : d ∉ t) (l : Text) : (l ++ d :: t).rtakeWhile (· ≠ d) = t := by
  rw [rtakeWhile, reverse_append, reverse_cons, append_assoc, singleton_append,
    takeWhile_ne (by simpa using h), reverse_reverse]

theorem rdropWhile_ne (h : d ∉ t) (l : Text) : (l ++ d :: t).rdropWhile (· ≠ d) = l ++ [d] := by
  rw [rdropWhile, reverse_append, reverse_cons, append_assoc, singleton_append,
    dropWhile_ne (by simpa using h), reverse_cons, reverse_reverse]

end Cut

/-! ## Words -/

@[simp] theorem fields_nil : fields sp [] = [] := by
  simp [fields, splitOnP_nil]

theorem fields_append_space (hc : sp c) (a b : Text) :
    fields sp (a ++ c :: b) = fields sp a ++ fields sp b := by
  unfold fields
  rw [splitOnP_append_cons a b hc, filter_append]

theorem fields_dropWhile (s : Text) : fields sp (s.dropWhile sp) = fields sp s := by
  induction s with
  | nil => rfl
  | cons c s ih =>
    by_cases hc : sp c
    · rw [dropWhile_cons_of_pos hc, ih]
      have h := fields_append_space hc [] s
      rw [fields_nil, nil_append] at h
      exact h.symm
    · rw [dropWhile_cons_of_neg hc]

theorem fields_rdropWhile (s : Text) : fields sp (s.rdropWhile sp) = fields sp s := by
  induction s using reverseRecOn with
  | nil => rfl
  | append_singleton s c ih =>
    by_cases hc : sp c
    · rw [rdropWhile_concat_pos _ _ _ hc, ih, fields_append_space hc, fields_nil, append_nil]
    · rw [rdropWhile_concat_neg _ _ _ hc]

/-- White space around a text belongs to no word. -/
theorem fields_trim (s : Text) : fields sp (trim sp s) = fields sp s := by
  unfold trim
  rw [fields_rdropWhile, fields_dropWhile]

/-- A text that starts with a character other than white space starts with a
word that starts with that character. -/
theorem fields_cons (hc : ¬ sp c) (s : Text) :
    ∃ w ws, w.head? = some c ∧ fields sp (c :: s) = w :: ws := by
  obtain ⟨w, ws, hw⟩ := exists_cons_of_ne_nil (splitOnP_ne_nil sp s)
  refine ⟨c :: w, ws.filter (· ≠ []), rfl, ?_⟩
  unfold fields
  rw [splitOnP_cons_eq_if_modifyHead, if_neg hc, hw, modifyHead_cons]
  simp

/-- Every other character is in a word. -/
theorem exists_field (hc : ¬ sp c) (h : c ∈ s) : ∃ w ∈ fields sp s, c ∈ w := by
  have hpieces : ∀ s : Text, c ∈ s → ∃ w ∈ s.splitOnP sp, c ∈ w := by
    intro s
    induction s with
    | nil => exact fun h => absurd h not_mem_nil
    | cons d s ih =>
      intro hmem
      rw [splitOnP_cons_eq_if_modifyHead]
      obtain ⟨l, ls, hls⟩ := exists_cons_of_ne_nil (splitOnP_ne_nil sp s)
      rw [hls] at ih ⊢
      rcases mem_cons.mp hmem with rfl | hmem
      · rw [if_neg hc]
        exact ⟨c :: l, mem_cons_self, mem_cons_self⟩
      obtain ⟨w, hw, hcw⟩ := ih hmem
      split_ifs
      · exact ⟨w, mem_cons_of_mem _ hw, hcw⟩
      · rcases mem_cons.mp hw with rfl | hw
        · exact ⟨d :: w, mem_cons_self, mem_cons_of_mem _ hcw⟩
        · exact ⟨w, mem_cons_of_mem _ hw, hcw⟩
  obtain ⟨w, hw, hcw⟩ := hpieces s h
  exact ⟨w, mem_filter.mpr ⟨hw, by simpa using ne_nil_of_mem hcw⟩, hcw⟩

/-- The characters of a word come from the text and are not white space. -/
theorem mem_fields {w : Text} (h : w ∈ fields sp s) : w ≠ [] ∧ ∀ c ∈ w, c ∈ s ∧ ¬ sp c := by
  have hpieces : ∀ s : Text, ∀ w ∈ s.splitOnP sp, ∀ c ∈ w, c ∈ s ∧ ¬ sp c := by
    intro s
    induction s with
    | nil => simp [splitOnP_nil]
    | cons d s ih =>
      rw [splitOnP_cons_eq_if_modifyHead]
      obtain ⟨l, ls, hls⟩ := exists_cons_of_ne_nil (splitOnP_ne_nil sp s)
      rw [hls] at ih ⊢
      have hlater : ∀ w ∈ l :: ls, ∀ c ∈ w, c ∈ d :: s ∧ ¬ sp c :=
        fun w hw c hc => ⟨mem_cons_of_mem _ (ih w hw c hc).1, (ih w hw c hc).2⟩
      split_ifs with hd
      · intro w hw
        rcases mem_cons.mp hw with rfl | hw
        · exact fun c hc => absurd hc not_mem_nil
        · exact hlater w hw
      · intro w hw c hc
        rcases mem_cons.mp hw with rfl | hw
        · rcases mem_cons.mp hc with rfl | hc
          · exact ⟨mem_cons_self, hd⟩
          · exact hlater l mem_cons_self c hc
        · exact hlater w (mem_cons_of_mem _ hw) c hc
  obtain ⟨hw, hne⟩ := mem_filter.mp h
  exact ⟨by simpa using hne, hpieces s w hw⟩

/-- A text without white space is one word. -/
theorem fields_eq_singleton (hne : s ≠ []) (h : ∀ c ∈ s, ¬ sp c) : fields sp s = [s] := by
  have hsplit : s.splitOnP sp = [s] := by
    induction s with
    | nil => exact absurd rfl hne
    | cons c s ih =>
      rw [forall_mem_cons] at h
      rw [splitOnP_cons_eq_if_modifyHead, if_neg h.1]
      by_cases hs : s = []
      · simp [hs, splitOnP_nil]
      · rw [ih hs h.2, modifyHead_cons]
  simp [fields, hsplit, hne]

theorem head_dropWhile (h : (s.dropWhile sp).head? = some c) : ¬ sp c := by
  have hne : s.dropWhile sp ≠ [] := by
    intro hnil
    rw [hnil] at h
    cases h
  have hhead := head_dropWhile_not sp hne
  rw [List.head?_eq_some_head hne] at h
  rw [Option.some.inj h] at hhead
  simp [hhead]

/-- A trimmed text starts with no white space. -/
theorem head_trim (h : (trim sp s).head? = some c) : ¬ sp c := by
  apply head_dropWhile (s := s)
  obtain ⟨r, hr⟩ := rdropWhile_prefix sp (s.dropWhile sp)
  unfold trim at h
  rw [← hr, List.head?_append, h]
  rfl

theorem getLast_trim (h : (trim sp s).getLast? = some c) : ¬ sp c := by
  have hne : trim sp s ≠ [] := by
    intro hnil
    rw [hnil] at h
    cases h
  have hlast : (trim sp s).getLast hne = c := by
    rwa [List.getLast?_eq_some_getLast hne, Option.some.injEq] at h
  rw [← hlast]
  exact rdropWhile_last_not sp _ hne

/-- Nothing is dropped where neither end is of the kind. -/
theorem trim_eq_self (hhead : ∀ c, s.head? = some c → ¬ sp c)
    (hlast : ∀ c, s.getLast? = some c → ¬ sp c) : trim sp s = s := by
  have hleft : s.dropWhile sp = s := by
    rcases s with _ | ⟨c, s⟩
    · rfl
    · rw [dropWhile_cons_of_neg (hhead c rfl)]
  rw [trim, hleft]
  rcases eq_nil_or_concat s with rfl | ⟨t, c, rfl⟩
  · rfl
  · rw [concat_eq_append] at hlast ⊢
    exact rdropWhile_concat_neg sp _ _ (hlast c (by simp))

/-- What trimming takes away stands around what it leaves. -/
theorem exists_trim (s : Text) :
    ∃ l r, s = l ++ trim sp s ++ r ∧ (∀ c ∈ l, sp c) ∧ ∀ c ∈ r, sp c := by
  refine ⟨s.takeWhile sp, (s.dropWhile sp).rtakeWhile sp, ?_, ?_, ?_⟩
  · rw [trim, append_assoc, rdropWhile_append_rtakeWhile, takeWhile_append_dropWhile]
  · intro c hc
    exact mem_takeWhile_imp hc
  · intro c hc
    exact mem_rtakeWhile_imp hc

theorem exists_trimSpace (s : Text) : ∃ l r, s = l ++ trimSpace s ++ r ∧
    (∀ c ∈ l, isSpace c) ∧ ∀ c ∈ r, isSpace c :=
  exists_trim s

/-- The words of two texts, cut at the last white space of the first. -/
theorem fields_append_left (l t : Text) :
    fields sp (l ++ t) =
      fields sp (l.rdropWhile (!sp ·)) ++ fields sp (l.rtakeWhile (!sp ·) ++ t) := by
  conv_lhs => rw [← rdropWhile_append_rtakeWhile (p := (!sp ·)) (l := l), append_assoc]
  rcases eq_nil_or_concat (l.rdropWhile (!sp ·)) with hnil | ⟨l', c, hcat⟩
  · rw [hnil, fields_nil]
    rfl
  · have hc : sp c := by
      have hlast := rdropWhile_last_not (!sp ·) l (by simp [hcat])
      simpa [hcat] using hlast
    rw [hcat, concat_eq_append, append_assoc, singleton_append,
      fields_append_space hc, fields_append_space hc, fields_nil, append_nil]

/-- The words of two texts, cut at the first white space of the second. -/
theorem fields_append_right (t r : Text) :
    fields sp (t ++ r) =
      fields sp (t ++ r.takeWhile (!sp ·)) ++ fields sp (r.dropWhile (!sp ·)) := by
  conv_lhs => rw [← takeWhile_append_dropWhile (p := (!sp ·)) (l := r), ← append_assoc]
  rcases hr : r.dropWhile (!sp ·) with _ | ⟨c, r'⟩
  · rw [append_nil, fields_nil, append_nil]
  have hc : sp c := by
    have hhead : ¬ (!sp c) := head_dropWhile (s := r) (by rw [hr]; rfl)
    simpa using hhead
  have hskip := fields_append_space hc [] r'
  rw [fields_nil, nil_append, nil_append] at hskip
  rw [fields_append_space hc, hskip]

/-- A word with anything around it: the field it is in, and the fields before and behind. -/
theorem fields_around (sp : Char → Bool) (l r : Text) {w : Text} (hne : w ≠ []) (hw : ∀ c ∈ w, ¬ sp c) :
    ∃ fs x y gs, fields sp (l ++ w ++ r) = fs ++ (x ++ w ++ y) :: gs ∧
      (∀ f ∈ fs, f ≠ [] ∧ ∀ c ∈ f, c ∈ l ∧ ¬ sp c) ∧
      (∀ g ∈ gs, g ≠ [] ∧ ∀ c ∈ g, c ∈ r ∧ ¬ sp c) ∧
      (∀ c ∈ x, c ∈ l ∧ ¬ sp c) ∧ ∀ c ∈ y, c ∈ r ∧ ¬ sp c := by
  have hx : ∀ c ∈ l.rtakeWhile (!sp ·), c ∈ l ∧ ¬ sp c := fun c hc =>
    ⟨(rtakeWhile_suffix _ l).subset hc, by simpa using mem_rtakeWhile_imp hc⟩
  have hy : ∀ c ∈ r.takeWhile (!sp ·), c ∈ r ∧ ¬ sp c := fun c hc =>
    ⟨( takeWhile_prefix _).subset hc, by simpa using mem_takeWhile_imp hc⟩
  have hone : fields sp (l.rtakeWhile (!sp ·) ++ w ++ r.takeWhile (!sp ·)) =
      [l.rtakeWhile (!sp ·) ++ w ++ r.takeWhile (!sp ·)] := by
    apply fields_eq_singleton (by simp [hne])
    simp only [forall_mem_append]
    exact ⟨⟨fun c hc => (hx c hc).2, hw⟩, fun c hc => (hy c hc).2⟩
  refine ⟨fields sp (l.rdropWhile (!sp ·)), l.rtakeWhile (!sp ·), r.takeWhile (!sp ·),
    fields sp (r.dropWhile (!sp ·)), ?_, ?_, ?_, hx, hy⟩
  · rw [append_assoc, fields_append_left, ← append_assoc, fields_append_right, hone]
    rfl
  · intro f hf
    obtain ⟨hfne, hfc⟩ := mem_fields hf
    exact ⟨hfne, fun c hc => ⟨( rdropWhile_prefix _ l).subset (hfc c hc).1, (hfc c hc).2⟩⟩
  · intro g hg
    obtain ⟨hgne, hgc⟩ := mem_fields hg
    exact ⟨hgne, fun c hc => ⟨(dropWhile_suffix _).subset (hgc c hc).1, (hgc c hc).2⟩⟩

theorem trimSpace_trimSpace (s : Text) : trimSpace (trimSpace s) = trimSpace s :=
  trim_eq_self (fun _ => head_trim) fun _ => getLast_trim

/-- What is left of a text after trimming stands right after its leading white
space. -/
theorem trim_prefix_dropWhile (s : Text) : trim sp s <+: s.dropWhile sp :=
  rdropWhile_prefix sp _

theorem dropWhile_congr {sp' : Char → Bool} (h : ∀ c ∈ s, sp c = sp' c) :
    s.dropWhile sp = s.dropWhile sp' := by
  induction s with
  | nil => rfl
  | cons c s ih =>
    rw [dropWhile_cons, dropWhile_cons, h c (mem_cons_self ..),
      ih fun d hd => h d (mem_cons_of_mem _ hd)]

theorem trim_congr {sp' : Char → Bool} (h : ∀ c ∈ s, sp c = sp' c) : trim sp s = trim sp' s := by
  have hdrop : ∀ c ∈ (s.dropWhile sp').reverse, sp c = sp' c := by
    intro c hc
    exact h c ((dropWhile_suffix _).subset (mem_reverse.mp hc))
  rw [trim, trim, dropWhile_congr h, rdropWhile, dropWhile_congr hdrop, rdropWhile]

/-! ## Numbers and lengths -/

/-- `len`, which counts bytes. -/
def byteLen (t : Text) : Nat :=
  t.foldl (fun n c => n + c.utf8Size) 0

/-- A decimal number without a sign. -/
def readNat (t : Text) : Option Nat :=
  if t ≠ [] ∧ t.all Char.isDigit then some (Nat.ofDigitChars 10 t 0) else none

/-- A decimal number of any size, with an optional sign. -/
def readInt : Text → Option Int
  | '-' :: r => (readNat r).map fun n => -(n : Int)
  | '+' :: r => (readNat r).map fun n => (n : Int)
  | r => (readNat r).map fun n => (n : Int)

/-- `strconv.Atoi`, on 64 bits. -/
def atoi (t : Text) : Option Int :=
  (readInt t).bind fun n =>
    if -9223372036854775808 ≤ n ∧ n ≤ 9223372036854775807 then some n else none

theorem atoi_eq_some :
    atoi t = some n ↔ readInt t = some n ∧ -9223372036854775808 ≤ n ∧ n ≤ 9223372036854775807 := by
  rw [atoi, Option.bind_eq_some_iff]
  constructor
  · rintro ⟨m, hm, h⟩
    split at h
    · rename_i hrange
      cases h
      exact ⟨hm, hrange⟩
    · cases h
  · rintro ⟨hn, hrange⟩
    exact ⟨n, hn, if_pos hrange⟩

/-- A number is digits, but for a sign at its start. -/
theorem readInt_chars (h : readInt t = some n) :
    ∃ c r, t = c :: r ∧ (c.isDigit ∨ c = '+' ∨ c = '-') ∧ ∀ d ∈ r, d.isDigit := by
  have hnat : ∀ {r : Text} {f : Int → Int}, Option.map f (do let a ← readNat r; pure (a : Int)) =
      some n → r ≠ [] ∧ ∀ c ∈ r, c.isDigit := by
    intro r f hr
    obtain ⟨_, hr, -⟩ := Option.map_eq_some_iff.mp hr
    obtain ⟨m, hm, -⟩ := Option.bind_eq_some_iff.mp hr
    unfold readNat at hm
    split at hm
    · rename_i hr
      exact ⟨hr.1, all_eq_true.mp hr.2⟩
    · cases hm
  unfold readInt at h
  split at h
  · exact ⟨'-', _, rfl, by simp, (hnat h).2⟩
  · exact ⟨'+', _, rfl, by simp, (hnat h).2⟩
  · obtain ⟨hne, hdigits⟩ := hnat h
    obtain ⟨c, r, rfl⟩ := exists_cons_of_ne_nil hne
    exact ⟨c, r, rfl, .inl (hdigits c (mem_cons_self ..)),
      fun d hd => hdigits d (mem_cons_of_mem _ hd)⟩

/-- `%d`. -/
def decimal : Int → Text
  | .ofNat n => Nat.toDigits 10 n
  | .negSucc n => '-' :: Nat.toDigits 10 (n + 1)

theorem mem_decimal (h : c ∈ decimal n) : c.isDigit ∨ c = '-' := by
  cases n with
  | ofNat n => exact .inl (Nat.isDigit_of_mem_toDigits (by decide) (by decide) h)
  | negSucc n =>
    rcases mem_cons.mp h with rfl | h
    · exact .inr rfl
    · exact .inl (Nat.isDigit_of_mem_toDigits (by decide) (by decide) h)

theorem decimal_ne_nil (n : Int) : decimal n ≠ [] := by
  cases n with
  | ofNat n => exact Nat.toDigits_ne_nil
  | negSucc n => exact cons_ne_nil _ _

theorem readNat_decimal {m : Nat} : readNat (decimal n) = some m ↔ n = m := by
  cases n with
  | ofNat n =>
    have hd : (Nat.toDigits 10 n).all Char.isDigit := by
      rw [all_eq_true]
      intro c hc
      exact Nat.isDigit_of_mem_toDigits (by decide) (by decide) hc
    simp only [readNat, decimal, ne_eq, Nat.toDigits_ne_nil, not_false_eq_true, hd, and_self,
      if_true, Nat.ofDigitChars_toDigits (by decide : 1 < 10) (by decide : 10 ≤ 10),
      Option.some.injEq, Int.ofNat_eq_natCast]
    omega
  | negSucc n =>
    -- the sign is no digit
    simp [readNat, decimal]

theorem toNat_le_of_isAlphanum (h : c.isAlphanum) : c.toNat ≤ 122 := by
  have h : ((c.isUpper || c.isLower) || c.isDigit) := h
  rw [Bool.or_eq_true, Bool.or_eq_true] at h
  rcases h with (hu | hl) | hd
  · have hle : c.val ≤ 90 := (of_decide_eq_true hu).2
    exact Nat.le_trans (UInt32.le_iff_toNat_le.mp hle) (by decide)
  · have hle : c.val ≤ 122 := of_decide_eq_true (Bool.and_eq_true_iff.mp hl).2
    exact UInt32.le_iff_toNat_le.mp hle
  · exact Nat.le_trans (Char.isDigit_iff_toNat.mp hd).2 (by decide)

end Text

/-! ## Bytes -/

/-- A Go byte slice. -/
abbrev Bytes := List UInt8

namespace Text

/-- A byte of the form `10xxxxxx`. -/
def isTail (b : UInt8) : Bool :=
  0x80 ≤ b && b ≤ 0xbf

/-- `utf8.DecodeRune`: the first character and its width. A byte that starts no
character stands for U+FFFD. -/
def decodeRune : Bytes → Char × Nat
  | a :: b :: c :: d :: _ =>
    if a < 0x80 then (Char.ofNat a.toNat, 1)
    else if 0xc2 ≤ a && a ≤ 0xdf && isTail b then two a b
    else if tail3 a b && isTail c then three a b c
    else if tail4 a b && isTail c && isTail d then
      (Char.ofNat ((((a.toNat % 8) * 64 + b.toNat % 64) * 64 + c.toNat % 64) * 64 + d.toNat % 64), 4)
    else ('\ufffd', 1)
  | [a, b, c] =>
    if a < 0x80 then (Char.ofNat a.toNat, 1)
    else if 0xc2 ≤ a && a ≤ 0xdf && isTail b then two a b
    else if tail3 a b && isTail c then three a b c
    else ('\ufffd', 1)
  | [a, b] =>
    if a < 0x80 then (Char.ofNat a.toNat, 1)
    else if 0xc2 ≤ a && a ≤ 0xdf && isTail b then two a b
    else ('\ufffd', 1)
  | [a] => if a < 0x80 then (Char.ofNat a.toNat, 1) else ('\ufffd', 1)
  | [] => ('\ufffd', 0)
where
  two (a b : UInt8) : Char × Nat := (Char.ofNat ((a.toNat % 32) * 64 + b.toNat % 64), 2)
  three (a b c : UInt8) : Char × Nat :=
    (Char.ofNat (((a.toNat % 16) * 64 + b.toNat % 64) * 64 + c.toNat % 64), 3)
  /-- a lead byte of three with a second byte that makes neither an overlong form nor a surrogate -/
  tail3 (a b : UInt8) : Bool :=
    if a == 0xe0 then 0xa0 ≤ b && b ≤ 0xbf
    else if a == 0xed then 0x80 ≤ b && b ≤ 0x9f
    else 0xe1 ≤ a && a ≤ 0xef && isTail b
  /-- a lead byte of four with a second byte that stays within U+10FFFF -/
  tail4 (a b : UInt8) : Bool :=
    if a == 0xf0 then 0x90 ≤ b && b ≤ 0xbf
    else if a == 0xf4 then 0x80 ≤ b && b ≤ 0x8f
    else 0xf1 ≤ a && a ≤ 0xf3 && isTail b

def runesUpTo : Nat → Bytes → Text
  | 0, _ => []
  | _, [] => []
  | n + 1, bs => (decodeRune bs).1 :: runesUpTo n (bs.drop (decodeRune bs).2)

/-- The characters of `string(bs)`; each takes at least one byte. -/
def ofBytes (bs : Bytes) : Text :=
  runesUpTo bs.length bs

/-- A byte of ASCII is a character. -/
theorem decodeRune_ascii {a : UInt8} (h : a < 0x80) (bs : Bytes) :
    decodeRune (a :: bs) = (Char.ofNat a.toNat, 1) := by
  rcases bs with _ | ⟨b, _ | ⟨c, _ | ⟨d, bs⟩⟩⟩ <;> simp [decodeRune, h]

theorem ofBytes_ascii {t : Text} (h : ∀ c ∈ t, c.toNat < 128) :
    ofBytes (t.map fun c => UInt8.ofNat c.toNat) = t := by
  unfold ofBytes
  induction t with
  | nil => rfl
  | cons c t ih =>
    rw [forall_mem_cons] at h
    have hbyte : (UInt8.ofNat c.toNat).toNat = c.toNat := by
      rw [UInt8.toNat_ofNat', Nat.mod_eq_of_lt (by omega)]
    have hlt : UInt8.ofNat c.toNat < 0x80 := by
      rw [UInt8.lt_iff_toNat_lt, hbyte]
      exact h.1
    rw [map_cons, length_cons, runesUpTo, decodeRune_ascii hlt, hbyte, Char.ofNat_toNat,
      drop_succ_cons, drop_zero, ih h.2]
    simp

end Text

end Lankeeper.Lib
