import Lankeeper.Lib.Text

/-!
# Lankeeper.Lib.Sections — configuration files of sections

A file with several sections under the same header line, as `wg` reads them: blank
lines do not count, and a section goes to the next header. The lines of a section are
texts that somebody puts between line ends without looking at them.

`sections_flatMap_iff`: the file reads back as the sections it was made of exactly if
none of their lines has a line end in it.
-/

namespace Lankeeper.Lib.Sections

open Text List

/-- A blank line, the header and the lines of the section. -/
def block (header : Text) (body : List Text) : Text :=
  ([] :: header :: body).flatMap (· ++ ['\n'])

/-- The lines under each header of a file. -/
def sections (header : Text) (file : Text) : List (List Text) :=
  (((file.splitOn '\n').filter (· ≠ [])).splitOn header).tail

variable {header : Text} {bodies : List (List Text)}

/-- Lines cut at each header. -/
theorem splitOn_headers (h : ∀ body ∈ bodies, header ∉ body) :
    (bodies.flatMap (header :: ·)).splitOn header = [] :: bodies := by
  have hjoin : ∀ (first : List Text) (bodies : List (List Text)),
      first ++ bodies.flatMap (header :: ·) = [header].intercalate (first :: bodies) := by
    intro first bodies
    induction bodies generalizing first with
    | nil => simp [List.intercalate]
    | cons body bodies ih =>
      rw [intercalate_cons_cons, ← ih, flatMap_cons]
      simp
  have hcut := hjoin [] bodies
  rw [nil_append] at hcut
  rw [hcut]
  refine splitOn_intercalate header ?_ (cons_ne_nil _ _)
  rw [forall_mem_cons]
  exact ⟨not_mem_nil, h⟩

/-- Every line under a header is a line of the file. -/
theorem mem_splitOn_of_mem_sections {file line : Text} {body : List Text}
    (hbody : body ∈ sections header file) (hline : line ∈ body) : line ∈ file.splitOn '\n' := by
  have hpiece := mem_of_mem_tail hbody
  have hmem : line ∈ [header].intercalate (((file.splitOn '\n').filter (· ≠ [])).splitOn header) :=
    mem_intercalate_of_mem hpiece hline
  rw [intercalate_splitOn] at hmem
  exact mem_of_mem_filter hmem

/-- **Sections.** A file of blocks reads back exactly if no line has a line end in it. -/
theorem sections_flatMap_iff (hheader : '\n' ∉ header) (hne : header ≠ [])
    (hbodies : ∀ body ∈ bodies, ∀ line ∈ body, line ≠ [] ∧ line ≠ header) :
    sections header (bodies.flatMap (block header)) = bodies ↔
      ∀ body ∈ bodies, ∀ line ∈ body, '\n' ∉ line := by
  constructor
  · intro h body hbody line hline
    rw [← h] at hbody
    exact not_mem_of_mem_splitOn (mem_splitOn_of_mem_sections hbody hline)
  intro h
  -- the lines of the file, with the blank ones
  have hlines : bodies.flatMap (block header) =
      (bodies.flatMap fun body => [] :: header :: body).flatMap (· ++ ['\n']) := by
    rw [flatMap_assoc]
    rfl
  have hends : ∀ line ∈ bodies.flatMap fun body => [] :: header :: body, '\n' ∉ line := by
    intro line hline
    obtain ⟨body, hbody, hline⟩ := mem_flatMap.mp hline
    rcases mem_cons.mp hline with rfl | hline
    · exact not_mem_nil
    · rcases mem_cons.mp hline with rfl | hline
      · exact hheader
      · exact h body hbody line hline
  have hfilter : ((bodies.flatMap fun body => [] :: header :: body) ++ [[]]).filter (· ≠ []) =
      bodies.flatMap (header :: ·) := by
    have hbody : ∀ body ∈ bodies, ([] :: header :: body).filter (· ≠ []) = header :: body := by
      intro body hbody
      rw [filter_cons_of_neg (by simp), filter_cons_of_pos (by simpa using hne)]
      congr 1
      refine filter_eq_self.mpr fun line hline => ?_
      simpa using (hbodies body hbody line hline).1
    rw [filter_append, filter_flatMap, flatMap_congr hbody]
    simp
  rw [sections, hlines, (splitOn_lines_iff '\n' _).mpr hends, hfilter, splitOn_headers, tail_cons]
  intro body hbody hmem
  exact (hbodies body hbody header hmem).2 rfl

end Lankeeper.Lib.Sections
