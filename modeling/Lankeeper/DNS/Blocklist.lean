import Lankeeper.Lib.Basic
import Lankeeper.Lib.Text

/-!
# Lankeeper.DNS.Blocklist — refreshing the blocklist

`UpdateBlocklist` of `internal/services/dns.go`, and the limits of `safefetch.go`. Every
configured list is downloaded, what the downloads list is written to one file, and that
file replaces the one before it. A list that cannot be downloaded is skipped; the status
of a response is not looked at, so an error page is a list with whatever it happens to
hold.

`update_keeps_iff` says when a refresh loses nothing but what the lists dropped: each
domain that only failed lists had brought has to be on a list that came through.
-/

namespace Lankeeper.DNS

open Lib Text List

/-! ## Downloads -/

def maxFetchBytes : Nat := 32 * 1024 * 1024

/-- `bufio.MaxScanTokenSize`: a line of this length does not fit the scanner's buffer. -/
def maxLineBytes : Nat := 64 * 1024

def maxDomainLength : Nat := 253

/-- What the download of a list meets. -/
inductive Fetch
  /-- `validateOutboundURL` or `http.NewRequest` refuses the address. -/
  | invalidURL
  /-- No response. -/
  | transportError
  /-- A response; `complete` is false where the connection broke before its end. -/
  | response (status : Nat) (body : Text) (complete : Bool)

inductive DownloadError
  | invalidURL
  | transport
  | lineTooLong
  | tooLarge

/-- One label of `blocklistDomainPattern`. -/
def isLabel (t : Text) : Bool :=
  t ≠ [] && t.all fun c => c.isAlphanum || c == '_' || c == '-'

/-- `validBlocklistDomain`. -/
def validBlocklistDomain (domain : Text) : Bool :=
  byteLen domain ≤ maxDomainLength && (domain.splitOn '.').all isLabel

def parseHostsLine (line : Text) : Option Text :=
  let line := trimSpace line
  if line = [] ∨ line.head? = some '#' then none
  else
    match fields isSpace line with
    | address :: domain :: _ =>
      if address ≠ "0.0.0.0" ∧ address ≠ "127.0.0.1" then none
      else if domain = "localhost" ∨ domain = "0.0.0.0" then none
      else some domain
    | _ => none

def downloadBlocklist : Fetch → Except DownloadError (List Text)
  | .invalidURL => .error .invalidURL
  | .transportError => .error .transport
  | .response _ body complete =>
    let lines := body.splitOn '\n'
    if lines.any fun line => maxLineBytes ≤ byteLen line then .error .lineTooLong
    else if !complete then .error .transport
    else if maxFetchBytes < byteLen body then .error .tooLarge
    else .ok ((lines.filterMap parseHostsLine).filter validBlocklistDomain)

/-- The download did not bring the list: there is no response, or one that is broken, has
a line too long to scan, is oversized, or is an error page. -/
def Fetch.failed : Fetch → Bool
  | .invalidURL => true
  | .transportError => true
  | .response status body complete =>
    !complete || ((body.splitOn '\n').any fun line => maxLineBytes ≤ byteLen line) ||
      maxFetchBytes < byteLen body || status < 200 || 300 ≤ status

/-! ## The file -/

/-- The line that blocks a domain. -/
def blockLine (domain : Text) : Text :=
  "local-zone: \"" ++ domain ++ "\" always_refuse"

/-- Each domain once, in the order of its first occurrence. -/
def unseen (seen : List Text) : List Text → List Text
  | [] => []
  | d :: ds => if d ∈ seen then unseen seen ds else d :: unseen (d :: seen) ds

def blocklistText (domains : List Text) : Text :=
  (unseen [] domains).flatMap fun d => blockLine d ++ ['\n']

/-- Unbound refuses the domain. -/
def Blocked (file domain : Text) : Prop :=
  blockLine domain ∈ file.splitOn '\n'

instance (file domain : Text) : Decidable (Blocked file domain) :=
  inferInstanceAs (Decidable (_ ∈ _))

variable {d : Text} {ds : List Text} {r : Refresh}

theorem mem_unseen {seen ds : List Text} : d ∈ unseen seen ds ↔ d ∈ ds ∧ d ∉ seen := by
  induction ds generalizing seen with
  | nil => simp [unseen]
  | cons e ds ih =>
    unfold unseen
    split
    · rename_i he
      rw [ih, mem_cons]
      constructor
      · exact fun h => ⟨.inr h.1, h.2⟩
      · rintro ⟨rfl | h, hd⟩
        · exact absurd he hd
        · exact ⟨h, hd⟩
    · rename_i he
      rw [mem_cons, ih, mem_cons, mem_cons, not_or]
      constructor
      · rintro (rfl | ⟨h, -, hd⟩)
        · exact ⟨.inl rfl, he⟩
        · exact ⟨.inr h, hd⟩
      · rintro ⟨rfl | h, hd⟩
        · exact .inl rfl
        · by_cases hde : d = e
          · exact .inl hde
          · exact .inr ⟨h, hde, hd⟩

theorem newline_not_mem_of_valid (h : validBlocklistDomain d) : '\n' ∉ d := by
  unfold validBlocklistDomain at h
  rw [Bool.and_eq_true, all_eq_true] at h
  have hall : ∀ c ∈ d, c ≠ '\n' := by
    refine forall_of_splitOn (P := fun c => c ≠ '\n') (show '.' ≠ '\n' by decide) ?_
    intro label hlabel c hc
    have hl := h.2 label hlabel
    unfold isLabel at hl
    rw [Bool.and_eq_true, all_eq_true] at hl
    rintro rfl
    exact absurd (hl.2 _ hc) (by decide)
  exact fun hmem => hall _ hmem rfl

theorem newline_not_mem_blockLine (h : '\n' ∉ d) : '\n' ∉ blockLine d := by
  unfold blockLine
  rw [mem_append, mem_append]
  rintro ((hc | hc) | hc)
  · exact absurd hc (by decide)
  · exact h hc
  · exact absurd hc (by decide)

theorem blockLine_injective {d e : Text} (h : blockLine d = blockLine e) : d = e :=
  append_cancel_left (append_cancel_right h)

theorem splitOn_lines (h : ∀ d ∈ ds, '\n' ∉ d) :
    (ds.flatMap fun d => blockLine d ++ ['\n']).splitOn '\n' = ds.map blockLine ++ [[]] := by
  induction ds with
  | nil => rfl
  | cons d ds ih =>
    rw [forall_mem_cons] at h
    rw [flatMap_cons, append_assoc, singleton_append, splitOn_append_cons, ih h.2,
      splitOn_eq_singleton (newline_not_mem_blockLine h.1)]
    rfl

/-- The file blocks the domains it was written for. -/
theorem blocked_blocklistText (h : ∀ d ∈ ds, '\n' ∉ d) (d : Text) :
    Blocked (blocklistText ds) d ↔ d ∈ ds := by
  have hseen : ∀ e ∈ unseen [] ds, '\n' ∉ e := fun e he => h e (mem_unseen.mp he).1
  unfold Blocked blocklistText
  rw [splitOn_lines hseen, mem_append, mem_map]
  constructor
  · rintro (⟨e, he, heq⟩ | hnil)
    · rw [← blockLine_injective heq]
      exact (mem_unseen.mp he).1
    · cases mem_singleton.mp hnil
  · intro hd
    exact .inl ⟨d, mem_unseen.mpr ⟨hd, not_mem_nil⟩, rfl⟩

/-! ## The refresh -/

/-- What a call of `UpdateBlocklist` meets. -/
structure Refresh where
  /-- Another refresh is under way. -/
  running : Bool
  urls : List Text
  fetch : Text → Fetch
  /-- `netutil.WriteFile` succeeds; otherwise the file stays. -/
  written : Bool
  reloaded : Bool

inductive RefreshError
  | alreadyRunning
  | write
  | reload

namespace Refresh

/-- The loop over the addresses. -/
def allDomains (r : Refresh) : List Text :=
  r.urls.flatMap fun url =>
    match downloadBlocklist (r.fetch url) with
    | .error _ => []
    | .ok domains => domains

/-- `UpdateBlocklist`: the file afterwards, and the error. -/
def updateBlocklist (r : Refresh) (file : Text) : Text × Option RefreshError :=
  if r.running then (file, some .alreadyRunning)
  else if !r.written then (file, some .write)
  else (blocklistText r.allDomains, if r.reloaded then none else some .reload)

end Refresh

/-- A blocklist, and the lists its domains came from. -/
structure Previous where
  file : Text
  lists : List (Text × List Text)
  came : ∀ d, Blocked file d → ∃ l ∈ lists, d ∈ l.2

/-- The domain is blocked and came from no list but ones that failed now. -/
def Previous.Stranded (prev : Previous) (r : Refresh) (d : Text) : Prop :=
  Blocked prev.file d ∧ ∀ l ∈ prev.lists, d ∈ l.2 → l.1 ∈ r.urls ∧ (r.fetch l.1).failed

/-- Every download failed. -/
def Refresh.AllFailed (r : Refresh) : Prop :=
  r.urls ≠ [] ∧ ∀ url ∈ r.urls, (r.fetch url).failed

/-- A refresh keeps what came from failed lists, and where every download failed it keeps
the file or reports an error. -/
structure Keeps (r : Refresh) (prev : Previous) : Prop where
  stranded : ∀ d, prev.Stranded r d → Blocked (r.updateBlocklist prev.file).1 d
  allFailed : r.AllFailed → (r.updateBlocklist prev.file).1 = prev.file ∨
    (r.updateBlocklist prev.file).2 ≠ none

/-- The refresh stops before the file is replaced. -/
def Refresh.Stops (r : Refresh) : Prop :=
  r.running ∨ r.written = false

/-- The domain is on a list that came through, or on an error page taken for one. -/
def Refresh.Lists (r : Refresh) (d : Text) : Prop :=
  ∃ url ∈ r.urls, ∃ ds, downloadBlocklist (r.fetch url) = .ok ds ∧ d ∈ ds

theorem Refresh.mem_allDomains : d ∈ r.allDomains ↔ r.Lists d := by
  unfold allDomains Lists
  rw [mem_flatMap]
  constructor
  · rintro ⟨url, hurl, hd⟩
    split at hd
    · cases hd
    · rename_i ds hds
      exact ⟨url, hurl, ds, hds, hd⟩
  · rintro ⟨url, hurl, ds, hds, hd⟩
    refine ⟨url, hurl, ?_⟩
    rw [hds]
    exact hd

theorem valid_of_download {f : Fetch} (h : downloadBlocklist f = .ok ds) :
    ∀ d ∈ ds, validBlocklistDomain d := by
  intro d hd
  unfold downloadBlocklist at h
  split at h
  · cases h
  · cases h
  dsimp only at h
  split at h
  · cases h
  · split at h
    · cases h
    · split_ifs at h
      cases h
      exact (mem_filter.mp hd).2

theorem Refresh.updateBlocklist_of_stops (h : r.Stops) (file : Text) :
    (r.updateBlocklist file).1 = file ∧ (r.updateBlocklist file).2 ≠ none := by
  unfold updateBlocklist
  split
  · exact ⟨rfl, nofun⟩
  · rename_i hrun
    have hwritten : r.written = false := h.resolve_left hrun
    rw [if_pos (by rw [hwritten]; rfl)]
    exact ⟨rfl, nofun⟩

theorem Refresh.updateBlocklist_of_not_stops (h : ¬ r.Stops) (file : Text) :
    r.updateBlocklist file =
      (blocklistText r.allDomains, if r.reloaded then none else some .reload) := by
  rw [Refresh.Stops, not_or] at h
  unfold updateBlocklist
  rw [if_neg h.1, if_neg (by simpa using h.2)]

/-- After a refresh that replaces the file, what is blocked is what the downloads list. -/
theorem Refresh.blocked_iff_lists (h : ¬ r.Stops) (file d : Text) :
    Blocked (r.updateBlocklist file).1 d ↔ r.Lists d := by
  have hlines : ∀ e ∈ r.allDomains, '\n' ∉ e := by
    intro e he
    obtain ⟨url, _, ds, hds, hmem⟩ := mem_allDomains.mp he
    exact newline_not_mem_of_valid (valid_of_download hds e hmem)
  rw [updateBlocklist_of_not_stops h, blocked_blocklistText hlines, mem_allDomains]

/-- **Failed downloads.** A refresh keeps what the failed lists had brought exactly if it
stops before it replaces the file, or every domain that only failed lists had brought is on
a list that came through and, where every download failed, the reload fails as well or the
file is the one the error pages make. -/
theorem update_keeps_iff (r : Refresh) (prev : Previous) :
    Keeps r prev ↔ r.Stops ∨
      (∀ d, prev.Stranded r d → r.Lists d) ∧
      (r.AllFailed → r.reloaded = false ∨ prev.file = blocklistText r.allDomains) := by
  by_cases hstops : r.Stops
  · have hsame := r.updateBlocklist_of_stops hstops prev.file
    refine ⟨fun _ => .inl hstops, fun _ => ⟨?_, ?_⟩⟩
    · intro d hd
      rw [hsame.1]
      exact hd.1
    · exact fun _ => .inl hsame.1
  · have hupdate := r.updateBlocklist_of_not_stops hstops prev.file
    have hblocked := r.blocked_iff_lists hstops prev.file
    constructor
    · intro hkeeps
      refine .inr ⟨fun d hd => (hblocked d).mp (hkeeps.stranded d hd), fun hall => ?_⟩
      rcases hkeeps.allFailed hall with hfile | herr
      · rw [hupdate] at hfile
        exact .inr hfile.symm
      · rw [hupdate] at herr
        by_cases hreload : r.reloaded
        · exact absurd (if_pos hreload) herr
        · exact .inl (by simpa using hreload)
    · intro hcond
      obtain ⟨hlists, hall⟩ := hcond.resolve_left hstops
      refine ⟨fun d hd => (hblocked d).mpr (hlists d hd), fun hfailed => ?_⟩
      rw [hupdate]
      rcases hall hfailed with hreload | hfile
      · rw [hreload]
        exact .inr nofun
      · exact .inl hfile.symm

/-- A file made from two lists of one domain each. -/
def twoLists : Previous where
  file := blocklistText ["ads.example", "spy.example"]
  lists := [("a", ["ads.example"]), ("b", ["spy.example"])]
  came d hd := by
    rw [blocked_blocklistText (by decide)] at hd
    simpa using hd

/-- The first list is downloaded if `reach`, the second cannot be reached. -/
def refreshTwo (reach : Bool) : Refresh where
  running := false
  urls := ["a", "b"]
  fetch url :=
    if reach ∧ url = "a" then .response 200 "0.0.0.0 ads.example" true
    else .transportError
  written := true
  reloaded := true

/-- One of two lists cannot be reached: the domain that came from it is no longer blocked.
With both out of reach the file is emptied, and no error is returned. -/
theorem failed_downloads_unblock :
    (twoLists.Stranded (refreshTwo true) "spy.example" ∧
      ¬ Blocked ((refreshTwo true).updateBlocklist twoLists.file).1 "spy.example") ∧
    (refreshTwo false).AllFailed ∧ twoLists.file ≠ [] ∧
      (refreshTwo false).updateBlocklist twoLists.file = ([], none) := by
  have hstranded : twoLists.Stranded (refreshTwo true) "spy.example" := by
    refine ⟨by decide, ?_⟩
    show ∀ l ∈ twoLists.lists, _
    decide
  have hall : (refreshTwo false).AllFailed := by
    refine ⟨by decide, ?_⟩
    show ∀ url ∈ (refreshTwo false).urls, _
    decide
  exact ⟨⟨hstranded, by decide⟩, hall, by decide, rfl⟩

end Lankeeper.DNS
