import Mathlib.Data.List.Induction
import Lankeeper.DNS.Blocklist
import Lankeeper.Lib.Path

/-!
# Lankeeper.NAS.Playlist — files from a remote playlist

The M3U part of `internal/services/nas.go`. A playlist is downloaded, read line by line into
items with a group, a title and an address, filtered by group, and every item that is left
becomes a file `title.strm` in a directory named after its group.

Group and title come from a remote server. `sanitizePath` makes a single path component of
either, so every file lies two levels beneath the download path: `strm_in_place`. It is not
injective, and the same title may occur twice, so items can share a file, and the last one
wins: `items_stored_iff`.

`strings.ToLower` maps each rune by a table of the `unicode` package, which is a parameter
here.
-/

namespace Lankeeper.NAS

open Lib Text Path List

/-! ## Reading a playlist -/

/-- `config.M3USourceConfig`. -/
structure M3USourceConfig where
  url : Text
  downloadPath : Text
  schedule : Text
  includeGroups : List Text
  excludeGroups : List Text

structure M3UItem where
  group : Text
  title : Text
  url : Text
deriving DecidableEq

/-- `m3uParser`. -/
structure M3UParser where
  items : List M3UItem := []
  group : Text := []
  title : Text := []

/-- The text after the first occurrence of `sep`, as `strings.Cut` finds it. -/
def afterText (sep : Text) : Text → Option Text
  | [] => if sep = [] then some [] else none
  | c :: t => if sep <+: c :: t then some ((c :: t).drop sep.length) else afterText sep t

/-- `cmp.Or`. -/
def orElse (t default : Text) : Text :=
  if t = [] then default else t

namespace M3UParser

def readInfo (p : M3UParser) (info : Text) : M3UParser :=
  let group :=
    match afterText "group-title=\"" info with
    | none => p.group
    | some after =>
      match cut '"' after with
      | none => p.group
      | some (before, _) => before
  -- the text after the last comma
  let title := if ',' ∈ info then trimSpace (info.rtakeWhile (· ≠ ',')) else p.title
  { p with group := group, title := title }

/-- `feed` consumes one playlist line. -/
def feed (p : M3UParser) (line : Text) : M3UParser :=
  let line := trimSpace line
  if "#EXTINF:" <+: line then p.readInfo (line.drop 8)
  else if line = [] ∨ line.head? = some '#' then p
  else
    { items := p.items ++
        [⟨orElse p.group "Ungrouped", orElse p.title "Unknown", line⟩]
      group := []
      title := [] }

end M3UParser

/-- The items of a playlist. -/
def parseM3U (body : Text) : List M3UItem :=
  ((body.splitOn '\n').foldl M3UParser.feed {}).items

def downloadAndParseM3U : DNS.Fetch → Except DNS.DownloadError (List M3UItem)
  | .invalidURL => .error .invalidURL
  | .transportError => .error .transport
  | .response _ body complete =>
    if (body.splitOn '\n').any fun line => DNS.maxLineBytes ≤ byteLen line then .error .lineTooLong
    else if !complete then .error .transport
    else if DNS.maxFetchBytes < byteLen body then .error .tooLarge
    else .ok (parseM3U body)

def filterM3UItems (lower : Char → Char) (items : List M3UItem)
    (includeGroups excludeGroups : List Text) : List M3UItem :=
  let includeSet := includeGroups.map (List.map lower)
  let excludeSet := excludeGroups.map (List.map lower)
  items.filter fun item =>
    let groupLower := item.group.map lower
    !excludeSet.contains groupLower && (includeSet.isEmpty || includeSet.contains groupLower)

theorem filterM3UItems_nil (lower : Char → Char) (items : List M3UItem) :
    filterM3UItems lower items [] [] = items := by
  simp [filterM3UItems]

/-- A response within the limits. -/
theorem downloadAndParseM3U_eq {status : Nat} {body : Text}
    (hlines : ((body.splitOn '\n').any fun line => DNS.maxLineBytes ≤ byteLen line) = false)
    (hsize : byteLen body ≤ DNS.maxFetchBytes) :
    downloadAndParseM3U (.response status body true) = .ok (parseM3U body) := by
  dsimp only [downloadAndParseM3U]
  rw [hlines]
  simp [Nat.not_lt.mpr hsize]

/-! ## Paths -/

/-- `fsPathRegex`. -/
def isPathChar (c : Char) : Bool :=
  c.isAlphanum || c ∈ "/._+~ -".toList

/-- The errors of `ValidateFilesystemPath`. -/
inductive PathError
  | empty
  | tooLong
  | characters (raw : Text)
deriving DecidableEq

def validateFilesystemPath (s : Text) : Except PathError Unit :=
  if s = [] then .error .empty
  else if 4096 < byteLen s then .error .tooLong
  else if s.all isPathChar then .ok ()
  else .error (.characters s)

inductive MediaPathError
  /-- `ErrMediaPathCharacters` -/
  | characters (e : PathError)
  /-- `ErrMediaPathPrefix` -/
  | outside (clean : Text)
deriving DecidableEq

/-- The character set is checked on the raw path, the roots on the cleaned one. -/
def validateMediaPath (raw : Text) : Except MediaPathError Text :=
  match validateFilesystemPath raw with
  | .error e => .error (.characters e)
  | .ok () =>
    if "/srv/" <+: clean raw ∨ "/mnt/" <+: clean raw then .ok (clean raw)
    else .error (.outside (clean raw))

/-- The characters that `sanitizePath` replaces by an underscore. -/
def replaced (c : Char) : Bool :=
  c ∈ ['/', '\\', ':', '*', '?', '"', '<', '>', '|']

def sanitizePath (s : Text) : Text :=
  let out := trimSpace (s.map fun c => if replaced c then '_' else c)
  if out = [] ∨ trim (· == '.') out = [] then ['_'] else out

inductive StrmError
  /-- the component leads out of the directory -/
  | escapes (component root : Text)
  | mkdir (path : Text)
  | write (path : Text)
deriving DecidableEq

def containedJoin (base component : Text) : Except StrmError Text :=
  let root := clean base
  let joined := join root component
  if joined ≠ root ∧ ¬ root ++ ['/'] <+: joined then .error (.escapes component root)
  else .ok joined

/-! ## Writing the files -/

/-- How the calls to the file system end: of the download directory, and of the group
directory and the file of each item. -/
structure StrmIO where
  mkdirRoot : Bool
  mkdirGroup : Nat → Bool
  write : Nat → Bool

/-- A call of `os.WriteFile`. -/
structure Write where
  path : Text
  content : Text
  ok : Bool
deriving DecidableEq

/-- `writeStrm` for the item with the given number: the file it writes, if it gets there. -/
def writeStrm (io : StrmIO) (downloadPath : Text) (i : Nat) (item : M3UItem) :
    Except StrmError Write := do
  let groupDir ← containedJoin downloadPath (sanitizePath item.group)
  if !io.mkdirGroup i then .error (.mkdir groupDir)
  else
    let strmPath ← containedJoin groupDir (sanitizePath item.title ++ ".strm")
    .ok ⟨strmPath, item.url ++ ['\n'], io.write i⟩

/-- What a sync reports, and its writes in order. -/
structure SyncRun where
  items : Nat := 0
  errs : Nat := 0
  writes : List Write := []
deriving DecidableEq

/-- The loop of `syncM3USource` over the items from number `i` on. -/
def syncItems (io : StrmIO) (downloadPath : Text) : Nat → List M3UItem → SyncRun
  | _, [] => {}
  | i, item :: rest =>
    let run := syncItems io downloadPath (i + 1) rest
    match writeStrm io downloadPath i item with
    | .error _ => { run with errs := run.errs + 1 }
    | .ok w =>
      if w.ok then { run with items := run.items + 1, writes := w :: run.writes }
      else { run with errs := run.errs + 1, writes := w :: run.writes }

def syncM3USource (lower : Char → Char) (io : StrmIO) (fetched : DNS.Fetch)
    (source : M3USourceConfig) : SyncRun :=
  match validateMediaPath source.downloadPath with
  | .error _ => { errs := 1 }
  | .ok downloadPath =>
    match downloadAndParseM3U fetched with
    | .error _ => { errs := 1 }
    | .ok list =>
      let filtered := filterM3UItems lower list source.includeGroups source.excludeGroups
      -- not counted as an error
      if !io.mkdirRoot then {}
      else syncItems io downloadPath 0 filtered

/-! ## Single components -/

theorem not_mem_trimSpace {c : Char} {s : Text} (h : c ∉ s) : c ∉ trimSpace s := by
  obtain ⟨l, r, hs, -⟩ := exists_trimSpace s
  intro hc
  rw [hs] at h
  simp [hc] at h

theorem isName_sanitizePath (s : Text) : IsName (sanitizePath s) := by
  unfold sanitizePath
  generalize hout : trimSpace (s.map fun c => if replaced c then '_' else c) = out
  have hslash : '/' ∉ out := by
    rw [← hout]
    refine not_mem_trimSpace fun hmem => ?_
    obtain ⟨c, -, hc⟩ := mem_map.mp hmem
    split at hc
    case isTrue => exact absurd hc (by decide)
    case isFalse hkept =>
      subst hc
      exact hkept (by decide)
  simp only
  split
  case isTrue => decide
  case isFalse hkept =>
    -- a component of dots only was replaced
    have hdots : trim (· == '.') out ≠ [] := fun h => hkept (.inr h)
    refine ⟨fun h => hkept (.inl h), ?_, ?_, hslash⟩
    · rintro rfl
      exact hdots (by decide)
    · rintro rfl
      exact hdots (by decide)

theorem isName_strm {t : Text} (h : '/' ∉ t) : IsName (t ++ ".strm") := by
  have hlen : 5 ≤ (t ++ ".strm").length := by simp
  refine ⟨?_, ?_, ?_, ?_⟩
  · intro heq
    rw [heq] at hlen
    exact absurd hlen (by decide)
  · intro heq
    rw [heq] at hlen
    exact absurd hlen (by decide)
  · intro heq
    rw [heq] at hlen
    exact absurd hlen (by decide)
  · simp [h]

/-- The directory of a group. -/
def groupName (item : M3UItem) : Name :=
  ⟨sanitizePath item.group, isName_sanitizePath _⟩

/-- The file of an item. -/
def strmName (item : M3UItem) : Name :=
  ⟨sanitizePath item.title ++ ".strm", isName_strm (isName_sanitizePath _).2.2.2⟩

/-- A single component stays where it is put. -/
theorem containedJoin_name {l : Loc} (hl : l ≠ []) (n : Name) :
    containedJoin (toText l) n.text = .ok (toText (l ++ [n])) := by
  have hrel : n.text = relText [n] := by simp [relText]
  have hjoin : join (toText l) n.text = toText (l ++ [n]) := by
    rw [hrel, join_toText_relText]
  have hbeneath : toText l ++ ['/'] <+: toText (l ++ [n]) := by
    rw [toText_concat, if_neg hl]
    exact ⟨n.text, by simp⟩
  unfold containedJoin
  simp only [clean_toText, hjoin]
  rw [if_neg (fun h => h.2 hbeneath)]

/-! ## The download path -/

/-- A place strictly beneath one of the media roots. -/
def MediaPlace (l : Loc) : Prop :=
  ∃ root rest, l = root :: rest ∧ rest ≠ [] ∧ (root.text = "srv" ∨ root.text = "mnt")

theorem exists_rest_of_start {l : Loc} (root : Name) {t : Text}
    (h : toText l = '/' :: (root.text ++ '/' :: t)) : ∃ rest, l = root :: rest ∧ rest ≠ [] := by
  have hcomps := congrArg comps h
  rw [comps_toText, comps_slash_cons, comps_append_slash, comps_name, List.cons.injEq] at hcomps
  cases l with
  | nil => simp at hcomps
  | cons n rest =>
    have hboth := hcomps.2
    rw [if_neg (cons_ne_nil n rest), map_cons, singleton_append, List.cons.injEq,
      Comp.name.injEq] at hboth
    refine ⟨rest, by rw [hboth.1], ?_⟩
    rintro rfl
    have hnil : (t.splitOn '/').map comp = [] := hboth.2.symm
    exact splitOn_ne_nil _ _ (map_eq_nil_iff.mp hnil)

theorem validateMediaPath_ok {raw path : Text} (h : validateMediaPath raw = .ok path) :
    ∃ l, path = toText l ∧ MediaPlace l := by
  have hclean : path = clean raw ∧ ("/srv/" <+: path ∨ "/mnt/" <+: path) := by
    unfold validateMediaPath at h
    split at h
    · cases h
    · split at h
      case isTrue hroot =>
        cases h
        exact ⟨rfl, hroot⟩
      case isFalse => cases h
  obtain ⟨rfl, hroot⟩ := hclean
  have habs : isAbs raw := by
    rw [← isAbs_clean]
    rcases hroot with ⟨t, ht⟩ | ⟨t, ht⟩ <;> rw [← ht] <;> rfl
  rw [clean_eq_toText habs] at hroot ⊢
  refine ⟨_, rfl, ?_⟩
  rcases hroot with ⟨t, ht⟩ | ⟨t, ht⟩
  · obtain ⟨rest, hl, hrest⟩ := exists_rest_of_start ⟨"srv", by decide⟩ ht.symm
    exact ⟨_, rest, hl, hrest, .inl rfl⟩
  · obtain ⟨rest, hl, hrest⟩ := exists_rest_of_start ⟨"mnt", by decide⟩ ht.symm
    exact ⟨_, rest, hl, hrest, .inr rfl⟩

/-! ## Where the files go -/

/-- The file of an item beneath a download path. -/
def strmLoc (l : Loc) (item : M3UItem) : Loc :=
  l ++ [groupName item, strmName item]

section Writes

variable {io : StrmIO} {l : Loc}

theorem writeStrm_eq (hl : l ≠ []) (i : Nat) (item : M3UItem) :
    writeStrm io (toText l) i item =
      if io.mkdirGroup i then
        .ok ⟨toText (strmLoc l item), item.url ++ ['\n'], io.write i⟩
      else .error (.mkdir (toText (l ++ [groupName item]))) := by
  have hgroup := containedJoin_name hl (groupName item)
  have hfile := containedJoin_name (l := l ++ [groupName item]) (by simp) (strmName item)
  rw [append_assoc, singleton_append] at hfile
  unfold writeStrm
  change (containedJoin (toText l) (groupName item).text >>= fun groupDir => _) = _
  rw [hgroup]
  change (if (!io.mkdirGroup i) then _
    else containedJoin (toText (l ++ [groupName item])) (strmName item).text >>= fun strmPath => _) = _
  rw [hfile]
  cases io.mkdirGroup i <;> rfl

/-- A write of the loop is the write of one of the items. -/
theorem exists_item_of_write (hl : l ≠ []) {items : List M3UItem} {i : Nat} {w : Write}
    (h : w ∈ (syncItems io (toText l) i items).writes) :
    ∃ item ∈ items, w.path = toText (strmLoc l item) := by
  induction items generalizing i with
  | nil => cases h
  | cons item rest ih =>
    have hrest : w ∈ (syncItems io (toText l) (i + 1) rest).writes →
        ∃ item' ∈ item :: rest, w.path = toText (strmLoc l item') := by
      intro hw
      obtain ⟨item', hmem, hpath⟩ := ih hw
      exact ⟨item', mem_cons_of_mem _ hmem, hpath⟩
    unfold syncItems at h
    rw [writeStrm_eq hl] at h
    cases hmkdir : io.mkdirGroup i
    · rw [hmkdir] at h
      exact hrest h
    rw [hmkdir] at h
    have hw : w ∈ (⟨toText (strmLoc l item), item.url ++ ['\n'], io.write i⟩ : Write) ::
        (syncItems io (toText l) (i + 1) rest).writes := by
      cases hwrite : io.write i
      · simpa [hwrite] using h
      · simpa [hwrite] using h
    rcases mem_cons.mp hw with rfl | hw
    · exact ⟨item, mem_cons_self, rfl⟩
    · exact hrest hw

theorem toText_strmLoc (hl : l ≠ []) (item : M3UItem) :
    toText (strmLoc l item) = toText l ++ '/' :: ((groupName item).text ++ '/' :: (strmName item).text) := by
  have hsplit : strmLoc l item = (l ++ [groupName item]) ++ [strmName item] := by simp [strmLoc]
  rw [hsplit, toText_concat, if_neg (by simp), toText_concat, if_neg hl]
  simp

theorem MediaPlace.ne_nil (h : MediaPlace l) : l ≠ [] := by
  obtain ⟨root, rest, rfl, -⟩ := h
  exact cons_ne_nil _ _

/-- A media place, as a path. -/
theorem MediaPlace.exists_rest (h : MediaPlace l) : ∃ rest, rest ≠ [] ∧
    (toText l = "/srv/".toList ++ rest ∨ toText l = "/mnt/".toList ++ rest) := by
  obtain ⟨root, rest, rfl, hrest, hroot⟩ := h
  refine ⟨relText rest, relText_ne_nil hrest, ?_⟩
  have htext : toText (root :: rest) = '/' :: (root.text ++ '/' :: relText rest) := by
    obtain ⟨n, rest, rfl⟩ := exists_cons_of_ne_nil hrest
    rw [toText, relText_cons_cons]
  rw [htext]
  rcases hroot with hroot | hroot <;> rw [hroot]
  · exact .inl rfl
  · exact .inr rfl

end Writes

variable {list : List M3UItem} {fetched : DNS.Fetch}

/-- A sync whose path and download are fine. -/
theorem syncM3USource_eq {lower : Char → Char} {io : StrmIO}
    {source : M3USourceConfig} {downloadPath : Text}
    (hpath : validateMediaPath source.downloadPath = .ok downloadPath)
    (hlist : downloadAndParseM3U fetched = .ok list) :
    syncM3USource lower io fetched source =
      if io.mkdirRoot then
        syncItems io downloadPath 0
          (filterM3UItems lower list source.includeGroups source.excludeGroups) else {} := by
  unfold syncM3USource
  rw [hpath, hlist]
  cases io.mkdirRoot <;> rfl

/-- **Files in place.** Every file that a sync writes is `T.strm` in a directory `G` directly
beneath the download path, for two single components; and the download path is clean,
absolute and strictly beneath one of the media roots. -/
theorem strm_in_place (lower : Char → Char) (io : StrmIO) (fetched : DNS.Fetch)
    (source : M3USourceConfig) :
    ∀ w ∈ (syncM3USource lower io fetched source).writes, ∃ downloadPath G T,
      validateMediaPath source.downloadPath = .ok downloadPath ∧
      (isAbs downloadPath ∧ clean downloadPath = downloadPath ∧
        ∃ rest, rest ≠ [] ∧
          (downloadPath = "/srv/".toList ++ rest ∨ downloadPath = "/mnt/".toList ++ rest)) ∧
      IsName G ∧ IsName (T ++ ".strm".toList) ∧
      w.path = downloadPath ++ '/' :: (G ++ '/' :: (T ++ ".strm")) := by
  intro w hw
  cases hpath : validateMediaPath source.downloadPath with
  | error e =>
    rw [syncM3USource, hpath] at hw
    cases hw
  | ok downloadPath =>
    cases hlist : downloadAndParseM3U fetched with
    | error e =>
      rw [syncM3USource, hpath, hlist] at hw
      cases hw
    | ok list =>
      rw [syncM3USource_eq hpath hlist] at hw
      obtain ⟨l, rfl, hplace⟩ := validateMediaPath_ok hpath
      cases hroot : io.mkdirRoot
      · rw [hroot] at hw
        cases hw
      rw [hroot] at hw
      obtain ⟨item, -, hwpath⟩ := exists_item_of_write hplace.ne_nil hw
      refine ⟨toText l, (groupName item).text, sanitizePath item.title, rfl,
        ⟨isAbs_toText l, clean_toText l, hplace.exists_rest⟩, (groupName item).ok,
        (strmName item).ok, ?_⟩
      rw [hwpath, toText_strmLoc hplace.ne_nil]
      rfl

/-- All calls to the file system succeed. -/
def allWell : StrmIO :=
  ⟨true, fun _ => true, fun _ => true⟩

/-- The write of an item that succeeds. -/
def strmWrite (l : Loc) (item : M3UItem) : Write :=
  ⟨toText (strmLoc l item), item.url ++ ['\n'], true⟩

theorem syncItems_allWell {l : Loc} (hl : l ≠ []) (i : Nat) (items : List M3UItem) :
    syncItems allWell (toText l) i items = ⟨items.length, 0, items.map (strmWrite l)⟩ := by
  induction items generalizing i with
  | nil => rfl
  | cons item rest ih =>
    unfold syncItems
    rw [writeStrm_eq hl, ih]
    rfl

def tvLoc : Loc :=
  [⟨"srv", by decide⟩, ⟨"tv", by decide⟩]

def tvSource : M3USourceConfig :=
  ⟨"http://tv.example/list.m3u", toText tvLoc, [], [], []⟩

theorem tvSource_path : validateMediaPath tvSource.downloadPath = .ok (toText tvLoc) := by
  decide +kernel

theorem sync_tvSource {io : StrmIO} (h : downloadAndParseM3U fetched = .ok list) :
    syncM3USource Char.toLower io fetched tvSource =
      if io.mkdirRoot then syncItems io (toText tvLoc) 0 list else {} := by
  rw [syncM3USource_eq tvSource_path h, show tvSource.includeGroups = [] from rfl,
    show tvSource.excludeGroups = [] from rfl, filterM3UItems_nil]

theorem sync_allWell (h : downloadAndParseM3U fetched = .ok list) :
    syncM3USource Char.toLower allWell fetched tvSource =
      ⟨list.length, 0, list.map (strmWrite tvLoc)⟩ := by
  have hne : tvLoc ≠ [] := cons_ne_nil _ _
  rw [sync_tvSource h, show allWell.mkdirRoot from rfl, if_pos rfl, syncItems_allWell hne]

/-- Two channels with different titles. -/
def twoTitles : Text :=
  "#EXTINF:-1,One\nrtp://a\n#EXTINF:-1,Two\nrtp://b"

def twoItems : List M3UItem :=
  [⟨"Ungrouped", "One", "rtp://a"⟩,
    ⟨"Ungrouped", "Two", "rtp://b"⟩]

theorem twoTitles_list : downloadAndParseM3U (.response 200 twoTitles true) = .ok twoItems := by
  rw [downloadAndParseM3U_eq (by decide +kernel) (by decide +kernel)]
  exact congrArg Except.ok (by decide +kernel)

/-- The first of two files. -/
theorem twoTitles_in_place :
    ∃ w ∈ (syncM3USource Char.toLower allWell (.response 200 twoTitles true) tvSource).writes,
      w.content = "rtp://a\n" ∧
      ∃ downloadPath G T, validateMediaPath tvSource.downloadPath = .ok downloadPath ∧
        IsName G ∧ IsName (T ++ ".strm") ∧
        w.path = downloadPath ++ '/' :: (G ++ '/' :: (T ++ ".strm")) := by
  have hw : strmWrite tvLoc ⟨"Ungrouped", "One", "rtp://a"⟩ ∈
      (syncM3USource Char.toLower allWell (.response 200 twoTitles true) tvSource).writes := by
    rw [sync_allWell twoTitles_list]
    exact mem_map_of_mem mem_cons_self
  obtain ⟨downloadPath, G, T, hvalid, -, hG, hT, heq⟩ := strm_in_place _ _ _ _ _ hw
  exact ⟨_, hw, by decide, downloadPath, G, T, hvalid, hG, hT, heq⟩

/-! ## What the files hold -/

/-- The contents of the files. -/
abbrev Files := Text → Option Text

/-- A write that fails is reported; what it leaves is not modelled. -/
def Files.store (files : Files) (w : Write) : Files :=
  fun p => if w.ok ∧ p = w.path then some w.content else files p

def filesAfter (before : Files) (writes : List Write) : Files :=
  writes.foldl Files.store before

/-- Every item has its address in a `.strm` file of its group's directory. -/
def Stored (downloadPath : Text) (items : List M3UItem) (files : Files) : Prop :=
  ∀ x ∈ items, ∃ title,
    files (downloadPath ++ '/' :: (sanitizePath x.group ++ '/' :: (title ++ ".strm"))) =
      some (x.url ++ ['\n'])

def SameFile (x y : M3UItem) : Prop :=
  sanitizePath x.group = sanitizePath y.group ∧ sanitizePath x.title = sanitizePath y.title

instance (x y : M3UItem) : Decidable (SameFile x y) :=
  inferInstanceAs (Decidable (_ ∧ _))

/-- For every item there is one of its group with its address that no later item of the same
file replaces by another address. -/
def LastKept (items : List M3UItem) : Prop :=
  ∀ x ∈ items, ∃ front y back, items = front ++ y :: back ∧
    sanitizePath y.group = sanitizePath x.group ∧ y.url = x.url ∧
    ∀ z ∈ back, SameFile z y → z.url = y.url

section Last

variable {before : Files} {ws : List Write} {p c : Text}

/-- What a file holds was written last, or was there before. -/
theorem exists_last_of_filesAfter (h : filesAfter before ws p = some c) :
    (∃ front w back, ws = front ++ w :: back ∧ w.path = p ∧ w.content = c ∧
      ∀ z ∈ back, z.ok → z.path ≠ p) ∨ before p = some c := by
  induction ws using reverseRecOn with
  | nil => exact .inr h
  | append_singleton ws w ih =>
    rw [filesAfter, foldl_append] at h
    change (if w.ok ∧ p = w.path then some w.content else filesAfter before ws p) = some c at h
    split at h
    case isTrue hlast =>
      exact .inl ⟨ws, w, [], rfl, hlast.2.symm, Option.some.inj h, by simp⟩
    case isFalse hother =>
      rcases ih h with ⟨front, w', back, rfl, hpath, hcontent, hback⟩ | h
      · refine .inl ⟨front, w', back ++ [w], by simp, hpath, hcontent, fun z hz hok => ?_⟩
        rcases mem_append.mp hz with hz | hz
        · exact hback z hz hok
        · rw [mem_singleton] at hz
          subst hz
          exact fun heq => hother ⟨hok, heq.symm⟩
      · exact .inr h

/-- A file keeps its content if only that is written to it. -/
theorem filesAfter_keep (hp : before p = some c)
    (hsame : ∀ z ∈ ws, z.path = p → z.content = c) : filesAfter before ws p = some c := by
  induction ws generalizing before with
  | nil => exact hp
  | cons w ws ih =>
    refine ih ?_ fun z hz => hsame z (mem_cons_of_mem _ hz)
    unfold Files.store
    split
    case isTrue hw => rw [hsame w mem_cons_self hw.2.symm]
    case isFalse => exact hp

end Last

section Stored

variable {io : StrmIO} {l : Loc} {items : List M3UItem}

/-- Without errors, every item is written. -/
theorem writes_of_no_errs (hl : l ≠ []) {i : Nat} (h : (syncItems io (toText l) i items).errs = 0) :
    (syncItems io (toText l) i items).writes = items.map (strmWrite l) := by
  induction items generalizing i with
  | nil => rfl
  | cons item rest ih =>
    unfold syncItems at h ⊢
    rw [writeStrm_eq hl] at h ⊢
    cases hmkdir : io.mkdirGroup i
    · rw [hmkdir] at h
      cases h
    rw [hmkdir] at h
    cases hwrite : io.write i
    · simp [hwrite] at h
    · simp only [hwrite, if_true] at h ⊢
      rw [map_cons, ih h]
      rfl

theorem sameFile_iff {x y : M3UItem} : toText (strmLoc l x) = toText (strmLoc l y) ↔ SameFile x y := by
  rw [toText_injective.eq_iff]
  unfold strmLoc SameFile
  simp [groupName, strmName, Name.mk.injEq]

/-- A `.strm` file beneath the directory of a group belongs to an item of that group. -/
theorem group_eq_of_path (hl : l ≠ []) {y : M3UItem} {group title : Text} (hgroup : '/' ∉ group)
    (h : toText (strmLoc l y) = toText l ++ '/' :: (group ++ '/' :: (title ++ ".strm"))) :
    sanitizePath y.group = group := by
  rw [toText_strmLoc hl, append_cancel_left_eq, List.cons.injEq] at h
  have hcut := congrArg (cut '/') h.2
  rw [cut_append (groupName y).ok.2.2.2, cut_append hgroup, Option.some.injEq, Prod.mk.injEq] at hcut
  exact hcut.1

theorem lastKept_of_stored (hl : l ≠ [])
    (h : Stored (toText l) items (filesAfter (fun _ => none) (items.map (strmWrite l)))) :
    LastKept items := by
  intro x hx
  obtain ⟨title, htitle⟩ := h x hx
  rcases exists_last_of_filesAfter htitle with ⟨front, w, back, hws, hpath, hcontent, hback⟩ | hnone
  · obtain ⟨front', rest, rfl, rfl, hrest⟩ := map_eq_append_iff.mp hws
    obtain ⟨y, back', rfl, rfl, rfl⟩ := map_eq_cons_iff.mp hrest
    refine ⟨front', y, back', rfl, group_eq_of_path hl (isName_sanitizePath _).2.2.2 hpath,
      append_cancel_right hcontent, fun z hz hsame => ?_⟩
    -- a later item of the same file would have written to it
    have hne := hback (strmWrite l z) (mem_map_of_mem hz) rfl
    exact absurd ((sameFile_iff.mpr hsame).trans hpath) hne
  · cases hnone

theorem stored_of_lastKept (hl : l ≠ []) (h : LastKept items) (before : Files) :
    Stored (toText l) items (filesAfter before (items.map (strmWrite l))) := by
  intro x hx
  obtain ⟨front, y, back, rfl, hgroup, hurl, hback⟩ := h x hx
  refine ⟨sanitizePath y.title, ?_⟩
  have hpath : toText l ++ '/' :: (sanitizePath x.group ++ '/' ::
      (sanitizePath y.title ++ ".strm")) = toText (strmLoc l y) := by
    rw [toText_strmLoc hl, ← hgroup]
    rfl
  rw [hpath, ← hurl, map_append, map_cons, filesAfter, foldl_append, foldl_cons]
  refine filesAfter_keep (by simp [Files.store, strmWrite]) fun w hw hwpath => ?_
  obtain ⟨z, hz, rfl⟩ := mem_map.mp hw
  rw [← hback z hz (sameFile_iff.mp hwpath)]
  rfl

end Stored

theorem lastKept_of_pairwise {items : List M3UItem}
    (h : items.Pairwise fun x y => ¬ SameFile y x) : LastKept items := by
  intro x hx
  obtain ⟨front, back, rfl⟩ := append_of_mem hx
  have hback := (pairwise_cons.mp (pairwise_append.mp h).2.1).1
  exact ⟨front, x, back, rfl, rfl, rfl, fun z hz hsame => absurd hsame (hback z hz)⟩

/-- **Items stored.** After a sync without errors every item that passes the filter has its
address in a file of its group's directory, whatever was there before, exactly if the download
directory could be made and no item's file is taken by a later item with another address. -/
theorem items_stored_iff (lower : Char → Char) (io : StrmIO) (fetched : DNS.Fetch)
    (source : M3USourceConfig) (h : (syncM3USource lower io fetched source).errs = 0) :
    ∃ downloadPath list, validateMediaPath source.downloadPath = .ok downloadPath ∧
      downloadAndParseM3U fetched = .ok list ∧
      ((∀ before, Stored downloadPath
          (filterM3UItems lower list source.includeGroups source.excludeGroups)
          (filesAfter before (syncM3USource lower io fetched source).writes)) ↔
        (io.mkdirRoot ∨
          filterM3UItems lower list source.includeGroups source.excludeGroups = []) ∧
        LastKept (filterM3UItems lower list source.includeGroups source.excludeGroups)) := by
  cases hpath : validateMediaPath source.downloadPath with
  | error e =>
    rw [syncM3USource, hpath] at h
    cases h
  | ok downloadPath =>
    cases hlist : downloadAndParseM3U fetched with
    | error e =>
      rw [syncM3USource, hpath, hlist] at h
      cases h
    | ok list =>
      refine ⟨downloadPath, list, rfl, rfl, ?_⟩
      rw [syncM3USource_eq hpath hlist] at h ⊢
      obtain ⟨l, rfl, hplace⟩ := validateMediaPath_ok hpath
      generalize filterM3UItems lower list source.includeGroups source.excludeGroups = items at h ⊢
      cases hroot : io.mkdirRoot
      · -- nothing is written
        simp only [Bool.false_eq_true, if_false, false_or]
        constructor
        · intro hall
          rcases items with _ | ⟨x, rest⟩
          · exact ⟨rfl, fun _ hx => by cases hx⟩
          · obtain ⟨title, htitle⟩ := hall (fun _ => none) x mem_cons_self
            cases htitle
        · rintro ⟨rfl, -⟩ before x hx
          cases hx
      · rw [hroot] at h
        simp only [if_true, true_or, true_and] at h ⊢
        rw [writes_of_no_errs hplace.ne_nil h]
        exact ⟨fun hall => lastKept_of_stored hplace.ne_nil (hall _),
          fun hkept => stored_of_lastKept hplace.ne_nil hkept⟩

/-- Two channels with different titles. -/
theorem twoTitles_stored :
    (syncM3USource Char.toLower allWell (.response 200 twoTitles true) tvSource).errs = 0 ∧
      ∃ downloadPath, validateMediaPath tvSource.downloadPath = .ok downloadPath ∧
        ∀ before, Stored downloadPath twoItems (filesAfter before
          (syncM3USource Char.toLower allWell (.response 200 twoTitles true) tvSource).writes) := by
  have herrs : (syncM3USource Char.toLower allWell (.response 200 twoTitles true) tvSource).errs = 0 := by
    rw [sync_allWell twoTitles_list]
  obtain ⟨path, list, hpath, hlist, hiff⟩ := items_stored_iff _ _ _ _ herrs
  cases twoTitles_list.symm.trans hlist
  rw [show tvSource.includeGroups = [] from rfl, show tvSource.excludeGroups = [] from rfl,
    filterM3UItems_nil] at hiff
  exact ⟨herrs, path, hpath, hiff.mpr ⟨.inl rfl, lastKept_of_pairwise (by decide +kernel)⟩⟩

/-- Two channels with the same title. -/
def oneTitle : Text :=
  "#EXTINF:-1,One\nrtp://a\n#EXTINF:-1,One\nrtp://b"

def sameItems : List M3UItem :=
  [⟨"Ungrouped", "One", "rtp://a"⟩,
    ⟨"Ungrouped", "One", "rtp://b"⟩]

theorem oneTitle_list : downloadAndParseM3U (.response 200 oneTitle true) = .ok sameItems := by
  rw [downloadAndParseM3U_eq (by decide +kernel) (by decide +kernel)]
  exact congrArg Except.ok (by decide +kernel)

/-- The address of the first one is on no item that keeps its file. -/
theorem not_lastKept_sameItems : ¬ LastKept sameItems := by
  intro h
  obtain ⟨front, y, back, hitems, -, hurl, hback⟩ := h _ mem_cons_self
  rcases front with _ | ⟨x, _ | ⟨x', front⟩⟩
  · rw [sameItems, nil_append, List.cons.injEq] at hitems
    obtain ⟨rfl, rfl⟩ := hitems
    exact absurd (hback _ mem_cons_self ⟨rfl, rfl⟩) (by decide)
  · rw [sameItems, singleton_append, List.cons.injEq, List.cons.injEq] at hitems
    obtain ⟨-, rfl, -⟩ := hitems
    exact absurd hurl (by decide)
  · have hlen := congrArg List.length hitems
    simp [sameItems] at hlen

/-- The first of two channels with the same title is lost, and so is every item if the
download directory cannot be made. No error is reported. -/
theorem oneTitle_lost :
    ((syncM3USource Char.toLower allWell (.response 200 oneTitle true) tvSource).errs = 0 ∧
      ¬ Stored tvSource.downloadPath sameItems (filesAfter (fun _ => none)
        (syncM3USource Char.toLower allWell (.response 200 oneTitle true) tvSource).writes)) ∧
    ((syncM3USource Char.toLower { allWell with mkdirRoot := false } (.response 200 twoTitles true)
        tvSource).errs = 0 ∧
      ¬ Stored tvSource.downloadPath twoItems (filesAfter (fun _ => none)
        (syncM3USource Char.toLower { allWell with mkdirRoot := false } (.response 200 twoTitles true)
          tvSource).writes)) := by
  have hnone : syncM3USource Char.toLower { allWell with mkdirRoot := false }
      (.response 200 twoTitles true) tvSource = {} := by
    rw [sync_tvSource twoTitles_list]
    exact if_neg Bool.false_ne_true
  rw [sync_allWell oneTitle_list, hnone]
  refine ⟨⟨rfl, fun hstored => ?_⟩, rfl, fun hstored => ?_⟩
  · exact not_lastKept_sameItems (lastKept_of_stored (cons_ne_nil _ _) hstored)
  · obtain ⟨title, htitle⟩ := hstored _ mem_cons_self
    cases htitle

end Lankeeper.NAS
