import Mathlib.Data.Nat.Digits.Defs
import Lankeeper.DHCP.StaticLeases

/-!
# Lankeeper.DNS.StaticRecords — local data for Unbound

A static record comes from the form of `HandleAddRecord` in `internal/web/handlers/dns.go`,
or mirrors a static lease. `buildRenderStaticRecords` of `internal/services/dns.go` and the
template `configs/sysconf/unbound.conf.tmpl` write it out as an A record, with a PTR record
where the address is one of IPv4.

The form takes any address, and names by a pattern that lets empty and overlong labels
through; a lease may give its IPv4 address as one mapped into IPv6. The template writes
`IN A` in front of all of them. `records_well_formed_iff` says which records come out as
resource records.
-/

namespace Lankeeper.DNS

open Lib Text Lankeeper.DHCP List Address

/-! ## The form -/

/-- The fields of the form; the checkboxes are on or not. -/
structure RecordForm where
  name : Text
  ip : Text
  localZone : Bool := false
  disableAutoPTR : Bool := false

/-- `dnsNamePattern`: `[a-zA-Z0-9][a-zA-Z0-9.-]{0,251}[a-zA-Z0-9]`. -/
def isDNSName (t : Text) : Bool :=
  2 ≤ t.length && t.length ≤ 253 && (t.all fun c => c.isAlphanum || c == '.' || c == '-') &&
    t.head?.all Char.isAlphanum && t.getLast?.all Char.isAlphanum

/-- `config.DNSSourceUser`. -/
def dnsSourceUser : Text := "user"

/-- `HandleAddRecord`: the record it adds, or the locale key of the refusal. -/
def handleAddRecord (form : RecordForm) : Except Text StaticDNSRecord := do
  let name := trimSpace form.name
  let ip := trimSpace form.ip
  failIf (isDNSName name = false) "error.invalidDNSName"
  failIf (parseIP ip = none) "error.invalidIP"
  .ok { name := name, ip := ip, localZone := form.localZone,
        disableAutoPTR := form.disableAutoPTR, source := dnsSourceUser }

/-- Where the records of a config come from. -/
inductive Accepted (site : Site) : StaticDNSRecord → Prop
  | form (form : RecordForm) {rec : StaticDNSRecord} (h : handleAddRecord form = .ok rec) :
      Accepted site rec
  | lease (l : StaticLease) (hname : l.hostname ≠ [])
      (h : validateStaticLease site l.ip l.hostname = .ok ()) : Accepted site (mirrorOf site l)

/-! ## Rendering -/

/-- `ipv4PTR`, empty for what is no IPv4 address. -/
def ipv4PTR (ip : Text) : Text :=
  match (parseIP ip).bind asIPv4 with
  | none => []
  | some a =>
    ['.'].intercalate [decimal ((a % 256 : Nat) : Int), decimal ((a / 256 % 256 : Nat) : Int),
      decimal ((a / 65536 % 256 : Nat) : Int), decimal ((a / 16777216 % 256 : Nat) : Int),
      "in-addr", "arpa"] ++ ['.']

/-- The quotation mark around local data. -/
def quote : Char := '\x22'

/-- `    local-data: "`. -/
def localDataStart : Text :=
  "    local-data: " ++ [quote]

/-- A line of local data. -/
def localData (owner type value : Text) : Text :=
  localDataStart ++ (owner ++ " IN " ++ type ++ ' ' :: value) ++ [quote]

/-- The PTR that `buildRenderStaticRecords` puts beside a record. -/
def renderPTR (rec : StaticDNSRecord) : Text :=
  if rec.disableAutoPTR then [] else ipv4PTR rec.ip

/-- The lines of `unbound.conf` for a record. -/
def recordLines (rec : StaticDNSRecord) : List Text :=
  [localData (rec.name ++ ['.']) "A" rec.ip] ++
  (if renderPTR rec ≠ [] then [localData (renderPTR rec) "PTR" (rec.name ++ ['.'])]
    else []) ++
  if rec.localZone then
    ["    local-zone: " ++ quote :: (rec.name ++ '.' :: quote :: " typetransparent")]
  else []

/-- The static records in `unbound.conf`. -/
def staticRecordLines (records : List StaticDNSRecord) : List Text :=
  records.flatMap recordLines

/-! ## Resource records -/

/-- The data between the quotes, if the line is one of local data. -/
def dataOf (line : Text) : Option Text :=
  if localDataStart <+: line then some (line.drop localDataStart.length).dropLast else none

/-- A character that may stand in a label. -/
def isNameChar (c : Char) : Bool :=
  !isAsciiSpace c && c != quote

def isNameLabel (t : Text) : Bool :=
  1 ≤ t.length && t.length ≤ 63 && t.all isNameChar

/-- A name that ends at the root. -/
def isAbsoluteName (t : Text) : Bool :=
  t.getLast? = some '.' && (t.dropLast.splitOn '.').all isNameLabel

/-- An A record with a dotted quad, an AAAA record with an IPv6 address, or a PTR record. -/
def isResourceRecord (data : Text) : Bool :=
  match data.splitOn ' ' with
  | [owner, cls, type, value] =>
    isAbsoluteName owner && cls = "IN" &&
      (type = "A" && (parseIPv4 value).isSome ||
        type = "AAAA" && (parseIPv6 value).isSome ||
        type = "PTR" && isAbsoluteName value)
  | _ => false

/-- All local data of the records are resource records. -/
def WellFormed (records : List StaticDNSRecord) : Prop :=
  ∀ line ∈ staticRecordLines records, ∀ data, dataOf line = some data →
    isResourceRecord data

/-! ## Reading the lines -/

theorem dataOf_localData (owner type value : Text) :
    dataOf (localData owner type value) = some (owner ++ " IN " ++ type ++ ' ' :: value) := by
  have hstart : localDataStart <+: localData owner type value := by
    rw [localData, append_assoc]
    exact prefix_append _ _
  rw [dataOf, if_pos hstart, localData, append_assoc, drop_left, dropLast_concat]

/-- A zone line is none of local data: the two differ behind `local-`. -/
theorem dataOf_zone (rest : Text) : dataOf ("    local-zone: " ++ rest) = none := by
  have hstart : ¬ localDataStart <+: "    local-zone: " ++ rest := by
    rintro ⟨s, hs⟩
    have htenth := congrArg (fun t : Text => t[10]?) hs
    cases htenth
  rw [dataOf, if_neg hstart]

theorem splitOn_data {type value : Text} (ht : ' ' ∉ type) (hv : ' ' ∉ value) (owner : Text) :
    (owner ++ " IN ".toList ++ type ++ ' ' :: value).splitOn ' ' =
      owner.splitOn ' ' ++ ["IN".toList, type, value] := by
  have hshape : owner ++ " IN ".toList ++ type ++ ' ' :: value =
      owner ++ ' ' :: ("IN" ++ ' ' :: (type ++ ' ' :: value)) := by
    have hin : " IN " = ' ' :: ("IN" ++ [' ']) := rfl
    rw [hin]
    simp
  have hcls : "IN".toList.splitOn ' ' = ["IN"] :=
    splitOn_eq_singleton (by decide)
  rw [hshape, splitOn_append_cons, splitOn_append_cons, splitOn_append_cons,
    splitOn_eq_singleton hv, splitOn_eq_singleton ht, hcls]
  rfl

theorem isAbsoluteName_concat (name : Text) :
    isAbsoluteName (name ++ ['.']) = (name.splitOn '.').all isNameLabel := by
  simp [isAbsoluteName]

/-- The labels of a name have no blank in them. -/
theorem blank_not_mem {name : Text} (h : (name.splitOn '.').all isNameLabel) : ' ' ∉ name := by
  intro hmem
  refine forall_of_splitOn (P := fun c => c ≠ ' ') (show '.' ≠ ' ' by decide) ?_ ' ' hmem rfl
  rintro label hlabel c hc rfl
  have hok := all_eq_true.mp h label hlabel
  simp only [isNameLabel, Bool.and_eq_true, all_eq_true] at hok
  exact absurd (hok.2 ' ' hc) (by decide)

/-- A resource record has four fields. -/
theorem length_of_isResourceRecord {data : Text} (h : isResourceRecord data) :
    (data.splitOn ' ').length = 4 := by
  unfold isResourceRecord at h
  split at h
  · rename_i heq
    rw [heq]
    rfl
  · cases h

theorem isResourceRecord_data {owner type value : Text} (ho : ' ' ∉ owner) (ht : ' ' ∉ type)
    (hv : ' ' ∉ value) :
    isResourceRecord (owner ++ " IN " ++ type ++ ' ' :: value) =
      (isAbsoluteName owner && (type = "A" && (parseIPv4 value).isSome ||
        type = "AAAA" && (parseIPv6 value).isSome || type = "PTR" && isAbsoluteName value)) := by
  unfold isResourceRecord
  rw [splitOn_data ht hv, splitOn_eq_singleton ho]
  simp

theorem blank_not_mem_of_isResourceRecord {owner type value : Text} (ht : ' ' ∉ type)
    (hv : ' ' ∉ value) (h : isResourceRecord (owner ++ " IN " ++ type ++ ' ' :: value)) :
    ' ' ∉ owner := by
  intro hmem
  have hfour := length_of_isResourceRecord h
  obtain ⟨front, back, rfl⟩ := append_of_mem hmem
  rw [splitOn_data ht hv, splitOn_append_cons, length_append, length_append] at hfour
  have hfront := length_pos_of_ne_nil (splitOnP_ne_nil (· == ' ') front)
  have hback := length_pos_of_ne_nil (splitOnP_ne_nil (· == ' ') back)
  rw [← splitOn_eq_splitOnP] at hfront hback
  simp only [length_cons, length_nil] at hfour
  omega

/-- The A line of a record. -/
theorem isResourceRecord_address (name : Text) {ip : Text} (hip : ' ' ∉ ip) :
    isResourceRecord (name ++ ['.'] ++ " IN " ++ "A" ++ ' ' :: ip) ↔
      (name.splitOn '.').all isNameLabel ∧ (parseIPv4 ip).isSome := by
  have htype : ' ' ∉ "A".toList := by decide
  constructor
  · intro h
    have hname := blank_not_mem_of_isResourceRecord htype hip h
    rw [isResourceRecord_data hname htype hip, isAbsoluteName_concat] at h
    simpa using h
  · rintro ⟨hlabels, hv4⟩
    have hname : ' ' ∉ name ++ ['.'] := by
      simpa using blank_not_mem hlabels
    rw [isResourceRecord_data hname htype hip, isAbsoluteName_concat]
    simp [hlabels, hv4]

/-! ## The PTR line -/

theorem isNameLabel_octet (n : Nat) : isNameLabel (decimal ((n % 256 : Nat) : Int)) := by
  have hlen : (decimal ((n % 256 : Nat) : Int)).length ≤ 3 :=
    Nat.toDigits_length 10 (n % 256) 3 (by decide) (by omega)
  have hpos := length_pos_of_ne_nil (decimal_ne_nil ((n % 256 : Nat) : Int))
  simp only [isNameLabel, Bool.and_eq_true, decide_eq_true_eq, all_eq_true]
  refine ⟨⟨hpos, by omega⟩, ?_⟩
  intro c hc
  have hdigit : c.isDigit := Nat.isDigit_of_mem_toDigits (by decide) (by decide) hc
  have hspace := not_isSpace_of_isAddressChar (isAddressChar_of_isDigit hdigit)
  simp only [isNameChar, Bool.and_eq_true, Bool.not_eq_true', bne_iff_ne, ne_eq]
  constructor
  · rw [← Bool.not_eq_true]
    intro hascii
    exact hspace (by simp [isSpace, hascii])
  · rintro rfl
    exact absurd hdigit (by decide)

/-- The owner of a PTR record is a name. -/
theorem isAbsoluteName_ipv4PTR {ip : Text} (h : ipv4PTR ip ≠ []) : isAbsoluteName (ipv4PTR ip) := by
  unfold ipv4PTR at h ⊢
  split at h
  · exact absurd rfl h
  rename_i a ha
  have hdot : ∀ n : Nat, '.' ∉ decimal ((n % 256 : Nat) : Int) := by
    intro n hmem
    exact absurd (Nat.isDigit_of_mem_toDigits (by decide) (by decide) hmem) (by decide)
  rw [isAbsoluteName_concat, splitOn_intercalate '.' ?_ (by simp)]
  · simp only [all_cons, isNameLabel_octet, all_nil, Bool.true_and, Bool.and_true]
    decide
  · simp only [forall_mem_cons]
    exact ⟨hdot _, hdot _, hdot _, hdot _, by decide, by decide, by simp⟩

theorem blank_not_mem_of_isAbsoluteName {t : Text} (h : isAbsoluteName t) : ' ' ∉ t := by
  simp only [isAbsoluteName, Bool.and_eq_true, decide_eq_true_eq] at h
  have hlast := dropLast_append_getLast? '.' h.1
  have hname := blank_not_mem h.2
  rw [← hlast]
  simpa using hname

variable {rec : StaticDNSRecord}

/-- The PTR line of a record. -/
theorem isResourceRecord_pointer (hptr : renderPTR rec ≠ [])
    (hname : (rec.name.splitOn '.').all isNameLabel) :
    isResourceRecord (renderPTR rec ++ " IN " ++ "PTR" ++ ' ' :: (rec.name ++ ['.'])) := by
  have howner : isAbsoluteName (renderPTR rec) := by
    unfold renderPTR at hptr ⊢
    split_ifs at hptr ⊢
    · exact absurd rfl hptr
    · exact isAbsoluteName_ipv4PTR hptr
  have hvalue : isAbsoluteName (rec.name ++ ['.']) := by
    rwa [isAbsoluteName_concat]
  rw [isResourceRecord_data (blank_not_mem_of_isAbsoluteName howner) (by decide)
    (blank_not_mem_of_isAbsoluteName hvalue)]
  simp [howner, hvalue]

/-! ## Which records are well formed -/

theorem handleAddRecord_address {form : RecordForm}
    (h : handleAddRecord form = .ok rec) : (parseIP rec.ip).isSome := by
  obtain ⟨⟨⟩, hname, h⟩ := exists_of_bind_ok h
  obtain ⟨⟨⟩, hip, h⟩ := exists_of_bind_ok h
  have hsome := failIf_ok hip
  cases h
  exact Option.isSome_iff_ne_none.mpr hsome

/-- Whatever way a record came, its address is one `net.ParseIP` reads. -/
theorem Accepted.address {site : Site} (h : Accepted site rec) : ∃ a, parseIP rec.ip = some a := by
  cases h with
  | form form h => exact Option.isSome_iff_exists.mp (handleAddRecord_address h)
  | lease l hname h =>
    obtain ⟨⟨⟩, -, h⟩ := exists_of_bind_ok h
    cases hip : parseIP l.ip with
    | none =>
      simp only [hip, Option.bind_none] at h
      cases h
    | some a => exact ⟨a, hip⟩

/-- An IPv4 address is told from the others by having no colon. -/
theorem isSome_parseIPv4_iff {ip : Text} {a : Family × Nat} (h : parseIP ip = some a) :
    (parseIPv4 ip).isSome ↔ ':' ∉ ip := by
  constructor
  · intro hv4
    obtain ⟨n, hn⟩ := Option.isSome_iff_exists.mp hv4
    exact colon_not_mem_of_parseIPv4 hn
  · intro hcolon
    rcases parseIP_cases h with ⟨-, hv4⟩ | ⟨-, hmem⟩
    · simp [hv4]
    · exact absurd hmem hcolon

/-- Among the lines of a record is its A record. -/
theorem WellFormed.address {records : List StaticDNSRecord} (h : WellFormed records)
    (hrec : rec ∈ records) :
    isResourceRecord (rec.name ++ ['.'] ++ " IN " ++ "A" ++ ' ' :: rec.ip) := by
  refine h _ (mem_flatMap.mpr ⟨rec, hrec, ?_⟩) _ (dataOf_localData _ _ _)
  exact mem_append_left _ (mem_append_left _ (mem_singleton_self _))

/-- The A line of a record decides about the others. -/
theorem wellFormed_of_address {records : List StaticDNSRecord}
    (h : ∀ rec ∈ records, (rec.name.splitOn '.').all isNameLabel ∧
      isResourceRecord (rec.name ++ ['.'] ++ " IN " ++ "A" ++ ' ' :: rec.ip)) :
    WellFormed records := by
  intro line hline data hdata
  obtain ⟨rec, hrec, hline⟩ := mem_flatMap.mp hline
  obtain ⟨hname, haddress⟩ := h rec hrec
  simp only [recordLines, mem_append, mem_singleton] at hline
  rcases hline with (rfl | hline) | hline
  · rw [dataOf_localData, Option.some.injEq] at hdata
    rwa [← hdata]
  · split at hline
    · rename_i hptr
      rw [mem_singleton.mp hline, dataOf_localData, Option.some.injEq] at hdata
      rw [← hdata]
      exact isResourceRecord_pointer hptr hname
    · cases hline
  · split at hline
    · rw [mem_singleton.mp hline, dataOf_zone] at hdata
      cases hdata
    · cases hline

/-- What the A line of an accepted record asks of the name and the address. -/
theorem Accepted.well_formed_iff {site : Site} (h : Accepted site rec) :
    isResourceRecord (rec.name ++ ['.'] ++ " IN " ++ "A" ++ ' ' :: rec.ip) ↔
      (rec.name.splitOn '.').all isNameLabel ∧ ':' ∉ rec.ip := by
  obtain ⟨a, ha⟩ := h.address
  have hblank : ' ' ∉ rec.ip := by
    intro hmem
    exact not_isSpace_of_isAddressChar ((parseIP_chars ha).2 ' ' hmem) (by decide)
  rw [isResourceRecord_address rec.name hblank, isSome_parseIPv4_iff ha]

/-- The static records of a config make well formed local data exactly if none has an IPv6
address, or an IPv4 one written as IPv6, and the labels of their names are neither empty
nor too long. -/
theorem records_well_formed_iff (site : Site) {records : List StaticDNSRecord}
    (h : ∀ rec ∈ records, Accepted site rec) :
    WellFormed records ↔
      ∀ rec ∈ records, (rec.name.splitOn '.').all isNameLabel ∧ ':' ∉ rec.ip := by
  constructor
  · intro hwf rec hrec
    exact (h rec hrec).well_formed_iff.mp (hwf.address hrec)
  · intro hgood
    refine wellFormed_of_address ?_
    intro rec hrec
    exact ⟨(hgood rec hrec).1, (h rec hrec).well_formed_iff.mpr (hgood rec hrec)⟩

/-- A site with one LAN. -/
def sampleSite : Site where
  interfaces := [{ id := "lan", device := "eth1", role := "lan",
                   address := "10.0.0.1/24" }]
  vlans := []
  domain := []
  dns := true
  fold := id

def sampleLease (ip : Text) : StaticLease where
  mac := []
  ip := ip
  hostname := "printer"

def sampleForm (name ip : Text) : RecordForm where
  name := name
  ip := ip

def sampleRecord (name ip : Text) : StaticDNSRecord :=
  { name := name, ip := ip, source := dnsSourceUser }

/-- A printer with its lease, and a file server entered by hand. -/
theorem records_well_formed_sample :
    WellFormed [mirrorOf sampleSite (sampleLease "10.0.0.5"),
      sampleRecord "nas.lan" "10.0.0.9"] := by
  refine (records_well_formed_iff sampleSite ?_).mpr (by decide)
  simp only [forall_mem_cons]
  refine ⟨.lease _ (by decide) (by decide), ?_, by simp⟩
  exact .form (sampleForm "nas.lan" "10.0.0.9") (by decide)

/-- The form lets an IPv6 address through and a name with an empty label, and a lease an
IPv4 address written as IPv6; none of the three comes out as a resource record. -/
theorem records_not_well_formed :
    (handleAddRecord (sampleForm "nas.lan" "fd00::9") =
        .ok (sampleRecord "nas.lan" "fd00::9") ∧
      ¬ WellFormed [sampleRecord "nas.lan" "fd00::9"]) ∧
    (handleAddRecord (sampleForm "nas..lan" "10.0.0.9") =
        .ok (sampleRecord "nas..lan" "10.0.0.9") ∧
      ¬ WellFormed [sampleRecord "nas..lan" "10.0.0.9"]) ∧
    (validateStaticLease sampleSite "::ffff:10.0.0.5" "printer" = .ok () ∧
      ¬ WellFormed [mirrorOf sampleSite (sampleLease "::ffff:10.0.0.5")]) := by
  refine ⟨⟨by decide, ?_⟩, ⟨by decide, ?_⟩, by decide, ?_⟩
  all_goals
    intro h
    exact absurd (h.address (mem_singleton_self _)) (by decide)

end Lankeeper.DNS
