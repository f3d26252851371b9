import Lankeeper.Lib.Machine
import Lankeeper.Lib.Registry
import Lankeeper.Network.Config

/-!
# Lankeeper.DHCP.StaticLeases — reservations and their DNS names

The static leases of `internal/services/dhcp.go`, and the DNS records of
`internal/services/dns.go` that mirror them. A lease with a hostname has a record under
its full name, so that the host resolves also after a reload of the resolver. Two ways
lead to those records. `AddStaticLease` and `RemoveStaticLease` keep them entry by entry:
a record is added for the new lease, and the first mirrored record with the name of the
removed lease is taken away. `SyncStaticDNSRecords` strips all of them and offers every
lease a record again.

An addition is always answered alike by both. A removal is not: a second lease may carry
the same name, or a lease may have been refused its record because there were too many.
`leases_mirrored_iff` says which removals keep the two in step.
-/

namespace Lankeeper.DHCP

open Lib Text Lankeeper.Network List
open Lib.Registry (Taken put fill)

/-! ## The config -/

/-- `config.StaticLease`. -/
structure StaticLease where
  mac : Text
  ip : Text
  hostname : Text
deriving DecidableEq

/-- `config.StaticDNSRecord`. -/
structure StaticDNSRecord where
  name : Text
  ip : Text
  localZone : Bool := false
  source : Text
  disableAutoPTR : Bool := false
deriving DecidableEq

/-- `config.DNSSourceDHCPStatic`. -/
def dnsSourceDHCPStatic : Text := "dhcp-static"

/-- What the calls read and leave alone: the interfaces, the VLANs, the system domain,
whether `SetDNSService` was called, and the case folding that `strings.EqualFold`
compares by. -/
structure Site where
  interfaces : List InterfaceConfig
  vlans : List VLANConfig
  domain : Text
  dns : Bool
  fold : Text → Text

/-- The lists the calls change. -/
structure State where
  /-- `DHCP.StaticLeases` -/
  leases : List StaticLease
  /-- `DNS.StaticRecords` -/
  records : List StaticDNSRecord
deriving DecidableEq

variable (site : Site)

def Site.equalFold (a b : Text) : Bool :=
  site.fold a = site.fold b

def Site.staticLeaseFQDN (hostname : Text) : Text :=
  hostname ++ '.' :: (if site.domain = [] then "lan" else site.domain)

/-! ## The records of the DNS service -/

def maxStaticDNSRecords : Nat := 500

inductive RecordError
  | full
  | alreadyExists (name : Text)
  | invalidIndex (index : Nat)
  | notSaved
deriving DecidableEq

/-- `AddStaticRecord`. A record stays in the list also if the file cannot be written. -/
def addStaticRecord (saved : Bool) (rec : StaticDNSRecord) (records : List StaticDNSRecord) :
    Except RecordError Unit × List StaticDNSRecord :=
  if maxStaticDNSRecords ≤ records.length then (.error .full, records)
  else if ∃ r ∈ records, site.equalFold r.name rec.name then
    (.error (.alreadyExists rec.name), records)
  else (if saved then .ok () else .error .notSaved, records ++ [rec])

/-- `RemoveStaticRecord`. -/
def removeStaticRecord (saved : Bool) (index : Nat) (records : List StaticDNSRecord) :
    Except RecordError Unit × List StaticDNSRecord :=
  if records.length ≤ index then (.error (.invalidIndex index), records)
  else (if saved then .ok () else .error .notSaved, records.eraseIdx index)

/-- `FindStaticRecordIndexBySource`. -/
def findStaticRecordIndexBySource (source name : Text) (records : List StaticDNSRecord) :
    Option Nat :=
  records.findIdx? fun r => r.source = source && site.equalFold r.name name

/-! ## Leases -/

inductive LeaseError
  | invalidHostname
  /-- `ErrStaticLeaseAddress`: no IPv4 address -/
  | notIPv4 (ip : Text)
  /-- `ErrStaticLeaseAddress`: the first or last address of its subnet -/
  | networkOrBroadcast (ip : Text)
  /-- `ErrStaticLeaseAddress`: on no subnet the router serves -/
  | notServed (ip : Text)
  | macTaken (mac : Text)
  | ipReserved (ip : Text)
  | invalidIndex (index : Int)
  | notSaved
deriving DecidableEq

/-- `hostnamePattern`. -/
def validHostname (t : Text) : Bool :=
  t ≠ [] && t.length ≤ 63 && (t.all fun c => c.isAlphanum || c == '-') &&
    t.head?.all Char.isAlphanum && t.getLast?.all Char.isAlphanum

/-- `dhcpSubnets`: the LAN interface and DHCP-enabled VLAN addresses. -/
def Site.dhcpSubnets : List Text :=
  (site.interfaces.filter fun i => i.role = "lan".toList).map InterfaceConfig.address ++
    (site.vlans.filter fun v => v.dhcp.enabled).map VLANConfig.address

/-- `isNetworkOrBroadcast`; `ones` is the length as written, which for an IPv4 subnet
mapped into IPv6 is never below 96. -/
def isNetworkOrBroadcast (ones : Nat) (subnet : Network) (addr : Nat) : Bool :=
  ones < 31 &&
    (addr = subnet.base || addr = subnet.base ||| (1 <<< (subnet.family.bits - subnet.len) - 1))

/-- The loop over the subnets: the first one that contains the address decides. -/
def checkSubnets (ip : Text) (addr : Nat) : List Text → Except LeaseError Unit
  | [] => .error (.notServed ip)
  | cidr :: rest =>
    match Prefix.parseCIDR cidr, Network.parse cidr with
    | some p, some subnet =>
      if subnet.contains .ip4 addr then
        failIf (isNetworkOrBroadcast p.len subnet addr) (.networkOrBroadcast ip)
      else checkSubnets ip addr rest
    | _, _ => checkSubnets ip addr rest

def validateStaticLease (ip hostname : Text) : Except LeaseError Unit := do
  failIf (hostname ≠ [] ∧ ¬ validHostname hostname) .invalidHostname
  match (Address.parseIP ip).bind Address.asIPv4 with
  | none => .error (.notIPv4 ip)
  | some addr => checkSubnets ip addr site.dhcpSubnets

/-- The first lease that has the MAC or the IP address already. -/
def leaseConflict (mac ip : Text) (leases : List StaticLease) : Option LeaseError :=
  leases.findSome? fun l =>
    if site.equalFold l.mac mac then some (.macTaken mac)
    else if l.ip = ip then some (.ipReserved ip)
    else none

/-- The record that mirrors a lease. -/
def mirrorOf (l : StaticLease) : StaticDNSRecord where
  name := site.staticLeaseFQDN l.hostname
  ip := l.ip
  source := dnsSourceDHCPStatic

/-- Whether the writes of `router.yaml` in a call succeed: the one for the lease, and the
one of the DNS service for the record, whose failure is only logged. -/
structure Writes where
  lease : Bool
  record : Bool

def addStaticLease (w : Writes) (mac ip hostname : Text) (s : State) :
    Except LeaseError Unit × State :=
  match validateStaticLease site ip hostname with
  | .error e => (.error e, s)
  | .ok () =>
    match leaseConflict site mac ip s.leases with
    | some e => (.error e, s)
    | none =>
      let lease : StaticLease := ⟨mac, ip, hostname⟩
      let s := { s with leases := s.leases ++ [lease] }
      if !w.lease then (.error .notSaved, s)
      else if site.dns ∧ hostname ≠ [] then
        (.ok (), { s with
          records := (addStaticRecord site w.record (mirrorOf site lease) s.records).2 })
      else (.ok (), s)

def removeStaticLease (w : Writes) (index : Int) (s : State) : Except LeaseError Unit × State :=
  if index < 0 then (.error (.invalidIndex index), s)
  else
    match s.leases[index.toNat]? with
    | none => (.error (.invalidIndex index), s)
    | some removed =>
      let s := { s with leases := s.leases.eraseIdx index.toNat }
      if !w.lease then (.error .notSaved, s)
      else if site.dns ∧ removed.hostname ≠ [] then
        match findStaticRecordIndexBySource site dnsSourceDHCPStatic
            (site.staticLeaseFQDN removed.hostname) s.records with
        | none => (.ok (), s)
        | some idx =>
          (.ok (), { s with records := (removeStaticRecord w.record idx s.records).2 })
      else (.ok (), s)

/-! ## Rebuilding the mirror -/

inductive SyncError
  | strip
  | apply
deriving DecidableEq

/-- The loop that strips the mirrored records, one at a time. `saved` says which lists can
be written. Each round removes a record, so `rounds` need not exceed their number. -/
def stripMirror (saved : List StaticDNSRecord → Bool) :
    Nat → List StaticDNSRecord → Except SyncError Unit × List StaticDNSRecord
  | 0, records => (.ok (), records)
  | rounds + 1, records =>
    match records.findIdx? fun r => r.source = dnsSourceDHCPStatic with
    | none => (.ok (), records)
    | some idx =>
      let records := records.eraseIdx idx
      if saved records then stripMirror saved rounds records else (.error .strip, records)

/-- The loop that offers every lease with a hostname its record. -/
def readdMirror (saved : List StaticDNSRecord → Bool) (leases : List StaticLease)
    (records : List StaticDNSRecord) : List StaticDNSRecord :=
  leases.foldl (fun records l =>
    if l.hostname = [] then records
    else (addStaticRecord site (saved (records ++ [mirrorOf site l])) (mirrorOf site l) records).2)
    records

/-- `SyncStaticDNSRecords`; `applied` is the result of `ApplyConfig`. -/
def syncStaticDNSRecords (saved : List StaticDNSRecord → Bool) (applied : Bool) (s : State) :
    Except SyncError Unit × State :=
  if !site.dns then (.ok (), s)
  else
    match stripMirror saved s.records.length s.records with
    | (.error e, records) => (.error e, { s with records := records })
    | (.ok (), records) =>
      (if applied then .ok () else .error .apply,
        { s with records := readdMirror site saved s.leases records })

/-! ## What the loops do -/

/-- The records the mirror owns. -/
def mirrored (records : List StaticDNSRecord) : List StaticDNSRecord :=
  records.filter fun r => r.source = dnsSourceDHCPStatic

/-- The records of the user. -/
def byHand (records : List StaticDNSRecord) : List StaticDNSRecord :=
  records.filter fun r => ¬ r.source = dnsSourceDHCPStatic

/-- The key that no two records may share. -/
def Site.key (r : StaticDNSRecord) : Text :=
  site.fold r.name

/-- The records the leases are to have, in their order. -/
def offers (leases : List StaticLease) : List StaticDNSRecord :=
  (leases.filter fun l => l.hostname ≠ []).map (mirrorOf site)

theorem addStaticRecord_records (saved : Bool) (rec : StaticDNSRecord)
    (records : List StaticDNSRecord) :
    (addStaticRecord site saved rec records).2 = put site.key maxStaticDNSRecords records rec := by
  have htaken : (∃ r ∈ records, site.equalFold r.name rec.name) ↔
      Taken site.key records (site.key rec) := by
    simp [Taken, Site.key, Site.equalFold]
  unfold addStaticRecord put
  simp only [htaken]
  split_ifs <;> first | rfl | simp_all <;> omega

variable {records : List StaticDNSRecord} {s : State} {l : StaticLease}

/-- A search by source and the removal at the index found are one step. -/
theorem removeStaticRecord_found {p : StaticDNSRecord → Bool}
    {idx : Nat} (h : records.findIdx? p = some idx) (saved : Bool) :
    (removeStaticRecord saved idx records).2 = records.eraseP p := by
  have hlt : idx < records.length := by
    obtain ⟨hlt, -⟩ := findIdx?_eq_some_iff_getElem.mp h
    exact hlt
  rw [removeStaticRecord, if_neg (Nat.not_le.mpr hlt), eraseP_eq_eraseIdx, h]

variable {site}

/-- A filter that refuses what `p` accepts does not see the removal. -/
theorem filter_eraseP {p q : StaticDNSRecord → Bool} (h : ∀ r, p r → q r = false)
    (records : List StaticDNSRecord) : (records.eraseP p).filter q = records.filter q := by
  rcases exists_or_eq_self_of_eraseP p records with herase | ⟨r, front, back, -, hr, heq, herase⟩
  · rw [herase]
  · rw [herase, heq, filter_append, filter_append, filter_cons_of_neg (by simp [h r hr])]

theorem byHand_eraseP {p : StaticDNSRecord → Bool}
    (h : ∀ r, p r → r.source = dnsSourceDHCPStatic) (records : List StaticDNSRecord) :
    byHand (records.eraseP p) = byHand records :=
  filter_eraseP (fun r hr => by simp [h r hr]) records

/-- The stripping ends with the user's records, if no write that fails stops it. -/
theorem stripMirror_cases (saved : List StaticDNSRecord → Bool) {rounds : Nat}
    (hrounds : records.length ≤ rounds) :
    stripMirror saved rounds records = (.ok (), byHand records) ∨
      ∃ rest, stripMirror saved rounds records = (.error .strip, rest) ∧ saved rest = false := by
  induction rounds generalizing records with
  | zero =>
    rw [length_eq_zero_iff.mp (Nat.le_zero.mp hrounds)]
    exact .inl rfl
  | succ rounds ih =>
    unfold stripMirror
    split
    · -- no record is mirrored any more
      rename_i hnone
      left
      rw [byHand, filter_eq_self.mpr]
      intro r hr
      simpa using findIdx?_eq_none_iff.mp hnone r hr
    · rename_i idx hidx
      obtain ⟨hlt, -⟩ := findIdx?_eq_some_iff_getElem.mp hidx
      have herase : byHand (records.eraseIdx idx) = byHand records := by
        have := byHand_eraseP (fun r => of_decide_eq_true) records
        rwa [eraseP_eq_eraseIdx, hidx] at this
      have hlen : (records.eraseIdx idx).length ≤ rounds := by
        rw [length_eraseIdx_of_lt hlt]
        omega
      dsimp only
      split
      · rw [← herase]
        exact ih hlen
      · rename_i hfails
        exact .inr ⟨_, rfl, by simpa using hfails⟩

theorem readdMirror_eq (saved : List StaticDNSRecord → Bool) (leases : List StaticLease)
    (records : List StaticDNSRecord) :
    readdMirror site saved leases records =
      fill site.key maxStaticDNSRecords records (offers site leases) := by
  induction leases generalizing records with
  | nil => rfl
  | cons l leases ih =>
    rw [readdMirror, foldl_cons, ← readdMirror]
    by_cases hname : l.hostname = []
    · rw [if_pos hname, ih]
      simp [offers, hname]
    · rw [if_neg hname, ih, addStaticRecord_records]
      simp [offers, hname, Registry.fill_cons]

theorem offers_append (as bs : List StaticLease) :
    offers site (as ++ bs) = offers site as ++ offers site bs := by
  simp [offers]

theorem source_of_mem_offers {leases : List StaticLease} {r : StaticDNSRecord}
    (h : r ∈ offers site leases) : r.source = dnsSourceDHCPStatic := by
  obtain ⟨l, -, rfl⟩ := mem_map.mp h
  rfl

/-! ## The mirror in sync -/

variable (site) in
/-- The config after a rebuild whose writes all succeed. -/
def rebuilt (s : State) : State :=
  (syncStaticDNSRecords site (fun _ => true) true s).2

variable (site) in
/-- The mirrored records are those a rebuild makes, in whatever order. -/
def InSync (s : State) : Prop :=
  (mirrored s.records).Perm (mirrored (rebuilt site s).records)

instance (s : State) : Decidable (InSync site s) :=
  inferInstanceAs (Decidable (List.Perm _ _))

/-- A rebuild that is not stopped offers the leases their records over those of the user. -/
theorem sync_records (hdns : site.dns) {saved : List StaticDNSRecord → Bool}
    {applied : Bool} {s s' : State} {result : Except SyncError Unit}
    (h : syncStaticDNSRecords site saved applied s = (result, s')) (hres : result ≠ .error .strip) :
    s' = ⟨s.leases,
      fill site.key maxStaticDNSRecords (byHand s.records) (offers site s.leases)⟩ := by
  rw [syncStaticDNSRecords, hdns, if_neg (by simp)] at h
  rcases stripMirror_cases saved (Nat.le_refl s.records.length) with hstrip | ⟨rest, hstrip, -⟩
  · rw [hstrip] at h
    have hstate : ⟨s.leases, readdMirror site saved s.leases _⟩ = s' := (Prod.ext_iff.mp h).2
    rw [← hstate, readdMirror_eq]
  · rw [hstrip] at h
    exact absurd (Prod.ext_iff.mp h).1.symm hres

theorem rebuilt_records (hdns : site.dns) (s : State) :
    (rebuilt site s).records =
      fill site.key maxStaticDNSRecords (byHand s.records) (offers site s.leases) := by
  rw [rebuilt, syncStaticDNSRecords, hdns, if_neg (by simp)]
  rcases stripMirror_cases (fun _ => true) (Nat.le_refl s.records.length) with hstrip | ⟨rest, -, ⟨⟩⟩
  rw [hstrip]
  exact readdMirror_eq (fun _ => true) s.leases (byHand s.records)

theorem byHand_fill (records : List StaticDNSRecord) (leases : List StaticLease) :
    byHand (fill site.key maxStaticDNSRecords (byHand records) (offers site leases)) =
      byHand records := by
  obtain ⟨entered, heq, hmem⟩ :=
    Registry.fill_eq_append site.key maxStaticDNSRecords (byHand records) (offers site leases)
  have hnone : byHand entered = [] := by
    rw [byHand, filter_eq_nil_iff]
    intro r hr
    simp [source_of_mem_offers (hmem r hr)]
  rw [heq]
  calc byHand (byHand records ++ entered)
      = byHand (byHand records) ++ byHand entered := filter_append _ _
    _ = byHand records := by rw [hnone, append_nil, byHand, byHand, filter_filter]; simp

/-- With the resolver attached, being in sync is a statement about the whole list. -/
theorem inSync_iff (hdns : site.dns) :
    InSync site s ↔ s.records.Perm
      (fill site.key maxStaticDNSRecords (byHand s.records) (offers site s.leases)) := by
  rw [InSync, rebuilt_records hdns]
  have hparts : ∀ records : List StaticDNSRecord, records.Perm (byHand records ++ mirrored records) := by
    intro records
    have := filter_append_perm (fun r : StaticDNSRecord => r.source = dnsSourceDHCPStatic) records
    refine (this.symm.trans perm_append_comm).trans ?_
    simp [byHand, mirrored]
  constructor
  · intro h
    have hnew := hparts (fill site.key maxStaticDNSRecords (byHand s.records) (offers site s.leases))
    rw [byHand_fill] at hnew
    exact (hparts s.records).trans ((h.append_left _).trans hnew.symm)
  · intro h
    exact h.filter _

theorem inSync_of_no_dns (hdns : site.dns = false) (s : State) : InSync site s := by
  have hsame : rebuilt site s = s := by
    simp [rebuilt, syncStaticDNSRecords, hdns]
  rw [InSync, hsame]

/-- A rebuild changes nothing the second time. -/
theorem sync_again {saved saved' : List StaticDNSRecord → Bool} {applied applied' : Bool}
    {s s' s'' : State} {result result' : Except SyncError Unit}
    (h : syncStaticDNSRecords site saved applied s = (result, s')) (hres : result ≠ .error .strip)
    (h' : syncStaticDNSRecords site saved' applied' s' = (result', s''))
    (hres' : result' ≠ .error .strip) : s'' = s' := by
  by_cases hdns : site.dns
  · have hfirst := sync_records hdns h hres
    have hsecond := sync_records hdns h' hres'
    rw [hsecond, hfirst]
    simp only [byHand_fill]
  · rw [syncStaticDNSRecords, if_pos (by simpa using hdns)] at h'
    exact (Prod.ext_iff.mp h').2.symm

/-! ## Calls -/

inductive Call
  | add (w : Writes) (mac ip hostname : Text)
  | remove (w : Writes) (index : Int)

variable (site) in
def call (s : State) : Call → Except LeaseError Unit × State
  | .add w mac ip hostname => addStaticLease site w mac ip hostname s
  | .remove w index => removeStaticLease site w index s

/-- The config with the new lease could be written. -/
def Call.saved : Call → Bool
  | .add w .. => w.lease
  | .remove w _ => w.lease

variable (site) in
/-- The service: one call after the other, from a mirror in sync. -/
def service : Machine State Call where
  Init := InSync site
  step s c := (call site s c).2

variable (site) in
/-- The records after a lease is added. -/
def mirrorAdd (l : StaticLease) (records : List StaticDNSRecord) : List StaticDNSRecord :=
  if site.dns ∧ l.hostname ≠ [] then put site.key maxStaticDNSRecords records (mirrorOf site l)
  else records

variable (site) in
/-- Mirrored, and under the name of the lease. -/
def mirrors (l : StaticLease) (r : StaticDNSRecord) : Bool :=
  r.source = dnsSourceDHCPStatic && site.equalFold r.name (site.staticLeaseFQDN l.hostname)

variable (site) in
/-- The records after a lease is removed. -/
def mirrorRemove (l : StaticLease) (records : List StaticDNSRecord) : List StaticDNSRecord :=
  if site.dns ∧ l.hostname ≠ [] then records.eraseP (mirrors site l) else records

variable (site) in
/-- What an `AddStaticLease` does: nothing, or a new last lease, with its record if the
lease was written. -/
theorem addStaticLease_cases (w : Writes) (mac ip hostname : Text) (s : State) :
    (addStaticLease site w mac ip hostname s).2 = s ∨
      ∃ l : StaticLease, (addStaticLease site w mac ip hostname s).2 =
        ⟨s.leases ++ [l], if w.lease then mirrorAdd site l s.records else s.records⟩ := by
  unfold addStaticLease
  split
  · exact .inl rfl
  split
  · exact .inl rfl
  refine .inr ⟨⟨mac, ip, hostname⟩, ?_⟩
  cases hw : w.lease with
  | false => simp
  | true =>
    by_cases hmirror : site.dns ∧ hostname ≠ []
    · simp [hmirror, mirrorAdd, addStaticRecord_records]
    · simp only [Bool.not_true, Bool.false_eq_true, if_false, if_neg hmirror, if_true, mirrorAdd]

variable (site) in
/-- What a `RemoveStaticLease` does: nothing, or one lease less, and without its record if
the list was written. -/
theorem removeStaticLease_cases (w : Writes) (index : Int) (s : State) :
    (¬ (0 ≤ index ∧ index.toNat < s.leases.length) ∧ (removeStaticLease site w index s).2 = s) ∨
      ∃ l, 0 ≤ index ∧ s.leases[index.toNat]? = some l ∧
        (removeStaticLease site w index s).2 =
          ⟨s.leases.eraseIdx index.toNat,
            if w.lease then mirrorRemove site l s.records else s.records⟩ := by
  unfold removeStaticLease
  split
  · rename_i hneg
    exact .inl ⟨by omega, rfl⟩
  rename_i hpos
  split
  · rename_i hnone
    have := getElem?_eq_none_iff.mp hnone
    exact .inl ⟨by omega, rfl⟩
  rename_i l hl
  refine .inr ⟨l, by omega, hl, ?_⟩
  cases hw : w.lease with
  | false => simp
  | true =>
    by_cases hmirror : site.dns ∧ l.hostname ≠ []
    · simp only [Bool.not_true, Bool.false_eq_true, if_false, if_pos hmirror, if_true, mirrorRemove]
      split
      · rename_i hnone
        rw [eraseP_of_forall_not]
        intro r hr
        have := findIdx?_eq_none_iff.mp hnone r hr
        simpa [mirrors] using this
      · rename_i idx hidx
        rw [removeStaticRecord_found hidx]
        rfl
    · simp only [Bool.not_true, Bool.false_eq_true, if_false, if_neg hmirror, if_true, mirrorRemove]

/-! ## The records of the user -/

theorem byHand_mirrorAdd (l : StaticLease) (records : List StaticDNSRecord) :
    byHand (mirrorAdd site l records) = byHand records := by
  unfold mirrorAdd
  split
  · rcases Registry.put_cases site.key maxStaticDNSRecords records (mirrorOf site l) with
      ⟨-, hput⟩ | ⟨-, hput⟩
    · rw [hput]
    · rw [hput]
      simp [byHand, mirrorOf]
  · rfl

theorem byHand_erase_mirrors (l : StaticLease) (records : List StaticDNSRecord) :
    byHand (records.eraseP (mirrors site l)) = byHand records := by
  apply byHand_eraseP
  intro r hr
  rw [mirrors, Bool.and_eq_true] at hr
  exact of_decide_eq_true hr.1

theorem byHand_mirrorRemove (l : StaticLease) (records : List StaticDNSRecord) :
    byHand (mirrorRemove site l records) = byHand records := by
  unfold mirrorRemove
  split
  · exact byHand_erase_mirrors l records
  · rfl

/-- No call touches the user's records, whatever fails. -/
theorem byHand_call (s : State) (c : Call) :
    byHand (call site s c).2.records = byHand s.records := by
  cases c with
  | add w mac ip hostname =>
    rcases addStaticLease_cases site w mac ip hostname s with h | ⟨l, h⟩
    · simp only [call, h]
    · simp only [call, h]
      split
      · exact byHand_mirrorAdd l s.records
      · rfl
  | remove w index =>
    rcases removeStaticLease_cases site w index s with ⟨-, h⟩ | ⟨l, -, -, h⟩
    · simp only [call, h]
    · simp only [call, h]
      split
      · exact byHand_mirrorRemove l s.records
      · rfl

theorem byHand_run (s : State) (calls : List Call) :
    byHand ((service site).run s calls).records = byHand s.records := by
  induction calls generalizing s with
  | nil => rfl
  | cons c calls ih => exact (ih _).trans (byHand_call s c)

/-! ## Additions are exact -/

theorem InSync.add (h : InSync site s) (l : StaticLease) :
    InSync site ⟨s.leases ++ [l], mirrorAdd site l s.records⟩ := by
  by_cases hdns : site.dns
  · rw [inSync_iff hdns] at h ⊢
    rw [byHand_mirrorAdd, offers_append]
    by_cases hname : l.hostname = []
    · have hnone : offers site [l] = [] := by simp [offers, hname]
      rw [hnone, append_nil, mirrorAdd, if_neg (by simp [hname])]
      exact h
    · have hone : offers site [l] = [mirrorOf site l] := by simp [offers, hname]
      rw [hone, mirrorAdd, if_pos ⟨hdns, hname⟩, Registry.fill_append]
      exact Registry.put_perm h (mirrorOf site l)
  · exact inSync_of_no_dns (by simpa using hdns) _

/-! ## Removals -/

variable (site) in
/-- The removal of lease `i` leaves the mirror in sync: if the lease's name has a mirrored
record, no other lease has that name, and no lease goes without a record. -/
def Separable (s : State) (i : Nat) : Prop :=
  ∀ l ∈ s.leases[i]?, site.dns → l.hostname ≠ [] →
    (∃ r ∈ s.records, mirrors site l r) →
      ∀ other ∈ s.leases.eraseIdx i, other.hostname ≠ [] →
        ¬ site.equalFold (site.staticLeaseFQDN other.hostname) (site.staticLeaseFQDN l.hostname) ∧
          ∃ r ∈ s.records, site.equalFold r.name (site.staticLeaseFQDN other.hostname)

instance (s : State) (i : Nat) : Decidable (Separable site s i) :=
  inferInstanceAs (Decidable (∀ l ∈ s.leases[i]?, _))

variable (site) in
/-- The calls that are answered as a rebuild would. -/
def Exact (s : State) : Call → Prop
  | .add .. => True
  | .remove _ index => 0 ≤ index → Separable site s index.toNat

instance (s : State) : (c : Call) → Decidable (Exact site s c)
  | .add .. => isTrue trivial
  | .remove _ index => inferInstanceAs (Decidable (0 ≤ index → Separable site s index.toNat))

/-- The condition on the other leases, as one on the records they are offered. -/
theorem separate_offers_iff {others : List StaticLease} :
    (¬ Taken site.key (offers site others) (site.key (mirrorOf site l)) ∧
        ∀ x ∈ offers site others, Taken site.key records (site.key x)) ↔
      ∀ other ∈ others, other.hostname ≠ [] →
        ¬ site.equalFold (site.staticLeaseFQDN other.hostname) (site.staticLeaseFQDN l.hostname) ∧
          ∃ r ∈ records, site.equalFold r.name (site.staticLeaseFQDN other.hostname) := by
  have hmem : ∀ x, x ∈ offers site others ↔
      ∃ other ∈ others, other.hostname ≠ [] ∧ mirrorOf site other = x := by
    intro x
    simp [offers, and_assoc]
  constructor
  · rintro ⟨hfree, hall⟩ other hother hname
    have hoffer := (hmem _).mpr ⟨other, hother, hname, rfl⟩
    constructor
    · intro hsame
      exact hfree ⟨mirrorOf site other, hoffer, of_decide_eq_true hsame⟩
    · obtain ⟨r, hr, hkey⟩ := hall _ hoffer
      exact ⟨r, hr, decide_eq_true hkey⟩
  · intro h
    constructor
    · rintro ⟨x, hx, hkey⟩
      obtain ⟨other, hother, hname, rfl⟩ := (hmem x).mp hx
      exact (h other hother hname).1 (decide_eq_true hkey)
    · intro x hx
      obtain ⟨other, hother, hname, rfl⟩ := (hmem x).mp hx
      obtain ⟨r, hr, hkey⟩ := (h other hother hname).2
      exact ⟨r, hr, of_decide_eq_true hkey⟩

/-- A removal that takes a record away, where the registry's rule applies. -/
theorem inSync_erase_iff (hdns : site.dns) (h : InSync site s)
    {pre post : List StaticLease} (hleases : s.leases = pre ++ l :: post)
    (hname : l.hostname ≠ []) (hrecord : ∃ r ∈ s.records, mirrors site l r) :
    InSync site ⟨pre ++ post, s.records.eraseP (mirrors site l)⟩ ↔
      ¬ Taken site.key (offers site (pre ++ post)) (site.key (mirrorOf site l)) ∧
        ∀ x ∈ offers site (pre ++ post), Taken site.key s.records (site.key x) := by
  obtain ⟨r, hr, hmirrors⟩ := hrecord
  obtain ⟨b, front, back, -, hb, hrecords, herase⟩ := exists_of_eraseP hr hmirrors
  rw [mirrors, Bool.and_eq_true] at hb
  have hsource : b.source = dnsSourceDHCPStatic := of_decide_eq_true hb.1
  have hkey : site.key b = site.key (mirrorOf site l) := of_decide_eq_true hb.2
  have hoffers : offers site (pre ++ l :: post) =
      offers site pre ++ mirrorOf site l :: offers site post := by
    simp [offers, hname]
  -- the list as the rebuild has it, and `b` as one of the records it entered
  have hperm := (inSync_iff hdns).mp h
  rw [hleases, hoffers] at hperm
  have hcons : s.records.Perm (b :: s.records.eraseP (mirrors site l)) := by
    rw [herase]
    nth_rewrite 1 [hrecords]
    exact perm_middle
  have hbfill := hperm.mem_iff.mp (hcons.mem_iff.mpr mem_cons_self)
  have hfree : ¬ Taken site.key (byHand s.records) (site.key (mirrorOf site l)) := by
    rw [← hkey]
    apply Registry.not_taken_of_mem_fill hbfill
    simp [byHand, hsource]
  rw [inSync_iff hdns, byHand_erase_mirrors, offers_append]
  calc (s.records.eraseP (mirrors site l)).Perm _
      ↔ (b :: s.records.eraseP (mirrors site l)).Perm (b :: fill site.key maxStaticDNSRecords
          (byHand s.records) (offers site pre ++ offers site post)) := perm_cons b |>.symm
    _ ↔ (fill site.key maxStaticDNSRecords (byHand s.records)
          (offers site pre ++ mirrorOf site l :: offers site post)).Perm _ :=
        ⟨fun hp => hperm.symm.trans (hcons.trans hp), fun hp => hcons.symm.trans (hperm.trans hp)⟩
    _ ↔ _ := by
        rw [Registry.fill_erase_iff hfree hbfill hkey]
        simp only [Taken.perm hperm]

/-- A removal that takes no record away: the lease had been refused its own. -/
theorem inSync_keep (hdns : site.dns) (h : InSync site s)
    {pre post : List StaticLease} (hleases : s.leases = pre ++ l :: post)
    (hnone : l.hostname = [] ∨ ¬ ∃ r ∈ s.records, mirrors site l r) :
    InSync site ⟨pre ++ post, s.records⟩ := by
  rw [inSync_iff hdns] at h ⊢
  rw [hleases] at h
  by_cases hname : l.hostname = []
  · have hoffers : offers site (pre ++ l :: post) = offers site (pre ++ post) := by
      simp [offers, hname]
    rwa [hoffers] at h
  have hoffers : offers site (pre ++ l :: post) =
      offers site pre ++ mirrorOf site l :: offers site post := by
    simp [offers, hname]
  rw [hoffers] at h
  rw [offers_append, Registry.fill_without]
  · exact h
  · intro hmem
    apply hnone.resolve_left hname
    refine ⟨mirrorOf site l, h.mem_iff.mpr hmem, ?_⟩
    simp [mirrors, mirrorOf, Site.equalFold]

theorem inSync_remove_iff (h : InSync site s) {i : Nat} (hl : s.leases[i]? = some l) :
    InSync site ⟨s.leases.eraseIdx i, mirrorRemove site l s.records⟩ ↔ Separable site s i := by
  by_cases hdns : site.dns
  swap
  · exact iff_of_true (inSync_of_no_dns (by simpa using hdns) _) fun _ _ hon => absurd hon hdns
  -- the leases around the one that is removed
  obtain ⟨hi, hget⟩ := List.getElem?_eq_some_iff.mp hl
  have hleases : s.leases = s.leases.take i ++ l :: s.leases.drop (i + 1) := by
    rw [← hget, getElem_cons_drop, take_append_drop]
  have herase : s.leases.eraseIdx i = s.leases.take i ++ s.leases.drop (i + 1) :=
    eraseIdx_eq_take_drop_succ s.leases i
  by_cases hrecord : l.hostname ≠ [] ∧ ∃ r ∈ s.records, mirrors site l r
  · have hremove : mirrorRemove site l s.records = s.records.eraseP (mirrors site l) :=
      if_pos ⟨hdns, hrecord.1⟩
    rw [hremove, herase, inSync_erase_iff hdns h hleases hrecord.1 hrecord.2,
      separate_offers_iff, ← herase]
    constructor
    · intro hothers l' hl' _ _ _
      obtain rfl : l = l' := Option.some.inj (hl.symm.trans hl')
      exact hothers
    · intro hsep
      exact hsep l hl hdns hrecord.1 hrecord.2
  · have hkeep : mirrorRemove site l s.records = s.records := by
      unfold mirrorRemove
      split
      · rename_i hmirror
        apply eraseP_of_forall_not
        intro r hr hm
        exact hrecord ⟨hmirror.2, r, hr, hm⟩
      · rfl
    rw [hkeep, herase]
    refine iff_of_true (inSync_keep hdns h hleases ?_) ?_
    · rwa [not_and_or, not_not] at hrecord
    · intro l' hl' _ hname' hrecord'
      obtain rfl : l = l' := Option.some.inj (hl.symm.trans hl')
      exact absurd ⟨hname', hrecord'⟩ hrecord

/-- One call whose write succeeds. -/
theorem inSync_call_iff {c : Call} (hc : c.saved) (h : InSync site s) :
    InSync site (call site s c).2 ↔ Exact site s c := by
  cases c with
  | add w mac ip hostname =>
    have hw : w.lease := hc
    refine iff_of_true ?_ trivial
    rcases addStaticLease_cases site w mac ip hostname s with hsame | ⟨l, hnew⟩
    · rw [call, hsame]
      exact h
    · rw [call, hnew, hw, if_pos rfl]
      exact h.add l
  | remove w index =>
    have hw : w.lease := hc
    rcases removeStaticLease_cases site w index s with ⟨hinvalid, hsame⟩ | ⟨l, hpos, hl, hless⟩
    · -- an index outside the list: there is no lease to speak of
      rw [call, hsame]
      refine iff_of_true h ?_
      intro hpos l hl
      obtain ⟨hlt, -⟩ := List.getElem?_eq_some_iff.mp hl
      exact absurd ⟨hpos, hlt⟩ hinvalid
    · rw [call, hless, hw, if_pos rfl, inSync_remove_iff h hl]
      exact ⟨fun hsep _ => hsep, fun hsep => hsep hpos⟩

/-- **The mirror over whole runs.** From a mirror in sync: the user's records are never
touched, whatever the calls and their writes do; a rebuild that comes through changes
nothing the second time; and if every lease list is written, the mirror stays in sync
throughout exactly if no removal meets a lease that shares its name with another one, or
a mirror with a lease too many. -/
theorem leases_mirrored_iff (site : Site) {s : State} (hs : InSync site s) (calls : List Call) :
    (∀ pre, pre <+: calls → byHand ((service site).run s pre).records = byHand s.records) ∧
    (∀ saved saved' applied applied' s s' s'' result result',
      syncStaticDNSRecords site saved applied s = (result, s') → result ≠ .error .strip →
      syncStaticDNSRecords site saved' applied' s' = (result', s'') → result' ≠ .error .strip →
      s'' = s') ∧
    ((∀ c ∈ calls, c.saved) →
      ((∀ pre, pre <+: calls → InSync site ((service site).run s pre)) ↔
        Machine.Guarded (service site) (Exact site) s calls)) := by
  refine ⟨fun pre _ => byHand_run s pre, ?_, ?_⟩
  · intro saved saved' applied applied' s s' s'' result result' h hres h' hres'
    exact sync_again h hres h' hres'
  · intro hsaved
    refine Machine.run_iff_guarded_on (I := fun _ => True) (fun _ _ _ _ => trivial) ?_ trivial hs hsaved
    intro s c hc _ hin
    exact inSync_call_iff hc hin

/-! ## Two televisions -/

/-- One LAN, and ASCII names. -/
def home : Site where
  interfaces := [staticLAN "lan0" "eth1" "10.0.0.1/24"]
  vlans := []
  domain := []
  dns := true
  fold := List.map Char.toLower

def reserve (mac ip hostname : String) : Call :=
  .add ⟨true, true⟩ mac.toList ip.toList hostname.toList

def release (index : Int) : Call :=
  .remove ⟨true, true⟩ index

/-- A name of one's own comes and goes with its record. -/
theorem own_name_released :
    InSync home ((service home).run ⟨[], []⟩ [reserve "aa" "10.0.0.2" "tv", release 0]) :=
  ((leases_mirrored_iff home (s := ⟨[], []⟩) (by decide)
    [reserve "aa" "10.0.0.2" "tv", release 0]).2.2 (by decide)).mpr (by decide) _ (prefix_refl _)

/-- Two leases may have the same name. Removing the second one takes away the record of
the first, which a rebuild would make again. -/
theorem shared_name_lost :
    let calls := [reserve "aa" "10.0.0.2" "tv", reserve "bb" "10.0.0.3" "TV", release 1]
    InSync home ⟨[], []⟩ ∧
      (∀ k < 3, (calls[k]?.map fun c =>
        (call home ((service home).run ⟨[], []⟩ (calls.take k)) c).1.toBool) = some true) ∧
      ¬ InSync home ((service home).run ⟨[], []⟩ calls) := by
  decide

end Lankeeper.DHCP
