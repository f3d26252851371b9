import Lankeeper.Firewall.RuleLines
import Lankeeper.Lib.Machine
import Lankeeper.Network.Config

/-!
# Lankeeper.Network.Service — interfaces and the VLANs on them

`internal/services/network.go` edits two lists of the config that refer to each
other: a VLAN names its parent interface by ID. `AddVLAN` checks the reference, and
`RemoveInterface` does not. `vlan_references_iff` says which runs of edits keep the
lists consistent.

Every operation changes the config in memory and then writes the file. The write
may fail (`saved`), which `AddVLAN` and `RemoveVLAN` undo and the others do not.
`edit_undone_iff` says when an edit that failed has changed nothing.
-/

namespace Lankeeper.Network

open Lib Text List Option
open Firewall (RuleError validateInterfaceName validateInterfaceName_ok validateRuleName)
open scoped Firewall

/-! ## Validation -/

/-- Why an edit is refused. -/
inductive NetworkError
  /-- the field, and what is wrong with the name in it -/
  | name (field : Text) (e : RuleError)
  | role (r : Text)
  | type (t : Text)
  | address (a : Text)
  | mtu (n : Int)
  | duplicateInterface (device : Text)
  | lastLANInterface
  | interfaceNotFound (id : Text)
  -- reasons that `ErrInvalidVLAN` wraps
  | parent (p : Text)
  | vlanID (n : Int)
  | idInUse (id : Text)
  | vidInUse (vid : Int) (parent : Text)
  | dhcpAddress
  | dhcpRange (ip : Text)
  | leaseTime (t : Text)
  | overlap (address used : Text)
  -- the config file was not written
  | save
deriving DecidableEq

/-- An error of a name check, with the field it is about. -/
def checkName (field : Text) (r : Except RuleError Unit) : Except NetworkError Unit :=
  r.mapError (.name field)

/-- `interfaceRoles`. -/
def interfaceRoles : List Text :=
  ["lan", "wan"]

/-- `interfaceTypes`. -/
def interfaceTypes : List Text :=
  ["static", "dhcp-client", "pppoe"]

/-- `ValidateCIDR`. -/
def validateCIDR (s : Text) : Except NetworkError Unit :=
  failIf (Prefix.parseCIDR s = none) (.address s)

/-- `ValidateMTU`. -/
def validateMTU (mtu : Int) : Except NetworkError Unit :=
  failIf (mtu < 68 ∨ mtu > 9000) (.mtu mtu)

/-- `ValidateVLANID`. -/
def validateVLANID (vid : Int) : Except NetworkError Unit :=
  failIf (vid < 1 ∨ vid > 4094) (.vlanID vid)

/-- `validateInterfaceEntry`. -/
def validateInterfaceEntry (i : InterfaceConfig) : Except NetworkError Unit := do
  checkName "id" (validateInterfaceName i.id)
  checkName "device" (validateInterfaceName i.device)
  failIf (i.role ∉ interfaceRoles) (.role i.role)
  failIf (i.type ∉ interfaceTypes) (.type i.type)
  checkName "label" (validateRuleName i.label)
  checkIf (i.address ≠ []) (validateCIDR i.address)
  checkIf (i.mtu ≠ 0) (validateMTU i.mtu)

/-- `validateVLANIdentity`. -/
def validateVLANIdentity (c : Config) (v : VLANConfig) : Except NetworkError Unit := do
  checkName "id" (validateInterfaceName v.id)
  failIf (¬ c.interfaces.any (·.id = v.parent)) (.parent v.parent)
  validateVLANID v.vid
  -- the first entry that clashes decides which error it is
  match c.vlans.find? fun x => x.id = v.id ∨ (x.parent = v.parent ∧ x.vid = v.vid) with
  | some x => if x.id = v.id then .error (.idInUse v.id) else .error (.vidInUse v.vid v.parent)
  | none => .ok ()

/-- `validateVLANFields`. -/
def validateVLANFields (v : VLANConfig) : Except NetworkError Unit := do
  checkName "label" (validateRuleName v.label)
  failIf (v.role ∉ interfaceRoles) (.role v.role)
  failIf (v.type ∉ interfaceTypes) (.type v.type)
  checkIf (v.address ≠ []) (validateCIDR v.address)
  checkIf (v.mtu ≠ 0) (validateMTU v.mtu)

/-- `leaseTimePattern`: `[0-9]+[smhdw]?` or `infinite`. -/
def isLeaseTime (t : Text) : Bool :=
  t = "infinite" ||
    match t.getLast? with
    | none => false
    | some u =>
      if "smhdw".toList.contains u then (readNat t.dropLast).isSome else (readNat t).isSome

/-- The address lies in the network; an address mapped into IPv6 is the IPv4 one. -/
def inNetwork (n : Network) (ip : Text) : Bool :=
  match Address.parseIP ip with
  | none => false
  | some a =>
    if a.1 = .ip6 ∧ ¬ Address.onlyIPv6 a then n.contains .ip4 (a.2 &&& 0xffffffff)
    else n.contains a.1 a.2

/-- `validateVLANDHCP`. -/
def validateVLANDHCP (v : VLANConfig) : Except NetworkError Unit :=
  if ¬ v.dhcp.enabled then .ok ()
  else
    match Network.parse v.address with
    | none => .error .dhcpAddress
    | some subnet =>
      match [v.dhcp.rangeStart, v.dhcp.rangeEnd].find? fun ip => ip ≠ [] ∧ ¬ inNetwork subnet ip with
      | some ip => .error (.dhcpRange ip)
      | none =>
        if v.dhcp.leaseTime ≠ [] ∧ ¬ isLeaseTime v.dhcp.leaseTime then
          .error (.leaseTime v.dhcp.leaseTime)
        else .ok ()

/-- `servedSubnets`. -/
def servedSubnets (c : Config) : List Text :=
  ((c.interfaces.filter fun i => i.role = "lan".toList ∧ i.address ≠ []).map (·.address)) ++
  ((c.vlans.filter fun v => v.address ≠ []).map (·.address)) ++
  (if c.vpnServer.address ≠ [] then [c.vpnServer.address] else []) ++
  if c.ovpnServer.subnet ≠ [] then [c.ovpnServer.subnet] else []

/-- `validateVLANSubnet`. Addresses that do not parse are skipped. -/
def validateVLANSubnet (c : Config) (v : VLANConfig) : Except NetworkError Unit :=
  if v.address = [] then .ok ()
  else
    match Network.parse v.address with
    | none => .ok ()
    | some net =>
      match (servedSubnets c).find? fun used => (Network.parse used).any net.overlaps with
      | some used => .error (.overlap v.address used)
      | none => .ok ()

/-- `ValidateVLAN`. -/
def validateVLAN (c : Config) (v : VLANConfig) : Except NetworkError Unit := do
  validateVLANIdentity c v
  validateVLANFields v
  validateVLANDHCP v
  validateVLANSubnet c v

/-! ## Operations -/

/-- `SaveToFile`. -/
def saveToFile (saved : Bool) : Except NetworkError Unit :=
  if saved then .ok () else .error .save

/-- `countLANExcept`. -/
def countLANExcept (c : Config) (id : Text) : Nat :=
  c.interfaces.countP fun i => i.id ≠ id ∧ i.role = "lan".toList

/-- Is the interface the only LAN interface? -/
def lastLAN (c : Config) (i : InterfaceConfig) : Bool :=
  i.role = "lan".toList ∧ countLANExcept c i.id = 0

/-- `SetInterface`. -/
def setInterface (saved : Bool) (i : InterfaceConfig) (c : Config) :
    Except NetworkError Unit × Config :=
  match validateInterfaceEntry i with
  | .error e => (.error e, c)
  | .ok () =>
    if c.interfaces.any fun x => x.id ≠ i.id ∧ x.device = i.device then
      (.error (.duplicateInterface i.device), c)
    else
      match c.interfaces.find? fun x => x.id = i.id with
      | none => (saveToFile saved, { c with interfaces := c.interfaces ++ [i] })
      | some old =>
        if lastLAN c old ∧ i.role ≠ "lan".toList then (.error .lastLANInterface, c)
        else (saveToFile saved, { c with
          interfaces := c.interfaces.set (c.interfaces.findIdx fun x => x.id = i.id) i })

/-- `RemoveInterface`: the first entry with the ID goes. -/
def removeInterface (saved : Bool) (id : Text) (c : Config) : Except NetworkError Unit × Config :=
  match c.interfaces.find? fun x => x.id = id with
  | none => (.error (.interfaceNotFound id), c)
  | some old =>
    if lastLAN c old then (.error .lastLANInterface, c)
    else (saveToFile saved, { c with interfaces := c.interfaces.eraseP fun x => x.id = id })

/-- `storeVLANsLocked`: a list that could not be written is not kept. -/
def storeVLANs (saved : Bool) (next : List VLANConfig) (c : Config) :
    Except NetworkError Unit × Config :=
  if saved then (.ok (), { c with vlans := next }) else (.error .save, c)

/-- `AddVLAN`. -/
def addVLAN (saved : Bool) (v : VLANConfig) (c : Config) : Except NetworkError Unit × Config :=
  match validateVLAN c v with
  | .error e => (.error e, c)
  | .ok () => storeVLANs saved (c.vlans ++ [v]) c

/-- `RemoveVLAN`. A VLAN that is not there is no error. -/
def removeVLAN (saved : Bool) (id : Text) (c : Config) : Except NetworkError Unit × Config :=
  if c.vlans.any (·.id = id) then storeVLANs saved (c.vlans.eraseP (·.id = id)) c else (.ok (), c)

/-- An edit, and whether the file gets written. -/
inductive Edit
  | setInterface (saved : Bool) (i : InterfaceConfig)
  | removeInterface (saved : Bool) (id : Text)
  | addVLAN (saved : Bool) (v : VLANConfig)
  | removeVLAN (saved : Bool) (id : Text)

/-- The result of an edit and the config after it. -/
def Edit.apply : Edit → Config → Except NetworkError Unit × Config
  | .setInterface saved i => Network.setInterface saved i
  | .removeInterface saved id => Network.removeInterface saved id
  | .addVLAN saved v => Network.addVLAN saved v
  | .removeVLAN saved id => Network.removeVLAN saved id

/-! ## Rendering -/

/-- What `RestoreVLANs` reports. -/
inductive RestoreError
  | parentNotFound (parent : Text) (vid : Int)
  | createVLAN (vid : Int)
deriving DecidableEq

/-- `RestoreVLANs`: `up` are the devices that are there, `create` the ones `ip` can
create. -/
def restoreVLANs (c : Config) (up create : Text → Bool) : List RestoreError :=
  c.vlans.flatMap fun v =>
    let parentDev := deviceByID c.interfaces v.parent
    let device := parentDev ++ '.' :: decimal v.vid
    if parentDev = [] then [.parentNotFound v.parent v.vid]
    else if up device ∨ create device then []
    else [.createVLAN v.vid]

/-! ## Consistency -/

/-- The references between the two lists of a config hold. -/
structure Consistent (c : Config) : Prop where
  parents : ∀ v ∈ c.vlans, ∃ i ∈ c.interfaces, i.id = v.parent
  ids : (c.vlans.map (·.id)).Nodup
  tags : (c.vlans.map fun v => (v.parent, v.vid)).Nodup
  devices : ∀ i ∈ c.interfaces, i.device ≠ []

variable {c : Config} {is : List InterfaceConfig}

/-- With every reference in place, `RestoreVLANs` finds every parent. -/
theorem Consistent.parents_found (h : Consistent c) (up create : Text → Bool)
    (parent : Text) (vid : Int) : .parentNotFound parent vid ∉ restoreVLANs c up create := by
  intro hmem
  obtain ⟨v, hv, hmem⟩ := mem_flatMap.mp hmem
  obtain ⟨i, hi, hid⟩ := h.parents v hv
  have hdev : deviceByID c.interfaces v.parent ≠ [] := by
    unfold deviceByID
    split
    · rename_i j hj
      exact h.devices j (mem_of_find?_eq_some hj)
    · rename_i hnone
      exact absurd hid (by simpa using List.find?_eq_none.mp hnone i hi)
  simp only [if_neg hdev] at hmem
  split at hmem
  · cases hmem
  · cases mem_singleton.mp hmem

/-- Edits of the interfaces that lose no ID. -/
theorem Consistent.withInterfaces (h : Consistent c)
    (hids : ∀ i ∈ c.interfaces, ∃ j ∈ is, j.id = i.id) (hdev : ∀ j ∈ is, j.device ≠ []) :
    Consistent { c with interfaces := is } where
  parents := by
    intro v hv
    obtain ⟨i, hi, hid⟩ := h.parents v hv
    obtain ⟨j, hj, hji⟩ := hids i hi
    exact ⟨j, hj, hji.trans hid⟩
  ids := h.ids
  tags := h.tags
  devices := hdev

/-- Edits of the VLANs that add none. -/
theorem Consistent.withVLANs (h : Consistent c) {vs : List VLANConfig}
    (hsub : List.Sublist vs c.vlans) : Consistent { c with vlans := vs } where
  parents := fun v hv => h.parents v (hsub.subset hv)
  ids := h.ids.sublist (hsub.map _)
  tags := h.tags.sublist (hsub.map _)
  devices := h.devices

/-! ### What the operations do -/

theorem validateInterfaceEntry_device {i : InterfaceConfig}
    (h : validateInterfaceEntry i = .ok ()) : validateInterfaceName i.device = .ok () := by
  obtain ⟨⟨⟩, -, h⟩ := exists_of_bind_ok h
  obtain ⟨⟨⟩, hdev, -⟩ := exists_of_bind_ok h
  exact of_mapError_ok hdev

/-- `SetInterface` gets past its checks. -/
def Sets (c : Config) (i : InterfaceConfig) : Prop :=
  validateInterfaceEntry i = .ok () ∧
    (∀ x ∈ c.interfaces, x.id ≠ i.id → x.device ≠ i.device) ∧
    ∀ old, c.interfaces.find? (fun x => x.id = i.id) = some old → lastLAN c old →
      i.role = "lan"

/-- The entry comes last if its ID is new, and takes the place of the first one with its ID
otherwise. -/
inductive Placed (i : InterfaceConfig) : List InterfaceConfig → List InterfaceConfig → Prop
  | last {is : List InterfaceConfig} (hnew : ∀ x ∈ is, x.id ≠ i.id) : Placed i is (is ++ [i])
  | instead {front back : List InterfaceConfig} {old : InterfaceConfig} (hid : old.id = i.id)
      (hfront : ∀ x ∈ front, x.id ≠ i.id) : Placed i (front ++ old :: back) (front ++ i :: back)

theorem setInterface_spec (saved : Bool) (i : InterfaceConfig) (c : Config) :
    (Sets c i ∧ ∃ is, Placed i c.interfaces is ∧
        setInterface saved i c = (saveToFile saved, { c with interfaces := is })) ∨
      (¬ Sets c i ∧ ∃ e, setInterface saved i c = (.error e, c)) := by
  unfold setInterface
  split
  · rename_i e hvalid
    refine .inr ⟨fun h => ?_, e, rfl⟩
    rw [h.1] at hvalid
    cases hvalid
  · rename_i hvalid
    split
    · rename_i hany
      refine .inr ⟨fun h => ?_, _, rfl⟩
      obtain ⟨x, hx, hclash⟩ := any_eq_true.mp hany
      exact absurd (of_decide_eq_true hclash).2 (h.2.1 x hx (of_decide_eq_true hclash).1)
    · rename_i hany
      have hdevices : ∀ x ∈ c.interfaces, x.id ≠ i.id → x.device ≠ i.device := by
        simpa using hany
      split
      · rename_i hnone
        have hnew : ∀ x ∈ c.interfaces, x.id ≠ i.id := by simpa using hnone
        refine .inl ⟨⟨hvalid, hdevices, fun old hold => ?_⟩, _, .last hnew, rfl⟩
        cases hnone.symm.trans hold
      · rename_i old hold
        split
        · rename_i hlast
          exact .inr ⟨fun h => hlast.2 (h.2.2 old hold hlast.1), _, rfl⟩
        rename_i hlast
        refine .inl ⟨⟨hvalid, hdevices, fun old' hold' hlan => ?_⟩, ?_⟩
        · cases hold.symm.trans hold'
          exact not_not.mp fun hrole => hlast ⟨hlan, hrole⟩
        · obtain ⟨front, back, hsplit, hfront, -, hset⟩ := exists_split_of_find hold
          refine ⟨_, ?_, rfl⟩
          rw [hset, hsplit]
          exact .instead (by simpa using List.find?_some hold) (by simpa using hfront)

/-- No ID is lost, and a new entry is one that was checked. -/
theorem setInterface_keeps (saved : Bool) (i : InterfaceConfig) (c : Config) :
    ∃ is, (setInterface saved i c).2 = { c with interfaces := is } ∧
      (∀ x ∈ c.interfaces, ∃ y ∈ is, y.id = x.id) ∧
      ∀ y ∈ is, y ∈ c.interfaces ∨ validateInterfaceEntry y = .ok () := by
  rcases setInterface_spec saved i c with ⟨hsets, is, hplaced, heq⟩ | ⟨-, e, heq⟩
  · refine ⟨is, by rw [heq], ?_⟩
    generalize c.interfaces = old at hplaced ⊢
    cases hplaced with
    | last hnew =>
      refine ⟨fun x hx => ⟨x, mem_append_left _ hx, rfl⟩, fun y hy => ?_⟩
      rcases mem_append.mp hy with hy | hy
      · exact .inl hy
      · rw [mem_singleton.mp hy]
        exact .inr hsets.1
    | instead hid _ =>
      simp only [mem_append, mem_cons]
      constructor
      · rintro x (hx | rfl | hx)
        · exact ⟨x, .inl hx, rfl⟩
        · exact ⟨i, .inr (.inl rfl), hid.symm⟩
        · exact ⟨x, .inr (.inr hx), rfl⟩
      · rintro y (hy | rfl | hy)
        · exact .inl (.inl hy)
        · exact .inr hsets.1
        · exact .inl (.inr (.inr hy))
  · exact ⟨c.interfaces, by rw [heq], fun x hx => ⟨x, hx, rfl⟩, fun y hy => .inl hy⟩

theorem validateVLAN_identity {v : VLANConfig} (h : validateVLAN c v = .ok ()) :
    (∃ i ∈ c.interfaces, i.id = v.parent) ∧
      ∀ x ∈ c.vlans, x.id ≠ v.id ∧ ¬ (x.parent = v.parent ∧ x.vid = v.vid) := by
  simp only [validateVLAN, validateVLANIdentity, bind_ok_iff, failIf_ok_iff] at h
  obtain ⟨⟨⟩, ⟨⟨⟩, -, ⟨⟩, hparent, ⟨⟩, -, h⟩, -⟩ := h
  constructor
  · simpa using hparent
  split at h
  · split at h <;> cases h
  · rename_i hnone
    intro x hx
    have hx := List.find?_eq_none.mp hnone x hx
    simpa [not_or] using hx

theorem addVLAN_cases (saved : Bool) (v : VLANConfig) (c : Config) :
    (addVLAN saved v c).2 = c ∨
      validateVLAN c v = .ok () ∧ (addVLAN saved v c).2 = { c with vlans := c.vlans ++ [v] } := by
  unfold addVLAN storeVLANs
  split
  · exact .inl rfl
  · rename_i hvalid
    split
    · exact .inr ⟨hvalid, rfl⟩
    · exact .inl rfl

theorem removeVLAN_sublist (saved : Bool) (id : Text) (c : Config) :
    ∃ vs, (removeVLAN saved id c).2 = { c with vlans := vs } ∧ List.Sublist vs c.vlans := by
  unfold removeVLAN storeVLANs
  split
  · split
    · exact ⟨_, rfl, eraseP_sublist⟩
    · exact ⟨_, rfl, List.Sublist.refl _⟩
  · exact ⟨_, rfl, List.Sublist.refl _⟩

/-- `RemoveInterface` finds an entry and does not refuse to remove it. -/
def Removes (c : Config) (id : Text) : Prop :=
  ∃ old, c.interfaces.find? (fun x => x.id = id) = some old ∧ lastLAN c old = false

theorem removeInterface_eq (saved : Bool) (id : Text) (c : Config) :
    (Removes c id ∧ removeInterface saved id c =
        (saveToFile saved, { c with interfaces := c.interfaces.eraseP fun x => x.id = id })) ∨
      (¬ Removes c id ∧ ∃ e, removeInterface saved id c = (.error e, c)) := by
  unfold removeInterface Removes
  split
  · rename_i hnone
    simp [hnone]
  rename_i old hold
  split
  · rename_i hlast
    simp [hold, hlast]
  · rename_i hlast
    simp [hold, hlast]

/-! ### Runs of edits -/

theorem Consistent.addVLAN (h : Consistent c) {v : VLANConfig}
    (hv : validateVLAN c v = .ok ()) : Consistent { c with vlans := c.vlans ++ [v] } := by
  obtain ⟨hparent, hfresh⟩ := validateVLAN_identity hv
  refine ⟨?_, ?_, ?_, h.devices⟩
  · exact forall_mem_append.mpr ⟨h.parents, forall_mem_singleton.mpr hparent⟩
  · simp only [map_append, map_cons, map_nil]
    refine nodup_append.mpr ⟨h.ids, pairwise_singleton _ _, ?_⟩
    intro x hx y hy heq
    obtain ⟨w, hw, rfl⟩ := mem_map.mp hx
    exact (hfresh w hw).1 (heq.trans (mem_singleton.mp hy))
  · simp only [map_append, map_cons, map_nil]
    refine nodup_append.mpr ⟨h.tags, pairwise_singleton _ _, ?_⟩
    intro x hx y hy heq
    obtain ⟨w, hw, rfl⟩ := mem_map.mp hx
    exact (hfresh w hw).2 (Prod.mk.inj (heq.trans (mem_singleton.mp hy)))

/-- Removing the first of the entries with an ID leaves one exactly if there were two. -/
theorem exists_mem_eraseP_iff {id : Text} :
    (∃ i ∈ is.eraseP (fun x => x.id = id), i.id = id) ↔ 1 < is.countP (fun x => x.id = id) := by
  induction is with
  | nil => simp
  | cons i is ih =>
    by_cases hid : i.id = id
    · -- the head goes, and the rest decides
      rw [eraseP_cons_of_pos (by simpa using hid), countP_cons_of_pos (by simpa using hid),
        Nat.lt_add_left_iff_pos, countP_pos_iff]
      simp
    · rw [eraseP_cons_of_neg (by simpa using hid), countP_cons_of_neg (by simpa using hid), ← ih]
      simp [hid]

/-- No VLAN loses its parent: an interface that is removed is no VLAN's parent, or has
a second entry. -/
def KeepsParents (c : Config) : Edit → Prop
  | .removeInterface _ id =>
    Removes c id → ∀ v ∈ c.vlans, v.parent = id → 1 < c.interfaces.countP fun x => x.id = id
  | _ => True

theorem removeInterface_consistent_iff (h : Consistent c) (id : Text) :
    Consistent { c with interfaces := c.interfaces.eraseP fun x => x.id = id } ↔
      ∀ v ∈ c.vlans, v.parent = id → 1 < c.interfaces.countP fun x => x.id = id := by
  constructor
  · intro h' v hv hid
    obtain ⟨i, hi, hiv⟩ := h'.parents v hv
    exact exists_mem_eraseP_iff.mp ⟨i, hi, hiv.trans hid⟩
  intro hsecond
  refine ⟨?_, h.ids, h.tags, fun i hi => h.devices i (mem_of_mem_eraseP hi)⟩
  intro v hv
  obtain ⟨i, hi, hiv⟩ := h.parents v hv
  by_cases hid : v.parent = id
  · obtain ⟨j, hj, hjd⟩ := exists_mem_eraseP_iff.mpr (hsecond v hv hid)
    exact ⟨j, hj, hjd.trans hid.symm⟩
  · refine ⟨i, (mem_eraseP_of_neg ?_).mpr hi, hiv⟩
    simpa [hiv] using hid

/-- One edit keeps the lists consistent exactly if no VLAN loses its parent by it. -/
theorem edit_consistent_iff (c : Config) (e : Edit) (h : Consistent c) :
    Consistent (e.apply c).2 ↔ KeepsParents c e := by
  cases e with
  | setInterface saved i =>
    obtain ⟨is, heq, hids, hvalid⟩ := setInterface_keeps saved i c
    refine iff_of_true ?_ trivial
    show Consistent (setInterface saved i c).2
    rw [heq]
    refine h.withInterfaces hids ?_
    intro j hj
    rcases hvalid j hj with hj | hj
    · exact h.devices j hj
    · exact (validateInterfaceName_ok (validateInterfaceEntry_device hj)).1
  | removeInterface saved id =>
    show Consistent (removeInterface saved id c).2 ↔ (Removes c id → _)
    rcases removeInterface_eq saved id c with ⟨hrem, heq⟩ | ⟨hrem, e, heq⟩
    · rw [heq, removeInterface_consistent_iff h]
      simp only [hrem, forall_const]
    · rw [heq]
      exact iff_of_true h (fun hr => absurd hr hrem)
  | addVLAN saved v =>
    refine iff_of_true ?_ trivial
    show Consistent (addVLAN saved v c).2
    rcases addVLAN_cases saved v c with heq | ⟨hv, heq⟩
    · rw [heq]
      exact h
    · rw [heq]
      exact h.addVLAN hv
  | removeVLAN saved id =>
    obtain ⟨vs, heq, hsub⟩ := removeVLAN_sublist saved id c
    refine iff_of_true ?_ trivial
    show Consistent (removeVLAN saved id c).2
    rw [heq]
    exact h.withVLANs hsub

/-- The config under edits. -/
def editing : Machine Config Edit where
  Init := Consistent
  step c e := (e.apply c).2

/-- **References between VLANs and interfaces.** They hold all along a run of edits, and
`RestoreVLANs` finds every parent, exactly if no interface is removed that is the only
entry for some VLAN's parent. -/
theorem vlan_references_iff {c : Config} (h : Consistent c) (es : List Edit) :
    (∀ pre, pre <+: es → Consistent (editing.run c pre) ∧ ∀ up create parent vid,
      .parentNotFound parent vid ∉ restoreVLANs (editing.run c pre) up create) ↔
    Machine.Guarded editing KeepsParents c es := by
  rw [← Machine.run_iff_guarded (M := editing) edit_consistent_iff h es]
  constructor
  · intro hrun pre hpre
    exact (hrun pre hpre).1
  · intro hrun pre hpre
    exact ⟨hrun pre hpre, (hrun pre hpre).parents_found⟩

/-- Two LAN interfaces, with a guest VLAN on the second. -/
def guestConfig : Config where
  interfaces := [staticLAN "lan" "eth1" "192.168.1.1/24",
    staticLAN "office" "eth2" "192.168.2.1/24"]
  vlans := [{ id := "guest", parent := "office", vid := 20 }]

theorem guestConfig_consistent : Consistent guestConfig :=
  ⟨by decide, by decide, by decide, by decide⟩

theorem guestConfig_references :
    Consistent (editing.run guestConfig [.removeVLAN true "guest", .removeInterface true "office"]) := by
  have hguard : Machine.Guarded editing KeepsParents guestConfig
      [.removeVLAN true "guest", .removeInterface true "office"] := by
    refine ⟨trivial, ?_, trivial⟩
    intro _ v hv
    cases hv
  exact ((vlan_references_iff guestConfig_consistent _).mpr hguard _ (prefix_refl _)).1

/-- `RemoveInterface` removes the parent of the guest VLAN, and the VLAN stays. -/
theorem removeInterface_orphans_vlan :
    (removeInterface true "office" guestConfig).1 = .ok () ∧
    ¬ Consistent (removeInterface true "office" guestConfig).2 ∧
    .parentNotFound "office" 20 ∈
      restoreVLANs (removeInterface true "office" guestConfig).2 (fun _ => true) fun _ => true := by
  refine ⟨by decide, ?_, by decide⟩
  intro h
  exact absurd h.parents (by decide)

/-! ## Edits that fail -/

/-- An entry with the property is gone, and the others are as they were. -/
def Dropped {α : Type} (p : α → Prop) (l l' : List α) : Prop :=
  ∃ front x back, l = front ++ x :: back ∧ p x ∧ l' = front ++ back

/-- Only the entry that the edit is about was added, replaced or removed. -/
def Edit.Addressed (c next : Config) : Edit → Prop
  | .setInterface _ i => ∃ is, Placed i c.interfaces is ∧ next = { c with interfaces := is }
  | .removeInterface _ id =>
    ∃ is, Dropped (·.id = id) c.interfaces is ∧ next = { c with interfaces := is }
  | .addVLAN _ v => next = { c with vlans := c.vlans ++ [v] }
  | .removeVLAN _ id =>
    (∃ vs, Dropped (·.id = id) c.vlans vs ∧ next = { c with vlans := vs }) ∨
      ((∀ v ∈ c.vlans, v.id ≠ id) ∧ next = c)

/-- The file is written, or the list of interfaces does not change anyway. -/
def Edit.Harmless (c : Config) : Edit → Prop
  | .setInterface saved i =>
    saved ∨ ¬ Sets c i ∨ c.interfaces.find? (fun x => x.id = i.id) = some i
  | .removeInterface saved id => saved ∨ ¬ Removes c id
  | .addVLAN .. | .removeVLAN .. => True

theorem dropped_eraseP {α : Type} {p : α → Prop} [DecidablePred p] {l : List α} {x : α}
    (h : l.find? (fun x => p x) = some x) : Dropped p l (l.eraseP fun x => p x) := by
  obtain ⟨front, back, hsplit, -, herase, -⟩ := exists_split_of_find h
  have hx := List.find?_some h
  exact ⟨front, x, back, hsplit, by simpa using hx, herase⟩

theorem Dropped.ne {α : Type} {p : α → Prop} {l l' : List α} (h : Dropped p l l') : l' ≠ l := by
  obtain ⟨front, x, back, rfl, -, rfl⟩ := h
  intro hsame
  have hlen := congrArg List.length hsame
  simp at hlen

theorem saveToFile_ok {saved : Bool} : (∃ a, saveToFile saved = .ok a) ↔ saved := by
  cases saved <;> simp [saveToFile]

/-- The list stays the same only if the entry was there already. -/
theorem Placed.eq_iff {i : InterfaceConfig} {is is' : List InterfaceConfig} (h : Placed i is is') :
    is' = is ↔ is.find? (fun x => x.id = i.id) = some i := by
  cases h with
  | last hnew =>
    have hnone : is.find? (fun x => x.id = i.id) = none := by simpa using hnew
    simp [hnone]
  | @instead front back old hid hfront =>
    have hnone : front.find? (fun x => x.id = i.id) = none := by simpa using hfront
    rw [List.find?_append, hnone, none_or, List.find?_cons_of_pos (by simpa using hid),
      append_cancel_left_eq, List.cons.injEq, and_iff_left rfl, some.injEq, eq_comm]

theorem withInterfaces_eq_self : { c with interfaces := is } = c ↔ is = c.interfaces := by
  cases c
  simp

/-- **Failed edits.** An edit that fails has changed nothing, and one that succeeds only what
it is about, exactly if it is harmless. The VLANs are put back when the file is not
written; the interfaces are not. -/
theorem edit_undone_iff (e : Edit) (c : Config) :
    Undone (e.apply c) c ∧ ((e.apply c).1 = .ok () → e.Addressed c (e.apply c).2) ↔
      e.Harmless c := by
  cases e with
  | setInterface saved i =>
    simp only [Edit.apply, Edit.Harmless]
    rcases setInterface_spec saved i c with ⟨hsets, is, hplaced, heq⟩ | ⟨hsets, err, heq⟩
    · rw [heq, undone_iff, saveToFile_ok, withInterfaces_eq_self, hplaced.eq_iff]
      simp only [hsets, not_true_eq_false, false_or]
      exact and_iff_left fun _ => ⟨is, hplaced, rfl⟩
    · rw [heq, undone_iff]
      simp [hsets]
  | removeInterface saved id =>
    simp only [Edit.apply, Edit.Harmless]
    rcases removeInterface_eq saved id c with ⟨hrem, heq⟩ | ⟨hrem, err, heq⟩
    · have hdropped := dropped_eraseP hrem.choose_spec.1
      rw [heq, undone_iff, saveToFile_ok, withInterfaces_eq_self]
      simp only [hdropped.ne, hrem, not_true_eq_false, or_false]
      exact and_iff_left fun _ => ⟨_, hdropped, rfl⟩
    · rw [heq, undone_iff]
      simp [hrem]
  | addVLAN saved v =>
    refine iff_of_true ?_ trivial
    simp only [Edit.apply, addVLAN, storeVLANs]
    split
    · simp [Undone]
    · cases saved <;> simp [Undone, Edit.Addressed]
  | removeVLAN saved id =>
    refine iff_of_true ?_ trivial
    simp only [Edit.apply, removeVLAN, storeVLANs]
    split
    · rename_i hany
      rcases isSome_iff_exists.mp (List.find?_isSome.mpr (any_eq_true.mp hany)) with
        ⟨v, hfind⟩
      have hdropped := dropped_eraseP hfind
      cases saved with
      | false => simp [Undone]
      | true => exact ⟨by simp [Undone], fun _ => .inl ⟨_, hdropped, rfl⟩⟩
    · rename_i hany
      exact ⟨by simp [Undone], fun _ => .inr ⟨by simpa using hany, rfl⟩⟩

/-- An interface that could not be saved is there all the same, and so is one missing that
could not be saved without. -/
theorem unsaved_interfaces_stay :
    (setInterface false (staticLAN "dmz" "eth3" []) guestConfig).1 = .error .save ∧
    (setInterface false (staticLAN "dmz" "eth3" []) guestConfig).2.interfaces.length = 3 ∧
    (removeInterface false "office" guestConfig).1 = .error .save ∧
    (removeInterface false "office" guestConfig).2.interfaces.length = 1 := by
  decide

end Lankeeper.Network
