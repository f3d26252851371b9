import Lankeeper.Network.Config
import Mathlib.Data.List.Nodup

/-!
# Lankeeper.IPv6.PrefixInterfaces — subnets of the delegated prefix

`internal/services/ipv6.go` gives every link behind the router one subnet of the
prefix the ISP delegates, by its number (SLA ID). A number comes from the operator's
subnet map or from a counter. The map is checked against itself, and the counter does
not look at the map. `prefix_ids_distinct_iff` says when the two clash.
-/

namespace Lankeeper.IPv6

open Lib Text Lankeeper.Network List Option

/-! ## The subnet map -/

/-- `map[string]int`: every key has one value. -/
structure SubnetMap where
  entries : List (Text × Int)
  nodup : (entries.map Prod.fst).Nodup

def lanKey : Text := "lan"

inductive SubnetMapError
  | lanNotZero (sla : Int)
  | negative (key : Text) (sla : Int)
  | unknownVLAN (key : Text)
  | duplicate (other key : Text) (sla : Int)
deriving DecidableEq

/-- The loop of `ValidateSubnetMap`, in some order of the entries. -/
def checkEntries (known : List Text) : List (Int × Text) → List (Text × Int) →
    Except SubnetMapError Unit
  | _, [] => .ok ()
  | seen, (key, sla) :: rest =>
    if sla < 0 then .error (.negative key sla)
    else if key ≠ lanKey ∧ key ∉ known then .error (.unknownVLAN key)
    else
      match seen.lookup sla with
      | some other => .error (.duplicate other key sla)
      | none => checkEntries known ((sla, key) :: seen) rest

/-- `ValidateSubnetMap`. -/
def validateSubnetMap (vlans : List VLANConfig) (m : SubnetMap) : Except SubnetMapError Unit :=
  let known := (vlans.map (·.id)).filter (· ≠ [])
  match m.entries.lookup lanKey with
  | some sla => if sla ≠ 0 then .error (.lanNotZero sla) else checkEntries known [] m.entries
  | none => checkEntries known [] m.entries

/-- What the loop has checked of the entries. -/
structure Checked (seen : List (Int × Text)) (es : List (Text × Int)) : Prop where
  nonneg : ∀ e ∈ es, 0 ≤ e.2
  nodup : (es.map Prod.snd).Nodup
  fresh : ∀ e ∈ es, e.2 ∉ seen.map Prod.fst

theorem checkEntries_ok {known : List Text} {seen : List (Int × Text)} {es : List (Text × Int)}
    (h : checkEntries known seen es = .ok ()) : Checked seen es := by
  induction es generalizing seen with
  | nil => exact ⟨by simp, by simp, by simp⟩
  | cons e es ih =>
    obtain ⟨key, sla⟩ := e
    rw [checkEntries] at h
    split at h
    · cases h
    rename_i hneg
    split_ifs at h
    split at h
    · cases h
    rename_i hseen
    have hrest := ih h
    have hfresh : sla ∉ seen.map Prod.fst := by
      intro hmem
      obtain ⟨p, hp, hps⟩ := mem_map.mp hmem
      have hne := lookup_eq_none_iff.mp hseen p hp
      rw [hps] at hne
      simp at hne
    refine ⟨?_, ?_, ?_⟩
    · intro e he
      rcases mem_cons.mp he with rfl | he
      · exact Int.not_lt.mp hneg
      · exact hrest.nonneg e he
    · refine nodup_cons.mpr ⟨?_, hrest.nodup⟩
      intro hmem
      obtain ⟨e, he, heq⟩ := mem_map.mp hmem
      exact hrest.fresh e he (by simp [heq])
    · intro e he
      rcases mem_cons.mp he with rfl | he
      · exact hfresh
      · intro hmem
        exact hrest.fresh e he (mem_cons_of_mem _ hmem)

variable {m : SubnetMap} {auto : Nat} {vs : List VLANConfig}

/-- A map that passes keeps the LAN at zero, has no negative number and no number twice. -/
theorem validateSubnetMap_ok {vlans : List VLANConfig} (h : validateSubnetMap vlans m = .ok ()) :
    (∀ sla, m.entries.lookup lanKey = some sla → sla = 0) ∧ Checked [] m.entries := by
  unfold validateSubnetMap at h
  split at h
  · rename_i sla hlan
    split_ifs at h with hzero
    refine ⟨?_, checkEntries_ok h⟩
    intro sla' hsla
    rw [hlan] at hsla
    rw [← some.inj hsla]
    exact not_not.mp hzero
  · rename_i hlan
    refine ⟨?_, checkEntries_ok h⟩
    intro sla hsla
    cases hlan.symm.trans hsla

/-- No number twice: the keys of equal numbers are equal. -/
theorem Checked.key_unique (h : Checked [] m.entries) {a b : Text} {sla : Int}
    (ha : m.entries.lookup a = some sla) (hb : m.entries.lookup b = some sla) : a = b := by
  have hmem : ∀ {k : Text}, m.entries.lookup k = some sla → (k, sla) ∈ m.entries := by
    intro k hk
    obtain ⟨l₁, l₂, heq, -⟩ := lookup_eq_some_iff.mp hk
    rw [heq]
    simp
  exact (Prod.mk.inj (inj_on_of_nodup_map h.nodup (hmem ha) (hmem hb) rfl)).1

/-! ## Assignment -/

/-- `prefixInterface`. -/
structure PrefixInterface where
  name : Text
  device : Text
  slaID : Int
deriving DecidableEq

/-- The number from the map, or the given one. -/
def pick (m : SubnetMap) (key : Text) (dflt : Int) : Int :=
  (m.entries.lookup key).getD dflt

/-- The device of a VLAN on its parent device. -/
def vlanDevice (parentDev : Text) (v : VLANConfig) : Text :=
  parentDev ++ '.' :: decimal v.vid

/-- The loop of `buildPrefixInterfaces`. -/
def assignVLANs (is : List InterfaceConfig) (m : SubnetMap) (maxSLA : Int) :
    Nat → List VLANConfig → List PrefixInterface
  | _, [] => []
  | auto, v :: vs =>
    if v.id = [] then assignVLANs is m maxSLA auto vs
    else
      let parentDev := deviceByID is v.parent
      if parentDev = [] ∨ v.vid = 0 then assignVLANs is m maxSLA auto vs
      else
        let sla := pick m v.id auto
        if sla > maxSLA then assignVLANs is m maxSLA auto vs
        else ⟨v.id, vlanDevice parentDev v, sla⟩ :: assignVLANs is m maxSLA (auto + 1) vs

/-- `1<<slaLen - 1`. -/
def maxSLA (slaLen : Nat) : Int :=
  ((1 <<< slaLen : Nat) : Int) - 1

/-- `buildPrefixInterfaces`. -/
def buildPrefixInterfaces (c : Config) (m : SubnetMap) (lanDev : Text) (slaLen : Nat) :
    List PrefixInterface :=
  ⟨lanKey, lanDev, pick m lanKey 0⟩ ::
    if slaLen = 0 then [] else assignVLANs c.interfaces m (maxSLA slaLen) 1 c.vlans

/-- The VLANs that get a subnet: they have an ID and a device, and their number in the
map, if they have one, fits. -/
def announced (is : List InterfaceConfig) (m : SubnetMap) (maxSLA : Int) (v : VLANConfig) : Bool :=
  v.id ≠ [] ∧ deviceByID is v.parent ≠ [] ∧ v.vid ≠ 0 ∧ pick m v.id 0 ≤ maxSLA

/-- As long as the counter fits, the announced VLANs are numbered in their order. -/
theorem assignVLANs_ids {is : List InterfaceConfig} {maxSLA : Int}
    (hfit : (auto + vs.length : Nat) ≤ maxSLA + 1) :
    (assignVLANs is m maxSLA auto vs).map (·.slaID) =
      ((vs.filter (announced is m maxSLA)).zipIdx auto).map fun p => pick m p.1.id p.2 := by
  induction vs generalizing auto with
  | nil => rfl
  | cons v vs ih =>
    have hlen : (auto + vs.length : Nat) + 1 ≤ maxSLA + 1 := by
      rw [length_cons] at hfit
      omega
    have hskip := @ih auto (by omega)
    have hnext := @ih (auto + 1) (by omega)
    rw [assignVLANs]
    by_cases hid : v.id = []
    · rw [if_pos hid, hskip, filter_cons_of_neg (by simp [announced, hid])]
    rw [if_neg hid]
    by_cases hdev : deviceByID is v.parent = [] ∨ v.vid = 0
    · rw [if_pos hdev, hskip, filter_cons_of_neg]
      rcases hdev with hdev | hdev
      · simp [announced, hdev]
      · simp [announced, hdev]
    · rw [if_neg hdev]
      rw [not_or] at hdev
      -- a number of the map that does not fit is the only reason left to skip
      have hcut : pick m v.id auto > maxSLA ↔ ¬ pick m v.id 0 ≤ maxSLA := by
        unfold pick
        rcases m.entries.lookup v.id with _ | sla
        · simp only [getD_none]
          omega
        · simp only [getD_some]
          omega
      by_cases hbig : pick m v.id auto > maxSLA
      · rw [if_pos hbig, hskip, filter_cons_of_neg (by simp [announced, hcut.mp hbig])]
      · have hann : announced is m maxSLA v := by
          simp [announced, hid, hdev.1, hdev.2, not_not.mp (mt hcut.mpr hbig)]
        rw [if_neg hbig, filter_cons_of_pos hann, zipIdx_cons, map_cons, map_cons, hnext]

/-! ## Clashes -/

/-- No number of the map meets the LAN's, the counter or itself, where `vs` are the
announced VLANs. -/
structure NoClash (m : SubnetMap) (vs : List VLANConfig) : Prop where
  /-- none has the LAN's number -/
  zero : ∀ v ∈ vs, m.entries.lookup v.id ≠ some 0
  /-- none has the position of a VLAN that is not in the map -/
  auto : ∀ v k, (v, k) ∈ vs.zipIdx 1 → m.entries.lookup v.id = none →
    ∀ w ∈ vs, m.entries.lookup w.id ≠ some (k : Int)
  /-- no two share an ID that is in the map -/
  ids : vs.Pairwise fun v w => (m.entries.lookup v.id).isSome → v.id ≠ w.id

/-- The numbers of the announced VLANs, from position `auto` on. -/
def numbers (m : SubnetMap) (auto : Nat) (vs : List VLANConfig) : List Int :=
  (vs.zipIdx auto).map fun p => pick m p.1.id p.2

theorem pick_of_some {key : Text} {sla dflt : Int} (h : m.entries.lookup key = some sla) :
    pick m key dflt = sla := by
  rw [pick, h, getD_some]

theorem pick_of_none {key : Text} {dflt : Int} (h : m.entries.lookup key = none) :
    pick m key dflt = dflt := by
  rw [pick, h, getD_none]

/-- The LAN keeps the number zero. -/
theorem pick_lan (h : ∀ sla, m.entries.lookup lanKey = some sla → sla = 0) :
    pick m lanKey 0 = 0 := by
  rcases hlook : m.entries.lookup lanKey with _ | sla
  · exact pick_of_none hlook
  · rw [pick_of_some hlook]
    exact h sla hlook

theorem zero_notMem_numbers_iff (hauto : 0 < auto) :
    (0 : Int) ∉ numbers m auto vs ↔ ∀ v ∈ vs, m.entries.lookup v.id ≠ some 0 := by
  induction vs generalizing auto with
  | nil => simp [numbers]
  | cons v vs ih =>
    have hhead : (0 : Int) = pick m v.id auto ↔ m.entries.lookup v.id = some 0 := by
      rcases hv : m.entries.lookup v.id with _ | sla
      · rw [pick_of_none hv]
        constructor
        · intro h
          omega
        · intro h
          cases h
      · rw [pick_of_some hv, some.injEq, eq_comm]
    rw [numbers, zipIdx_cons, map_cons, mem_cons, not_or, hhead, forall_mem_cons]
    exact and_congr_right fun _ => ih (Nat.succ_pos auto)

theorem zipIdx_pairwise_lt (vs : List VLANConfig) (auto : Nat) :
    (vs.zipIdx auto).Pairwise fun p q => p.2 < q.2 := by
  have h : (List.range' auto vs.length).Pairwise (· < ·) := pairwise_lt_range'
  rw [← zipIdx_map_snd, pairwise_map] at h
  exact h

/-- A VLAN in front of another has another number, unless the map says otherwise. -/
theorem pick_ne_of_noClash (hm : Checked [] m.entries) (h : NoClash m vs) {p q : VLANConfig × Nat}
    (hp : p ∈ vs.zipIdx 1) (hq : q ∈ vs.zipIdx 1) (hlt : p.2 < q.2)
    (hids : (m.entries.lookup p.1.id).isSome → p.1.id ≠ q.1.id) :
    pick m p.1.id p.2 ≠ pick m q.1.id q.2 := by
  have hpv : p.1 ∈ vs := fst_mem_of_mem_zipIdx hp
  have hqv : q.1 ∈ vs := fst_mem_of_mem_zipIdx hq
  rcases hlp : m.entries.lookup p.1.id with _ | s
  · rcases hlq : m.entries.lookup q.1.id with _ | t
    · -- both from the counter
      rw [pick_of_none hlp, pick_of_none hlq]
      omega
    · rw [pick_of_none hlp, pick_of_some hlq]
      rintro rfl
      exact h.auto p.1 p.2 hp hlp q.1 hqv hlq
  · rcases hlq : m.entries.lookup q.1.id with _ | t
    · rw [pick_of_some hlp, pick_of_none hlq]
      rintro rfl
      exact h.auto q.1 q.2 hq hlq p.1 hpv hlp
    · -- both from the map
      rw [pick_of_some hlp, pick_of_some hlq]
      rintro rfl
      exact hids (by rw [hlp]; rfl) (hm.key_unique hlp hlq)

theorem numbers_nodup_iff (hm : Checked [] m.entries) :
    (0 :: numbers m 1 vs).Nodup ↔ NoClash m vs := by
  have hfst : (vs.zipIdx 1).map Prod.fst = vs := zipIdx_map_fst 1 vs
  rw [nodup_cons, zero_notMem_numbers_iff Nat.one_pos]
  constructor
  · rintro ⟨hzero, hnodup⟩
    have hinj := inj_on_of_nodup_map hnodup
    refine ⟨hzero, ?_, ?_⟩
    · -- two entries with one number would be one entry
      intro v k hv hlv w hw hlw
      rw [← hfst] at hw
      obtain ⟨⟨w', j⟩, hj, rfl⟩ := mem_map.mp hw
      have heq := hinj hv hj ((pick_of_none hlv).trans (pick_of_some hlw).symm)
      rw [(Prod.mk.inj heq).1, hlw] at hlv
      cases hlv
    · have hpair : (vs.zipIdx 1).Pairwise fun p q => pick m p.1.id p.2 ≠ pick m q.1.id q.2 :=
        pairwise_map.mp hnodup
      have hids : (vs.zipIdx 1).Pairwise fun p q =>
          (m.entries.lookup p.1.id).isSome → p.1.id ≠ q.1.id := by
        refine hpair.imp ?_
        intro p q hne hsome hid
        obtain ⟨sla, hsla⟩ := isSome_iff_exists.mp hsome
        exact hne ((pick_of_some hsla).trans (pick_of_some (hid ▸ hsla)).symm)
      rw [← hfst]
      exact pairwise_map.mpr hids
  · intro h
    refine ⟨h.zero, pairwise_map.mpr ?_⟩
    have hids : (vs.zipIdx 1).Pairwise fun p q =>
        (m.entries.lookup p.1.id).isSome → p.1.id ≠ q.1.id := by
      have hpair := h.ids
      rw [← hfst] at hpair
      exact pairwise_map.mp hpair
    refine ((zipIdx_pairwise_lt vs 1).and hids).imp_of_mem ?_
    intro p q hp hq hpq
    exact pick_ne_of_noClash hm h hp hq hpq.1 hpq.2

/-- The numbers of an assignment that fits. -/
theorem buildPrefixInterfaces_ids {c : Config} {slaLen : Nat}
    (hlan : ∀ sla, m.entries.lookup lanKey = some sla → sla = 0) (hlen : slaLen ≠ 0)
    (hfit : c.vlans.length + 1 ≤ 1 <<< slaLen) (lanDev : Text) :
    (buildPrefixInterfaces c m lanDev slaLen).map (·.slaID) =
      0 :: numbers m 1 (c.vlans.filter (announced c.interfaces m (maxSLA slaLen))) := by
  rw [buildPrefixInterfaces, if_neg hlen, map_cons, pick_lan hlan, assignVLANs_ids]
  · rfl
  · rw [maxSLA]
    omega

/-- Every number fits in the prefix, with or without clashes. -/
theorem assignVLANs_range {is : List InterfaceConfig} (hm : Checked [] m.entries) {maxSLA : Int} :
    ∀ x ∈ assignVLANs is m maxSLA auto vs, 0 ≤ x.slaID ∧ x.slaID ≤ maxSLA := by
  induction vs generalizing auto with
  | nil => simp [assignVLANs]
  | cons v vs ih =>
    simp only [assignVLANs]
    split
    · exact ih
    split
    · exact ih
    split
    · exact ih
    rename_i hle
    intro x hx
    rcases mem_cons.mp hx with rfl | hx
    · refine ⟨?_, Int.not_lt.mp hle⟩
      show 0 ≤ pick m v.id auto
      rcases h : m.entries.lookup v.id with _ | sla
      · rw [pick_of_none h]
        omega
      · rw [pick_of_some h]
        obtain ⟨l₁, l₂, heq, -⟩ := lookup_eq_some_iff.mp h
        exact hm.nonneg (v.id, sla) (by rw [heq]; simp)
    · exact ih x hx

/-- **Distinct subnets.** For a map that passes its check and links that fit in the
prefix, the numbers are in range, and they are distinct exactly if nothing clashes. -/
theorem prefix_ids_distinct_iff {c : Config} {m : SubnetMap}
    (hm : validateSubnetMap c.vlans m = .ok ()) {slaLen : Nat}
    (hfit : c.vlans.length + 1 ≤ 1 <<< slaLen) (lanDev : Text) :
    (((buildPrefixInterfaces c m lanDev slaLen).map (·.slaID)).Nodup ∧
      ∀ x ∈ buildPrefixInterfaces c m lanDev slaLen,
        0 ≤ x.slaID ∧ x.slaID < (1 <<< slaLen : Nat)) ↔
    NoClash m (c.vlans.filter (announced c.interfaces m (maxSLA slaLen))) := by
  obtain ⟨hlan, hchecked⟩ := validateSubnetMap_ok hm
  have hrange : ∀ x ∈ buildPrefixInterfaces c m lanDev slaLen,
      0 ≤ x.slaID ∧ x.slaID < (1 <<< slaLen : Nat) := by
    intro x hx
    rcases mem_cons.mp hx with rfl | hx
    · show 0 ≤ pick m lanKey 0 ∧ pick m lanKey 0 < _
      rw [pick_lan hlan]
      omega
    · split at hx
      · cases hx
      · have h := assignVLANs_range hchecked x hx
        rw [maxSLA] at h
        omega
  rw [and_iff_left hrange]
  by_cases hlen : slaLen = 0
  · -- one subnet is the LAN's, and there is no VLAN
    have hnil : c.vlans = [] := by
      rw [hlen, Nat.shiftLeft_zero] at hfit
      exact length_eq_zero_iff.mp (by omega)
    refine iff_of_true ?_ ?_
    · rw [buildPrefixInterfaces, if_pos hlen]
      simp
    · rw [hnil]
      exact ⟨by simp, by simp, by simp⟩
  · rw [buildPrefixInterfaces_ids hlan hlen hfit, numbers_nodup_iff hchecked]

/-- Two VLANs on the LAN bridge. -/
def twoVLANs : Config where
  interfaces := [staticLAN "lan" "br0" []]
  vlans := [{ id := "iot", parent := "lan", vid := 10 }, { id := "guest", parent := "lan", vid := 20 }]

/-- The second VLAN mapped to the number `sla`. -/
def guestAt (sla : Int) : SubnetMap :=
  ⟨[("guest", sla)], by simp⟩

theorem twoVLANs_distinct :
    ((buildPrefixInterfaces twoVLANs (guestAt 7) "br0" 8).map (·.slaID)).Nodup := by
  have hauto : ∀ p ∈ (twoVLANs.vlans.filter
      (announced twoVLANs.interfaces (guestAt 7) (maxSLA 8))).zipIdx 1,
      (guestAt 7).entries.lookup p.1.id = none → ∀ w ∈ twoVLANs.vlans,
        (guestAt 7).entries.lookup w.id ≠ some (p.2 : Int) := by
    decide
  refine ((prefix_ids_distinct_iff (by decide) (by decide) _).mpr ⟨by decide, ?_, by decide⟩).1
  intro v k hv hlook w hw
  exact hauto (v, k) hv hlook w (mem_of_mem_filter hw)

/-- A map the check accepts: the guest VLAN has the number that the counter gives to
the VLAN in front of it. -/
theorem mapped_id_meets_counter :
    validateSubnetMap twoVLANs.vlans (guestAt 1) = .ok () ∧
    twoVLANs.vlans.length + 1 ≤ 1 <<< 8 ∧
    (buildPrefixInterfaces twoVLANs (guestAt 1) "br0" 8).map (·.slaID) = [0, 1, 1] := by
  decide

end Lankeeper.IPv6
