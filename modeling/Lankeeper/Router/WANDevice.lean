import Lankeeper.Firewall.Template

/-!
# Lankeeper.Router.WANDevice — the device on which packets leave

Four services look for the primary WAN device, each in its own way. The firewall and QoS go
by the type of the first WAN interface, IPv6 takes the last WAN interface, and IPv6 and 6in4
take `ppp0` for any WAN once a PPPoE user name is set. `wan_devices_iff` says for which
configs they agree.
-/

namespace Lankeeper.Router

open Lib Text Firewall List

/-- `QoSService.wanDevice`. -/
def qosWANDevice : List InterfaceConfig → Text
  | [] => "ppp0"
  | i :: rest =>
    if i.role = "wan" ∧ i.type = "pppoe" then "ppp0"
    else if i.role = "wan" then i.device
    else qosWANDevice rest

/-- One round of the loop of `resolveInterfaces`, on the WAN and the LAN device. -/
def resolveInterface (username : Text) (found : Text × Text) (i : InterfaceConfig) : Text × Text :=
  if i.role = "wan" then (if username ≠ [] then "ppp0" else i.device, found.2)
  else if i.role = "lan" ∧ found.2 = [] then (found.1, i.device)
  else found

/-- `IPv6Service.resolveInterfaces`. -/
def resolveInterfaces (username : Text) (is : List InterfaceConfig) : Except Text (Text × Text) :=
  let found := is.foldl (resolveInterface username) ([], [])
  if found.1 = [] then .error "no WAN interface configured"
  else if found.2 = [] then .error "no LAN interface configured"
  else .ok found

/-- The WAN interfaces of a config, the primary one first. -/
def wans (is : List InterfaceConfig) : List InterfaceConfig :=
  is.filter fun i => i.role = "wan".toList

/-- The device whose addresses `SixInFourService.localIPv4` reads. -/
def localDevice (username : Text) (is : List InterfaceConfig) : Text :=
  if username ≠ [] then "ppp0" else ((wans is).head?.map (·.device)).getD "ppp0"

/-- All services use the device on which the packets of the primary WAN leave. -/
structure Agree (c : Firewall.Config) (username dev : Text) : Prop where
  primary : ∃ i, (wans c.interfaces).head? = some i ∧ dev = wanIPDevice i
  firewall : (buildTemplateData c).wanDevice = dev
  qos : qosWANDevice c.interfaces = dev
  ipv6 : ∃ lan, resolveInterfaces username c.interfaces = .ok (dev, lan)
  sixInFour : localDevice username c.interfaces = dev

theorem qosWANDevice_eq (is : List InterfaceConfig) :
    qosWANDevice is = ((wans is).head?.map wanIPDevice).getD "ppp0" := by
  induction is with
  | nil => rfl
  | cons i rest ih =>
    rw [qosWANDevice, ih]
    by_cases hwan : i.role = "wan"
    · simp [hwan, wans, wanIPDevice]
    · simp_all [wans]

/-- A further device counts only if there was none before. -/
theorem firstDevice_concat (devices : List Text) (d : Text) :
    firstDevice (devices ++ [d]) = if firstDevice devices = [] then d else firstDevice devices := by
  unfold firstDevice
  rw [find?_append]
  cases hfound : devices.find? (· ≠ []) with
  | none => by_cases hd : d = [] <;> simp [hd]
  | some x => simp [show x ≠ [] by simpa using find?_some hfound]

/-- The loop ends with the last WAN interface and the first LAN device. -/
theorem foldl_resolveInterface (username : Text) (is : List InterfaceConfig) :
    is.foldl (resolveInterface username) ([], []) =
      ((wans is).getLast?.elim [] (fun i => if username ≠ [] then "ppp0" else i.device),
        firstDevice (lanInterfaces is)) := by
  induction is using reverseRecOn with
  | nil => rfl
  | append_singleton is i ih =>
    rw [foldl_append, ih, foldl_cons, foldl_nil, resolveInterface]
    by_cases hwan : i.role = "wan"
    · simp [hwan, wans, lanInterfaces]
    by_cases hlan : i.role = "lan"
    · have hlans : lanInterfaces (is ++ [i]) = lanInterfaces is ++ [i.device] := by
        simp [lanInterfaces, hlan]
      rw [hlans, firstDevice_concat]
      by_cases hnone : firstDevice (lanInterfaces is) = [] <;> simp [hlan, hnone, wans]
    · simp_all [wans, lanInterfaces]

theorem resolveInterfaces_eq_ok {username dev lan : Text} {is : List InterfaceConfig} :
    resolveInterfaces username is = .ok (dev, lan) ↔ ∃ last, (wans is).getLast? = some last ∧
      dev = (if username ≠ [] then "ppp0".toList else last.device) ∧ dev ≠ [] ∧
      lan = firstDevice (lanInterfaces is) ∧ lan ≠ [] := by
  rw [resolveInterfaces, foldl_resolveInterface]
  cases (wans is).getLast? with
  | none => simp
  | some last =>
    simp only [Option.elim_some, Option.some.injEq, exists_eq_left']
    split_ifs <;> simp <;> grind

/-- **The primary WAN device.** The services agree exactly if there is a WAN with a device
and a LAN device, and either a PPPoE user name is set and the first WAN has `ppp0`, or none is
set and the first and the last WAN both are the device that they name. -/
theorem wan_devices_iff (c : Firewall.Config) (username : Text) :
    (∃ dev, Agree c username dev) ↔
      ∃ first last, (wans c.interfaces).head? = some first ∧
        (wans c.interfaces).getLast? = some last ∧ wanIPDevice first ≠ [] ∧
        firstDevice (lanInterfaces c.interfaces) ≠ [] ∧
        if username ≠ [] then wanIPDevice first = "ppp0"
        else first.device = wanIPDevice first ∧ last.device = wanIPDevice first := by
  constructor
  · rintro ⟨dev, ⟨first, hfirst, rfl⟩, -, -, ⟨lan, hlan⟩, hlocal⟩
    obtain ⟨last, hlast, hdev, hne, rfl, hlan⟩ := resolveInterfaces_eq_ok.mp hlan
    refine ⟨first, last, hfirst, hlast, hne, hlan, ?_⟩
    rw [localDevice, hfirst] at hlocal
    split_ifs at hdev hlocal ⊢
    · exact hdev
    · exact ⟨hlocal, hdev.symm⟩
  · rintro ⟨first, last, hfirst, hlast, hne, hlan, hcond⟩
    refine ⟨wanIPDevice first, ⟨first, hfirst, rfl⟩, ?_, ?_,
      ⟨_, resolveInterfaces_eq_ok.mpr ⟨last, hlast, ?_, hne, rfl, hlan⟩⟩, ?_⟩
    · obtain ⟨rest, hwans⟩ := head?_eq_some_iff.mp hfirst
      show firstDevice ((wans c.interfaces).map wanIPDevice) = _
      simp [hwans, firstDevice, hne]
    · rw [qosWANDevice_eq, hfirst]
      rfl
    · split_ifs at hcond ⊢
      · exact hcond
      · exact hcond.2.symm
    · rw [localDevice, hfirst]
      split_ifs at hcond ⊢
      · exact hcond.symm
      · exact hcond.1

/-- Static addressing, with the user name of an earlier PPPoE setup left. -/
def leftOver : Firewall.Config where
  interfaces := [⟨"wan", "eth0", "wan", "static"⟩, ⟨"lan", "eth1", "lan", "static"⟩]

/-- The firewall and QoS use `eth0`, IPv6 and 6in4 use `ppp0`. -/
theorem left_over_username : ¬ ∃ dev, Agree leftOver "isp-user" dev := by
  rintro ⟨dev, -, -, hqos, -, hlocal⟩
  exact absurd (hqos.trans hlocal.symm) (by decide)

end Lankeeper.Router
