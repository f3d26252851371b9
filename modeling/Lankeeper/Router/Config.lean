import Lankeeper.DHCP.StaticLeases
import Lankeeper.Firewall.Edits

/-!
# Lankeeper.Router.Config — one config for several services

The services share one `config.Config`, and each reads a part of it. The models of the
network service and of the firewall have their own records for what they read. `Config`
is what lies behind both, and `toNetwork` and `toFirewall` are the two views of it.
-/

namespace Lankeeper.Router

open Lib Text
open scoped Firewall

/-- `config.DHCPConfig`. -/
structure DHCPConfig where
  rangeStart : Text := []
  rangeEnd : Text := []
  leaseTime : Text := []
  gateway : Text := []
  dnsServer : Text := []
  staticLeases : List DHCP.StaticLease := []
deriving DecidableEq

/-- `config.Config`. -/
structure Config where
  interfaces : List Network.InterfaceConfig := []
  vlans : List Network.VLANConfig := []
  /-- `System.Domain` -/
  domain : Text := []
  dhcp : DHCPConfig := {}
  firewall : Firewall.Settings := {}
  ipv6 : Firewall.IPv6Config := {}
  usbTether : Firewall.USBTetherConfig := {}
  /-- `VPN.Server`, and whether it is enabled -/
  vpnServer : Network.WGServerConfig := {}
  vpnServerEnabled : Bool := false
  /-- the number of `VPN.Clients` -/
  vpnClients : Nat := 0
  /-- `OpenVPN.Server`, and its device -/
  ovpnServer : Network.OVPNServerConfig := {}
  ovpnServerDevice : Text := []

/-- What the network service reads. -/
def Config.toNetwork (c : Config) : Network.Config where
  interfaces := c.interfaces
  vlans := c.vlans
  vpnServer := c.vpnServer
  ovpnServer := c.ovpnServer

/-- What the ruleset is rendered from. -/
def Config.toFirewall (c : Config) : Firewall.Config where
  interfaces := c.interfaces.map fun i => ⟨i.id, i.device, i.role, i.type⟩
  vlans := c.vlans.map fun v => ⟨v.parent, v.vid, v.isolated⟩
  firewall := c.firewall.toConfig
  ipv6 := c.ipv6
  usbTether := c.usbTether
  wgServerEnabled := c.vpnServerEnabled
  wgClients := c.vpnClients
  ovpnServerEnabled := c.ovpnServer.enabled
  ovpnServerDevice := c.ovpnServerDevice

/-- The LAN devices of the ruleset. -/
def Config.lanDevices (c : Config) : List Text :=
  Firewall.lanInterfaces c.toFirewall.interfaces

/-- The WAN devices of the ruleset. -/
def Config.wanDevices (c : Config) : List Text :=
  Firewall.wanInterfaces c.toFirewall.interfaces

theorem Config.lanDevices_eq (c : Config) :
    c.lanDevices = (c.interfaces.filter fun i => i.role = "lan".toList).map (·.device) := by
  simp [lanDevices, Firewall.lanInterfaces, toFirewall, List.filter_map, Function.comp_def]

end Lankeeper.Router
