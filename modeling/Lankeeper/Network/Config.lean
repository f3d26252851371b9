import Lankeeper.Lib.Network

/-!
# Lankeeper.Network.Config — interfaces, VLANs and VPN servers

The parts of `internal/config/config.go` that the network, IPv6 and VPN services
share. Times are in nanoseconds, and zero is the zero time.
-/

namespace Lankeeper.Network

open Lib Text

/-- `config.InterfaceConfig`. -/
structure InterfaceConfig where
  id : Text
  device : Text
  label : Text := []
  role : Text
  type : Text := []
  address : Text := []
  address6 : Text := []
  mtu : Int := 0
  mac : Text := []
  cloneMAC : Text := []
  ipv6 : Text := []
deriving DecidableEq

/-- A LAN, with the settings that most entries leave out. -/
def staticLAN (id device address : Text) : InterfaceConfig :=
  { id := id, device := device, role := "lan", type := "static", address := address }

/-- `config.VLANDHCPConfig`. -/
structure VLANDHCPConfig where
  enabled : Bool := false
  rangeStart : Text := []
  rangeEnd : Text := []
  leaseTime : Text := []
deriving DecidableEq

/-- `config.VLANConfig`. -/
structure VLANConfig where
  id : Text
  parent : Text
  vid : Int
  label : Text := []
  role : Text := []
  type : Text := []
  address : Text := []
  mtu : Int := 0
  isolated : Bool := false
  dhcp : VLANDHCPConfig := {}
deriving DecidableEq

/-- `config.WGServerPeer`. -/
structure WGServerPeer where
  name : Text
  publicKey : Text := []
  privateKey : Text := []
  presharedKey : Text := []
  allowedIPs : Text := []
  keepalive : Int := 0
  endpoint : Text := []
  remoteSubnets : List Text := []
  isSiteToSite : Bool := false
  pending : Bool := false
  inviteExpiresAt : Nat := 0
deriving DecidableEq

/-- `config.WGServerConfig`. -/
structure WGServerConfig where
  publicKey : Text := []
  address : Text := []
  peers : List WGServerPeer := []
deriving DecidableEq

/-- `config.OVPNServerConfig`. -/
structure OVPNServerConfig where
  enabled : Bool := false
  subnet : Text := []
deriving DecidableEq

/-- `config.Config`. -/
structure Config where
  interfaces : List InterfaceConfig := []
  vlans : List VLANConfig := []
  /-- `VPN.Server` -/
  vpnServer : WGServerConfig := {}
  /-- `OpenVPN.Server` -/
  ovpnServer : OVPNServerConfig := {}
deriving DecidableEq

/-- The device of the first interface with the given ID, empty if there is none. -/
def deviceByID (is : List InterfaceConfig) (id : Text) : Text :=
  match is.find? fun i => i.id = id with
  | some i => i.device
  | none => []

end Lankeeper.Network
