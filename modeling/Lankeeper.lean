import Lankeeper.Agent.CommandEntries
import Lankeeper.Agent.Dispatch
import Lankeeper.Agent.Frames
import Lankeeper.Agent.Pairing
import Lankeeper.Agent.TarExport
import Lankeeper.Backup.NextMatch
import Lankeeper.Backup.Restart
import Lankeeper.Backup.RoundTrip
import Lankeeper.Config.ACME
import Lankeeper.Config.Secrets
import Lankeeper.Config.TLSPair
import Lankeeper.DHCP.Reservations
import Lankeeper.DNS.LogLimits
import Lankeeper.DNS.StaticRecords
import Lankeeper.DNS.TopLists
import Lankeeper.DNS.UrlStamps
import Lankeeper.Firewall.Background
import Lankeeper.Firewall.LineShape
import Lankeeper.Firewall.Refinement
import Lankeeper.Firewall.Settling
import Lankeeper.Health.Recovery
import Lankeeper.IPv6.LeaseWatcher
import Lankeeper.IPv6.PrefixInterfaces
import Lankeeper.Network.Interleaving
import Lankeeper.Network.Subnets
import Lankeeper.OpenVPN.ClientConfig
import Lankeeper.OpenVPN.Clients
import Lankeeper.Router.Submissions
import Lankeeper.Router.WANDevice
import Lankeeper.Routing.Submission
import Lankeeper.Schedules.Refresh
import Lankeeper.Update.Checksum
import Lankeeper.Update.Snapshots
import Lankeeper.VPN.Allocation
import Lankeeper.VPN.FailedCalls
import Lankeeper.VPN.RemoteSubnets
import Lankeeper.VPN.ServerConf
import Lankeeper.VPN.SiteToSite
import Lankeeper.Web.EventStreams
import Lankeeper.Web.LoginBudget
import Lankeeper.Web.Sessions
