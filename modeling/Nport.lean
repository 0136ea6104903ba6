import Nport.GuardedMachine
import Nport.ExclusiveHolding
import Nport.FifoPipe
import Nport.SharedReference
import Nport.Multimap
import Nport.ReadChain
import Nport.Registry
import Nport.PortTask
import Nport.Endpoint
import Nport.EndpointDeadlock
import Nport.PortHistory
import Nport.EndpointFlow
import Nport.PortExit
import Nport.Link
import Nport.Tunnel
import Nport.ByteStream
import Nport.HalfOpen
import Nport.ConnectRequest
import Nport.SessionSurvival
import Nport.ConnectOrder
import Nport.Libnp
import Nport.PortOpen
import Nport.HttpForward
import Nport.HeaderSurvival
import Nport.HttpExchange
import Nport.ClientLifetime
import Nport.PortRelease
import Nport.HttpOpen
import Nport.HostRouting
import Nport.Sessions
import Nport.Gauges
import Nport.Forwardings
import Nport.Tunnels
import Nport.AnnouncementOrder
import Nport.CurrentTables
import Nport.CurrentTasks
import Nport.Backpressure
import Nport.Saturation
import Nport.RemoteHost
import Nport.ConnectionLoop
import Nport.HttpResidue
import Nport.Frames
import Nport.PortProgress
import Nport.Dispatch
import Nport.ForwardAnswer
import Nport.UriSyntax
import Nport.LocalUrl
import Nport.RequestTarget
import Nport.HostnameGrammar
import Nport.CertStore
import Nport.Renewal
import Nport.CertChain
import Nport.TransferEncoding
import Nport.Redirect
import Nport.Spellings
import Nport.AddrText
import Nport.PlainNet
import Nport.AddrCodecs
import Nport.AddrForms
import Nport.Origins
import Nport.CertFiles
import Nport.Restart
import Nport.DamagedFiles
import Nport.OtlpHeaders
import Nport.RowTable
import Nport.Cloudflare
import Nport.Challenges
import Nport.ZoneRecords
import Nport.TlsCoverage
import Nport.CertUpdater
import Nport.ServerRestarts
import Nport.HttpService
import Nport.RankedLocks
import Nport.RegistryLocks
import Nport.Backoff
import Nport.OwnHostnames
import Nport.Simulation
import Nport.NameTable
import Nport.RegistryTable
import Nport.Metrics
