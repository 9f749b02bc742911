import RouteDns.Program.Triple
import RouteDns.Canonical.Chain
import RouteDns.Dns.Reference
import RouteDns.Dnssec.DelegationOwner
import RouteDns.Dnssec.Trust
import RouteDns.Dnssec.Steady
import RouteDns.Dnssec.Verdict
import RouteDns.Dnssec.Response
import RouteDns.Dnssec.KeyFlags
import RouteDns.Dnssec.ZoneDenial
import RouteDns.Dnssec.ZoneCut
import RouteDns.Dnssec.Completeness
import RouteDns.Dnssec.ZoneEntry
import RouteDns.Dnssec.KeyExpiry
import RouteDns.Dnssec.Resolver
import RouteDns.Dnssec.CanonicalOrder
import RouteDns.Dnssec.NonTerminal
import RouteDns.Dnssec.HashedDenial
import RouteDns.Dnssec.RootDenial
import RouteDns.Dnssec.ParentZone
import RouteDns.Dnssec.Queries
import RouteDns.Dnssec.SharedKeystore
import RouteDns.Cache.Harden
import RouteDns.Cidr.Match
import RouteDns.Cidr.Covering
import RouteDns.Blocklist.Compact
import RouteDns.Blocklist.FingerprintIndex
import RouteDns.Cidr.Ownership
import RouteDns.Dedup.Flight
import RouteDns.Cache.Redis
import RouteDns.Transport.Doq
import RouteDns.Transport.Listener
import RouteDns.Transport.Padding
import RouteDns.Router.RateLimiter
import RouteDns.Router.Failover
import RouteDns.Router.Groups
import RouteDns.Router.Random
import RouteDns.Router.RandomLoop
import RouteDns.Router.SubnetOption
import RouteDns.Cache.RawFile
import RouteDns.Cache.Expiry
import RouteDns.Cache.Age
import RouteDns.Cache.FileHits
import RouteDns.Cache.FileSafety
import RouteDns.Cache.JsonFile
import RouteDns.Cache.Overtaken
import RouteDns.Blocklist.Refresh
import RouteDns.Blocklist.HostsList
import RouteDns.Blocklist.ResponseIp
import RouteDns.Modifier.Dns64
import RouteDns.Modifier.Replace
import RouteDns.Transport.ClientAddress
import RouteDns.Transport.Abandoned
