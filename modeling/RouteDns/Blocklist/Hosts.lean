import RouteDns.Blocklist.Rules
import RouteDns.Cidr.Net
import RouteDns.Program.FiniteMap

/-!
# Databases of hosts files

A line of a hosts file gives names to an address.  For every name the addresses of each family
are kept up to a limit, the unspecified address as one to block with; for every address, its
names.  No line is refused.
-/

namespace RouteDns.Blocklist

open Dns Cidr

/-- The functions of the libraries that hosts files are read with. -/
structure HostsLibrary extends StringsLibrary where
  fields : Text → List Text
  parseIP : Text → Option IP
  reverseAddr : Text → Option Text

def maxHostsResponses : Nat := 10

/-- The addresses of a name; a missing one blocks. -/
structure IpRecords where
  ip4 : List (Option IP)
  ip6 : List (Option IP)
  deriving DecidableEq

structure HostsDB where
  name : Text
  filters : FiniteMap Text IpRecords
  ptrMap : FiniteMap Text (List Text)

/-- `0.0.0.0` or `::` -/
def isUnspecified (ip : IP) : Bool :=
  to4 ip = some [0, 0, 0, 0] || ip = List.replicate 16 0

namespace HostsDB

variable (lib : HostsLibrary)

/-- Keep an address for a name, unless it has too many. -/
def addName (isIP4 : Bool) (ip : Option IP) (filters : FiniteMap Text IpRecords) (name : Text) :
    FiniteMap Text IpRecords :=
  let name := lib.toLower (trimDot name)
  let ips := (filters.lookup name).getD { ip4 := [], ip6 := [] }
  if isIP4 then
    if ips.ip4.length > maxHostsResponses then filters
    else filters.insert name { ips with ip4 := ips.ip4 ++ [ip] }
  else
    if ips.ip6.length > maxHostsResponses then filters
    else filters.insert name { ips with ip6 := ips.ip6 ++ [ip] }

def addLine (db : HostsDB) (line : Text) : HostsDB :=
  match lib.fields (lib.trimSpace line) with
  | [] => db
  | ipString :: names =>
    if ipString.head? = some (byteOf '#') ∨ names = [] then db
    else
      let parsed := lib.parseIP ipString
      let isIP4 := (parsed.bind to4).isSome
      let ip := parsed.filter fun ip => !isUnspecified ip
      let db := { db with filters := names.foldl (addName lib isIP4 ip) db.filters }
      match lib.reverseAddr ipString with
      | none => db
      | some reverseAddr =>
        { db with ptrMap := db.ptrMap.insert reverseAddr (db.ptrMap.get reverseAddr ++ names) }

end HostsDB

def newHostsDB (lib : HostsLibrary) (name : Text) (events : List LoadEvent) :
    Except Fault HostsDB :=
  load { name := name, filters := ∅, ptrMap := ∅ } (fun db line => .ok (db.addLine lib line)) events

end RouteDns.Blocklist
