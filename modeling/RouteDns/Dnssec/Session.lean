import RouteDns.Dnssec.Denial
import RouteDns.Program.Core

/-!
# The validator's surroundings

The validator asks an upstream resolver, reads a clock and walks over hash maps
whose order the language leaves open.  All three belong to a world with a state
of its own, so the resolver may answer the same query differently each time, the
clock may advance between any two readings and every walk may use another order.

A session is the keystore, the state of the world and a trace of what happened.
The trace is written for the statements about whole runs and never read.
-/

namespace RouteDns.Dnssec

open Dns

/-- What lies outside the validator. -/
structure World (ω : Type) where
  resolver : Query → ω → Except Text Msg × ω
  now : ω → Time × ω
  rangeOrder : (keys : List RRsetKey) → ω → { order : List RRsetKey // order.Perm keys } × ω

/-- A way to walk over maps: for each set of keys the order in which it is
visited. -/
abbrev MapOrder := (keys : List RRsetKey) → { order : List RRsetKey // order.Perm keys }

/-- A world whose resolver is a function of the query.  The clock and the walks over
maps follow given sequences. -/
def World.ofResolver (resolver : Query → Except Text Msg) (clock : Nat → Time)
    (order : Nat → MapOrder) : World Nat where
  resolver query step := (resolver query, step)
  now step := (clock step, step + 1)
  rangeOrder keys step := (order step keys, step + 1)

/-- The orders of all walks over maps to come. -/
abbrev Orders := Nat → MapOrder

/-- A world that stands still: a resolver that is a function of the query, and one
instant.  Only the walks over maps are left open; their orders are the state. -/
def World.steady (resolver : Query → Except Text Msg) (now : Time) : World Orders where
  resolver query orders := (resolver query, orders)
  now orders := (now, orders)
  rangeOrder keys orders := (orders 0 keys, fun step => orders (step + 1))

/-- Visit the keys of a map in the order in which they are listed. -/
def listedOrder : MapOrder :=
  fun keys => ⟨keys, List.Perm.refl keys⟩

/-- What the trace of a session records. -/
inductive Event where
  /-- A query was sent upstream. -/
  | asked (query : Query)
  /-- The clock was read. -/
  | clock (time : Time)
  /-- A trust anchor was configured. -/
  | anchored (ds : DS)
  /-- The chain of trust of a zone was returned. -/
  | trusted (zone : Name) (keys : KeySet)
  deriving DecidableEq

/-- The state of a validator in its world; the latest event of the trace comes
first. -/
structure Session (ω : Type) where
  store : Keystore
  world : ω
  trace : List Event

/-- A session at the start of a validation. -/
def sessionWith (store : Keystore) (orders : Orders) : Session Orders where
  store := store
  world := orders
  trace := []

/-- The session from which the verdicts on single sets are taken. -/
abbrev standing (store : Keystore) : Session Orders :=
  sessionWith store fun _ => listedOrder

/-- A function of the validator. -/
abbrev Action (ω : Type) := Program (Session ω) Err

variable {ω : Type} (world : World ω)

/-- Note an event. -/
def note (event : Event) : Action ω Unit :=
  Program.step fun session => ((), { session with trace := event :: session.trace })

/-- Send a query upstream. -/
def resolve (query : Query) : Action ω Msg := fun session =>
  let reply := world.resolver query session.world
  let session := { session with world := reply.2, trace := .asked query :: session.trace }
  match reply.1 with
  | .ok msg => (.ok msg, session)
  | .error message => (.error (.plain message), session)

/-- Read the clock. -/
def readClock : Action ω Time :=
  Program.step fun session =>
    let reading := world.now session.world
    (reading.1, { session with world := reading.2, trace := .clock reading.1 :: session.trace })

/-- The order in which a walk over a map visits its keys. -/
def rangeOver (keys : List RRsetKey) :
    Action ω { order : List RRsetKey // order.Perm keys } :=
  Program.step fun session =>
    let visit := world.rangeOrder keys session.world
    (visit.1, { session with world := visit.2 })

/-- Read the keystore. -/
def readStore : Action ω Keystore :=
  Program.step fun session => (session.store, session)

/-- Replace the keystore. -/
def writeStore (store : Keystore) : Action ω Unit :=
  Program.step fun session => ((), { session with store := store })

end RouteDns.Dnssec
