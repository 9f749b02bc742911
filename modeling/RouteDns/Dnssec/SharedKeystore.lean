import RouteDns.Dnssec.Keystore
import RouteDns.Program.History
import RouteDns.Program.Run

/-!
# Concurrent use of the keystore

The map from names to entries has a lock of its own, and so has every entry.  A call looks its
entry up under the read lock of the map; a call that adds something creates a missing entry
under the write lock, after it has looked once more.  Only then it locks the entry.  Between two
locked sections any other call may take its steps.

A call takes effect in its last locked section.  The calls in this order, one after the other
on a keystore of which nobody else knows, give the same answers.
-/

namespace RouteDns.Dnssec

open Dns

/-! ## Locked sections -/

/-- A call on the keystore. -/
inductive StoreRequest where
  | addDS (name : Name) (dss : List DS)
  | addDNSKEY (name : Name) (keys : List DNSKEY)
  | getDNSKEY (name : Name)
  | getDS (name : Name)
  deriving DecidableEq

/-- What a call returns. -/
inductive StoreAnswer where
  | done
  | keys (found : KeySet)
  | ds (records : List DS)
  deriving DecidableEq

namespace StoreRequest

def name : StoreRequest → Name
  | addDS name _ => name
  | addDNSKEY name _ => name
  | getDNSKEY name => name
  | getDS name => name

/-- Whether the call creates an entry that is missing. -/
def creates : StoreRequest → Bool
  | addDS _ _ => true
  | addDNSKEY _ _ => true
  | getDNSKEY _ => false
  | getDS _ => false

/-- What a lookup returns where there is no entry. -/
def nothing : StoreRequest → StoreAnswer
  | addDS _ _ => .done
  | addDNSKEY _ _ => .done
  | getDNSKEY _ => .keys ⟨[], []⟩
  | getDS _ => .ds []

end StoreRequest

/-- The key set that is stored for some keys, with the time it expires. -/
def keySetAt (keys : List DNSKEY) (now : Time) : DnskeySet where
  expiresAt := expiry now (minTtl (keys.map fun key => key.hdr.ttl))
  keys := KeySet.classify keys

namespace KeystoreEntry

/-- An entry that was just created. -/
def fresh : KeystoreEntry where
  keys := none
  ds := none

/-- Merge DS records into an entry. -/
def mergeDS (item : KeystoreEntry) (dss : List DS) (now : Time) : KeystoreEntry :=
  let records := (item.ds.elim [] DsSet.records) ++ dss
  let ttl := minTtl (records.map fun ds => ds.hdr.ttl)
  { item with ds := some { expiresAt := expiry now ttl, records := records } }

def setDNSKEY (item : KeystoreEntry) (keys : DnskeySet) : KeystoreEntry :=
  { item with keys := some keys }

/-- The keys of an entry, none if they have expired. -/
def liveKeys (item : KeystoreEntry) (now : Time) : KeySet :=
  match item.keys with
  | none => ⟨[], []⟩
  | some stored => if stored.expiresAt < now then ⟨[], []⟩ else stored.keys

/-- The DS records of an entry, none if they have expired. -/
def liveDS (item : KeystoreEntry) (now : Time) : List DS :=
  match item.ds with
  | none => []
  | some stored => if stored.expiresAt < now then [] else stored.records

/-- What a call does to its entry while it holds the lock of the entry. -/
def access (item : KeystoreEntry) (request : StoreRequest) (now : Time) : KeystoreEntry :=
  match request with
  | .addDS _ dss => item.mergeDS dss now
  | .addDNSKEY _ keys => item.setDNSKEY (keySetAt keys now)
  | .getDNSKEY _ => item
  | .getDS _ => item

/-- What a call returns from its entry. -/
def answer (item : KeystoreEntry) (request : StoreRequest) (now : Time) : StoreAnswer :=
  match request with
  | .addDS _ _ => .done
  | .addDNSKEY _ _ => .done
  | .getDNSKEY _ => .keys (item.liveKeys now)
  | .getDS _ => .ds (item.liveDS now)

/-- A lookup leaves the entry as it is. -/
theorem access_of_reads (item : KeystoreEntry) {request : StoreRequest}
    (reads : request.creates = false) (now : Time) : item.access request now = item := by
  cases request with
  | addDS name dss => cases reads
  | addDNSKEY name keys => cases reads
  | getDNSKEY name => rfl
  | getDS name => rfl

theorem answer_fresh (request : StoreRequest) (now : Time) :
    fresh.answer request now = request.nothing := by
  cases request <;> rfl

end KeystoreEntry

/-- Where a call is between its locked sections. -/
inductive Stage where
  /-- About to read the clock for the keys to add. -/
  | timing
  /-- About to look the entry up under the read lock. -/
  | seeking
  /-- The entry was missing; about to take the write lock. -/
  | creating
  /-- About to lock the entry it has found or made. -/
  | holding (entry : Nat)
  | returned (entry : Option Nat) (answer : StoreAnswer)
  deriving DecidableEq

/-- The entry a call has been given. -/
def Stage.entryIn? : Stage → Option Nat
  | timing => none
  | seeking => none
  | creating => none
  | holding entry => some entry
  | returned entry _ => entry

/-- No entry has been looked up with success. -/
def Stage.early : Stage → Bool
  | timing => true
  | seeking => true
  | creating => true
  | holding _ => false
  | returned _ _ => false

/-- A call on the way.  The expiry of keys is computed from a clock reading before the entry is
looked up; `timed` is that reading. -/
structure StoreCall where
  request : StoreRequest
  timed : Time
  stage : Stage
  deriving DecidableEq

/-- A call as it begins. -/
def StoreCall.begin_ (request : StoreRequest) : StoreCall where
  request := request
  timed := 0
  stage :=
    match request with
    | .addDNSKEY _ _ => .timing
    | _ => .seeking

/-- The clock reading a call works with in its last section. -/
def StoreCall.reading (call : StoreCall) (now : Time) : Time :=
  match call.request with
  | .addDNSKEY _ _ => call.timed
  | _ => now

/-- A call that has taken effect, with the clock reading it went by. -/
structure StoreOperation where
  request : StoreRequest
  now : Time
  deriving DecidableEq

/-- The keystore with everything that is under way: the map from canonical names to entries,
the entries themselves, the calls, and the history of those that have taken effect, which is
written for the statements and never read. -/
structure SharedKeystore where
  store : FiniteMap Name Nat
  entries : List KeystoreEntry
  calls : List StoreCall
  history : List (StoreOperation × StoreAnswer)

/-- One step: a call begins, reads the clock, or goes through one of its locked sections. -/
inductive StoreEvent where
  | call (request : StoreRequest)
  | time (index : Nat) (now : Time)
  | find (index : Nat)
  | create (index : Nat)
  | access (index : Nat) (now : Time)
  deriving DecidableEq

/-- The call that takes the step. -/
def StoreEvent.caller? : StoreEvent → Option Nat
  | call _ => none
  | time index _ => some index
  | find index => some index
  | create index => some index
  | access index _ => some index

namespace SharedKeystore

/-- A keystore as it is made. -/
def new : SharedKeystore where
  store := ∅
  entries := []
  calls := []
  history := []

/-- A call goes on to another stage. -/
def move (s : SharedKeystore) (index : Nat) (call : StoreCall) (stage : Stage) : SharedKeystore :=
  { s with calls := s.calls.set index { call with stage := stage } }

/-- A call takes effect and returns. -/
def finish (s : SharedKeystore) (index : Nat) (call : StoreCall) (entry : Option Nat) (now : Time)
    (answer : StoreAnswer) : SharedKeystore :=
  { s.move index call (.returned entry answer) with
    history := s.history ++ [({ request := call.request, now := call.reading now }, answer)] }

variable (dns : Library)

/-- The section under the read lock of the map. -/
def find (s : SharedKeystore) (index : Nat) (call : StoreCall) : SharedKeystore :=
  match s.store.lookup (dns.canonicalName call.request.name) with
  | some entry => s.move index call (.holding entry)
  | none =>
    if call.request.creates then s.move index call .creating
    else s.finish index call none 0 call.request.nothing

/-- The section under the write lock of the map, which looks once more. -/
def create (s : SharedKeystore) (index : Nat) (call : StoreCall) : SharedKeystore :=
  match s.store.lookup (dns.canonicalName call.request.name) with
  | some entry => s.move index call (.holding entry)
  | none =>
    { s.move index call (.holding s.entries.length) with
      store := s.store.insert (dns.canonicalName call.request.name) s.entries.length
      entries := s.entries ++ [.fresh] }

/-- The section under the lock of an entry. -/
def access (s : SharedKeystore) (index : Nat) (call : StoreCall) (entry : Nat)
    (item : KeystoreEntry) (now : Time) : SharedKeystore :=
  { s.finish index call (some entry) now (item.answer call.request (call.reading now)) with
    entries := s.entries.set entry (item.access call.request (call.reading now)) }

def step (s : SharedKeystore) : StoreEvent → Option SharedKeystore
  | .call request => some { s with calls := s.calls ++ [.begin_ request] }
  | .time index now => do
    let call ← s.calls[index]?
    if call.stage = .timing then
      some { s with calls := s.calls.set index { call with timed := now, stage := .seeking } }
    else
      none
  | .find index => do
    let call ← s.calls[index]?
    if call.stage = .seeking then some (s.find dns index call) else none
  | .create index => do
    let call ← s.calls[index]?
    if call.stage = .creating then some (s.create dns index call) else none
  | .access index now => do
    let call ← s.calls[index]?
    match call.stage with
    | .holding entry => do
      let item ← s.entries[entry]?
      some (s.access index call entry item now)
    | _ => none

/-! ## What a step can do -/

/-- What a step does, by the section it goes through. -/
inductive Steps (s : SharedKeystore) : SharedKeystore → Prop where
  | began (request : StoreRequest) : Steps s { s with calls := s.calls ++ [.begin_ request] }
  | timed (index : Nat) (call : StoreCall) (now : Time) (at_ : s.calls[index]? = some call) :
      Steps s { s with calls := s.calls.set index { call with timed := now, stage := .seeking } }
  | found (index : Nat) (call : StoreCall) (entry : Nat) (at_ : s.calls[index]? = some call)
      (known : s.store.lookup (dns.canonicalName call.request.name) = some entry) :
      Steps s (s.move index call (.holding entry))
  | absent (index : Nat) (call : StoreCall) (at_ : s.calls[index]? = some call)
      (missing : s.store.lookup (dns.canonicalName call.request.name) = none)
      (reads : call.request.creates = false) :
      Steps s (s.finish index call none 0 call.request.nothing)
  | waits (index : Nat) (call : StoreCall) (at_ : s.calls[index]? = some call) :
      Steps s (s.move index call .creating)
  | created (index : Nat) (call : StoreCall) (at_ : s.calls[index]? = some call)
      (missing : s.store.lookup (dns.canonicalName call.request.name) = none) :
      Steps s { s.move index call (.holding s.entries.length) with
        store := s.store.insert (dns.canonicalName call.request.name) s.entries.length
        entries := s.entries ++ [.fresh] }
  | accessed (index : Nat) (call : StoreCall) (entry : Nat) (item : KeystoreEntry) (now : Time)
      (at_ : s.calls[index]? = some call) (holds : call.stage = .holding entry)
      (there : s.entries[entry]? = some item) : Steps s (s.access index call entry item now)

theorem steps_of_step {s next : SharedKeystore} {event : StoreEvent}
    (taken : s.step dns event = some next) : Steps dns s next := by
  cases event with
  | call request =>
    cases taken
    exact .began request
  | time index now =>
    obtain ⟨call, at_, taken⟩ := Option.bind_eq_some_iff.mp taken
    obtain ⟨-, ⟨⟩⟩ := Option.ite_none_right_eq_some.mp taken
    exact .timed index call now at_
  | find index =>
    obtain ⟨call, at_, taken⟩ := Option.bind_eq_some_iff.mp taken
    obtain ⟨-, ⟨⟩⟩ := Option.ite_none_right_eq_some.mp taken
    unfold find
    cases known : s.store.lookup (dns.canonicalName call.request.name) with
    | some entry => exact .found index call entry at_ known
    | none =>
      cases creates : call.request.creates with
      | true => exact .waits index call at_
      | false => exact .absent index call at_ known creates
  | create index =>
    obtain ⟨call, at_, taken⟩ := Option.bind_eq_some_iff.mp taken
    obtain ⟨-, ⟨⟩⟩ := Option.ite_none_right_eq_some.mp taken
    unfold create
    cases known : s.store.lookup (dns.canonicalName call.request.name) with
    | some entry => exact .found index call entry at_ known
    | none => exact .created index call at_ known
  | access index now =>
    obtain ⟨call, at_, taken⟩ := Option.bind_eq_some_iff.mp taken
    split at taken
    · rename_i entry stage
      obtain ⟨item, there, ⟨⟩⟩ := Option.bind_eq_some_iff.mp taken
      exact .accessed index call entry item now at_ stage there
    · cases taken

end SharedKeystore

/-! ## The sequential keystore -/

namespace Keystore

variable (dns : Library)

theorem getItem_congr {store : Keystore} {name other : Name}
    (same : dns.canonicalName name = dns.canonicalName other) :
    store.getItem dns name = store.getItem dns other := by
  rw [getItem, getItem, same]

/-- One call on a keystore nobody else knows of. -/
def perform (store : Keystore) (operation : StoreOperation) : Keystore :=
  match operation.request with
  | .addDS name dss => store.addDS dns name dss operation.now
  | .addDNSKEY name keys => store.addDNSKEY dns name keys operation.now
  | .getDNSKEY _ => store
  | .getDS _ => store

/-- What the call returns there. -/
def reply (store : Keystore) (operation : StoreOperation) : StoreAnswer :=
  (store.getItem dns operation.request.name).answer operation.request operation.now

theorem getItem_insert (store : Keystore) (name other : Name) (item : KeystoreEntry) :
    Keystore.getItem dns (store.insert (dns.canonicalName name) item) other =
      if dns.canonicalName other = dns.canonicalName name then item
      else store.getItem dns other := by
  rw [getItem, FiniteMap.lookup_insert_ite]
  split
  · rfl
  · rfl

/-- A call changes the entry of its name, as it does under the lock of the entry, and no
other. -/
theorem getItem_perform (store : Keystore) (operation : StoreOperation) (other : Name) :
    (store.perform dns operation).getItem dns other =
      if dns.canonicalName other = dns.canonicalName operation.request.name then
        (store.getItem dns operation.request.name).access operation.request operation.now
      else store.getItem dns other := by
  obtain ⟨request, now⟩ := operation
  cases request with
  | addDS name dss | addDNSKEY name keys => exact store.getItem_insert dns name other _
  | getDNSKEY name | getDS name =>
    split
    · rename_i same
      exact store.getItem_congr dns same
    · rfl

end Keystore

/-! ## The invariant -/

namespace SharedKeystore

variable (dns : Library) {s next : SharedKeystore} {index : Nat} {call : StoreCall}

/-- The keystore that is left when the calls of the history are made one after the other. -/
def replayed (s : SharedKeystore) : Keystore :=
  History.replay (Keystore.perform dns) ∅ s.history

/-- The entry of a name, as good as new if there is none. -/
def itemOf (s : SharedKeystore) (name : Name) : KeystoreEntry :=
  ((s.store.lookup (dns.canonicalName name)).bind (s.entries[·]?)).getD .fresh

/-- A call works on the entry of its name, and what it has returned is in the history. -/
structure CallSound (s : SharedKeystore) (call : StoreCall) : Prop where
  held : ∀ entry, call.stage.entryIn? = some entry →
    s.store.lookup (dns.canonicalName call.request.name) = some entry
  recorded : ∀ entry answer, call.stage = .returned entry answer →
    ∃ now, ({ request := call.request, now := now }, answer) ∈ s.history

/-- What holds after any steps: no two names share an entry, the entries are those of the
sequential keystore, and so were all answers. -/
structure Sound (s : SharedKeystore) : Prop where
  bounded : ∀ key entry, s.store.lookup key = some entry → entry < s.entries.length
  injective : ∀ key other entry, s.store.lookup key = some entry →
    s.store.lookup other = some entry → key = other
  explained : ∀ name, (s.replayed dns).getItem dns name = s.itemOf dns name
  atomic : History.Atomic (Keystore.perform dns) (Keystore.reply dns) ∅ s.history
  calls : ∀ (index : Nat) (call : StoreCall), s.calls[index]? = some call → CallSound dns s call

theorem sound_new : Sound dns new where
  bounded := fun key entry found => by cases found
  injective := fun key other entry found => by cases found
  explained := fun name => rfl
  atomic := History.Atomic.nil
  calls := fun index call found => by cases found

variable {dns}

theorem itemOf_of_lookup {name : Name} {entry : Nat} {item : KeystoreEntry}
    (known : s.store.lookup (dns.canonicalName name) = some entry)
    (there : s.entries[entry]? = some item) : s.itemOf dns name = item := by
  simp [itemOf, known, there]

theorem itemOf_of_missing {name : Name}
    (missing : s.store.lookup (dns.canonicalName name) = none) : s.itemOf dns name = .fresh := by
  simp [itemOf, missing]

theorem callSound_of_early (early : call.stage.early = true) : CallSound dns s call := by
  constructor
  case held =>
    intro entry at_
    cases stage : call.stage <;> simp [stage, Stage.early, Stage.entryIn?] at early at_
  case recorded =>
    intro entry answer at_
    rw [at_] at early
    cases early

theorem callSound_of_holding {entry : Nat} (holds : call.stage = .holding entry)
    (known : s.store.lookup (dns.canonicalName call.request.name) = some entry) :
    CallSound dns s call := by
  constructor
  case held =>
    intro given at_
    rw [holds] at at_
    cases at_
    exact known
  case recorded =>
    intro given answer at_
    rw [holds] at at_
    cases at_

/-- What holds of a call is not lost as names get entries and calls take effect. -/
theorem CallSound.extend (sound : CallSound dns s call)
    (known : ∀ key entry, s.store.lookup key = some entry → next.store.lookup key = some entry)
    (grown : s.history <+: next.history) : CallSound dns next call where
  held := fun entry at_ => known _ entry (sound.held entry at_)
  recorded := fun entry answer at_ => by
    obtain ⟨now, member⟩ := sound.recorded entry answer at_
    exact ⟨now, grown.subset member⟩

section

variable (sound : Sound dns s)
include sound

/-- A step that changes only where one call is. -/
theorem Sound.of_call {moved : StoreCall} (moves : CallSound dns s moved) :
    Sound dns { s with calls := s.calls.set index moved } where
  bounded := sound.bounded
  injective := sound.injective
  explained := sound.explained
  atomic := sound.atomic
  calls := forall_getElem?_set _ (moves.extend (fun _ _ known => known) List.prefix_rfl)
    fun other old _ found => (sound.calls other old found).extend (fun _ _ known => known)
      List.prefix_rfl

/-- A call that takes effect answers as the sequential keystore does and leaves the entries of
all names as that does. -/
theorem Sound.finish (index : Nat) (call : StoreCall) (entry : Option Nat) (now : Time)
    (entries : List KeystoreEntry) (length_eq : entries.length = s.entries.length)
    (held : ∀ held, entry = some held →
      s.store.lookup (dns.canonicalName call.request.name) = some held)
    (items : ∀ name, itemOf dns { s with entries := entries } name =
      if dns.canonicalName name = dns.canonicalName call.request.name then
        (s.itemOf dns call.request.name).access call.request (call.reading now)
      else s.itemOf dns name) :
    Sound dns { s.finish index call entry now
        ((s.itemOf dns call.request.name).answer call.request (call.reading now)) with
      entries := entries } where
  bounded := fun key other known => length_eq ▸ sound.bounded key other known
  injective := sound.injective
  explained := fun name => by
    rw [replayed, SharedKeystore.finish, History.replay_concat, Keystore.getItem_perform]
    change _ = itemOf dns { s with entries := entries } name
    rw [items name]
    have same := sound.explained
    unfold replayed at same
    simp only [same]
  atomic := by
    refine sound.atomic.concat ?_
    have same := sound.explained call.request.name
    unfold replayed at same
    rw [Keystore.reply, same]
  calls := by
    refine forall_getElem?_set _ ?_ fun other old _ found =>
      (sound.calls other old found).extend (fun _ _ known => known) (List.prefix_append _ _)
    constructor
    case held => exact fun given at_ => held given at_
    case recorded =>
      intro given answer at_
      cases at_
      exact ⟨_, List.mem_append_right _ (List.mem_singleton.mpr rfl)⟩

/-- A new entry is as good as none to its name, and others do not see it. -/
theorem Sound.itemOf_created {owner : Name}
    (missing : s.store.lookup (dns.canonicalName owner) = none) (name : Name) :
    itemOf dns { s with
      store := s.store.insert (dns.canonicalName owner) s.entries.length
      entries := s.entries ++ [.fresh] } name = s.itemOf dns name := by
  by_cases same : dns.canonicalName name = dns.canonicalName owner
  · have absent : s.store.lookup (dns.canonicalName name) = none := same ▸ missing
    have inserted : (s.store.insert (dns.canonicalName owner) s.entries.length).lookup
        (dns.canonicalName name) = some s.entries.length := by
      rw [FiniteMap.lookup_insert_ite, if_pos same]
    exact (itemOf_of_lookup inserted List.getElem?_concat_length).trans
      (itemOf_of_missing absent).symm
  · unfold itemOf
    rw [FiniteMap.lookup_insert_ite, if_neg same]
    cases known : s.store.lookup (dns.canonicalName name) with
    | none => rfl
    | some entry =>
      change (s.entries ++ [.fresh])[entry]?.getD .fresh = s.entries[entry]?.getD .fresh
      rw [List.getElem?_append_left (sound.bounded _ entry known)]

/-- A missing entry is made: names that had one keep it, and for the others a new entry is as
good as none. -/
theorem Sound.created (missing : s.store.lookup (dns.canonicalName call.request.name) = none) :
    Sound dns { s.move index call (.holding s.entries.length) with
      store := s.store.insert (dns.canonicalName call.request.name) s.entries.length
      entries := s.entries ++ [.fresh] } := by
  have kept : ∀ key entry, s.store.lookup key = some entry →
      (s.store.insert (dns.canonicalName call.request.name) s.entries.length).lookup key =
        some entry := by
    intro key entry known
    rw [FiniteMap.lookup_insert_ite, if_neg, known]
    rintro rfl
    rw [missing] at known
    cases known
  have inserted : (s.store.insert (dns.canonicalName call.request.name) s.entries.length).lookup
      (dns.canonicalName call.request.name) = some s.entries.length := by
    rw [FiniteMap.lookup_insert_ite, if_pos rfl]
  constructor
  case bounded =>
    intro key entry known
    rw [FiniteMap.lookup_insert_ite] at known
    rw [List.length_append, List.length_singleton]
    split at known
    · cases known
      exact Nat.lt_succ_self _
    · exact Nat.lt_succ_of_lt (sound.bounded key entry known)
  case injective =>
    intro key other entry known known'
    rw [FiniteMap.lookup_insert_ite] at known known'
    split at known <;> split at known'
    · rename_i same same'
      rw [same, same']
    · cases known
      exact absurd (sound.bounded other _ known') (Nat.lt_irrefl _)
    · cases known'
      exact absurd (sound.bounded key _ known) (Nat.lt_irrefl _)
    · exact sound.injective key other entry known known'
  case explained =>
    intro name
    exact (sound.explained name).trans (sound.itemOf_created missing name).symm
  case atomic => exact sound.atomic
  case calls =>
    refine forall_getElem?_set _ (callSound_of_holding rfl inserted) fun other old _ found => ?_
    exact (sound.calls other old found).extend kept List.prefix_rfl

/-- Writing an entry changes what its own name finds, and nothing else. -/
theorem Sound.itemOf_set {owner : Name} {entry : Nat}
    (known : s.store.lookup (dns.canonicalName owner) = some entry) (item : KeystoreEntry)
    (name : Name) :
    itemOf dns { s with entries := s.entries.set entry item } name =
      if dns.canonicalName name = dns.canonicalName owner then item else s.itemOf dns name := by
  by_cases same : dns.canonicalName name = dns.canonicalName owner
  · rw [if_pos same]
    exact itemOf_of_lookup (same ▸ known)
      (List.getElem?_set_self (sound.bounded _ entry known))
  · -- another name has another entry
    rw [if_neg same]
    unfold itemOf
    cases other : s.store.lookup (dns.canonicalName name) with
    | none => rfl
    | some given =>
      have apart : entry ≠ given := by
        rintro rfl
        exact same (sound.injective _ _ _ other known)
      change (s.entries.set entry _)[given]?.getD .fresh = s.entries[given]?.getD .fresh
      rw [List.getElem?_set_ne apart]

theorem Sound.step (steps : Steps dns s next) : Sound dns next := by
  cases steps with
  | began request =>
    have early : (StoreCall.begin_ request).stage.early = true := by
      cases request <;> rfl
    exact
      { bounded := sound.bounded
        injective := sound.injective
        explained := sound.explained
        atomic := sound.atomic
        calls := forall_getElem?_concat _ (callSound_of_early early) fun other old found =>
          (sound.calls other old found).extend (fun _ _ known => known) List.prefix_rfl }
  | timed index call now at_ => exact sound.of_call (callSound_of_early rfl)
  | found index call entry at_ known => exact sound.of_call (callSound_of_holding rfl known)
  | waits index call at_ => exact sound.of_call (callSound_of_early rfl)
  | created index call at_ missing => exact sound.created missing
  | absent index call at_ missing reads =>
    have finished := sound.finish index call none 0 s.entries rfl
      (fun _ given => by cases given) fun name => ?_
    · rw [itemOf_of_missing missing, KeystoreEntry.answer_fresh] at finished
      exact finished
    · rw [KeystoreEntry.access_of_reads _ reads]
      split
      · rename_i same
        rw [itemOf, same]
        rfl
      · rfl
  | accessed index call entry item now at_ holds there =>
    have known : s.store.lookup (dns.canonicalName call.request.name) = some entry :=
      (sound.calls index call at_).held entry (by rw [holds]; rfl)
    have item_eq := itemOf_of_lookup known there
    have finished := sound.finish index call (some entry) now
      (s.entries.set entry (item.access call.request (call.reading now)))
      List.length_set (fun _ given => by cases given; exact known) fun name => ?_
    · rw [item_eq] at finished
      exact finished
    · rw [item_eq]
      exact sound.itemOf_set known _ name

end

/-! ## What the calls get to see -/

variable (dns)

section History

variable {history : List (StoreOperation × StoreAnswer)} {name : Name}

/-- A DS record that was added stays configured. -/
theorem mem_configuredDS {other : Name} {dss : List DS} {now : Time} {answer : StoreAnswer}
    (added : ({ request := .addDS other dss, now := now }, answer) ∈ history)
    (same : dns.canonicalName other = dns.canonicalName name) {ds : DS} (member : ds ∈ dss) :
    ds ∈ (History.replay (Keystore.perform dns) ∅ history).configuredDS dns name := by
  induction history using List.reverseRecOn with
  | nil => cases added
  | append_singleton history entry ih =>
    rw [History.replay_concat]
    rcases List.mem_append.mp added with earlier | last
    · obtain ⟨⟨request, at_⟩, given⟩ := entry
      have before := ih earlier
      cases request with
      | addDS name' dss' =>
        rw [Keystore.perform, Keystore.configuredDS_addDS]
        exact List.mem_append_left _ before
      | addDNSKEY name' keys =>
        rw [Keystore.perform, Keystore.configuredDS, Keystore.storedDS_addDNSKEY]
        exact before
      | getDNSKEY name' | getDS name' => exact before
    · cases List.mem_singleton.mp last
      rw [Keystore.perform, Keystore.configuredDS_addDS, if_pos same.symm]
      exact List.mem_append_right _ member

/-- A call of a history that added keys for a name. -/
def AddedKeys (history : List (StoreOperation × StoreAnswer)) (name : Name) (keys : List DNSKEY)
    (now : Time) : Prop :=
  ∃ other answer, ({ request := .addDNSKEY other keys, now := now }, answer) ∈ history ∧
    dns.canonicalName other = dns.canonicalName name

/-- A stored key set is that of one call, and without a call there is none. -/
def KeysFrom (history : List (StoreOperation × StoreAnswer)) (name : Name) :
    Option DnskeySet → Prop
  | none => ∀ keys now, ¬ AddedKeys dns history name keys now
  | some stored => ∃ keys now, AddedKeys dns history name keys now ∧ stored = keySetAt keys now

/-- A call that adds no keys for the name leaves its key set where it comes from. -/
theorem KeysFrom.concat {stored : Option DnskeySet} (origin : KeysFrom dns history name stored)
    {entry : StoreOperation × StoreAnswer}
    (apart : ∀ other keys, entry.1.request = .addDNSKEY other keys →
      dns.canonicalName other ≠ dns.canonicalName name) :
    KeysFrom dns (history ++ [entry]) name stored := by
  cases stored with
  | none =>
    rintro keys now ⟨other, answer, member, same⟩
    rcases List.mem_append.mp member with earlier | last
    · exact origin keys now ⟨other, answer, earlier, same⟩
    · cases List.mem_singleton.mp last
      exact apart other keys rfl same
  | some stored =>
    obtain ⟨keys, now, ⟨other, answer, member, same⟩, stored_eq⟩ := origin
    exact ⟨keys, now, ⟨other, answer, List.mem_append_left _ member, same⟩, stored_eq⟩

theorem keysFrom_replay (history : List (StoreOperation × StoreAnswer)) (name : Name) :
    KeysFrom dns history name
      ((History.replay (Keystore.perform dns) ∅ history).storedKeys dns name) := by
  induction history using List.reverseRecOn with
  | nil =>
    rintro keys now ⟨other, answer, member, _⟩
    cases member
  | append_singleton history entry ih =>
    obtain ⟨⟨request, now⟩, answer⟩ := entry
    rw [History.replay_concat]
    cases request with
    | addDNSKEY other keys =>
      rw [Keystore.perform, Keystore.storedKeys_addDNSKEY]
      split
      · rename_i same
        exact ⟨keys, now, ⟨other, answer, List.mem_append_right _ (List.mem_singleton.mpr rfl),
          same.symm⟩, rfl⟩
      · rename_i differs
        refine ih.concat dns fun given keys' added => ?_
        cases added
        exact Ne.symm differs
    | addDS other dss =>
      rw [Keystore.perform, Keystore.storedKeys_addDS]
      exact ih.concat dns fun given keys' added => by cases added
    | getDNSKEY other | getDS other => exact ih.concat dns fun given keys' added => by cases added

end History

/-- Every order of steps leaves the keystore consistent: the calls for one name share one entry
and no other call has it; a call under way can go on; answers are those of a sequential keystore
in the order in which calls took effect, so a lookup that finds the DS records of a name
unexpired finds all that were added before, and one that finds keys finds exactly the keys one
call added for the name. -/
structure Consistent (s : SharedKeystore) : Prop where
  one_entry : ∀ (index other : Nat) (first second : StoreCall) (entry entry' : Nat),
    s.calls[index]? = some first → s.calls[other]? = some second →
    first.stage.entryIn? = some entry → second.stage.entryIn? = some entry' →
    (entry = entry' ↔
      dns.canonicalName first.request.name = dns.canonicalName second.request.name)
  live : ∀ (index : Nat) (call : StoreCall), s.calls[index]? = some call →
    (∃ entry answer, call.stage = .returned entry answer) ∨
      ∃ event, event.caller? = some index ∧ (s.step dns event).isSome = true
  recorded : ∀ (index : Nat) (call : StoreCall) (entry : Option Nat) (answer : StoreAnswer),
    s.calls[index]? = some call → call.stage = .returned entry answer →
    ∃ now, ({ request := call.request, now := now }, answer) ∈ s.history
  sequential : History.Atomic (Keystore.perform dns) (Keystore.reply dns) ∅ s.history
  every_ds : ∀ front back name now records other dss at_ answer,
    s.history = front ++ ({ request := .getDS name, now := now }, .ds records) :: back →
    ({ request := .addDS other dss, now := at_ }, answer) ∈ front →
    dns.canonicalName other = dns.canonicalName name → ∀ ds ∈ dss,
    ∃ stored, (History.replay (Keystore.perform dns) ∅ front).storedDS dns name = some stored ∧
      ds ∈ stored.records ∧ records = if stored.expiresAt < now then [] else stored.records
  whole_keys : ∀ front back name now found,
    s.history = front ++ ({ request := .getDNSKEY name, now := now }, .keys found) :: back →
    ((∀ keys at_, ¬ AddedKeys dns front name keys at_) ∧ found = ⟨[], []⟩) ∨
      ∃ keys at_, AddedKeys dns front name keys at_ ∧
        found = if (keySetAt keys at_).expiresAt < now then ⟨[], []⟩ else KeySet.classify keys

theorem Sound.consistent (sound : Sound dns s) : Consistent dns s where
  one_entry index other first second entry entry' found found' holds holds' := by
    have known := (sound.calls index first found).held entry holds
    have known' := (sound.calls other second found').held entry' holds'
    constructor
    · rintro rfl
      exact sound.injective _ _ entry known known'
    · intro same
      rw [same, known'] at known
      exact (Option.some.inj known).symm
  live index call at_ := by
    cases stage : call.stage with
    | timing => exact .inr ⟨.time index 0, rfl, by simp [SharedKeystore.step, at_, stage]⟩
    | seeking => exact .inr ⟨.find index, rfl, by simp [SharedKeystore.step, at_, stage]⟩
    | creating => exact .inr ⟨.create index, rfl, by simp [SharedKeystore.step, at_, stage]⟩
    | holding entry =>
      have known := (sound.calls index call at_).held entry (by rw [stage]; rfl)
      have there := List.getElem?_eq_getElem (sound.bounded _ entry known)
      exact .inr ⟨.access index 0, rfl, by simp [SharedKeystore.step, at_, stage, there]⟩
    | returned entry answer => exact .inl ⟨entry, answer, rfl⟩
  recorded index call entry answer at_ returned :=
    (sound.calls index call at_).recorded entry answer returned
  sequential := sound.atomic
  every_ds front back name now records other dss at_ answer split added same ds member := by
    have configured := mem_configuredDS dns added same member
    have answered := sound.atomic front _ _ back split
    rw [Keystore.reply, KeystoreEntry.answer, StoreAnswer.ds.injEq, StoreRequest.name,
      KeystoreEntry.liveDS, Keystore.getItem_ds] at answered
    unfold Keystore.configuredDS at configured
    cases stored : (History.replay (Keystore.perform dns) ∅ front).storedDS dns name with
    | none =>
      rw [stored] at configured
      cases configured
    | some set =>
      rw [stored] at configured answered
      exact ⟨set, rfl, configured, answered⟩
  whole_keys front back name now found split := by
    have origin := keysFrom_replay dns front name
    have answered := sound.atomic front _ _ back split
    rw [Keystore.reply, KeystoreEntry.answer, StoreAnswer.keys.injEq, StoreRequest.name,
      KeystoreEntry.liveKeys, Keystore.getItem_keys] at answered
    cases stored : (History.replay (Keystore.perform dns) ∅ front).storedKeys dns name with
    | none =>
      rw [stored] at origin answered
      exact .inl ⟨origin, answered⟩
    | some set =>
      rw [stored] at origin answered
      obtain ⟨keys, at_, added, rfl⟩ := origin
      exact .inr ⟨keys, at_, added, answered⟩

/-- For every interleaving of any calls, in locked sections, the keystore is consistent. -/
theorem keystore_run_consistent {events : List StoreEvent} {s : SharedKeystore}
    (run : Run (step dns) (fun _ _ => True) new events s) : Consistent dns s := by
  have sound : Sound dns s :=
    run.invariant (Sound dns) (sound_new dns) fun before _ taken =>
      before.step (steps_of_step dns taken)
  exact sound.consistent dns

/-- Two calls find no entry for a name spelled in two ways, both go on to create it, and both add
a DS record; a lookup follows. -/
def racingEvents (first second : DS) : List StoreEvent :=
  [.call (.addDS (text "Example.") [first]), .call (.addDS (text "example.") [second]),
    .find 0, .find 1, .create 1, .create 0, .access 0 sampleTime, .access 1 sampleTime,
    .call (.getDS (text "EXAMPLE.")), .find 2, .access 2 sampleTime]

def anchorOf (publicKey : Text) : DS :=
  Reference.dsOf (Reference.headerOf Reference.exampleName)
    (Reference.keyOf (Reference.headerOf Reference.exampleName) 257 publicKey)

/-- The two calls share one entry, and the lookup returns both records. -/
theorem racing_calls_consistent :
    ∃ s, Run (step reference) (fun _ _ => True) new
        (racingEvents (anchorOf (text "old")) (anchorOf (text "new"))) s ∧
      s.entries.length = 1 ∧
      s.calls[2]?.map StoreCall.stage =
        some (.returned (some 0) (.ds [anchorOf (text "old"), anchorOf (text "new")])) ∧
      Consistent reference s := by
  have run : Run (step reference) (fun _ _ => True) new
      (racingEvents (anchorOf (text "old")) (anchorOf (text "new"))) _ := Run.of_foldlM rfl
  exact ⟨_, run, by decide, by decide, keystore_run_consistent reference run⟩

end SharedKeystore

end RouteDns.Dnssec
