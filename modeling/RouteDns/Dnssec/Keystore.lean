import RouteDns.Dns.Reference
import RouteDns.Program.FiniteMap

/-!
# The keystore

One entry per canonical name holds the validated key set of a zone and the trust
anchors configured for it, each with the time until which it may be used.
-/

namespace RouteDns.Dnssec

open Dns

/-- The keys of a zone, split by their flags. -/
@[ext]
structure KeySet where
  zsk : List DNSKEY
  ksk : List DNSKEY
  deriving DecidableEq

namespace KeySet

/-- Keep the keys with flags 256 and 257, each kind in order. -/
def classify (keys : List DNSKEY) : KeySet where
  zsk := keys.filter fun key => key.flags = 256
  ksk := keys.filter fun key => key.flags = 257

/-- Both kinds together, zone-signing keys first. -/
def all (keys : KeySet) : List DNSKEY :=
  keys.zsk ++ keys.ksk

/-- No key of either kind. -/
def IsEmpty (keys : KeySet) : Prop :=
  keys.zsk = [] ∧ keys.ksk = []

instance (keys : KeySet) : Decidable keys.IsEmpty :=
  inferInstanceAs (Decidable (_ ∧ _))

theorem isEmpty_nil : IsEmpty ⟨[], []⟩ :=
  ⟨rfl, rfl⟩

/-- The set holds zone-signing keys on one side and key-signing keys on the
other, as every set the validator builds does. -/
structure Sorted (keys : KeySet) : Prop where
  zsk_flags : ∀ key ∈ keys.zsk, key.flags = 256
  ksk_flags : ∀ key ∈ keys.ksk, key.flags = 257

theorem classify_sorted (keys : List DNSKEY) : (classify keys).Sorted where
  zsk_flags := fun key member => by simpa using (List.mem_filter.mp member).2
  ksk_flags := fun key member => by simpa using (List.mem_filter.mp member).2

/-- Classifying a sorted set again changes nothing. -/
theorem Sorted.classify_all {keys : KeySet} (sorted : keys.Sorted) :
    classify keys.all = keys := by
  have zsk_only : keys.ksk.filter (fun key => key.flags = 256) = [] := by
    simp only [List.filter_eq_nil_iff, decide_eq_true_eq]
    intro key member flags
    have flags' := sorted.ksk_flags key member
    rw [flags] at flags'
    contradiction
  have ksk_only : keys.zsk.filter (fun key => key.flags = 257) = [] := by
    simp only [List.filter_eq_nil_iff, decide_eq_true_eq]
    intro key member flags
    have flags' := sorted.zsk_flags key member
    rw [flags] at flags'
    contradiction
  have zsk_all : keys.zsk.filter (fun key => key.flags = 256) = keys.zsk :=
    List.filter_eq_self.mpr fun key member => by simpa using sorted.zsk_flags key member
  have ksk_all : keys.ksk.filter (fun key => key.flags = 257) = keys.ksk :=
    List.filter_eq_self.mpr fun key member => by simpa using sorted.ksk_flags key member
  apply KeySet.ext
  · simp [classify, all, zsk_only, zsk_all]
  · simp [classify, all, ksk_only, ksk_all]

end KeySet

/-- A validated key set and the time it expires. -/
structure DnskeySet where
  expiresAt : Time
  keys : KeySet
  deriving DecidableEq

/-- The configured DS records of a name and the time they expire. -/
structure DsSet where
  expiresAt : Time
  records : List DS
  deriving DecidableEq

structure KeystoreEntry where
  keys : Option DnskeySet
  ds : Option DsSet
  deriving DecidableEq

/-- The store maps canonical names to entries. -/
abbrev Keystore := FiniteMap Name KeystoreEntry

/-- The smallest of some TTLs, starting from the largest 32-bit value. -/
def minTtl (ttls : List UInt32) : UInt32 :=
  ttls.foldl (fun ttl other => if other < ttl then other else ttl) 4294967295

/-- The time a TTL in seconds runs out. -/
def expiry (now : Time) (ttl : UInt32) : Time :=
  now + ttl.toNat * 1000000000

theorem le_expiry (now : Time) (ttl : UInt32) : now ≤ expiry now ttl := by
  have ttl_nonneg : (0 : Int) ≤ ttl.toNat * 1000000000 := by omega
  exact Int.le_add_of_nonneg_right ttl_nonneg

namespace Keystore

variable (dns : Library)

/-- The entry of a name; an absent one is created empty. -/
def getItem (store : Keystore) (name : Name) : KeystoreEntry :=
  (store.lookup (dns.canonicalName name)).getD { keys := none, ds := none }

/-- Add DS records to those already configured for a name. -/
def addDS (store : Keystore) (name : Name) (dss : List DS) (now : Time) : Keystore :=
  let item := store.getItem dns name
  let records := (item.ds.elim [] DsSet.records) ++ dss
  let ttl := minTtl (records.map fun ds => ds.hdr.ttl)
  store.insert (dns.canonicalName name)
    { item with ds := some { expiresAt := expiry now ttl, records := records } }

/-- Store a key set for a name in place of the one it has. -/
def addDNSKEY (store : Keystore) (name : Name) (keys : List DNSKEY) (now : Time) : Keystore :=
  let ttl := minTtl (keys.map fun key => key.hdr.ttl)
  let item := store.getItem dns name
  store.insert (dns.canonicalName name)
    { item with keys := some { expiresAt := expiry now ttl, keys := KeySet.classify keys } }

/-- The stored key set of a name, expired or not. -/
def storedKeys (store : Keystore) (name : Name) : Option DnskeySet :=
  (store.lookup (dns.canonicalName name)).bind KeystoreEntry.keys

/-- The stored DS records of a name, expired or not. -/
def storedDS (store : Keystore) (name : Name) : Option DsSet :=
  (store.lookup (dns.canonicalName name)).bind KeystoreEntry.ds

theorem getItem_keys (store : Keystore) (name : Name) :
    (store.getItem dns name).keys = store.storedKeys dns name := by
  unfold getItem storedKeys
  cases store.lookup (dns.canonicalName name) <;> rfl

theorem getItem_ds (store : Keystore) (name : Name) :
    (store.getItem dns name).ds = store.storedDS dns name := by
  unfold getItem storedDS
  cases store.lookup (dns.canonicalName name) <;> rfl

/-- Storing keys replaces the key set of that canonical name and no other. -/
theorem storedKeys_addDNSKEY (store : Keystore) (name other : Name) (keys : List DNSKEY)
    (now : Time) :
    (store.addDNSKEY dns name keys now).storedKeys dns other =
      if dns.canonicalName other = dns.canonicalName name then
        some { expiresAt := expiry now (minTtl (keys.map fun key => key.hdr.ttl))
               keys := KeySet.classify keys }
      else store.storedKeys dns other := by
  unfold addDNSKEY storedKeys
  rw [FiniteMap.lookup_insert_ite]
  split <;> rfl

/-- Storing keys leaves every configured DS record in place. -/
@[simp]
theorem storedDS_addDNSKEY (store : Keystore) (name other : Name) (keys : List DNSKEY)
    (now : Time) :
    (store.addDNSKEY dns name keys now).storedDS dns other = store.storedDS dns other := by
  have item_ds := store.getItem_ds dns name
  unfold addDNSKEY storedDS at *
  rw [FiniteMap.lookup_insert_ite]
  split
  · rename_i same
    rw [same, ← item_ds]
    rfl
  · rfl

/-- Configuring DS records leaves every stored key set in place. -/
@[simp]
theorem storedKeys_addDS (store : Keystore) (name other : Name) (dss : List DS)
    (now : Time) :
    (store.addDS dns name dss now).storedKeys dns other = store.storedKeys dns other := by
  have item_keys := store.getItem_keys dns name
  unfold addDS storedKeys at *
  rw [FiniteMap.lookup_insert_ite]
  split
  · rename_i same
    rw [same, ← item_keys]
    rfl
  · rfl

/-- The DS records of a name, expired or not. -/
def configuredDS (store : Keystore) (name : Name) : List DS :=
  (store.storedDS dns name).elim [] DsSet.records

/-- Adding DS records puts the new ones behind the old ones of that name. -/
theorem configuredDS_addDS (store : Keystore) (name other : Name) (dss : List DS) (now : Time) :
    (store.addDS dns name dss now).configuredDS dns other =
      store.configuredDS dns other ++
        if dns.canonicalName other = dns.canonicalName name then dss else [] := by
  have item_ds := store.getItem_ds dns name
  unfold addDS configuredDS storedDS at *
  rw [FiniteMap.lookup_insert_ite]
  split
  · rename_i same
    rw [same, ← item_ds]
    rfl
  · simp

end Keystore

/-- A time in 2017. -/
def sampleTime : Time := 1500000000000000000

/-- The keystore of a validator that has just stored the keys of the sample root
zone. -/
def sampleStore : Keystore :=
  Keystore.addDNSKEY reference ∅ root [Reference.rootZSK, Reference.rootKSK] sampleTime

end RouteDns.Dnssec
