import RouteDns.Cidr.Match

/-!
# The shortest covering network

A trie of one address family, after any sequence of additions, stops an address at the shortest
of the added prefixes that the address starts with.  The sequence matters only through the
networks in it.
-/

namespace RouteDns.Cidr

/-- The prefix of a network: as many bits of its address as its mask has ones. -/
def IPNet.prefixBits (network : IPNet) : List Bool :=
  (bitsOf network.ip).take network.ones

/-- A network of the family with addresses of so many bytes. -/
structure IPNet.OfFamily (width : Nat) (network : IPNet) : Prop where
  size : network.ip.length = width
  bounded : network.ones ≤ width * 8

theorem IPNet.OfFamily.length_prefixBits {width : Nat} {network : IPNet}
    (family : network.OfFamily width) : network.prefixBits.length = network.ones := by
  have bounded := family.bounded
  rw [prefixBits, List.length_take, length_bitsOf, family.size]
  omega

/-- The prefixes of some networks. -/
def prefixesOf (networks : List IPNet) : Set (List Bool) :=
  { path | ∃ network ∈ networks, network.prefixBits = path }

/-- Adding networks, one after another, keeps their prefixes and leaves no leaf with children. -/
theorem foldlM_add {width : Nat} {networks : List IPNet}
    (family : ∀ network ∈ networks, network.OfFamily width) :
    ∃ trie, networks.foldlM add .absent = some trie ∧ trie.Holds (prefixesOf networks) ∧
      trie.LeavesBare := by
  induction networks using List.reverseRecOn with
  | nil => exact ⟨.absent, rfl, by simp [PrefixTrie.Holds, prefixesOf], trivial⟩
  | append_singleton networks network ih =>
    obtain ⟨trie, added, holds, bare⟩ := ih fun other member =>
      family other (List.mem_append_left _ member)
    have last := family network (by simp)
    refine ⟨trie.insert network.prefixBits, ?_, ?_, bare.insert _⟩
    · rw [List.foldlM_append, added]
      exact (bind_pure _).trans (add_eq trie (last.size ▸ last.bounded))
    · have paths : prefixesOf (networks ++ [network]) =
          insert network.prefixBits (prefixesOf networks) := by
        ext path
        simp [prefixesOf, or_and_right, exists_or, or_comm, eq_comm]
      rw [paths]
      exact holds.insert _

section Search

variable {width : Nat} {networks : List IPNet}
  (family : ∀ network ∈ networks, network.OfFamily width) {ip : IP}
  (sameFamily : ((to4 ip).getD ip).length = width)

include family sameFamily

/-- A prefix meets an address of its family where the address starts with it. -/
theorem meet_prefixBits_iff {network : IPNet} (member : network ∈ networks) {depth : Nat} :
    PrefixTrie.meet network.prefixBits (keyOf ip) = some depth ↔
      network.prefixBits <+: keyOf ip ∧ depth = network.ones := by
  have length := (family network member).length_prefixBits
  have bounded := (family network member).bounded
  have bits : (keyOf ip).length = width * 8 := by rw [keyOf, length_bitsOf, sameFamily]
  rw [PrefixTrie.meet_eq_some_iff_initial (by omega), length]

/-- The search stops at the shortest added prefix of the address. -/
theorem walk_eq_some_iff_shortest {trie : PrefixTrie} (holds : trie.Holds (prefixesOf networks))
    {depth : Nat} : trie.walk (keyOf ip) = some depth ↔
      ∃ network ∈ networks, network.prefixBits <+: keyOf ip ∧ network.ones = depth ∧
        ∀ other ∈ networks, other.prefixBits <+: keyOf ip → depth ≤ other.ones := by
  have meets := @meet_prefixBits_iff width networks family ip sameFamily
  rw [holds.walk_eq_some_iff]
  constructor
  · rintro ⟨⟨_, ⟨network, member, rfl⟩, met⟩, first⟩
    obtain ⟨front, same⟩ := (meets member).mp met
    refine ⟨network, member, front, same.symm, fun other otherMem otherFront => ?_⟩
    exact first _ ⟨other, otherMem, rfl⟩ _ ((meets otherMem).mpr ⟨otherFront, rfl⟩)
  · rintro ⟨network, member, front, rfl, shortest⟩
    refine ⟨⟨_, ⟨network, member, rfl⟩, (meets member).mpr ⟨front, rfl⟩⟩, ?_⟩
    rintro _ ⟨other, otherMem, rfl⟩ depth met
    obtain ⟨otherFront, rfl⟩ := (meets otherMem).mp met
    exact shortest other otherMem otherFront

/-- The text that is reported is that of the prefix. -/
theorem shortString_prefixBits (net : NetLibrary) {network : IPNet} (member : network ∈ networks)
    (front : network.prefixBits <+: keyOf ip) :
    shortString net (andMask ((to4 ip).getD ip) network.ones) network.ones =
      shortString net (andMask network.ip network.ones) network.ones := by
  have length := (family network member).length_prefixBits
  have same : network.ip.length = ((to4 ip).getD ip).length :=
    (family network member).size.trans sameFamily.symm
  rw [List.prefix_iff_eq_take, length] at front
  rw [(andMask_eq_iff same network.ones).mpr front]

end Search

/-- The report on an address after additions in any order: whether an added network covers it,
and the text of the shortest one that does.  No leaf has children. -/
theorem hasIP_reports_shortest (net : NetLibrary) {width : Nat} (networks : List IPNet)
    (family : ∀ network ∈ networks, network.OfFamily width) :
    ∃ trie, networks.foldlM add .absent = some trie ∧ trie.LeavesBare ∧
      ∀ ip : IP, ip.length = 4 ∨ ip.length = 16 → ((to4 ip).getD ip).length = width →
        ∃ rule hit, hasIP net trie ip = some (rule, hit) ∧
          (hit = true ↔ ∃ network ∈ networks, network.prefixBits <+: keyOf ip) ∧
          (hit = true → ∃ network ∈ networks, network.prefixBits <+: keyOf ip ∧
            (∀ other ∈ networks, other.prefixBits <+: keyOf ip → network.ones ≤ other.ones) ∧
            rule = shortString net (andMask network.ip network.ones) network.ones) ∧
          ∀ others : List IPNet, (∀ network, network ∈ others ↔ network ∈ networks) →
            (others.foldlM add .absent).bind (hasIP net · ip) = some (rule, hit) := by
  obtain ⟨trie, added, holds, bare⟩ := foldlM_add family
  refine ⟨trie, added, bare, fun ip size sameFamily => ?_⟩
  have stops := @walk_eq_some_iff_shortest width networks family ip sameFamily trie holds
  refine ⟨_, _, hasIP_eq net trie size, ?_, ?_, ?_⟩
  · cases walked : trie.walk (keyOf ip) with
    | none =>
      refine iff_of_false Bool.false_ne_true ?_
      rintro ⟨network, member, front⟩
      obtain ⟨stopped, reached, _⟩ := holds.walk_le ⟨network, member, rfl⟩
        ((meet_prefixBits_iff family sameFamily member).mpr ⟨front, rfl⟩)
      cases walked.symm.trans reached
    | some depth =>
      obtain ⟨network, member, front, _⟩ := stops.mp walked
      exact iff_of_true rfl ⟨network, member, front⟩
  · cases walked : trie.walk (keyOf ip) with
    | none => exact fun hit => absurd hit Bool.false_ne_true
    | some depth =>
      obtain ⟨network, member, front, rfl, shortest⟩ := stops.mp walked
      exact fun _ => ⟨network, member, front, shortest,
        shortString_prefixBits family sameFamily net member front⟩
  · intro others same
    have otherFamily : ∀ network ∈ others, network.OfFamily width := fun network member =>
      family network ((same network).mp member)
    obtain ⟨otherTrie, otherAdded, otherHolds, _⟩ := foldlM_add otherFamily
    have paths : prefixesOf others = prefixesOf networks := by
      simp only [prefixesOf, same]
    rw [paths] at otherHolds
    have walks : otherTrie.walk (keyOf ip) = trie.walk (keyOf ip) := by
      refine Option.ext fun depth => ?_
      rw [holds.walk_eq_some_iff, otherHolds.walk_eq_some_iff]
    rw [otherAdded, Option.bind_some, hasIP_eq net otherTrie size, walks]
    rfl

/-- 10.1.2.3 is covered by 10.0.0.0/8, although 10.1.0.0/16 was added first. -/
theorem hasIP_reports_shortest_ten :
    let networks : List IPNet := [⟨[10, 1, 0, 0], 16, 32⟩, ⟨[10, 0, 0, 0], 8, 32⟩]
    ∃ trie, networks.foldlM add .absent = some trie ∧
      ∃ rule, hasIP mappedLibrary trie [10, 1, 2, 3] = some (rule, true) := by
  intro networks
  have family : ∀ network ∈ networks, network.OfFamily 4 := by
    intro network member
    rcases List.mem_cons.mp member with rfl | member
    · exact ⟨rfl, by decide⟩
    · cases List.mem_singleton.mp member
      exact ⟨rfl, by decide⟩
  obtain ⟨trie, added, _, reports⟩ := hasIP_reports_shortest mappedLibrary networks family
  obtain ⟨rule, hit, found, hit_iff, _⟩ := reports [10, 1, 2, 3] (.inl rfl) rfl
  refine ⟨trie, added, rule, ?_⟩
  rw [found, hit_iff.mpr ⟨⟨[10, 0, 0, 0], 8, 32⟩, by simp [networks], by decide⟩]

end RouteDns.Cidr
