import RouteDns.Blocklist.Load
import RouteDns.Cidr.Net
import RouteDns.Dns.Query

/-!
# Blocking responses by their addresses

A response blocklist looks up the addresses in a response.  It replaces a response with a
blocked address, or in filter mode removes the records that hold one and replaces the response
when no answer record is left.

What is left is not compared with what was there: a response without answer records counts as
emptied by the filter.
-/

namespace RouteDns.Blocklist

open Dns Cidr

/-- An extended error to add to blocked responses; the text is made from the query and the
match, which fails if the template does. -/
structure EDNS0EDETemplate where
  infoCode : List Byte
  extraText : Message → Option BlocklistMatch → Except Text Text

/-- Add the extended error to a response; a template that fails adds nothing. -/
def EDNS0EDETemplate.apply (template : Option EDNS0EDETemplate) (msg query : Message)
    (found : Option BlocklistMatch) : Message :=
  match template with
  | none => msg
  | some template =>
    match template.extraText query found with
    | .error _ => msg
    | .ok extraText =>
      let msg := msg.setEdns0 4096 false
      { msg with
        extra := Message.updateLastOPT
          (fun opt => { opt with
            options := opt.options ++ [.other edns0Ede (template.infoCode ++ extraText)] })
          msg.extra }

structure ResponseBlocklistIP where
  blocklistResolver : Option (Message → Resolved)
  blocklistDB : IP → Option BlocklistMatch
  filter : Bool
  inverted : Bool
  edns0EDETemplate : Option EDNS0EDETemplate

/-- A response, and whether the blocklist resolver was asked for it. -/
structure FilterOutcome where
  response : Resolved
  consulted : Bool

/-- The address in a record. -/
def addressIn (record : Record) : Option IP :=
  (record.asA?.or record.asAAAA?).map Prod.snd

namespace ResponseBlocklistIP

variable (r : ResponseBlocklistIP)

/-- The record holds an address that is blocked. -/
def blocks (record : Record) : Bool :=
  match addressIn record with
  | none => false
  | some ip => (r.blocklistDB ip).isSome != r.inverted

/-- What blocked responses are replaced by: the response of the blocklist resolver, or one made
here. -/
def replace (query : Message) (blocked : Message) : FilterOutcome :=
  match r.blocklistResolver with
  | some resolver => ⟨resolver query, true⟩
  | none => ⟨.ok (some blocked), false⟩

def blockIfMatch (query answer : Message) : FilterOutcome :=
  match (answer.answer ++ answer.ns ++ answer.extra).find? r.blocks with
  | some record =>
    r.replace query (EDNS0EDETemplate.apply r.edns0EDETemplate query.nxdomain query
      ((addressIn record).bind r.blocklistDB))
  | none => ⟨.ok (some answer), false⟩

def filterRR (records : List Record) : List Record :=
  records.filter fun record => !r.blocks record

def filterMatch (query answer : Message) : FilterOutcome :=
  let answer := { answer with answer := r.filterRR answer.answer }
  if answer.answer = [] then r.replace query query.nxdomain
  else
    ⟨.ok (some { answer with ns := r.filterRR answer.ns, extra := r.filterRR answer.extra }), false⟩

/-- Treat the upstream's response to a query. -/
def resolve (upstream : Resolved) (q : Message) : FilterOutcome :=
  match upstream with
  | .error err => ⟨.error err, false⟩
  | .ok none => ⟨.ok none, false⟩
  | .ok (some answer) =>
    if answer.rcode ≠ rcodeSuccess then ⟨.ok (some answer), false⟩
    else if r.filter then r.filterMatch q answer
    else r.blockIfMatch q answer

/-! ## What filtering is for -/

/-- The records of a response. -/
def records (answer : Message) : List Record :=
  answer.answer ++ answer.ns ++ answer.extra

/-- The response without the records that are blocked. -/
def filtered (answer : Message) : Message :=
  { answer with
    answer := r.filterRR answer.answer
    ns := r.filterRR answer.ns
    extra := r.filterRR answer.extra }

/-- A response with nothing to block is returned as it is.  Otherwise the blocked records are
removed; only if that took the last answer record may the response be replaced. -/
structure FiltersOnly (query answer : Message) (outcome : FilterOutcome) : Prop where
  unblocked : (∀ record ∈ records answer, r.blocks record = false) →
    outcome = ⟨.ok (some answer), false⟩
  blocked : (∃ record ∈ records answer, r.blocks record = true) →
    outcome = ⟨.ok (some (r.filtered answer)), false⟩ ∨
      (answer.answer ≠ [] ∧ r.filterRR answer.answer = [] ∧
        outcome = r.replace query query.nxdomain)

variable {r} {query answer : Message}

variable {list : List Record} {record : Record} {response : Message}

theorem filterRR_eq_self (none : ∀ record ∈ list, r.blocks record = false) :
    r.filterRR list = list := by
  rw [filterRR, List.filter_eq_self]
  intro record member
  rw [none record member]
  rfl

theorem filtered_eq_self (none : ∀ record ∈ records answer, r.blocks record = false) :
    r.filtered answer = answer := by
  have sections : ∀ list : List Record, (∀ record ∈ list, record ∈ records answer) →
      r.filterRR list = list := fun list inside =>
    filterRR_eq_self fun record member => none record (inside record member)
  simp only [filtered]
  rw [sections answer.answer (by simp +contextual [records]),
    sections answer.ns (by simp +contextual [records]),
    sections answer.extra (by simp +contextual [records])]

/-- A section with a blocked record gets shorter. -/
theorem filterRR_ne_self (member : record ∈ list) (isBlocked : r.blocks record = true) :
    r.filterRR list ≠ list := by
  intro same
  have kept := List.filter_eq_self.mp same record member
  rw [isBlocked] at kept
  cases kept

theorem filtered_ne_self (member : record ∈ records answer) (isBlocked : r.blocks record = true) :
    r.filtered answer ≠ answer := by
  intro same
  rw [records, List.append_assoc, List.mem_append, List.mem_append] at member
  rcases member with inAnswer | inNs | inExtra
  · exact filterRR_ne_self inAnswer isBlocked (congrArg Message.answer same)
  · exact filterRR_ne_self inNs isBlocked (congrArg Message.ns same)
  · exact filterRR_ne_self inExtra isBlocked (congrArg Message.extra same)

/-- A response that is not the one of the blocklist resolver is a name error. -/
theorem eq_nxdomain_of_replace
    (same : r.replace query query.nxdomain = ⟨.ok (some response), false⟩) :
    response = query.nxdomain := by
  cases resolver_eq : r.blocklistResolver with
  | some resolver => simp [replace, resolver_eq] at same
  | none => simpa [replace, resolver_eq, eq_comm] using same

theorem replace_ne (success : response.rcode = rcodeSuccess) :
    r.replace query query.nxdomain ≠ ⟨.ok (some response), false⟩ := by
  intro same
  rw [eq_nxdomain_of_replace same] at success
  have nameError : rcodeNameError = rcodeSuccess := success
  exact absurd nameError (by decide)

theorem resolve_filter (r : ResponseBlocklistIP) (query answer : Message) :
    resolve { r with filter := true } (.ok (some answer)) query =
      if answer.rcode ≠ rcodeSuccess then ⟨.ok (some answer), false⟩
      else if r.filterRR answer.answer = [] then r.replace query query.nxdomain
      else ⟨.ok (some (r.filtered answer)), false⟩ :=
  rfl

/-- What is left after filtering: all of a response without blocked records. -/
theorem filtersOnly_of_answer (nonempty : answer.answer ≠ []) :
    r.FiltersOnly query answer
      (if r.filterRR answer.answer = [] then r.replace query query.nxdomain
        else ⟨.ok (some (r.filtered answer)), false⟩) := by
  refine ⟨fun none => ?_, fun _ => ?_⟩
  · have all : r.filterRR answer.answer = answer.answer :=
      congrArg Message.answer (filtered_eq_self none)
    rw [all, if_neg nonempty, filtered_eq_self none]
  · split
    · rename_i left
      exact .inr ⟨nonempty, left, rfl⟩
    · exact .inl rfl

/-- A response without answer records is replaced, although nothing was removed. -/
theorem not_filtersOnly_of_empty (success : answer.rcode = rcodeSuccess)
    (empty : answer.answer = []) :
    ¬ r.FiltersOnly query answer (r.replace query query.nxdomain) := by
  intro filters
  by_cases none : ∀ record ∈ records answer, r.blocks record = false
  · exact replace_ne success (filters.unblocked none)
  · simp only [not_forall, Bool.not_eq_false, exists_prop] at none
    rcases filters.blocked none with removed | ⟨nonempty, _⟩
    · have filteredSuccess : (r.filtered answer).rcode = rcodeSuccess := success
      exact replace_ne filteredSuccess removed
    · exact nonempty empty

/-- Passing a response on is right if it has nothing to block. -/
theorem filtersOnly_self_iff :
    r.FiltersOnly query answer ⟨.ok (some answer), false⟩ ↔
      ∀ record ∈ records answer, r.blocks record = false := by
  constructor
  · intro filters record member
    by_contra isBlocked
    rw [Bool.not_eq_false] at isBlocked
    rcases filters.blocked ⟨record, member, isBlocked⟩ with removed | ⟨nonempty, _, replaced⟩
    · have same : r.filtered answer = answer := by simpa using removed.symm
      exact filtered_ne_self member isBlocked same
    · rw [eq_nxdomain_of_replace replaced.symm] at nonempty
      exact nonempty rfl
  · intro none
    refine ⟨fun _ => rfl, ?_⟩
    rintro ⟨record, member, isBlocked⟩
    rw [none record member] at isBlocked
    cases isBlocked

/-- Filtering does no more than remove blocked records exactly for the successful responses that
have an answer record, and for the others that have nothing to block. -/
theorem filter_only_iff (r : ResponseBlocklistIP) (query answer : Message) :
    r.FiltersOnly query answer (resolve { r with filter := true } (.ok (some answer)) query) ↔
      (answer.rcode = rcodeSuccess ∧ answer.answer ≠ []) ∨
        (answer.rcode ≠ rcodeSuccess ∧ ∀ record ∈ records answer, r.blocks record = false) := by
  rw [resolve_filter]
  by_cases success : answer.rcode = rcodeSuccess
  · rw [if_neg (not_not.mpr success)]
    by_cases empty : answer.answer = []
    · have nothingLeft : r.filterRR answer.answer = [] := by
        rw [empty]
        rfl
      rw [if_pos nothingLeft]
      exact iff_of_false (not_filtersOnly_of_empty success empty) (by simp [success, empty])
    · exact iff_of_true (filtersOnly_of_answer empty) (.inl ⟨success, empty⟩)
  · rw [if_pos success, filtersOnly_self_iff]
    simp [success]

/-- A list without rules in filter mode. -/
def emptyFilter : ResponseBlocklistIP where
  blocklistResolver := none
  blocklistDB := fun _ => none
  filter := true
  inverted := false
  edns0EDETemplate := none

/-- Nothing is blocked, but a response without answer records becomes a name error. -/
theorem noData_becomes_nameError :
    let query := Message.ofQuestion 7 (text "example.") typeAAAA classINET
    let answer := query.reply
    (∀ record ∈ records answer, emptyFilter.blocks record = false) ∧
      answer.rcode = rcodeSuccess ∧
      emptyFilter.resolve (.ok (some answer)) query = ⟨.ok (some query.nxdomain), false⟩ ∧
      ¬ emptyFilter.FiltersOnly query answer (emptyFilter.resolve (.ok (some answer)) query) := by
  have nothing : ∀ record ∈ records
      (Message.ofQuestion 7 (text "example.") typeAAAA classINET).reply,
      emptyFilter.blocks record = false := by
    intro record member
    cases member
  refine ⟨nothing, rfl, rfl, fun filters => ?_⟩
  have rcodes := congrArg (fun outcome => outcome.response.toOption.join.map Message.rcode)
    (filters.unblocked nothing)
  exact absurd rcodes (by decide)

end ResponseBlocklistIP

end RouteDns.Blocklist
