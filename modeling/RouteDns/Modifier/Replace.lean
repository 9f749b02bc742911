import Mathlib.Data.List.Forall2
import RouteDns.Dns.Query
import RouteDns.Dns.Reference
import RouteDns.Dnssec.NameOrder

/-!
# Replacing names

The name in a query is rewritten by a list of expressions and the query passed on under the new
name.  In the response the new name is put back, in the question and in the answer records that
are owned by it.

The new name is looked for by its text, while a name off the wire may come in any case and is
printed in one way.  An answer record whose owner is the new name in another spelling is left as
it is and shows the new name to the client.
-/

namespace RouteDns.Modifier

open Dns Dnssec

/-! ## Model -/

/-- An expression with its replacement: what `ReplaceAllString` makes of a text. -/
abbrev ReplaceExp := Text → Text

/-- Apply the expressions one after the other. -/
def applyExpressions (exp : List ReplaceExp) (name : Text) : Text :=
  exp.foldl (fun name replaceAllString => replaceAllString name) name

/-- A header with another owner. -/
def withOwner (owner : DomainName) (hdr : RRHeader) : RRHeader :=
  { hdr with owner := owner }

/-- A record with another owner. -/
def renamed (owner : DomainName) : Record → Record
  | .opt record => .opt { record with hdr := withOwner owner record.hdr }
  | .rr (.dnskey record) => .rr (.dnskey { record with hdr := withOwner owner record.hdr })
  | .rr (.ds record) => .rr (.ds { record with hdr := withOwner owner record.hdr })
  | .rr (.rrsig record) => .rr (.rrsig { record with hdr := withOwner owner record.hdr })
  | .rr (.nsec record) => .rr (.nsec { record with hdr := withOwner owner record.hdr })
  | .rr (.nsec3 record) => .rr (.nsec3 { record with hdr := withOwner owner record.hdr })
  | .rr (.cname record) => .rr (.cname { record with hdr := withOwner owner record.hdr })
  | .rr (.other hdr rdata) => .rr (.other (withOwner owner hdr) rdata)

theorem renamed_header (owner : DomainName) (record : Record) :
    (renamed owner record).header = withOwner owner record.header := by
  rcases record with record | record
  · cases record <;> rfl
  · rfl

/-- Put a name in the first question. -/
def setName (name : Text) : List AskedQuestion → List AskedQuestion
  | [] => []
  | question :: rest => { question with name := name } :: rest

/-- Put the original name back into a response. -/
def putBack (oldName : DomainName) (newName : Text) (a : Message) : Message :=
  { a with
    question := setName oldName.print a.question
    answer := a.answer.map fun answer =>
      if answer.header.name = newName then renamed oldName answer else answer }

/-- A call: what was passed on, what it returns, and the caller's message after it. -/
structure ReplaceCall where
  sent : Message
  response : Resolved
  query : Message

/-- Resolve a query under another name.  The caller's message is copied before it is changed. -/
def Replace.resolve (exp : List ReplaceExp) (resolver : Message → Resolved) (q : NamedQuery) :
    ReplaceCall :=
  let oldName := q.question.name
  let newName := applyExpressions exp oldName
  if newName = oldName then
    { sent := q.msg, response := resolver q.msg, query := q.msg }
  else
    let copy := { q.msg with question := setName newName q.msg.question }
    { sent := copy
      response :=
        match resolver copy with
        | .error err => .error err
        | .ok none => .ok none
        | .ok (some a) => .ok (some (putBack q.name newName a))
      query := q.msg }

/-! ## Names up to spelling -/

variable (dns : Library)

/-- The record is owned by the name that a text spells, in any case and with any escapes. -/
def OwnedBy (name : Text) (record : Record) : Prop :=
  record.header.owner.lower.labels = canonicalLabels dns name

instance (name : Text) (record : Record) : Decidable (OwnedBy dns name record) :=
  inferInstanceAs (Decidable (_ = _))

/-- A text spells a name. -/
def Spells (name : Text) (original : DomainName) : Prop :=
  canonicalLabels dns name = original.lower.labels

theorem ownedBy_of_name_eq {name : Text} {record : Record} (same : record.header.name = name) :
    OwnedBy dns name record := by
  rw [OwnedBy, ← same, canonicalLabels_print]

theorem ownedBy_renamed_iff (name : Text) (original : DomainName) (record : Record) :
    OwnedBy dns name (renamed original record) ↔ Spells dns name original := by
  rw [OwnedBy, renamed_header, Spells]
  exact eq_comm

/-- In a response the new name is replaced by the original one: no answer record is owned by the
new name unless it is the original one, the records that were are owned by the original name, and
everything else stays. -/
structure MapsBack (original : DomainName) (name : Text) (before after : Message) : Prop where
  hidden : ¬ Spells dns name original → ∀ record ∈ after.answer, ¬ OwnedBy dns name record
  owned : List.Forall₂ (fun record result =>
    if OwnedBy dns name record then
      result = renamed original record ∨ Spells dns name original ∧ result = record
    else result = record) before.answer after.answer
  ns : after.ns = before.ns
  extra : after.extra = before.extra

/-- The answer records owned by a name have it in the same spelling. -/
def SpelledAlike (name : Text) (a : Message) : Prop :=
  ∀ record ∈ a.answer, OwnedBy dns name record → record.header.name = name

variable {dns} {original : DomainName} {name : Text} {a : Message}

theorem mem_putBack {record : Record} (member : record ∈ (putBack original name a).answer) :
    (∃ source, record = renamed original source) ∨
      (record ∈ a.answer ∧ record.header.name ≠ name) := by
  obtain ⟨source, sourceMem, rfl⟩ := List.mem_map.mp member
  by_cases same : source.header.name = name
  · rw [if_pos same]
    exact .inl ⟨source, rfl⟩
  · rw [if_neg same]
    exact .inr ⟨sourceMem, same⟩

/-- Looking for the text of the new name finds the records owned by it if they all have it in
the same spelling. -/
theorem mapsBack_of_spelledAlike (alike : SpelledAlike dns name a) :
    MapsBack dns original name a (putBack original name a) where
  hidden other record member owned := by
    rcases mem_putBack member with ⟨source, rfl⟩ | ⟨kept, differs⟩
    · exact other ((ownedBy_renamed_iff dns name original source).mp owned)
    · exact differs (alike record kept owned)
  owned := by
    rw [putBack, List.forall₂_map_right_iff, List.forall₂_same]
    intro record member
    split
    · rename_i owned
      rw [if_pos (alike record member owned)]
      exact .inl rfl
    · rename_i notOwned
      rw [if_neg fun same => notOwned (ownedBy_of_name_eq dns same)]
  ns := rfl
  extra := rfl

/-- If the new name is the original one in another spelling, nothing is there to hide. -/
theorem mapsBack_of_spells (same : Spells dns name original) :
    MapsBack dns original name a (putBack original name a) where
  hidden other := absurd same other
  owned := by
    rw [putBack, List.forall₂_map_right_iff, List.forall₂_same]
    intro record member
    by_cases alike : record.header.name = name
    · rw [if_pos alike, if_pos (ownedBy_of_name_eq dns alike)]
      exact .inl rfl
    · split
      · exact .inr ⟨same, rfl⟩
      · rfl
  ns := rfl
  extra := rfl

theorem mapsBack_putBack_iff :
    MapsBack dns original name a (putBack original name a) ↔
      Spells dns name original ∨ SpelledAlike dns name a := by
  constructor
  · intro mapsBack
    by_contra neither
    rw [not_or] at neither
    obtain ⟨other, notAlike⟩ := neither
    simp only [SpelledAlike, not_forall] at notAlike
    obtain ⟨record, member, owned, differs⟩ := notAlike
    -- the record is left as it is, so it shows the new name
    have kept : record ∈ (putBack original name a).answer :=
      List.mem_map.mpr ⟨record, member, if_neg differs⟩
    exact mapsBack.hidden other record kept owned
  · rintro (same | alike)
    · exact mapsBack_of_spells same
    · exact mapsBack_of_spelledAlike alike

/-- A response that is passed through as it is. -/
theorem mapsBack_self (same : Spells dns name original) : MapsBack dns original name a a where
  hidden other := absurd same other
  owned := by
    rw [List.forall₂_same]
    intro record member
    split
    · exact .inr ⟨same, rfl⟩
    · rfl
  ns := rfl
  extra := rfl

/-- Whatever the expressions and the response: the caller's message is not changed, and in what
is returned the new name is replaced by the original one, if and only if the two are the same
name or the answer records owned by the new name have it in the same spelling. -/
theorem replaced_name_hidden_iff (dns : Library) (exp : List ReplaceExp)
    (resolver : Message → Resolved) (q : NamedQuery) {a : Message}
    (answered : resolver (Replace.resolve exp resolver q).sent = .ok (some a)) :
    (Replace.resolve exp resolver q).query = q.msg ∧
      ∃ result, (Replace.resolve exp resolver q).response = .ok (some result) ∧
        (MapsBack dns q.name (applyExpressions exp q.question.name) a result ↔
          Spells dns (applyExpressions exp q.question.name) q.name ∨
            SpelledAlike dns (applyExpressions exp q.question.name) a) := by
  unfold Replace.resolve at answered ⊢
  dsimp only at answered ⊢
  split at answered
  · rename_i unchanged
    rw [if_pos unchanged]
    have same : Spells dns (applyExpressions exp q.question.name) q.name := by
      rw [unchanged, q.question_name, Spells, canonicalLabels_print]
    exact ⟨rfl, a, answered, iff_of_true (mapsBack_self same) (.inl same)⟩
  · rename_i changed
    rw [if_neg changed]
    refine ⟨rfl, putBack q.name (applyExpressions exp q.question.name) a, ?_, mapsBack_putBack_iff⟩
    rw [answered]

/-! ## Sample responses -/

def shopName : DomainName := { labels := [text "WWW", text "shop"] }

def internalName : DomainName := { labels := [text "WWW", text "internal"] }

def shopQuery : NamedQuery where
  msg := Message.ofQuestion 1 shopName.print typeA classINET
  name := shopName
  asked := rfl

/-- Put another domain behind the first label. -/
def toInternal : ReplaceExp := fun name => name.take 4 ++ text "internal."

/-- The response to any query, with an address owned by a name. -/
def addressFor (owner : DomainName) (q : Message) : Message :=
  { q.reply with
    answer := [.ofAddress { owner := owner, rrtype := typeA, rrclass := classINET, ttl := 60 }
      [10, 0, 0, 1]] }

/-- A response in the case of the query is mapped back. -/
theorem same_case_mapped_back :
    ∃ result, (Replace.resolve [toInternal] (fun q => .ok (some (addressFor internalName q)))
        shopQuery).response = .ok (some result) ∧
      MapsBack reference shopName internalName.print
        (addressFor internalName
          { shopQuery.msg with question := setName internalName.print shopQuery.msg.question })
        result := by
  obtain ⟨_, result, resolved, mapsBack⟩ := replaced_name_hidden_iff reference [toInternal]
    (fun q => .ok (some (addressFor internalName q))) shopQuery rfl
  refine ⟨result, resolved, mapsBack.mpr (.inr ?_)⟩
  intro record member _
  obtain rfl := List.mem_singleton.mp member
  rfl

/-- A response in lower case, as an earlier query may have left it in a cache, shows the new
name. -/
theorem lower_case_shown :
    ∃ result, (Replace.resolve [toInternal]
        (fun q => .ok (some (addressFor internalName.lower q))) shopQuery).response =
          .ok (some result) ∧
      result.answer.map (fun record => record.header.owner) = [internalName.lower] ∧
      ¬ MapsBack reference shopName internalName.print
        (addressFor internalName.lower
          { shopQuery.msg with question := setName internalName.print shopQuery.msg.question })
        result := by
  refine ⟨putBack shopName internalName.print (addressFor internalName.lower
    { shopQuery.msg with question := setName internalName.print shopQuery.msg.question }),
    rfl, rfl, ?_⟩
  rw [mapsBack_putBack_iff]
  rintro (same | alike)
  · exact absurd same (by unfold Spells; decide +kernel)
  · have spelled := alike _ List.mem_cons_self (by decide +kernel)
    exact absurd spelled (by decide)

end RouteDns.Modifier
