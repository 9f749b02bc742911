import Mathlib.Algebra.GroupWithZero.Nat
import RouteDns.Transport.Listener

/-!
# Padding

Messages over encrypted transports are padded to full blocks, so that their length tells
little about them.  Responses are not padded beyond the size that the query announces.  The
padding goes into the last padding option of the EDNS0 data and is cut from fixed buffers;
all other padding options are emptied first.  An option with the code of padding that is of
another type, as the EDNS0 modifier adds it, makes the program panic.

How long a message is belongs to the DNS library; here it is only used that a byte of padding
makes it one byte longer.
-/

namespace RouteDns.Transport

open Dns

def queryPaddingBlockSize : Nat := 128

def queryPadBuf : Text :=
  List.replicate queryPaddingBlockSize 0

/-- The length of the padding of a query. -/
def queryPadLen (len : Int) : Int :=
  queryPaddingBlockSize - len % queryPaddingBlockSize

/-- Pad a query with EDNS0 to full blocks. -/
def padQuery (sizing : Sizing) (q : Outgoing) : Option Outgoing :=
  if q.msg.isEdns0.isNone then some q
  else if paddingAsserted (ednsOptions q) then
    let q := mapOptions clearPadding q
    (sliceTo queryPadBuf (queryPadLen (sizing.len q))).map fun padding =>
      mapOptions (fillPadding padding) q
  else none

/-! ## The bounds of the buffers -/

/-- A slice of a buffer of zeros. -/
theorem sliceTo_replicate {size stop : Nat} (inside : stop ≤ size) :
    sliceTo (List.replicate size 0) stop = some (List.replicate stop 0) := by
  have bound : 0 + stop ≤ (List.replicate size (0 : Byte)).length := by
    rw [List.length_replicate, Nat.zero_add]
    exact inside
  have cut := Reader.slice_of_le bound
  rw [Nat.zero_add] at cut
  rw [sliceTo, if_neg (by omega), Int.toNat_natCast, cut, List.drop_zero, List.take_replicate,
    Nat.min_eq_left inside]

/-- A message with this much padding fills its last block. -/
theorem mod_add_dvd (block len : Nat) (positive : 0 < block) :
    block ∣ len + (block - len % block) := by
  have below := Nat.mod_lt len positive
  have split := Nat.mod_add_div len block
  refine ⟨len / block + 1, ?_⟩
  rw [Nat.mul_add, Nat.mul_one]
  omega

/-- The padding of a response in natural numbers. -/
def answerPadding (len udpSize : Nat) : Nat :=
  let padLen := responsePaddingBlockSize - len % responsePaddingBlockSize
  if udpSize < len + padLen then udpSize - len else padLen

theorem answerPadLen_eq (len udpSize : Nat) :
    answerPadLen len udpSize = answerPadding len udpSize := by
  have below : len % responsePaddingBlockSize < responsePaddingBlockSize :=
    Nat.mod_lt len (by decide)
  by_cases beyond : udpSize < len + (responsePaddingBlockSize - len % responsePaddingBlockSize)
  · rw [answerPadding, if_pos beyond, answerPadLen, if_pos (by omega)]
    omega
  · rw [answerPadding, if_neg beyond, answerPadLen, if_neg (by omega)]
    omega

theorem answerPadding_le (len udpSize : Nat) :
    answerPadding len udpSize ≤ responsePaddingBlockSize := by
  by_cases beyond : udpSize < len + (responsePaddingBlockSize - len % responsePaddingBlockSize)
  · rw [answerPadding, if_pos beyond]
    omega
  · rw [answerPadding, if_neg beyond]
    exact Nat.sub_le _ _

theorem queryPadLen_eq (len : Nat) :
    queryPadLen len = (queryPaddingBlockSize - len % queryPaddingBlockSize : Nat) := by
  simp only [queryPadLen, queryPaddingBlockSize]
  omega

/-- A padded response fills its last block or all of the announced size, unless it is longer
without padding. -/
theorem answerPadding_fills (len udpSize : Nat) :
    responsePaddingBlockSize ∣ len + answerPadding len udpSize ∨
      len + answerPadding len udpSize = udpSize ∨
      udpSize < len ∧ answerPadding len udpSize = 0 := by
  by_cases beyond : udpSize < len + (responsePaddingBlockSize - len % responsePaddingBlockSize)
  · rw [answerPadding, if_pos beyond]
    omega
  · rw [answerPadding, if_neg beyond]
    exact .inl (mod_add_dvd responsePaddingBlockSize len (by decide))

/-! ## Padding options -/

/-- An option without padding bytes. -/
def emptied (option : EdnsOption) : EdnsOption :=
  if option.code = edns0Padding then .padding [] else option

variable {option : EdnsOption} (padding : Text) {options : List EdnsOption} {m : Outgoing}
  {q : Message}

theorem emptied_of_ne (other : option.code ≠ edns0Padding) : emptied option = option :=
  if_neg other

theorem map_emptied_of_ne (others : ∀ option ∈ options, option.code ≠ edns0Padding) :
    options.map emptied = options := by
  rw [List.map_congr_left fun option member => emptied_of_ne (others option member), List.map_id']

@[simp]
theorem code_emptied (option : EdnsOption) : (emptied option).code = option.code := by
  unfold emptied
  split
  · rename_i isPadding
    exact isPadding.symm
  · rfl

@[simp]
theorem emptied_emptied (option : EdnsOption) : emptied (emptied option) = emptied option := by
  by_cases isPadding : option.code = edns0Padding
  · rw [emptied, code_emptied, if_pos isPadding, emptied, if_pos isPadding]
  · rw [emptied_of_ne (by rwa [code_emptied])]

def isPadding (option : EdnsOption) : Bool :=
  option.code = edns0Padding

/-- The options other than padding. -/
def others (options : List EdnsOption) : List EdnsOption :=
  options.filter fun option => option.code ≠ edns0Padding

theorem others_map_emptied (options : List EdnsOption) :
    others (options.map emptied) = others options := by
  induction options with
  | nil => rfl
  | cons option rest ih =>
    by_cases isPadding : option.code = edns0Padding
    · rw [List.map_cons, others, List.filter_cons_of_neg (by simpa using isPadding), others,
        List.filter_cons_of_neg (by simpa using isPadding)]
      exact ih
    · rw [List.map_cons, emptied_of_ne isPadding, others,
        List.filter_cons_of_pos (by simpa using isPadding), others,
        List.filter_cons_of_pos (by simpa using isPadding)]
      exact congrArg _ ih

/-- A list with padding, cut at its last padding option. -/
theorem exists_last_padding (any : options.any isPadding) :
    ∃ before option after, options = before ++ option :: after ∧
      option.code = edns0Padding ∧ ∀ later ∈ after, later.code ≠ edns0Padding := by
  induction options with
  | nil => cases any
  | cons head rest ih =>
    by_cases later : rest.any isPadding
    · obtain ⟨before, option, after, rfl, isLast⟩ := ih later
      exact ⟨head :: before, option, after, rfl, isLast⟩
    · have none : ∀ option ∈ rest, option.code ≠ edns0Padding := by
        intro option member isPadding
        exact later (List.any_eq_true.mpr ⟨option, member, decide_eq_true isPadding⟩)
      have first : head.code = edns0Padding := by
        rw [List.any_cons, Bool.or_eq_true] at any
        exact of_decide_eq_true (any.resolve_right later)
      exact ⟨[], head, rest, rfl, first, none⟩

/-- The last padding option is filled. -/
theorem fillPadding_last {after : List EdnsOption} (isPadding : option.code = edns0Padding)
    (last : ∀ later ∈ after, later.code ≠ edns0Padding) (before : List EdnsOption) :
    fillPadding padding (before ++ option :: after) =
      before ++ .padding padding :: after := by
  induction before with
  | nil =>
    have none : ¬ after.any fun later => later.code = edns0Padding := by
      simpa using last
    rw [List.nil_append, fillPadding, if_pos ⟨isPadding, none⟩]
    rfl
  | cons head before ih =>
    have later : (before ++ option :: after).any fun later => later.code = edns0Padding := by
      simp [isPadding]
    rw [List.cons_append, fillPadding, if_neg fun condition => condition.2 later, ih]
    rfl

variable (options)

/-- Clearing leaves a last padding option that is empty, and the other options as they are. -/
theorem clearPadding_split :
    ∃ before after, clearPadding options = before ++ .padding [] :: after ∧
      before.map emptied = before ∧ (∀ later ∈ after, later.code ≠ edns0Padding) ∧
      others before ++ others after = others options := by
  by_cases any : options.any isPadding
  · obtain ⟨before, option, after, rfl, isPadding, last⟩ := exists_last_padding any
    refine ⟨before.map emptied, after, ?_, by simp, last, ?_⟩
    · have cleared : clearPadding (before ++ option :: after) =
          (before ++ option :: after).map emptied := if_pos any
      rw [cleared, List.map_append, List.map_cons, map_emptied_of_ne last, emptied,
        if_pos isPadding]
    · rw [others_map_emptied, others, others, others, List.filter_append,
        List.filter_cons_of_neg (by simpa using isPadding)]
  · have cleared : clearPadding options = options.map emptied ++ [.padding []] :=
      if_neg any
    refine ⟨options.map emptied, [], cleared, by simp, by simp, ?_⟩
    rw [others_map_emptied]
    exact List.append_nil _

/-- Emptying all padding options takes filled padding away. -/
theorem map_emptied_fillPadding :
    (fillPadding padding (clearPadding options)).map emptied = clearPadding options := by
  obtain ⟨before, after, cleared, empty, last, -⟩ := clearPadding_split options
  rw [cleared, fillPadding_last padding rfl last, List.map_append, List.map_cons, empty,
    map_emptied_of_ne last]
  rfl

/-- So does clearing. -/
theorem clearPadding_fillPadding :
    clearPadding (fillPadding padding (clearPadding options)) = clearPadding options := by
  obtain ⟨before, after, cleared, -, last, -⟩ := clearPadding_split options
  have any : (fillPadding padding (clearPadding options)).any isPadding := by
    rw [cleared, fillPadding_last padding rfl last]
    simp [isPadding, EdnsOption.code]
  exact (if_pos any).trans (map_emptied_fillPadding padding options)

/-- To fill with nothing is to clear. -/
theorem fillPadding_nil : fillPadding [] (clearPadding options) = clearPadding options := by
  obtain ⟨before, after, cleared, -, last, -⟩ := clearPadding_split options
  rw [cleared, fillPadding_last [] rfl last]

theorem others_fillPadding :
    others (fillPadding padding (clearPadding options)) = others options := by
  obtain ⟨before, after, cleared, -, last, kept⟩ := clearPadding_split options
  rw [cleared, fillPadding_last padding rfl last, ← kept, others, List.filter_append,
    List.filter_cons_of_neg (by simp [EdnsOption.code])]
  rfl

/-- What is filled was of the right type. -/
theorem paddingAsserted_fillPadding :
    paddingAsserted (fillPadding padding (clearPadding options)) := by
  obtain ⟨before, after, cleared, empty, last, -⟩ := clearPadding_split options
  have asserted : ∀ option ∈ before, option.code ≠ edns0Padding ∨ isPaddingType option := by
    intro option member
    rw [← empty, List.mem_map] at member
    obtain ⟨original, -, rfl⟩ := member
    by_cases isPadding : original.code = edns0Padding
    · rw [emptied, if_pos isPadding]
      exact .inr rfl
    · rw [code_emptied]
      exact .inl isPadding
  rw [cleared, fillPadding_last padding rfl last, paddingAsserted, List.all_append, List.all_cons,
    Bool.and_eq_true, Bool.and_eq_true]
  refine ⟨?_, by rw [Bool.or_eq_true]; exact .inr rfl, ?_⟩
  · simpa using asserted
  · simpa using fun option member => Or.inl (last option member)

theorem any_clearPadding : (clearPadding options).any isPadding := by
  obtain ⟨before, after, cleared, -⟩ := clearPadding_split options
  rw [cleared]
  simp [isPadding, EdnsOption.code]

/-! ## Messages -/

theorem mapOptions_mapOptions (after before : List EdnsOption → List EdnsOption) (m : Outgoing) :
    mapOptions after (mapOptions before m) = mapOptions (after ∘ before) m := by
  unfold mapOptions
  rw [Message.updateLastOPT_updateLastOPT]
  rfl

theorem isEdns0_mapOptions (update : List EdnsOption → List EdnsOption) (m : Outgoing) :
    (mapOptions update m).msg.isEdns0 =
      m.msg.isEdns0.map fun edns0 => { edns0 with options := update edns0.options } :=
  Message.isEdns0_updateLastOPT _ m.msg

theorem ednsOptions_mapOptions (update : List EdnsOption → List EdnsOption)
    (present : m.msg.isEdns0.isSome) :
    ednsOptions (mapOptions update m) = update (ednsOptions m) := by
  obtain ⟨edns0, found⟩ := Option.isSome_iff_exists.mp present
  rw [ednsOptions, isEdns0_mapOptions, ednsOptions, found]
  rfl

/-- A message without the bytes of its padding options. -/
def withoutPaddingBytes (m : Outgoing) : Outgoing :=
  mapOptions (List.map emptied) m

/-- Every byte of padding makes a message one byte longer. -/
def Sizing.CountsPadding (sizing : Sizing) : Prop :=
  ∀ (m : Outgoing) (padding : Text), (ednsOptions m).any isPadding →
    sizing.len (mapOptions (fillPadding padding) m) =
      sizing.len (mapOptions (fillPadding []) m) + padding.length

/-- A message whose padding options are empty but for the last one, which holds zeros. -/
def padded (padLen : Nat) (m : Outgoing) : Outgoing :=
  mapOptions (fillPadding (List.replicate padLen 0)) (mapOptions clearPadding m)

/-- The length of a message before it is padded. -/
def unpaddedLen (sizing : Sizing) (m : Outgoing) : Nat :=
  sizing.len (mapOptions clearPadding m)

variable (padLen : Nat)

theorem clear_padded (m : Outgoing) :
    mapOptions clearPadding (padded padLen m) = mapOptions clearPadding m := by
  rw [padded, mapOptions_mapOptions, mapOptions_mapOptions]
  exact congrArg (mapOptions · m) (funext (clearPadding_fillPadding _))

/-- Padding depends on what it finds in other options only. -/
theorem padded_padded (before : Nat) (m : Outgoing) :
    padded padLen (padded before m) = padded padLen m := by
  rw [padded, clear_padded, padded]

theorem unpaddedLen_padded (sizing : Sizing) (padLen : Nat) (m : Outgoing) :
    unpaddedLen sizing (padded padLen m) = unpaddedLen sizing m := by
  rw [unpaddedLen, clear_padded, unpaddedLen]

theorem withoutPaddingBytes_padded (m : Outgoing) :
    withoutPaddingBytes (padded padLen m) = mapOptions clearPadding m := by
  rw [withoutPaddingBytes, padded, mapOptions_mapOptions, mapOptions_mapOptions]
  exact congrArg (mapOptions · m) (funext (map_emptied_fillPadding _))

theorem padded_zero (m : Outgoing) : padded 0 m = mapOptions clearPadding m := by
  rw [padded, mapOptions_mapOptions]
  exact congrArg (mapOptions · m) (funext fillPadding_nil)

theorem stripPadding_padded (m : Outgoing) : stripPadding (padded padLen m) = stripPadding m := by
  rw [stripPadding, padded, mapOptions_mapOptions, mapOptions_mapOptions]
  exact congrArg (mapOptions · m) (funext (others_fillPadding _))

theorem isEdns0_padded (m : Outgoing) :
    (padded padLen m).msg.isEdns0.isSome = m.msg.isEdns0.isSome := by
  rw [padded, isEdns0_mapOptions, Option.isSome_map, isEdns0_mapOptions, Option.isSome_map]

theorem len_padded {sizing : Sizing} (counts : sizing.CountsPadding) (padLen : Nat)
    (present : m.msg.isEdns0.isSome) :
    sizing.len (padded padLen m) = unpaddedLen sizing m + padLen := by
  have any : (ednsOptions (mapOptions clearPadding m)).any isPadding := by
    rw [ednsOptions_mapOptions clearPadding present]
    exact any_clearPadding _
  have zero := padded_zero m
  rw [padded, List.replicate_zero] at zero
  rw [padded, counts _ _ any, zero, List.length_replicate, unpaddedLen]

/-- The options that remain of a message without padding. -/
theorem ednsOptions_stripPadding (m : Outgoing) :
    ednsOptions (stripPadding m) = others (ednsOptions m) := by
  rw [ednsOptions, stripPadding, isEdns0_mapOptions, ednsOptions]
  cases m.msg.isEdns0 with
  | none => rfl
  | some edns0 => rfl

/-! ## Responses and queries -/

theorem withEdns0_of_isSome (edns0q : OPT) {a : Outgoing} (present : a.msg.isEdns0.isSome) :
    withEdns0 edns0q a = a := by
  rw [withEdns0, if_neg]
  rw [← Option.not_isSome, present]
  exact Bool.false_ne_true

/-- EDNS0 data that are added have no options. -/
theorem isEdns0_withEdns0_eq (edns0q : OPT) (a : Outgoing) :
    ∃ edns0, (withEdns0 edns0q a).msg.isEdns0 = some edns0 ∧ edns0.options = ednsOptions a := by
  cases present : a.msg.isEdns0 with
  | none =>
    rw [withEdns0, present, Option.isNone_none, if_pos rfl, ednsOptions, present]
    exact a.msg.isEdns0_setEdns0 edns0q.hdr.rrclass edns0q.dnssecOk
  | some edns0 =>
    have already : a.msg.isEdns0.isSome := by rw [present, Option.isSome_some]
    rw [withEdns0_of_isSome edns0q already, ednsOptions, present]
    exact ⟨edns0, rfl, rfl⟩

theorem isEdns0_withEdns0 (edns0q : OPT) (a : Outgoing) :
    (withEdns0 edns0q a).msg.isEdns0.isSome := by
  obtain ⟨edns0, found, -⟩ := isEdns0_withEdns0_eq edns0q a
  rw [found, Option.isSome_some]

theorem ednsOptions_withEdns0 (edns0q : OPT) (a : Outgoing) :
    ednsOptions (withEdns0 edns0q a) = ednsOptions a := by
  obtain ⟨edns0, found, same⟩ := isEdns0_withEdns0_eq edns0q a
  rw [ednsOptions, found, Option.map_some, Option.getD_some, same]

section

variable (sizing : Sizing)

variable {edns0q : OPT}

/-- Padding a response that it accepts stays inside of the buffer. -/
theorem padAnswer_eq (asked : q.isEdns0 = some edns0q) (a : Outgoing) :
    padAnswer sizing q a =
      if paddingAsserted (ednsOptions a) then
        some (padded (answerPadding (unpaddedLen sizing (withEdns0 edns0q a)) (udpSize edns0q))
          (withEdns0 edns0q a))
      else none := by
  unfold padAnswer
  rw [asked]
  dsimp only
  rw [ednsOptions_withEdns0, answerPadLen_eq, respPadBuf, sliceTo_replicate (answerPadding_le _ _),
    Option.map_some]
  rfl

theorem padQuery_eq {q : Outgoing} (present : q.msg.isEdns0.isSome) :
    padQuery sizing q =
      if paddingAsserted (ednsOptions q) then
        some (padded (queryPaddingBlockSize - unpaddedLen sizing q % queryPaddingBlockSize) q)
      else none := by
  rw [padQuery, if_neg (by rw [← Option.not_isSome, present]; exact Bool.false_ne_true)]
  dsimp only
  rw [queryPadLen_eq, queryPadBuf, sliceTo_replicate (Nat.sub_le _ _), Option.map_some]
  rfl

end

theorem paddingAsserted_padded (present : m.msg.isEdns0.isSome) :
    paddingAsserted (ednsOptions (padded padLen m)) := by
  have still : (mapOptions clearPadding m).msg.isEdns0.isSome := by
    rw [isEdns0_mapOptions, Option.isSome_map, present]
  rw [padded, ednsOptions_mapOptions _ still, ednsOptions_mapOptions _ present]
  exact paddingAsserted_fillPadding _ _

/-- What padding is to make of a response. -/
structure AnswerPadded (sizing : Sizing) (q : Message) (edns0q : OPT) (a p : Outgoing) : Prop where
  fills : responsePaddingBlockSize ∣ sizing.len p ∨ sizing.len p = udpSize edns0q ∨
    udpSize edns0q < sizing.len (withoutPaddingBytes p) ∧ p = withoutPaddingBytes p
  again : padAnswer sizing q p = some p
  stripped : stripPadding p = stripPadding (withEdns0 edns0q a)
  kept : ednsOptions (stripPadding p) = others (ednsOptions a)

/-- What padding is to make of a query. -/
structure QueryPadded (sizing : Sizing) (q p : Outgoing) : Prop where
  fills : queryPaddingBlockSize ∣ sizing.len p
  again : padQuery sizing p = some p
  stripped : stripPadding p = stripPadding q
  kept : ednsOptions (stripPadding p) = others (ednsOptions q)

section

variable {sizing : Sizing} (counts : sizing.CountsPadding)

include counts

theorem answerPadded {edns0q : OPT} (asked : q.isEdns0 = some edns0q) (a : Outgoing) :
    AnswerPadded sizing q edns0q a
      (padded (answerPadding (unpaddedLen sizing (withEdns0 edns0q a)) (udpSize edns0q))
        (withEdns0 edns0q a)) where
  fills := by
    rw [len_padded counts _ (isEdns0_withEdns0 edns0q a), withoutPaddingBytes_padded]
    obtain full | filled | ⟨long, none⟩ :=
      answerPadding_fills (unpaddedLen sizing (withEdns0 edns0q a)) (udpSize edns0q)
    · exact .inl full
    · exact .inr (.inl filled)
    · rw [none, padded_zero]
      exact .inr (.inr ⟨long, rfl⟩)
  again := by
    have present := isEdns0_withEdns0 edns0q a
    rw [padAnswer_eq sizing asked, if_pos (paddingAsserted_padded _ present),
      withEdns0_of_isSome edns0q (by rw [isEdns0_padded, present]), unpaddedLen_padded,
      padded_padded]
  stripped := stripPadding_padded _ _
  kept := by rw [stripPadding_padded, ednsOptions_stripPadding, ednsOptions_withEdns0]

theorem queryPadded {q : Outgoing} (present : q.msg.isEdns0.isSome) :
    QueryPadded sizing q
      (padded (queryPaddingBlockSize - unpaddedLen sizing q % queryPaddingBlockSize) q) where
  fills := by
    rw [len_padded counts _ present]
    exact mod_add_dvd queryPaddingBlockSize _ (by decide)
  again := by
    rw [padQuery_eq sizing (by rw [isEdns0_padded, present]),
      if_pos (paddingAsserted_padded _ present), unpaddedLen_padded, padded_padded]
  stripped := stripPadding_padded _ _
  kept := by rw [stripPadding_padded, ednsOptions_stripPadding]

end

/-- Where padding gives what it should, it succeeds exactly if the options are of their type. -/
theorem exists_padded_iff {asserted : Bool} {p : Outgoing} {property : Outgoing → Prop}
    (holds : property p) :
    (∃ p', (if asserted then some p else none) = some p' ∧ property p') ↔ asserted := by
  cases asserted with
  | false => simp
  | true => exact iff_of_true ⟨p, rfl, holds⟩ rfl

/-- Padding succeeds exactly if every option with the code of padding is of its type.  A padded
response then fills its last block or the size the query announces, unless it is longer without
padding, and a padded query fills its last block; padding twice is padding once, and what is
stripped afterwards is the padding only. -/
theorem padding_fills_blocks (sizing : Sizing) (counts : sizing.CountsPadding) :
    (∀ (q : Message) (a : Outgoing) (edns0q : OPT), q.isEdns0 = some edns0q →
      ((∃ p, padAnswer sizing q a = some p ∧ AnswerPadded sizing q edns0q a p) ↔
        paddingAsserted (ednsOptions a))) ∧
    ∀ q : Outgoing, q.msg.isEdns0.isSome →
      ((∃ p, padQuery sizing q = some p ∧ QueryPadded sizing q p) ↔
        paddingAsserted (ednsOptions q)) := by
  constructor
  · intro q a edns0q asked
    rw [padAnswer_eq sizing asked]
    exact exists_padded_iff (answerPadded counts asked a)
  · intro q present
    rw [padQuery_eq sizing present]
    exact exists_padded_iff (queryPadded counts present)

/-! ## Plain messages -/

/-- Records are measured one by one. -/
theorem sum_updateLastOPT (before after : OPT → OPT) {count : Nat} {records : List Record}
    {edns0 : OPT} (found : (records.filterMap Record.asOPT?).getLast? = some edns0)
    (grows : recordLen (.opt (after edns0)) = recordLen (.opt (before edns0)) + count) :
    ((Message.updateLastOPT after records).map recordLen).sum =
      ((Message.updateLastOPT before records).map recordLen).sum + count := by
  induction records with
  | nil => cases found
  | cons record rest ih =>
    by_cases later : rest.any fun other => other.asOPT?.isSome
    · have last : (rest.filterMap Record.asOPT?).getLast? = some edns0 := by
        cases record with
        | rr record => exact found
        | opt record =>
          rwa [Message.filterMap_asOPT?_opt, List.getLast?_cons_of_ne_nil
            (Message.filterMap_asOPT?_ne_nil_iff.mpr later)] at found
      rw [Message.updateLastOPT_of_later after later, Message.updateLastOPT_of_later before later,
        List.map_cons, List.map_cons, List.sum_cons, List.sum_cons, ih last, Nat.add_assoc]
    · have none := not_not.mp (mt Message.filterMap_asOPT?_ne_nil_iff.mp later)
      cases record with
      | rr record =>
        rw [List.filterMap_cons_none rfl, none] at found
        cases found
      | opt record =>
        rw [Message.filterMap_asOPT?_opt, none, List.getLast?_singleton] at found
        cases found
        rw [Message.updateLastOPT_of_last after later, Message.updateLastOPT_of_last before later,
          List.map_cons, List.map_cons, List.sum_cons, List.sum_cons, grows]
        omega

theorem plainSizing_countsPadding : plainSizing.CountsPadding := by
  intro m padding any
  obtain ⟨edns0, found⟩ : ∃ edns0, m.msg.isEdns0 = some edns0 := by
    cases found : m.msg.isEdns0 with
    | none =>
      rw [ednsOptions, found] at any
      cases any
    | some edns0 => exact ⟨edns0, rfl⟩
  have options : ednsOptions m = edns0.options := by rw [ednsOptions, found]; rfl
  rw [options] at any
  obtain ⟨before, option, after, split, isPadding, last⟩ := exists_last_padding any
  have grows : recordLen (.opt { edns0 with options := fillPadding padding edns0.options }) =
      recordLen (.opt { edns0 with options := fillPadding [] edns0.options }) + padding.length := by
    rw [split, fillPadding_last padding isPadding last, fillPadding_last [] isPadding last]
    simp only [recordLen, List.map_append, List.map_cons, List.sum_append, List.sum_cons, optionLen,
      List.length_nil]
    omega
  have sums := sum_updateLastOPT
    (fun edns0 => { edns0 with options := fillPadding [] edns0.options })
    (fun edns0 => { edns0 with options := fillPadding padding edns0.options }) found grows
  simp only [plainSizing, mapOptions, questionLen, List.map_append, List.sum_append, sums,
    Nat.add_assoc]

/-- EDNS0 data that announce 512 bytes. -/
def sampleEdns0 (options : List EdnsOption) : OPT where
  hdr := { owner := .top, rrtype := typeOPT, rrclass := 512, ttl := 0 }
  options := options

def ednsQuery : Message :=
  { sampleQuery with extra := [.opt (sampleEdns0 [.padding [1, 2], .padding []])] }

/-- A query with two padding options, and a response that is too long for it. -/
theorem padding_fills_blocks_sample :
    plainSizing.CountsPadding ∧ plainSizing.len ⟨ednsQuery, false⟩ = 50 ∧
      (∃ p, padAnswer plainSizing ednsQuery sampleAnswer = some p ∧
        AnswerPadded plainSizing ednsQuery (sampleEdns0 [.padding [1, 2], .padding []])
          sampleAnswer p) ∧
      ∃ p, padQuery plainSizing ⟨ednsQuery, false⟩ = some p ∧
        QueryPadded plainSizing ⟨ednsQuery, false⟩ p :=
  ⟨plainSizing_countsPadding, by decide,
    ((padding_fills_blocks plainSizing plainSizing_countsPadding).1 ednsQuery sampleAnswer
      (sampleEdns0 [.padding [1, 2], .padding []]) rfl).mpr rfl,
    ((padding_fills_blocks plainSizing plainSizing_countsPadding).2 ⟨ednsQuery, false⟩
      rfl).mpr rfl⟩

/-- Append an option for local use in place of those with its code, to EDNS0 data that are added
if there are none. -/
def edns0ModifierAdd (code : UInt16) (data : Text) (q : Outgoing) : Outgoing :=
  let q := mapOptions (List.filter fun option => option.code ≠ code) q
  let q := if q.msg.isEdns0.isNone then { q with msg := q.msg.setEdns0 4096 false } else q
  mapOptions (· ++ [.other code data]) q

/-- A query with such an option under the code of padding. -/
theorem local_option_panics :
    (edns0ModifierAdd edns0Padding [1] ⟨sampleQuery, false⟩).msg.isEdns0.isSome ∧
      ∀ sizing, padQuery sizing (edns0ModifierAdd edns0Padding [1] ⟨sampleQuery, false⟩) = none :=
  ⟨rfl, fun _ => rfl⟩

end RouteDns.Transport
