import RouteDns.Cache.Subnets
import RouteDns.Program.Delimited

/-!
# Keys of a shared cache

Several instances may share a cache in Redis, where a key is one string.  Its fields are
separated by colons, which a name may contain as well; the client subnets stand one after
another with nothing between them.
-/

namespace RouteDns.Cache

open Dns Cidr Delimited

/-- How classes and types are printed: different ones differently, and without colons. -/
structure Printer where
  classString : UInt16 → Text
  typeString : UInt16 → Text
  classString_injective : Function.Injective classString
  typeString_injective : Function.Injective typeString
  colon_notMem_classString : ∀ qclass, colon ∉ classString qclass
  colon_notMem_typeString : ∀ qtype, colon ∉ typeString qtype

/-- What the loop over the options appends. -/
def optionText : EdnsOption → Text
  | .subnet subnet => ipString subnet.address ++ text "/" ++ decimal subnet.sourceNetmask.toNat
  | _ => []

/-- Build a key string to be used in redis. -/
def keyFromQuery (printer : Printer) (keyPrefix : Text) (q : CacheQuery) : Text :=
  keyPrefix ++ toLower q.question.name ++ [colon] ++
    printer.classString q.question.qclass ++ [colon] ++
    printer.typeString q.question.qtype ++ [colon] ++
    (if q.msg.checkingDisabled then text "cd" else []) ++ [colon] ++
    match q.msg.isEdns0 with
    | none => []
    | some edns0 =>
      (if edns0.dnssecOk then text "true" else text "false") ++ [colon] ++
        edns0.options.flatMap optionText

/-! ## Client subnets in a key -/

def slash : Byte := byteOf '/'

/-- The client subnets in a key. -/
def renderSubnets (subnets : List Subnet) : Text :=
  subnets.flatMap fun subnet =>
    ipString subnet.address ++ slash :: decimal subnet.sourceNetmask.toNat

theorem renderSubnets_cons (subnet : Subnet) (subnets : List Subnet) :
    renderSubnets (subnet :: subnets) =
      ipString subnet.address ++
        slash :: (decimal subnet.sourceNetmask.toNat ++ renderSubnets subnets) := by
  simp [renderSubnets]

theorem renderSubnets_append (first second : List Subnet) :
    renderSubnets (first ++ second) = renderSubnets first ++ renderSubnets second :=
  List.flatMap_append

/-- The bytes that occur in client subnets. -/
def subnetBytes : Text := text "0123456789abcdef:.?<nil>/"

variable {subnets init init' : List Subnet} {keyPrefix : Text} {last last' : Subnet}
  {q : CacheQuery}

theorem mem_subnetBytes_of_mem_renderSubnets {byte : Byte} (member : byte ∈ renderSubnets subnets) :
    byte ∈ subnetBytes := by
  have addresses : ∀ byte ∈ addressBytes, byte ∈ subnetBytes := by decide +kernel
  have digits : ∀ byte ∈ digitBytes, byte ∈ subnetBytes := by decide +kernel
  obtain ⟨subnet, _, member⟩ := List.mem_flatMap.mp member
  rcases List.mem_append.mp member with member | member
  · exact addresses _ (mem_addressBytes_of_mem_ipString member)
  · rcases List.mem_cons.mp member with rfl | member
    · decide +kernel
    · exact digits _ (mem_digitBytes_of_mem_decimal member)

theorem slash_mem_renderSubnets (nonempty : renderSubnets subnets ≠ []) :
    slash ∈ renderSubnets subnets := by
  cases subnets with
  | nil => exact absurd rfl nonempty
  | cons subnet subnets => simp [renderSubnets_cons]

theorem slash_notMem_ipString (ip : IP) : slash ∉ ipString ip := by
  intro member
  exact absurd (mem_addressBytes_of_mem_ipString member) (by decide +kernel)

theorem slash_notMem_decimal (number : Nat) : slash ∉ decimal number := by
  intro member
  exact absurd (mem_digitBytes_of_mem_decimal member) (by decide +kernel)

theorem dot_notMem_decimal (number : Nat) : dot ∉ decimal number := by
  intro member
  exact absurd (mem_digitBytes_of_mem_decimal member) (by decide +kernel)

/-- No dot in the client subnets stands before a colon. -/
theorem renderSubnets_ne_dot_colon (subnets : List Subnet) (before after : Text) :
    renderSubnets subnets ≠ before ++ dot :: colon :: after := by
  induction subnets generalizing before with
  | nil => simp [renderSubnets]
  | cons subnet subnets ih =>
    intro same
    rw [renderSubnets_cons] at same
    rcases List.append_eq_append_iff.mp same with ⟨later, shape, tail⟩ | ⟨later, shape, tail⟩
    · -- The dot comes after the address.
      cases later with
      | nil => exact absurd (List.cons.inj tail).1 (by decide)
      | cons first later =>
        have rest := (List.cons.inj tail).2
        rcases List.append_eq_append_iff.mp rest with ⟨later', shape', tail'⟩ |
          ⟨mask, shape', tail'⟩
        · exact ih later' tail'
        · cases mask with
          | nil => exact ih [] tail'.symm
          | cons first mask =>
            have dotFirst : dot = first := (List.cons.inj tail').1
            apply dot_notMem_decimal subnet.sourceNetmask.toNat
            rw [shape', dotFirst]
            simp
    · -- The dot belongs to the address, or the address ends before it.
      cases later with
      | nil => exact absurd (List.cons.inj tail).1.symm (by decide)
      | cons first later =>
        obtain ⟨dotFirst, rest⟩ := List.cons.inj tail
        rw [← dotFirst] at shape
        obtain ⟨next, others, behind, notColon⟩ := after_dot_of_ipString shape
        rw [behind] at rest
        exact notColon (List.cons.inj rest).1.symm

/-! ## The fields of a key -/

def cdField (q : CacheQuery) : Text :=
  if q.msg.checkingDisabled then text "cd" else []

def doField (dnssecOk : Bool) : Text :=
  if dnssecOk then text "true" else text "false"

def ednsField (q : CacheQuery) : Text :=
  if q.msg.isEdns0.isNone then [] else doField q.dnssecOk ++ colon :: renderSubnets q.subnets

/-- What follows the name in a key. -/
def fieldsOf (printer : Printer) (q : CacheQuery) : Text :=
  colon :: (printer.classString q.question.qclass ++
    colon :: (printer.typeString q.question.qtype ++
      colon :: (cdField q ++ colon :: ednsField q)))

theorem flatMap_optionText (options : List EdnsOption) :
    options.flatMap optionText = renderSubnets (options.filterMap asSubnet?) := by
  induction options with
  | nil => rfl
  | cons option options ih =>
    rw [List.flatMap_cons, ih]
    cases option with
    | subnet subnet =>
      simp only [List.filterMap_cons, asSubnet?, renderSubnets_cons, optionText,
        List.append_assoc]
      rfl
    | padding padding => rfl
    | other code data => rfl

theorem keyFromQuery_eq (printer : Printer) (keyPrefix : Text) (q : CacheQuery) :
    keyFromQuery printer keyPrefix q =
      keyPrefix ++ (toLower q.question.name ++ fieldsOf printer q) := by
  unfold keyFromQuery fieldsOf ednsField CacheQuery.subnets CacheQuery.dnssecOk
  cases q.msg.isEdns0 with
  | none => simp [cdField]
  | some edns0 => simp [flatMap_optionText, cdField, doField]

theorem colon_notMem_cdField (q : CacheQuery) : colon ∉ cdField q := by
  unfold cdField
  split
  · decide
  · decide

theorem colon_notMem_doField (dnssecOk : Bool) : colon ∉ doField dnssecOk := by
  cases dnssecOk
  · decide
  · decide

theorem dot_notMem_cdField (q : CacheQuery) : dot ∉ cdField q := by
  unfold cdField
  split
  · decide
  · decide

theorem dot_notMem_doField (dnssecOk : Bool) : dot ∉ doField dnssecOk := by
  cases dnssecOk
  · decide
  · decide

theorem cdField_ne_doField (q : CacheQuery) (dnssecOk : Bool) : cdField q ≠ doField dnssecOk := by
  unfold cdField
  cases dnssecOk
  · split
    · decide
    · decide
  · split
    · decide
    · decide

theorem ednsField_cases (q : CacheQuery) :
    (ednsField q = [] ∧ q.dnssecOk = false ∧ q.subnets = []) ∨
      ednsField q = doField q.dnssecOk ++ colon :: renderSubnets q.subnets := by
  unfold ednsField CacheQuery.dnssecOk CacheQuery.subnets
  cases q.msg.isEdns0 with
  | none => exact .inl ⟨rfl, rfl, rfl⟩
  | some edns0 => exact .inr rfl

/-- Some letter of the flag occurs in no client subnet. -/
theorem exists_mem_doField (dnssecOk : Bool) : ∃ byte ∈ doField dnssecOk, byte ∉ subnetBytes := by
  cases dnssecOk
  · exact ⟨byteOf 's', by decide, by decide +kernel⟩
  · exact ⟨byteOf 't', by decide, by decide +kernel⟩

/-- The client subnets do not look like the last two fields of a key. -/
theorem renderSubnets_ne_fields (subnets : List Subnet) (q : CacheQuery) :
    renderSubnets subnets ≠ cdField q ++ colon :: ednsField q := by
  intro same
  have nonempty : renderSubnets subnets ≠ [] := by
    rw [same]
    simp
  rcases ednsField_cases q with ⟨empty, _⟩ | shape
  · have member := slash_mem_renderSubnets nonempty
    rw [same, empty] at member
    rcases List.mem_append.mp member with member | member
    · unfold cdField at member
      split at member
      · exact absurd member (by decide)
      · cases member
    · exact absurd member (by decide)
  · obtain ⟨byte, inFlag, outside⟩ := exists_mem_doField q.dnssecOk
    apply outside
    have member : byte ∈ renderSubnets subnets := by
      rw [same, shape]
      simp [inFlag]
    exact mem_subnetBytes_of_mem_renderSubnets member

section Names

variable {printer : Printer} {first second : CacheQuery}

/-- The fields of a key from the type on are not those of another key from the class on. -/
theorem typeFields_ne_classFields :
    printer.typeString first.question.qtype ++
      colon :: (cdField first ++ colon :: ednsField first) ≠
      printer.classString second.question.qclass ++ colon ::
        (printer.typeString second.question.qtype ++ colon ::
          (cdField second ++ colon :: ednsField second)) := by
  intro same
  obtain ⟨_, same⟩ :=
    front_inj (printer.colon_notMem_typeString _) (printer.colon_notMem_classString _) same
  obtain ⟨_, same⟩ :=
    front_inj (colon_notMem_cdField first) (printer.colon_notMem_typeString _) same
  rcases ednsField_cases first with ⟨empty, _⟩ | shape
  · rw [empty] at same
    exact absurd same.symm (by simp)
  · rw [shape] at same
    obtain ⟨flag, _⟩ :=
      front_inj (colon_notMem_doField _) (colon_notMem_cdField second) same
    exact cdField_ne_doField second _ flag.symm

/-- Nor are those from the flag for checking disabled on. -/
theorem cdFields_ne_classFields :
    cdField first ++ colon :: ednsField first ≠
      printer.classString second.question.qclass ++ colon ::
        (printer.typeString second.question.qtype ++ colon ::
          (cdField second ++ colon :: ednsField second)) := by
  intro same
  obtain ⟨_, same⟩ :=
    front_inj (colon_notMem_cdField first) (printer.colon_notMem_classString _) same
  rcases ednsField_cases first with ⟨empty, _⟩ | shape
  · rw [empty] at same
    exact absurd same.symm (by simp)
  · rw [shape] at same
    obtain ⟨_, same⟩ :=
      front_inj (colon_notMem_doField _) (printer.colon_notMem_typeString _) same
    exact renderSubnets_ne_fields _ second same

/-- The EDNS0 data of a key has no dot before a colon. -/
theorem ednsField_ne_dot_colon (q : CacheQuery) (before after : Text) :
    ednsField q ≠ before ++ dot :: colon :: after := by
  intro same
  rcases ednsField_cases q with ⟨empty, _⟩ | shape
  · rw [empty] at same
    exact absurd same.symm (by simp)
  · rw [shape] at same
    rcases ends_field_or_later (colon_notMem_doField _) (by decide) same with
      ⟨flag, _⟩ | ⟨later, _, same⟩
    · have member : dot ∈ doField q.dnssecOk := by
        rw [flag]
        simp
      exact dot_notMem_doField _ member
    · exact renderSubnets_ne_dot_colon _ _ _ same

/-- Behind no dot in the fields of a key stand the fields of another one: a name that goes on
into the fields would end with such a dot. -/
theorem fieldsOf_ne (before : Text) :
    fieldsOf printer first ≠ before ++ dot :: fieldsOf printer second := by
  intro same
  cases before with
  | nil => exact absurd (List.cons.inj same).1 (by decide)
  | cons entry before =>
    have inClass := (List.cons.inj same).2
    rcases ends_field_or_later (printer.colon_notMem_classString _) (by decide) inClass with
      ⟨_, same⟩ | ⟨_, _, inType⟩
    · exact typeFields_ne_classFields same
    rcases ends_field_or_later (printer.colon_notMem_typeString _) (by decide) inType with
      ⟨_, same⟩ | ⟨_, _, inCd⟩
    · exact cdFields_ne_classFields same
    rcases ends_field_or_later (colon_notMem_cdField first) (by decide) inCd with
      ⟨flag, _⟩ | ⟨_, _, inEdns⟩
    · have member : dot ∈ cdField first := by
        rw [flag]
        simp
      exact dot_notMem_cdField first member
    · exact ednsField_ne_dot_colon first _ _ inEdns

/-- A name in full length ends with a dot. -/
def FullyQualified (name : Name) : Prop :=
  name.getLast? = some dot

theorem FullyQualified.toLower {name : Name} (qualified : FullyQualified name) :
    FullyQualified (toLower name) := by
  unfold FullyQualified at qualified ⊢
  rw [Cache.toLower, List.getLast?_map, qualified]
  rfl

/-- A longer name would have to end inside the fields of the other key. -/
theorem eq_of_append_fieldsOf {name longer : Name} (qualified : FullyQualified longer)
    {rest : Text} (goesOn : longer = name ++ rest)
    (same : fieldsOf printer first = rest ++ fieldsOf printer second) : rest = [] := by
  rcases rest.eq_nil_or_concat' with empty | ⟨before, last, shape⟩
  · exact empty
  · have ends : last = dot := by
      rw [FullyQualified, goesOn, shape, ← List.append_assoc] at qualified
      simpa using qualified
    rw [shape, ends, List.append_assoc] at same
    exact absurd same (fieldsOf_ne before)

/-- Names and fields can be read off a key. -/
theorem name_eq_of_key_eq (firstQualified : FullyQualified first.question.name)
    (secondQualified : FullyQualified second.question.name)
    (same : toLower first.question.name ++ fieldsOf printer first =
      toLower second.question.name ++ fieldsOf printer second) :
    toLower first.question.name = toLower second.question.name ∧
      fieldsOf printer first = fieldsOf printer second := by
  rcases List.append_eq_append_iff.mp same with ⟨rest, longer, fields⟩ | ⟨rest, longer, fields⟩
  · have empty := eq_of_append_fieldsOf secondQualified.toLower longer fields
    rw [empty, List.append_nil] at longer
    rw [empty] at fields
    exact ⟨longer.symm, fields⟩
  · have empty := eq_of_append_fieldsOf firstQualified.toLower longer fields
    rw [empty, List.append_nil] at longer
    rw [empty] at fields
    exact ⟨longer, fields.symm⟩

theorem edns_eq_of_ednsField_eq (same : ednsField first = ednsField second) :
    first.dnssecOk = second.dnssecOk ∧
      renderSubnets first.subnets = renderSubnets second.subnets := by
  rcases ednsField_cases first with ⟨empty, flag, subnets⟩ | shape
  · rcases ednsField_cases second with ⟨_, flag', subnets'⟩ | shape'
    · rw [flag, flag', subnets, subnets']
      exact ⟨rfl, rfl⟩
    · rw [empty, shape'] at same
      exact absurd same.symm (by simp)
  · rcases ednsField_cases second with ⟨empty, _⟩ | shape'
    · rw [shape, empty] at same
      exact absurd same (by simp)
    · rw [shape, shape'] at same
      obtain ⟨flags, subnets⟩ := front_inj (colon_notMem_doField _) (colon_notMem_doField _) same
      have injective : ∀ flag flag', doField flag = doField flag' → flag = flag' := by decide
      exact ⟨injective _ _ flags, subnets⟩

/-- Queries with one key in Redis agree in everything but their client subnets. -/
theorem parts_eq_of_key_eq (firstQualified : FullyQualified first.question.name)
    (secondQualified : FullyQualified second.question.name)
    (same : keyFromQuery printer keyPrefix first = keyFromQuery printer keyPrefix second) :
    SameRequest first second ∧ renderSubnets first.subnets = renderSubnets second.subnets := by
  rw [keyFromQuery_eq, keyFromQuery_eq] at same
  obtain ⟨names, fields⟩ :=
    name_eq_of_key_eq firstQualified secondQualified (List.append_cancel_left same)
  obtain ⟨classes, fields⟩ :=
    front_inj (printer.colon_notMem_classString _) (printer.colon_notMem_classString _)
      (List.cons.inj fields).2
  obtain ⟨types, fields⟩ :=
    front_inj (printer.colon_notMem_typeString _) (printer.colon_notMem_typeString _) fields
  obtain ⟨cd, edns⟩ := front_inj (colon_notMem_cdField _) (colon_notMem_cdField _) fields
  obtain ⟨dnssecOk, subnets⟩ := edns_eq_of_ednsField_eq edns
  refine ⟨⟨names, printer.typeString_injective types, printer.classString_injective classes,
    dnssecOk, ?_⟩, subnets⟩
  unfold cdField at cd
  have different : text "cd" ≠ [] := by decide
  cases one : first.msg.checkingDisabled <;> cases other : second.msg.checkingDisabled <;>
    simp_all

end Names

/-! ## Reading client subnets back -/

/-- The digits of the last mask but one and the last address, which stand side by side in the
key, cannot be split into a mask and another address. -/
def SplitsOneWay (subnets : List Subnet) : Prop :=
  ∀ init previous last, subnets = init ++ [previous, last] → ∀ (mask : UInt8) (ip : IP),
    decimal mask.toNat ++ ipString ip =
        decimal previous.sourceNetmask.toNat ++ ipString last.address →
      ipString ip = ipString last.address

theorem renderSubnets_concat (init : List Subnet) (last : Subnet) :
    renderSubnets (init ++ [last]) =
      (renderSubnets init ++ ipString last.address) ++
        slash :: decimal last.sourceNetmask.toNat := by
  rw [renderSubnets_append, renderSubnets_cons]
  simp [renderSubnets]

theorem renderSubnets_concat_inj
    (same : renderSubnets (init ++ [last]) = renderSubnets (init' ++ [last'])) :
    renderSubnets init ++ ipString last.address = renderSubnets init' ++ ipString last'.address ∧
      last.sourceNetmask = last'.sourceNetmask := by
  rw [renderSubnets_concat, renderSubnets_concat] at same
  obtain ⟨before, mask⟩ := back_inj (slash_notMem_decimal _) (slash_notMem_decimal _) same
  exact ⟨before, UInt8.toNat_inj.mp (decimal_injective mask)⟩

theorem slash_mem_renderSubnets_concat (init : List Subnet) (last : Subnet) :
    slash ∈ renderSubnets (init ++ [last]) := by
  rw [renderSubnets_concat]
  simp

theorem slash_notMem_decimal_append (mask : Nat) (ip : IP) :
    slash ∉ decimal mask ++ ipString ip := by
  intro member
  rcases List.mem_append.mp member with member | member
  · exact slash_notMem_decimal _ member
  · exact slash_notMem_ipString _ member

/-- What stands before the last mask fixes the last address. -/
theorem lastAddress_eq (oneWay : SplitsOneWay (init' ++ [last']))
    (same : renderSubnets init ++ ipString last.address =
      renderSubnets init' ++ ipString last'.address) :
    ipString last.address = ipString last'.address := by
  rcases init.eq_nil_or_concat' with rfl | ⟨init, previous, rfl⟩
  · rcases init'.eq_nil_or_concat' with rfl | ⟨init', previous', rfl⟩
    · exact same
    · apply absurd _ (slash_notMem_ipString last.address)
      change renderSubnets [] ++ ipString last.address = _ at same
      rw [show renderSubnets [] = [] from rfl, List.nil_append] at same
      rw [same]
      exact List.mem_append_left _ (slash_mem_renderSubnets_concat init' previous')
  · rcases init'.eq_nil_or_concat' with rfl | ⟨init', previous', rfl⟩
    · apply absurd _ (slash_notMem_ipString last'.address)
      rw [show renderSubnets [] = [] from rfl, List.nil_append] at same
      rw [← same]
      exact List.mem_append_left _ (slash_mem_renderSubnets_concat init previous)
    · rw [renderSubnets_concat, renderSubnets_concat, List.append_assoc,
        List.append_assoc _ _ (ipString last'.address), List.cons_append, List.cons_append] at same
      obtain ⟨_, digits⟩ :=
        back_inj (slash_notMem_decimal_append _ _) (slash_notMem_decimal_append _ _) same
      apply oneWay init' previous' last' (by simp) previous.sourceNetmask last.address digits

theorem lastNet_eq_of_renderSubnets_eq {other : List Subnet} (oneWay : SplitsOneWay subnets)
    (same : renderSubnets other = renderSubnets subnets) :
    CacheQuery.lastNet other = CacheQuery.lastNet subnets := by
  rcases subnets.eq_nil_or_concat' with rfl | ⟨init, last, rfl⟩
  · cases other with
    | nil => rfl
    | cons subnet other =>
      rw [renderSubnets_cons] at same
      exact absurd same (by simp [renderSubnets])
  · rcases other.eq_nil_or_concat' with rfl | ⟨init', last', rfl⟩
    · have member := slash_mem_renderSubnets_concat init last
      rw [← same] at member
      cases member
    · obtain ⟨before, mask⟩ := renderSubnets_concat_inj same
      rw [CacheQuery.lastNet_append, CacheQuery.lastNet_append, mask, lastAddress_eq oneWay before]

/-! ## The two keys -/

theorem ednsField_of_subnets (carried : q.subnets ≠ []) :
    ednsField q = doField q.dnssecOk ++ colon :: renderSubnets q.subnets := by
  rcases ednsField_cases q with ⟨_, _, none⟩ | shape
  · exact absurd none carried
  · exact shape

theorem keyFromQuery_withSubnets {printer : Printer} (carried : q.subnets ≠ [])
    (nonempty : subnets ≠ []) (same : renderSubnets subnets = renderSubnets q.subnets) :
    keyFromQuery printer keyPrefix (q.withSubnets subnets) = keyFromQuery printer keyPrefix q := by
  have carried' : (q.withSubnets subnets).subnets ≠ [] := by
    rwa [CacheQuery.withSubnets_subnets]
  have edns : ednsField (q.withSubnets subnets) = ednsField q := by
    rw [ednsField_of_subnets carried, ednsField_of_subnets carried',
      CacheQuery.withSubnets_dnssecOk, CacheQuery.withSubnets_subnets, same]
  rw [keyFromQuery_eq, keyFromQuery_eq, fieldsOf, fieldsOf, edns]
  rfl

/-- A query has one key in Redis only with queries that have its key in memory exactly if its
client subnets can be read back in one way. -/
theorem redis_agrees_iff (printer : Printer) (keyPrefix : Text) (q : CacheQuery)
    (qualified : FullyQualified q.question.name) :
    (∀ other : CacheQuery, FullyQualified other.question.name →
      keyFromQuery printer keyPrefix other = keyFromQuery printer keyPrefix q →
      lruKeyFromQuery other = lruKeyFromQuery q) ↔ SplitsOneWay q.subnets := by
  constructor
  · intro agrees init previous last shape mask ip digits
    -- The other way to split the digits belongs to another query with the same key.
    let subnets : List Subnet :=
      init ++ [{ previous with sourceNetmask := mask }, { last with address := ip }]
    have same : renderSubnets subnets = renderSubnets q.subnets := by
      simp only [subnets, shape, renderSubnets_append, renderSubnets_cons]
      simp only [← List.append_assoc, digits]
    have carried : q.subnets ≠ [] := by simp [shape]
    have nonempty : subnets ≠ [] := by simp [subnets]
    have keys := agrees (q.withSubnets subnets) qualified
      (keyFromQuery_withSubnets carried nonempty same)
    have nets := ((lruKeyFromQuery_eq_iff _ _).mp keys).2
    rw [CacheQuery.withSubnets_subnets, shape] at nets
    simp only [subnets, CacheQuery.lastNet, List.getLast?_append, List.getLast?_cons_cons,
      List.getLast?_singleton, Option.some_or, Prod.mk.injEq] at nets
    exact nets.1
  · intro oneWay other otherQualified same
    obtain ⟨request, subnets⟩ := parts_eq_of_key_eq otherQualified qualified same
    rw [lruKeyFromQuery_eq_iff]
    exact ⟨request, lastNet_eq_of_renderSubnets_eq oneWay subnets⟩

/-- One code is printed by its mnemonic, the others by a word with their number. -/
def codeString (known : UInt16) (mnemonic word : Text) (code : UInt16) : Text :=
  if code = known then mnemonic else word ++ decimal code.toNat

section CodeString

variable {known : UInt16} {mnemonic word : Text}

theorem codeString_injective (apart : word.isPrefixOf mnemonic = false) :
    Function.Injective (codeString known mnemonic word) := by
  have differs : ∀ digits, word ++ digits ≠ mnemonic := by
    rintro digits rfl
    rw [List.isPrefixOf_iff_prefix.mpr (List.prefix_append word digits)] at apart
    cases apart
  intro code other same
  unfold codeString at same
  split at same
  · rename_i first
    split at same
    · rename_i second
      exact first.trans second.symm
    · exact absurd same.symm (differs _)
  · split at same
    · exact absurd same (differs _)
    · exact UInt16.toNat_inj.mp (decimal_injective (List.append_cancel_left same))

theorem colon_notMem_codeString (first : colon ∉ mnemonic) (second : colon ∉ word) (code : UInt16) :
    colon ∉ codeString known mnemonic word code := by
  unfold codeString
  split
  · exact first
  · intro member
    rcases List.mem_append.mp member with member | member
    · exact second member
    · exact absurd (mem_digitBytes_of_mem_decimal member) (by decide)

end CodeString

/-- What the library prints for the class and the type of the queries below, and for codes it
does not know. -/
def addressPrinter : Printer where
  classString := codeString classINET (text "IN") (text "CLASS")
  typeString := codeString 1 (text "A") (text "TYPE")
  classString_injective := codeString_injective (by decide)
  typeString_injective := codeString_injective (by decide)
  colon_notMem_classString := colon_notMem_codeString (by decide) (by decide)
  colon_notMem_typeString := colon_notMem_codeString (by decide) (by decide)

def subnetOf (address : IP) (sourceNetmask : UInt8) : Subnet where
  family := 1
  sourceNetmask := sourceNetmask
  address := address

/-- A single client subnet can be read back. -/
theorem single_subnet_agrees :
    FullyQualified (plainQuery.withSubnets [subnetOf [192, 0, 2, 0] 24]).question.name ∧
      ∀ other : CacheQuery, FullyQualified other.question.name →
        keyFromQuery addressPrinter (text "routedns:") other =
          keyFromQuery addressPrinter (text "routedns:")
            (plainQuery.withSubnets [subnetOf [192, 0, 2, 0] 24]) →
        lruKeyFromQuery other =
          lruKeyFromQuery (plainQuery.withSubnets [subnetOf [192, 0, 2, 0] 24]) := by
  have qualified :
      FullyQualified (plainQuery.withSubnets [subnetOf [192, 0, 2, 0] 24]).question.name := rfl
  refine ⟨qualified, (redis_agrees_iff addressPrinter (text "routedns:") _ qualified).mpr ?_⟩
  intro init previous last shape
  have lengths := congrArg List.length shape
  simp at lengths

/-- The masks and addresses of two client subnets run into each other: `/2` before
`41.2.4.0` looks like `/24` before `1.2.4.0`. -/
theorem subnets_run_together :
    (let longer := plainQuery.withSubnets [subnetOf [1, 2, 3, 0] 2, subnetOf [41, 2, 4, 0] 24]
     let shorter := plainQuery.withSubnets [subnetOf [1, 2, 3, 0] 24, subnetOf [1, 2, 4, 0] 24]
     FullyQualified longer.question.name ∧ FullyQualified shorter.question.name ∧
      keyFromQuery addressPrinter (text "routedns:") longer =
        keyFromQuery addressPrinter (text "routedns:") shorter ∧
      lruKeyFromQuery longer ≠ lruKeyFromQuery shorter) := by
  refine ⟨rfl, rfl, ?_, ?_⟩
  · decide +kernel
  · decide +kernel

end RouteDns.Cache
