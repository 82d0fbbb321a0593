import Easel.Proofs.Code.Linking
import Easel.Proofs.Code.Temporaries
import Easel.Proofs.Machine.Writes
import Easel.Proofs.Meaning.Uses

/-!
# Stores in memory

A memory holds a store if the slots of every variable hold the values of what
the store says the variable holds.  Different variables have different slots,
so an assignment changes what one variable holds and nothing else, and
temporaries can be used without changing what any variable holds.
-/

namespace Easel

variable {slots : Slots} {region : Region}

namespace Memory

variable {memory before after : Memory} {first : Address} {type : Ty}
  {location : Location}

theorem block_part (memory : Memory)
    (first : Address) {start count total : Nat}
    (inside : start + count ≤ total) :
    memory.block (first + (start : Int)) count =
      ((memory.block first total).drop start).take count := by
  refine List.ext_getElem? fun index => ?_
  by_cases within : index < count
  · rw [getElem?_block within, List.getElem?_take_of_lt within,
      List.getElem?_drop, getElem?_block (by omega), Int.natCast_add,
      Int.add_assoc]
  · rw [List.getElem?_eq_none (by rw [length_block]; omega),
      List.getElem?_eq_none (by simp [length_block]; omega)]

/-- Storing values in a part of the slots of a place replaces that part. -/
theorem block_fill_part {start : Nat} {values : List Value}
    (memory : Memory)
    (place : Place first type location)
    (inside : start + values.length ≤ type.slotCount) :
    (memory.fill location.region (first + (start : Int)) values).block first
      type.slotCount = Meaning.splice (memory.block first type.slotCount)
      start values := by
  have room : start + values.length ≤
      (memory.block first type.slotCount).length := by
    rw [length_block]
    exact inside
  refine List.ext_getElem? fun index => ?_
  rw [Meaning.getElem?_splice room]
  by_cases within : index < type.slotCount
  · obtain ⟨_, located, region, _⟩ := place.slot within
    rw [getElem?_block within, getElem?_block within, contents_eq located,
      contents_eq located, valueAt, valueAt, region]
    by_cases written : start ≤ index ∧ index < start + values.length
    · have slot : first + (index : Int) = first + (start : Int) +
          ((index - start : Nat) : Int) := by
        unfold Address at *
        omega
      have listed := List.getElem?_eq_getElem
        (show index - start < values.length by omega)
      rw [if_pos written, slot, bank_fill_inside listed, listed]
      rfl
    · rw [if_neg written, bank_fill_outside]
      right
      unfold Address at *
      omega
  · rw [if_neg (by omega), List.getElem?_eq_none (by rw [length_block]; omega),
      List.getElem?_eq_none (by rw [length_block]; omega)]

theorem block_erase (memory : Memory) (place : Place first type location) :
    (memory.erase location.region first type.slotCount).block first
      type.slotCount = (Meaning.Holding.zero type).slots := by
  rw [Meaning.Holding.slots_zero]
  refine List.map_congr_left fun index member => ?_
  have inside := List.mem_range.mp member
  obtain ⟨_, located, region, kind⟩ := place.slot inside
  have written := bank_erase memory location.region location.region first
    (first + (index : Int)) type.slotCount
  rw [if_pos
    ⟨rfl, by unfold Address; omega, by unfold Address; omega⟩] at written
  rw [contents_eq located, valueAt, region, written, kind]
  rfl

theorem changesOnly_erase (memory : Memory)
    (region : Region)
    (first : Address)
    (count : Nat) :
    ChangesOnly (.range first count) memory
      (memory.erase region first count) := by
  intro slot outside other
  rw [bank_erase, if_neg]
  rintro ⟨_, above, below⟩
  rcases Slots.outside_range outside with before | behind
  · exact absurd above (Int.not_le.mpr before)
  · exact absurd below (Int.not_lt.mpr behind)

theorem ChangesOnly.block {count : Nat}
    (changes : ChangesOnly slots before after)
    (apart : (Slots.range first count).Apart slots) :
    after.block first count = before.block first count :=
  List.map_congr_left fun index member =>
    changes.contents (apart _ ⟨index, List.mem_range.mp member, rfl⟩)

end Memory

theorem Slots.Apart.symm {first second : Slots} (apart : first.Apart second) :
    second.Apart first :=
  fun slot member other => apart slot other member

/-- Places in different regions share no slot. -/
theorem Place.apart {first second : Address} {type other : Ty}
    {location otherLocation : Location}
    (place : Place first type location)
    (otherPlace : Place second other otherLocation)
    (differ : location.region ≠ otherLocation.region) :
    (Slots.range first type.slotCount).Apart
      (.range second other.slotCount) := by
  rintro slot ⟨_, inside, rfl⟩ ⟨_, otherInside, same⟩
  obtain ⟨_, located, region, _⟩ := place.slot inside
  obtain ⟨_, otherLocated, otherRegion, _⟩ := otherPlace.slot otherInside
  rw [same, otherLocated] at located
  cases located
  exact differ (region.symm.trans otherRegion)

/-- Different variables of a table share no slot. -/
theorem ArrangedFrom.apart {table : Table Variable} {name other : String}
    {found owner : Variable} {first second : Address}
    (arranged : ArrangedFrom (fun _ => 0) region table.entries)
    (known : table.find? name = some found)
    (otherKnown : table.find? other = some owner)
    (hasAddress : found.address = some first)
    (otherHas : owner.address = some second)
    (differ : name ≠ other) :
    (Slots.range first found.type.slotCount).Apart
      (.range second owner.type.slotCount) := by
  obtain ⟨index, entry⟩ := Table.find?_eq_some_getElem? known
  obtain ⟨otherIndex, otherEntry⟩ := Table.find?_eq_some_getElem? otherKnown
  obtain ⟨_, own, answers⟩ := arranged index name found entry
  obtain ⟨_, otherOwn, otherAnswers⟩ :=
    arranged otherIndex other owner otherEntry
  cases hasAddress.symm.trans own
  cases otherHas.symm.trans otherOwn
  have typeAt : ∀ {place : Nat} {key : String} {listedAs : Variable},
      table.entries[place]? = some (key, listedAs) →
        (typesIn table.entries)[place]? = some listedAs.type := by
    intro place key listedAs listed
    rw [typesIn, List.getElem?_map, listed]
    rfl
  rcases Nat.lt_trichotomy index otherIndex with isBefore | same | isAfter
  · refine answers.apart otherAnswers fun same => ?_
    rw [← same, Nat.zero_add, Nat.zero_add]
    exact slotsOf_take_le (typeAt entry) isBefore
  · subst same
    rw [entry] at otherEntry
    cases otherEntry
    exact (differ rfl).elim
  · refine (otherAnswers.apart answers fun same => ?_).symm
    rw [← same, Nat.zero_add, Nat.zero_add]
    exact slotsOf_take_le (typeAt otherEntry) isAfter

namespace Meaning

/-- The slots of each variable of a table hold what the variable holds. -/
structure TableHolds (table : Table Variable)
    (memory : Memory)
    (holdings : Table Holding) : Prop where
  absent : ∀ name, table.find? name = none → holdings.find? name = none
  present : ∀ name found, table.find? name = some found →
    ∃ first holding, found.address = some first ∧
      holdings.find? name = some holding ∧ holding.Typed found.type ∧
      memory.block first found.type.slotCount = holding.slots

variable {table : Table Variable} {memory after : Memory}
  {holdings : Table Holding}
variable {name : String} {found : Variable} {first : Address}
  {holding : Holding}

/-- What all variables of a table hold is kept if none of their slots change. -/
theorem TableHolds.keeps (holds : TableHolds table memory holdings)
    (changes : memory.ChangesOnly slots after)
    (apart : ∀ name found first, table.find? name = some found →
      found.address = some first →
      (Slots.range first found.type.slotCount).Apart slots) :
    TableHolds table after holdings := by
  refine ⟨holds.absent, ?_⟩
  intro name found known
  obtain ⟨first, holding, hasAddress, isHeld, typed, slots⟩ :=
    holds.present name found known
  exact ⟨first, holding, hasAddress, isHeld, typed,
    (changes.block (apart name found first known hasAddress)).trans slots⟩

/-- One variable of a table is changed. -/
theorem TableHolds.replace (holds : TableHolds table memory holdings)
    (arranged : ArrangedFrom (fun _ => 0) region table.entries)
    (known : table.find? name = some found)
    (hasAddress : found.address = some first)
    (changes : memory.ChangesOnly (.range first found.type.slotCount) after)
    (typed : holding.Typed found.type)
    (slots : after.block first found.type.slotCount = holding.slots) :
    TableHolds table after (holdings.modify name fun _ => holding) := by
  constructor
  · intro other missing
    rw [Table.find?_modify, holds.absent other missing]
    split <;> rfl
  · intro other owner otherKnown
    obtain ⟨second, held, otherHas, isHeld, otherTyped, otherSlots⟩ :=
      holds.present other owner otherKnown
    rw [Table.find?_modify, isHeld]
    by_cases same : other = name
    · subst same
      cases known.symm.trans otherKnown
      exact ⟨first, holding, hasAddress, by simp, typed, slots⟩
    · refine ⟨second, held, otherHas, by simp [same], otherTyped, ?_⟩
      rw [changes.block (arranged.apart otherKnown known otherHas hasAddress
        same), otherSlots]

/-! ## Scopes -/

/-- The variables in scope hold what a store says. -/
structure ScopeHolds (scope : Scope) (memory : Memory) (store : Store) :
    Prop where
  locals : TableHolds scope.locals memory store.locals
  globals : TableHolds scope.globals memory store.globals

variable {context : Context} {store : Store} {indexed : Bool}
  {field : Option String}
variable {resolved : Resolved} {location : Location}

section

variable (holds : ScopeHolds context.scope memory store)
include holds

/-- What the variable holds that a use belongs to. -/
theorem ScopeHolds.lookup
    (designates : context.Designates name indexed field resolved
      first location) :
    ∃ holding, store.holding name = .ok holding ∧
      holding.Typed resolved.owner.type ∧
      memory.block first resolved.owner.type.slotCount = holding.slots := by
  obtain ⟨_, ran⟩ := designates.named
  have known := (Scope.resolves_of_resolve ran).found
  unfold Scope.find? at known
  cases isLocal : context.scope.locals.find? name with
  | some owner =>
    rw [isLocal] at known
    cases known
    obtain ⟨_, holding, hasAddress, isHeld, typed, slots⟩ :=
      holds.locals.present name _ isLocal
    cases designates.address.symm.trans hasAddress
    refine ⟨holding, ?_, typed, slots⟩
    simp [Store.holding, isHeld]
  | none =>
    rw [isLocal] at known
    obtain ⟨_, holding, hasAddress, isHeld, typed, slots⟩ :=
      holds.globals.present name _ known
    cases designates.address.symm.trans hasAddress
    refine ⟨holding, ?_, typed, slots⟩
    simp [Store.holding, holds.locals.absent name isLocal, isHeld]

theorem ScopeHolds.keeps {temps : Slots}
    (arranged : context.Arranged)
    (changes : memory.ChangesOnly temps after)
    (temporary : ∀ slot, temps slot → ∃ location, locate? slot = some location ∧
      location.region = .temp) :
    ScopeHolds context.scope after store := by
  have apart : ∀ {first type location}, Place first type location →
      location.region ≠ .temp →
      (Slots.range first type.slotCount).Apart temps := by
    rintro first type location place differs slot ⟨index, inside, rfl⟩ member
    obtain ⟨found, located, region, _⟩ := place.slot inside
    obtain ⟨_, otherLocated, inTemp⟩ := temporary _ member
    rw [located] at otherLocated
    cases otherLocated
    exact differs (region.symm.trans inTemp)
  constructor
  · refine holds.locals.keeps changes
      fun name found first known hasAddress => ?_
    obtain ⟨_, _, location, own, place, region⟩ :=
      place_of_find? arranged.locals arranged.fitLocals known
    cases hasAddress.symm.trans own
    exact apart place (by rw [region]; decide)
  · refine holds.globals.keeps changes
      fun name found first known hasAddress => ?_
    obtain ⟨_, _, location, own, place, region⟩ :=
      place_of_find? arranged.globals arranged.fitGlobals known
    cases hasAddress.symm.trans own
    exact apart place (by rw [region]; decide)

/-- A variable in scope is changed. -/
theorem ScopeHolds.set {changed : Holding}
    (arranged : context.Arranged)
    (designates : context.Designates name indexed field resolved first location)
    (changes : memory.ChangesOnly (.range first resolved.owner.type.slotCount)
      after)
    (typed : changed.Typed resolved.owner.type)
    (slots : after.block first resolved.owner.type.slotCount = changed.slots) :
    ScopeHolds context.scope after (store.set name changed) := by
  obtain ⟨_, ran⟩ := designates.named
  have known := (Scope.resolves_of_resolve ran).found
  unfold Scope.find? at known
  cases isLocal : context.scope.locals.find? name with
  | some owner =>
    rw [isLocal] at known
    cases known
    obtain ⟨_, _, _, isHeld, _⟩ := holds.locals.present name _ isLocal
    have contained : store.locals.contains name = true := by
      simp [Table.contains, isHeld]
    rw [Store.set, if_pos contained]
    refine ⟨holds.locals.replace arranged.locals isLocal designates.address
      changes typed slots, ?_⟩
    obtain ⟨_, _, place, own, ownPlace, region⟩ :=
      place_of_find? arranged.locals arranged.fitLocals isLocal
    cases designates.address.symm.trans own
    refine holds.globals.keeps changes
      fun other found second otherKnown otherHas => ?_
    obtain ⟨_, _, otherPlace, otherOwn, atPlace, otherRegion⟩ :=
      place_of_find? arranged.globals arranged.fitGlobals otherKnown
    cases otherHas.symm.trans otherOwn
    exact atPlace.apart ownPlace (by rw [region, otherRegion]; decide)
  | none =>
    rw [isLocal] at known
    have contained : store.locals.contains name = false := by
      simp [Table.contains, holds.locals.absent name isLocal]
    rw [Store.set, contained, if_neg Bool.false_ne_true]
    refine ⟨?_,
      holds.globals.replace arranged.globals known designates.address
      changes typed slots⟩
    obtain ⟨_, _, place, own, ownPlace, region⟩ :=
      place_of_find? arranged.globals arranged.fitGlobals known
    cases designates.address.symm.trans own
    refine holds.locals.keeps changes
      fun other found second otherKnown otherHas => ?_
    obtain ⟨_, _, otherPlace, otherOwn, atPlace, otherRegion⟩ :=
      place_of_find? arranged.locals arranged.fitLocals otherKnown
    cases otherHas.symm.trans otherOwn
    exact atPlace.apart ownPlace (by rw [region, otherRegion]; decide)

theorem ScopeHolds.declare {declaration : Declaration}
    (arranged : context.Arranged)
    (known : context.scope.locals.find? declaration.name = some found)
    (sameType : found.type = declaration.type)
    (hasAddress : found.address = some first)
    (place : Place first found.type location)
    (region : location.region = .local)
    (fits : found.type.Fits) :
    ScopeHolds context.scope
      (memory.erase location.region first found.type.slotCount)
      (store.declare declaration) := by
  have changes := memory.changesOnly_erase location.region first
    found.type.slotCount
  rw [Store.declare, ← sameType]
  refine ⟨holds.locals.replace arranged.locals known hasAddress changes
    (Holding.zero_typed fits.stored) (memory.block_erase place), ?_⟩
  refine holds.globals.keeps changes
    fun other owner second otherKnown otherHas => ?_
  obtain ⟨_, _, _, otherOwn, atPlace, otherRegion⟩ :=
    place_of_find? arranged.globals arranged.fitGlobals otherKnown
  cases otherHas.symm.trans otherOwn
  exact atPlace.apart place (by rw [region, otherRegion]; decide)

end

end Meaning

end Easel
