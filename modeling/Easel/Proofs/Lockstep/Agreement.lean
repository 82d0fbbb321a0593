import Easel.Proofs.Machine.Arguments

/-!
# Memories that agree

Two memories agree on a set of slots if each of those slots holds the same in
both, and if the regions that calls share are the same altogether.  Whatever
is written to both keeps them in agreement, on the slots that were written as
well.
-/

namespace Easel

variable {other : Memory} {staged : List (Address × List Value)}

/-- A set of slots. -/
abbrev Slots := Address → Prop

namespace Slots

/-- The consecutive slots that start at an address. -/
def range (address : Address) (count : Nat) : Slots := fun slot =>
  ∃ index < count, slot = address + (index : Nat)

def union (first second : Slots) : Slots := fun slot => first slot ∨ second slot

def Within (first second : Slots) : Prop :=
  ∀ slot, first slot → second slot

theorem Within.refl (slots : Slots) : slots.Within slots :=
  fun _ member => member

theorem Within.trans {first second third : Slots}
    (before : first.Within second)
    (after : second.Within third) :
    first.Within third :=
  fun slot member => after slot (before slot member)

theorem union_within {first second third : Slots}
    (left : first.Within third)
    (right : second.Within third) :
    (first.union second).Within third := by
  rintro slot (member | member)
  · exact left slot member
  · exact right slot member

theorem within_left (first second : Slots) :
    first.Within (first.union second) :=
  fun _ member => .inl member

theorem within_right (first second : Slots) :
    second.Within (first.union second) :=
  fun _ member => .inr member

theorem Within.union_left {first second : Slots}
    (inside : first.Within second)
    (third : Slots) :
    (first.union third).Within (second.union third) :=
  union_within (inside.trans (within_left _ _)) (within_right _ _)

theorem range_within {address : Address} {distance count total : Nat}
    (inside : distance + count ≤ total) :
    (range (address + (distance : Int)) count).Within
      (range address total) := by
  rintro slot ⟨index, _, rfl⟩
  refine ⟨distance + index, by omega, ?_⟩
  unfold Address at *
  omega

end Slots

def Operand.slots (operand : Operand) : Slots :=
  .range operand.address operand.type.slotCount

/-- The regions that belong to one invocation of a function. -/
def Region.isPrivate : Region → Bool
  | .local | .temp => true
  | .global | .constant | .scope => false

/-- Memory whose regions without variables are as they were loaded. -/
def Memory.Keeps (memory : Memory) (constants : List Constant) : Prop :=
  ∃ loaded, loadConstants constants .empty = .ok () loaded ∧
    memory.bank .constant = loaded.bank .constant ∧
    memory.bank .scope = loaded.bank .scope

section

variable {memory : Memory} {constants : List Constant} {address : Address}
  {region : Region}

theorem Memory.Keeps.of_same (keeps : memory.Keeps constants)
    (same : ∀ region, region.isVariable = false →
      other.bank region = memory.bank region) :
    other.Keeps constants := by
  obtain ⟨loaded, isLoaded, sameConstants, sameScopes⟩ := keeps
  exact ⟨loaded, isLoaded, (same .constant rfl).trans sameConstants,
    (same .scope rfl).trans sameScopes⟩

/-- Memories that keep the same constants have the same constants and scopes. -/
theorem Memory.Keeps.same (keeps : memory.Keeps constants)
    (otherKeeps : other.Keeps constants) :
    memory.bank .constant = other.bank .constant ∧
      memory.bank .scope = other.bank .scope := by
  obtain ⟨_, isLoaded, sameConstants, sameScopes⟩ := keeps
  obtain ⟨_, otherIsLoaded, otherConstants, otherScopes⟩ := otherKeeps
  rw [isLoaded] at otherIsLoaded
  cases otherIsLoaded
  exact ⟨sameConstants.trans otherConstants.symm,
    sameScopes.trans otherScopes.symm⟩

/-- Memory of a program: its slots have their kinds, constants are kept. -/
structure Memory.Intact (memory : Memory) (constants : List Constant) :
    Prop where
  kinded : memory.Kinded
  keeps : memory.Keeps constants

theorem Region.ne_of_isVariable {other : Region}
    (isVariable : region.isVariable = true)
    (fixed : other.isVariable = false) :
    other ≠ region := by
  rintro rfl
  rw [isVariable] at fixed
  cases fixed

namespace Memory.Intact

section

variable (intact : memory.Intact constants)
include intact

theorem fill {type : Ty} {location : Location} {values : List Value}
    {count : Nat}
    (place : Place address type location)
    (varies : location.region.isVariable = true)
    (suits : Suits values type.element count)
    (inside : count ≤ type.slotCount) :
    (memory.fill location.region address values).Intact constants :=
  ⟨intact.kinded.fill place suits inside, intact.keeps.of_same fun _ fixed =>
    bank_fill_other (Region.ne_of_isVariable varies fixed)⟩

theorem erase (varies : region.isVariable = true) (count : Nat) :
    (memory.erase region address count).Intact constants :=
  ⟨intact.kinded.erase, intact.keeps.of_same fun _ fixed =>
    bank_erase_other (Region.ne_of_isVariable varies fixed)⟩

theorem deliver (deliverable : Deliverable staged) :
    (memory.deliver staged).Intact constants :=
  ⟨intact.kinded.deliver deliverable, intact.keeps.of_same fun _ fixed =>
    bank_deliver (Region.ne_of_isVariable rfl fixed)⟩

theorem restore {saved : Memory} (savedIntact : saved.Intact constants) :
    (memory.restore saved.snapshot).Intact constants :=
  ⟨intact.kinded.restore savedIntact.kinded, intact.keeps⟩

end

end Memory.Intact

end

/-- Consecutive slots of one region. -/
def Spans (address : Address) (count : Nat) (region : Region) : Prop :=
  ∀ index < count, ∃ location,
    locate? (address + (index : Nat)) = some location ∧ location.region = region

theorem Place.spans {address : Address} {type : Ty} {location : Location}
    {count : Nat}
    (place : Place address type location)
    (inside : count ≤ type.slotCount) :
    Spans address count location.region := by
  intro index bound
  obtain ⟨found, located, sameRegion, _⟩ :=
    place.slot (Nat.lt_of_lt_of_le bound inside)
  exact ⟨found, located, sameRegion⟩

namespace Memory

/-- Two memories hold the same in a set of slots and in the shared regions. -/
structure Agrees (slots : Slots) (first second : Memory) : Prop where
  shared : ∀ region, region.isPrivate = false →
    first.bank region = second.bank region
  known : ∀ address location, slots address → locate? address = some location →
    (first.bank location.region)[address]? =
      (second.bank location.region)[address]?

section

variable {slots : Slots} {first second : Memory} {address : Address}
  {location : Location}
variable {type : Ty} {region : Region} {values : List Value} {count : Nat}

section

variable (agrees : Agrees slots first second)
include agrees

theorem Agrees.mono {fewer : Slots} (within : fewer.Within slots) :
    Agrees fewer first second :=
  ⟨agrees.shared, fun address location member =>
    agrees.known address location (within address member)⟩

theorem Agrees.union_unused (isVoid : type.isVoid = true) :
    Agrees (slots.union (.range .unused type.slotCount)) first second := by
  refine ⟨agrees.shared, ?_⟩
  rintro address found (member | ⟨index, bound, rfl⟩) located
  · exact agrees.known address found member located
  · have isFirst : index = 0 := by
      rw [Ty.slotCount_of_void isVoid] at bound
      omega
    subst isFirst
    cases located

theorem Agrees.contents (member : slots address)
    (located : locate? address = some location) :
    first.contents address = second.contents address :=
  contents_congr located (agrees.known address location member located)

theorem Agrees.block (members : (Slots.range address count).Within slots)
    (place : Place address type location)
    (inside : count ≤ type.slotCount) :
    first.block address count = second.block address count := by
  unfold Memory.block
  refine List.map_congr_left ?_
  intro index listed
  have bound := List.mem_range.mp listed
  obtain ⟨_, located, _⟩ := place.slot (Nat.lt_of_lt_of_le bound inside)
  exact agrees.contents (members _ ⟨index, bound, rfl⟩) located

end

theorem bank_fill_congr (same : first.bank region = second.bank region)
    (other : Region)
    (address : Address)
    (values : List Value) :
    (first.fill other address values).bank region =
      (second.fill other address values).bank region := by
  induction values generalizing first second address with
  | nil => exact same
  | cons value values induction =>
    refine induction ?_ (address + 1)
    rw [assign, assign, bank_setBank, bank_setBank]
    split
    · rename_i here
      rw [← here, same]
    · exact same

/-- Values that are written to both memories are known from then on. -/
theorem Agrees.fill (agrees : Agrees slots first second)
    (spans : Spans address values.length region) :
    Agrees (slots.union (.range address values.length))
      (first.fill region address values)
        (second.fill region address values) := by
  constructor
  · intro other isShared
    exact bank_fill_congr (agrees.shared other isShared) region address values
  · rintro slot found member located
    by_cases inside : found.region = region ∧
      Slots.range address values.length slot
    · obtain ⟨rfl, index, bound, rfl⟩ := inside
      have listed := List.getElem?_eq_getElem bound
      rw [bank_fill_inside listed, bank_fill_inside listed]
    · have outside : found.region ≠ region ∨ slot < address ∨
          address + values.length ≤ slot := by
        by_cases sameRegion : found.region = region
        · right
          have notInRange : ¬ Slots.range address values.length slot :=
            fun inRange => inside ⟨sameRegion, inRange⟩
          by_cases below : slot < address
          · exact .inl below
          · right
            by_cases above : address + values.length ≤ slot
            · exact above
            · refine (notInRange ⟨(slot - address).toNat, ?_, ?_⟩).elim
              · unfold Address at *
                omega
              · unfold Address at *
                omega
        · exact .inl sameRegion
      rw [bank_fill_outside outside, bank_fill_outside outside]
      rcases member with older | inRange
      · exact agrees.known slot found older located
      · obtain ⟨index, bound, rfl⟩ := inRange
        obtain ⟨other, otherLocated, inRegion⟩ := spans index bound
        rw [located] at otherLocated
        cases otherLocated
        exact (inside ⟨inRegion, index, bound, rfl⟩).elim

/-- Slots that are cleared in both memories are known from then on. -/
theorem Agrees.erase (agrees : Agrees slots first second)
    (spans : Spans address count region) :
    Agrees (slots.union (.range address count))
      (first.erase region address count)
        (second.erase region address count) := by
  constructor
  · intro other isShared
    rw [Memory.erase, Memory.erase, bank_setBank, bank_setBank]
    split
    · rename_i here
      rw [← here, agrees.shared other isShared]
    · exact agrees.shared other isShared
  · rintro slot found member located
    rw [bank_erase, bank_erase]
    split
    · rfl
    · rename_i outside
      rcases member with older | ⟨index, bound, rfl⟩
      · exact agrees.known slot found older located
      · obtain ⟨other, otherLocated, inRegion⟩ := spans index bound
        rw [located] at otherLocated
        cases otherLocated
        refine (outside ⟨inRegion, ?_, ?_⟩).elim
        · unfold Address at *
          omega
        · unfold Address at *
          omega

/-- The slots for which arguments wait. -/
def stagedSlots (staged : List (Address × List Value)) : Slots := fun slot =>
  ∃ address values, (address, values) ∈ staged ∧
    Slots.range address values.length slot

/-- Arguments that are delivered to both memories are known from then on. -/
theorem Agrees.deliver (agrees : Agrees slots first second)
    (deliverable : Deliverable staged) :
    Agrees (slots.union (stagedSlots staged)) (first.deliver staged)
      (second.deliver staged) := by
  induction staged generalizing slots first second with
  | nil =>
    refine agrees.mono ?_
    rintro slot (older | ⟨address, values, member, _⟩)
    · exact older
    · cases member
  | cons entry staged induction =>
    obtain ⟨address, values⟩ := entry
    obtain ⟨_, _, place, inLocal, suits⟩ :=
      deliverable address values List.mem_cons_self
    have spans : Spans address values.length .local := by
      rw [← inLocal]
      exact place.spans (Nat.le_of_eq suits.length)
    have rest := induction (agrees.fill spans) fun other otherValues member =>
      deliverable other otherValues (List.mem_cons_of_mem _ member)
    refine Agrees.mono rest ?_
    rintro slot (older | ⟨other, otherValues, member, inRange⟩)
    · exact .inl (.inl older)
    · rcases List.mem_cons.mp member with same | later
      · cases same
        exact .inl (.inr inRange)
      · exact .inr ⟨other, otherValues, later, inRange⟩

/-- What agreed when a call was entered agrees again once it has returned. -/
theorem Agrees.restore {callees : Slots} {firstLeft secondLeft : Memory}
    (agrees : Agrees slots first second)
    (leftAgrees : Agrees callees firstLeft secondLeft) :
    Agrees slots (firstLeft.restore first.snapshot)
      (secondLeft.restore second.snapshot) := by
  constructor
  · intro region isShared
    cases region with
    | «local» => cases isShared
    | temp => cases isShared
    | global => exact leftAgrees.shared .global isShared
    | constant => exact leftAgrees.shared .constant isShared
    | scope => exact leftAgrees.shared .scope isShared
  · rintro address ⟨region, _, _⟩ member located
    cases region with
    | «local» => exact agrees.known address _ member located
    | temp => exact agrees.known address _ member located
    | global => exact congrArg (·[address]?) (leftAgrees.shared .global rfl)
    | constant => exact congrArg (·[address]?) (leftAgrees.shared .constant rfl)
    | scope => exact congrArg (·[address]?) (leftAgrees.shared .scope rfl)

end

end Memory

end Easel
