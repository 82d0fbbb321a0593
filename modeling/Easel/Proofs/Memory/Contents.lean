import Easel.Machine.Interact
import Easel.Proofs.Memory.Writing
import Easel.Proofs.Space
import Easel.Proofs.Value

/-!
# The contents of memory

Where every slot holds a value of its kind, reading a place gives values of
its type.  The equations of this module say what reading and writing a place
amount to: reading gives the contents of its slots, and writing fills them.
-/

namespace Easel

variable {index : Nat} {value : Value}

theorem Location.kind_not_void {address : Address} {location : Location}
    (located : locate? address = some location) : location.kind ≠ .void := by
  have stored : location.element ≠ .void := by
    obtain ⟨base, start, _⟩ := segmentBase?_of_locate? located
    intro isVoid
    rw [isVoid] at start
    cases start
  unfold kind
  split
  · split
    · rename_i field _
      cases field <;> decide
    · exact stored
  · exact stored

/-- The regions that hold variables and temporaries. -/
def Region.isVariable : Region → Bool
  | .local | .temp | .global => true
  | .constant | .scope => false

theorem Region.not_constant {region : Region}
    (isVariable : region.isVariable = true) :
    region ≠ .constant := by
  rintro rfl
  cases isVariable

namespace Memory

/-- Every slot that was written holds a value of its kind. -/
def Kinded (memory : Memory) : Prop :=
  ∀ (region : Region) (address : Address) (value : Value),
    (memory.bank region)[address]? = some value →
      ∃ location, locate? address = some location ∧ value.Typed location.kind

/-- The value that is read from an address. -/
def contents (memory : Memory) (address : Address) : Value :=
  match locate? address with
  | some location => memory.valueAt address location
  | none => default

/-- The values that are read from consecutive addresses. -/
def block (memory : Memory) (address : Address) (count : Nat) : List Value :=
  (List.range count).map fun (index : Nat) => memory.contents (address + index)

section

variable {memory : Memory} {address : Address} {location : Location}
  {type : Ty} {count : Nat}

theorem contents_eq (located : locate? address = some location) :
    memory.contents address = memory.valueAt address location := by
  simp only [contents, located]

/-- The contents of a slot are a value of its kind. -/
theorem Kinded.contents (kinded : memory.Kinded)
    (located : locate? address = some location) :
    (memory.contents address).Typed location.kind := by
  rw [contents_eq located, valueAt]
  cases written : (memory.bank location.region)[address]? with
  | none => exact Value.typed_zero (Location.kind_not_void located)
  | some value =>
    obtain ⟨_, foundLocated, typed⟩ :=
      kinded location.region address value written
    rw [located] at foundLocated
    cases foundLocated
    exact typed

/-- Memories that agree on a slot agree on its contents. -/
theorem contents_congr {other : Memory}
    (located : locate? address = some location)
    (same : (memory.bank location.region)[address]? =
      (other.bank location.region)[address]?) :
    memory.contents address = other.contents address := by
  rw [contents_eq located, contents_eq located, valueAt, valueAt, same]

theorem length_block : (memory.block address count).length = count := by
  simp [block]

theorem getElem?_block (inside : index < count) :
    (memory.block address count)[index]? =
      some (memory.contents (address + index)) := by
  simp [block, inside]

theorem read_eq (located : locate? address = some location) :
    memory.read address = .ok (memory.contents address) := by
  rw [contents_eq located]
  simp only [read, locate, located, bind, Except.bind, pure, Except.pure]

theorem mapM_eq_ok {inputs : List α} {action : α → Except ε β} {result : α → β}
    (runs : ∀ input ∈ inputs, action input = .ok (result input)) :
    inputs.mapM action = .ok (inputs.map result) := by
  induction inputs with
  | nil => rfl
  | cons input inputs induction =>
    rw [List.mapM_cons, runs input List.mem_cons_self,
      induction fun other member => runs other (List.mem_cons_of_mem _ member)]
    rfl

theorem blockLength_of_small (small : count ≤ segmentSize) :
    blockLength count = count := by
  rw [blockLength, Address.wrap_of_small small, Int.toNat_natCast]

theorem readBlock_eq (small : count ≤ segmentSize)
    (located : ∀ index < count, ∃ location, locate? (address + (index : Nat)) =
      some location) :
    memory.readBlock address count = .ok (memory.block address count) := by
  have noLonger : min count (storageSize + 1) = count := by
    refine Nat.min_eq_left (Nat.le_trans small ?_)
    decide
  rw [readBlock, blockLength_of_small small, noLonger]
  refine mapM_eq_ok ?_
  intro index member
  obtain ⟨location, found⟩ := located index (List.mem_range.mp member)
  exact read_eq found

/-- The slots of a place are read as they are. -/
theorem readBlock_place (place : Place address type location)
    (inside : count ≤ type.slotCount) :
    memory.readBlock address count = .ok (memory.block address count) := by
  have room := place.room
  refine readBlock_eq (by omega) ?_
  intro index bound
  obtain ⟨found, foundLocated, _⟩ :=
    place.slot (Nat.lt_of_lt_of_le bound inside)
  exact ⟨found, foundLocated⟩

theorem readWhole_place (place : Place address type location)
    (single : type.isList = false) :
    memory.readWhole address = .ok (memory.block address type.slotCount) := by
  rw [Ty.slotCount_of_single single]
  simp only [readWhole, locate, place.located, bind, Except.bind,
    place.width_eq]
  exact readBlock_place place
    (Nat.le_of_eq (Ty.slotCount_of_single single).symm)

end

end Memory

namespace Ty

/-- A value takes as many slots as the value that it is turned into. -/
theorem slotCount_of_takes {target source : Ty}
    (single : target.isList = false)
    (sourceSingle : source.isList = false)
    (takes : Value.Takes target.element source.element) :
    source.slotCount = target.slotCount := by
  rw [slotCount_of_single single, slotCount_of_single sourceSingle]
  generalize target.element = wide at takes
  generalize source.element = narrow at takes
  cases takes <;> rfl

theorem slotCount_of_void {type : Ty} (isVoid : type.isVoid = true) :
    type.slotCount = 1 := by
  simp only [Ty.isVoid, Bool.and_eq_true, beq_iff_eq,
    Bool.not_eq_true'] at isVoid
  rw [slotCount_of_single isVoid.2, isVoid.1]
  rfl

end Ty

namespace Memory

/-! ## Writing -/

/-- Memory in which consecutive slots of a region hold given values. -/
def fill (memory : Memory) (region : Region) (address : Address) :
    List Value → Memory
  | [] => memory
  | value :: values =>
    (memory.assign region address value).fill region (address + 1) values

/-- Memory in which consecutive slots of a region read as zero. -/
def erase (memory : Memory)
    (region : Region)
    (address : Address)
    (count : Nat) : Memory :=
  memory.setBank region ((memory.bank region).filter fun slot _ =>
    slot < address || address + count ≤ slot)

section

variable {memory : Memory} {address slot : Address}
  {location : Location} {type : Ty}
variable {count : Nat} {region other : Region} {values : List Value}

theorem bank_fill_outside
    (outside : other ≠ region ∨ slot < address ∨
      address + values.length ≤ slot) :
    ((memory.fill region address values).bank other)[slot]? =
      (memory.bank other)[slot]? := by
  induction values generalizing memory address with
  | nil => rfl
  | cons value values induction =>
    rw [fill, induction, bank_assign, if_neg]
    · rintro ⟨rfl, rfl⟩
      rw [List.length_cons] at outside
      grind
    · rw [List.length_cons] at outside
      grind

theorem bank_fill_other (elsewhere : other ≠ region) :
    (memory.fill region address values).bank other = memory.bank other := by
  induction values generalizing memory address with
  | nil => rfl
  | cons value values induction =>
    rw [fill, induction, assign, bank_setBank, if_neg elsewhere]

theorem bank_fill_inside (member : values[index]? = some value) :
    ((memory.fill region address values).bank region)[address +
      (index : Int)]? = some value := by
  induction values generalizing memory address index with
  | nil => simp at member
  | cons first values induction =>
    cases index with
    | zero =>
      simp only [List.getElem?_cons_zero, Option.some.injEq] at member
      subst first
      rw [fill, bank_fill_outside (.inr (.inl (by grind))), bank_assign, if_pos]
      exact ⟨rfl, by grind⟩
    | succ index =>
      have shifted : address + ((index + 1 : Nat) : Int) = address + 1 +
          (index : Int) := by
        grind
      rw [shifted]
      exact induction (by simpa using member)

/-- A slot of a filled region holds one of the values, or what it held. -/
theorem bank_fill_cases (memory : Memory)
    (region other : Region)
    (address slot : Address)
    (values : List Value) :
    (∃ (index : Nat) (value : Value), other = region ∧ slot = address + index ∧
      values[index]? = some value ∧
      ((memory.fill region address values).bank other)[slot]? = some value) ∨
    ((memory.fill region address values).bank other)[slot]? =
      (memory.bank other)[slot]? := by
  by_cases outside : other ≠ region ∨ slot < address ∨
    address + values.length ≤ slot
  · exact .inr (bank_fill_outside outside)
  · simp only [not_or, Decidable.not_not, Int.not_lt, Int.not_le] at outside
    obtain ⟨rfl, _, _⟩ := outside
    left
    have isIndex : slot = address + ((slot - address).toNat : Int) := by
      unfold Address at *
      omega
    have bound : (slot - address).toNat < values.length := by
      unfold Address at *
      omega
    have member := List.getElem?_eq_getElem bound
    exact ⟨_, _, rfl, isIndex, member, by
      conv => lhs; rw [isIndex]
      exact bank_fill_inside member⟩

theorem bank_erase_other (elsewhere : other ≠ region) :
    (memory.erase region address count).bank other = memory.bank other := by
  rw [erase, bank_setBank, if_neg elsewhere]

theorem bank_erase (memory : Memory)
    (region other : Region)
    (address slot : Address)
    (count : Nat) :
    ((memory.erase region address count).bank other)[slot]? =
      if other = region ∧ address ≤ slot ∧ slot < address + count then none
      else (memory.bank other)[slot]? := by
  rw [erase, bank_setBank]
  by_cases sameRegion : other = region
  · subst other
    simp only [if_true, true_and]
    rw [Std.ExtTreeMap.getElem?_filter']
    by_cases inside : address ≤ slot ∧ slot < address + count
    · have dropped :
          (decide (slot < address) || decide (address + count ≤ slot)) =
            false := by
        grind
      rw [if_pos inside]
      cases (memory.bank region)[slot]? with
      | none => rfl
      | some value => exact Option.filter_some_neg (by simpa using dropped)
    · have kept : (decide (slot < address) || decide (address + count ≤ slot)) =
          true := by
        grind
      rw [if_neg inside]
      cases (memory.bank region)[slot]? with
      | none => rfl
      | some value => exact Option.filter_some_pos kept
  · simp [sameRegion]

end

/-! ## Values for a place -/

/-- Values for consecutive slots, the first for the given element. -/
structure Suits (values : List Value) (element : Element) (count : Nat) :
    Prop where
  length : values.length = count
  typed : ∀ (index : Nat) (value : Value), values[index]? = some value →
    value.Typed (element.slotKind index)

/-- The values as the slots of a place for the given element hold them. -/
def conform (element : Element) (values : List Value) : List Value :=
  values.mapIdx fun index value => value.fitted (element.slotKind index)

section

variable {memory : Memory} {address slot : Address}
  {location : Location} {type : Ty}
variable {count : Nat} {region : Region} {values : List Value}
  {target source : Element}

theorem slotKind_takes (takes : Value.Takes target source) (index : Nat) :
    Value.Takes (target.slotKind index) (source.slotKind index) := by
  cases takes with
  | same => exact .same _
  | widened =>
    rw [Element.slotKind_of_scalar rfl, Element.slotKind_of_scalar rfl]
    exact .widened

theorem length_conform : (conform target values).length = values.length := by
  simp [conform]

/-- Values of a type that a place takes have the place's type once stored. -/
theorem Suits.conform (suits : Suits values source count)
    (takes : Value.Takes target source) :
    Suits (conform target values) target count := by
  refine ⟨length_conform.trans suits.length, ?_⟩
  intro index value member
  simp only [Memory.conform, List.getElem?_mapIdx,
    Option.map_eq_some_iff] at member
  obtain ⟨original, found, rfl⟩ := member
  exact ((suits.typed index original found).fit? (slotKind_takes takes index)).2

/-- Values of the type of the place are stored as they are. -/
theorem Suits.conform_self (suits : Suits values source count) :
    Memory.conform source values = values := by
  refine List.ext_getElem? fun index => ?_
  simp only [Memory.conform, List.getElem?_mapIdx]
  cases found : values[index]? with
  | none => rfl
  | some value =>
    have typed := suits.typed index value found
    simp only [Option.map_some, Value.fitted, typed.fit?_self, Option.getD_some]

theorem Suits.nonempty_index (suits : Suits values source count)
    (member : values[index]? = some value) :
    index < count := by
  rw [← suits.length]
  exact (List.getElem?_eq_some_iff.mp member).1

theorem suits_single {element : Element} (typed : value.Typed element) :
    Suits [value] element 1 := by
  refine ⟨rfl, ?_⟩
  intro index other listed
  cases index with
  | zero =>
    cases listed
    rw [Element.slotKind_zero]
    exact typed
  | succ index => simp at listed

theorem contents_fill_single (located : locate? address = some location) :
    (memory.fill location.region address [value]).contents address = value := by
  have listed : [value][0]? = some value := rfl
  have kept :
      ((memory.fill location.region address [value]).bank
        location.region)[address]? = some value := by
    simpa using bank_fill_inside listed
  rw [contents_eq located, valueAt, kept]
  rfl

theorem block_fill (memory : Memory)
    (place : Place address type location)
    (whole : values.length = type.slotCount) :
    (memory.fill location.region address values).block address type.slotCount =
      values := by
  refine List.ext_getElem? fun position => ?_
  by_cases inside : position < type.slotCount
  · obtain ⟨_, located, region, _⟩ := place.slot inside
    have member := List.getElem?_eq_getElem (whole.symm ▸ inside)
    rw [getElem?_block inside, member, contents_eq located, valueAt, region,
      bank_fill_inside member]
    rfl
  · have short : type.slotCount ≤ position := Nat.not_lt.mp inside
    rw [List.getElem?_eq_none (length_block.symm ▸ short),
      List.getElem?_eq_none (whole.symm ▸ short)]

theorem block_fill_apart {other : Address}
    (apart : ∀ index < count, ∀ position < values.length,
      other + (index : Int) ≠ address + (position : Int)) :
    (memory.fill region address values).block other count =
      memory.block other count := by
  refine List.map_congr_left fun index member => ?_
  have inside := List.mem_range.mp member
  cases located : locate? (other + (index : Int)) with
  | none => simp only [contents, located]
  | some found =>
    refine contents_congr located ?_
    rcases bank_fill_cases memory region found.region address
        (other + (index : Int)) values with
      ⟨position, value, _, same, written, _⟩ | same
    · exact (apart index inside position
        (List.getElem?_eq_some_iff.mp written).1 same).elim
    · exact same

theorem suits_block (kinded : memory.Kinded)
    (place : Place address type location)
    (inside : count ≤ type.slotCount) :
    Suits (memory.block address count) type.element count := by
  refine ⟨length_block, ?_⟩
  intro index value member
  have bound : index < count := by
    have listed := (List.getElem?_eq_some_iff.mp member).1
    rwa [length_block] at listed
  rw [getElem?_block bound] at member
  cases member
  obtain ⟨_, located, _, kind⟩ := place.slot (Nat.lt_of_lt_of_le bound inside)
  rw [← kind]
  exact kinded.contents located

theorem writeBlock_eq_fill {stored : List Value}
    (memory : Memory)
    (writable : region ≠ .constant)
    (length : stored.length = values.length)
    (fits : ∀ (index : Nat) (value kept : Value), values[index]? = some value →
      stored[index]? = some kept →
      ∃ location, locate? (address + index) = some location ∧
      location.region = region ∧ value.fit? location.kind = some kept) :
    writeBlock address values memory =
      .ok () (memory.fill region address stored) := by
  induction values generalizing memory address stored with
  | nil =>
    cases stored with
    | nil => rfl
    | cons kept stored => cases length
  | cons value values induction =>
    cases stored with
    | nil => cases length
    | cons kept stored =>
      obtain ⟨location, located, inRegion, fit⟩ := fits 0 value kept rfl rfl
      rw [Int.natCast_zero, Int.add_zero] at located
      subst inRegion
      have rest : writeBlock (address + 1) values
          (memory.assign location.region address kept) =
          .ok () ((memory.assign location.region address kept).fill
            location.region (address + 1) stored) := by
        refine induction _ (by simpa using length) ?_
        intro index other otherKept member keptMember
        have shifted : address + 1 + (index : Int) =
            address + ((index + 1 : Nat) : Int) := by
          grind
        rw [shifted]
        exact fits (index + 1) other otherKept (by simpa using member)
          (by simpa using keptMember)
      simp only [writeBlock, bind, EStateM.bind,
        write_eq memory located writable fit]
      exact rest

/-- Values of a type that a place takes can be stored there. -/
theorem writeBlock_place (memory : Memory)
    (place : Place address type location)
    (writable : location.region ≠ .constant)
    (suits : Suits values source count)
    (takes : Value.Takes type.element source)
    (inside : count ≤ type.slotCount) :
    writeBlock address values memory =
      .ok () (memory.fill location.region address
        (conform type.element values)) := by
  refine writeBlock_eq_fill memory writable length_conform ?_
  intro index value kept member keptMember
  obtain ⟨found, located, sameRegion, kind⟩ :=
    place.slot (Nat.lt_of_lt_of_le (suits.nonempty_index member) inside)
  simp only [Memory.conform, List.getElem?_mapIdx, member, Option.map_some,
    Option.some.injEq] at keptMember
  subst keptMember
  refine ⟨found, located, sameRegion, ?_⟩
  rw [kind]
  exact ((suits.typed index value member).fit? (slotKind_takes takes index)).1

/-- Storing values of the type of a place keeps every slot in order. -/
theorem Kinded.fill (kinded : memory.Kinded)
    (place : Place address type location)
    (suits : Suits values type.element count)
    (inside : count ≤ type.slotCount) :
    (memory.fill region address values).Kinded := by
  intro other slot value written
  rcases bank_fill_cases memory region other address slot values with
    ⟨index, stored, _, rfl, member, isStored⟩ | untouched
  · rw [isStored] at written
    cases written
    obtain ⟨found, located, _, kind⟩ :=
      place.slot (Nat.lt_of_lt_of_le (suits.nonempty_index member) inside)
    refine ⟨found, located, ?_⟩
    rw [kind]
    exact suits.typed index value member
  · rw [untouched] at written
    exact kinded other slot value written

theorem Kinded.erase (kinded : memory.Kinded) :
    (memory.erase region address count).Kinded := by
  intro other slot value written
  rw [bank_erase] at written
  split at written
  · cases written
  · exact kinded other slot value written

theorem clear_eq (memory : Memory)
    (located : locate? address = some location)
    (writable : location.region ≠ .constant)
    (small : count ≤ segmentSize) :
    clear address count memory =
      .ok () (memory.erase location.region address count) := by
  simp [clear, locateWritable, locate, located, writable,
    blockLength_of_small small, erase, bind, EStateM.bind, Except.bind, pure,
    Except.pure, EStateM.pure, MonadExcept.ofExcept, modify_run]

/-- What letting slots read as zero found, and what it left. -/
theorem clear_ok {left : Memory}
    (ran : clear address count memory = .ok () left) :
    ∃ location, locate? address = some location ∧ location.region ≠ .constant ∧
      left = memory.erase location.region address (blockLength count) := by
  unfold clear at ran
  cases located : locate? address with
  | none =>
    simp [locateWritable, locate, located, bind, EStateM.bind, Except.bind,
      MonadExcept.ofExcept, throw_run] at ran
  | some location =>
    by_cases inConstants : location.region = .constant
    · simp [locateWritable, locate, located, inConstants, bind,
        EStateM.bind, Except.bind, MonadExcept.ofExcept, throw_eq_error,
        throw_run] at ran
    · simp only [locateWritable, locate, located, inConstants, if_false,
        bind, EStateM.bind, Except.bind, pure, Except.pure,
        MonadExcept.ofExcept, EStateM.pure, modify_run, EStateM.Result.ok.injEq,
        true_and] at ran
      exact ⟨location, rfl, inConstants, ran.symm⟩

theorem Kinded.restore {saved : Memory}
    (kinded : memory.Kinded)
    (savedKinded : saved.Kinded) :
    (memory.restore saved.snapshot).Kinded := by
  intro region address value written
  cases region with
  | «local» => exact savedKinded .local address value written
  | temp => exact savedKinded .temp address value written
  | global => exact kinded .global address value written
  | constant => exact kinded .constant address value written
  | scope => exact kinded .scope address value written

end

end Memory

/-- The object whose slots hold the given values, as it is drawn. -/
def Drawing.ofSlots (slots : List Value) : Drawing :=
  match slots with
  | .object kind :: _ =>
    kind.attributes.foldl
      (fun drawing field =>
        drawing.set field (slots[field.offset]?.getD default)) { kind }
  | _ => default

/-- The value or object whose slots hold the given values, as it is printed. -/
def textOfSlots : List Value → String
  | [] => ""
  | .object kind :: rest => (Drawing.ofSlots (.object kind :: rest)).text
  | value :: _ => value.text

section

variable {memory : Memory} {address : Address} {type : Ty} {location : Location}

/-- The first of the slots of a single value. -/
theorem Memory.block_eq_cons (memory : Memory)
    (address : Address)
    (single : type.isList = false) :
    ∃ rest, memory.block address type.slotCount =
      memory.contents address :: rest := by
  have wide : type.slotCount = type.slotCount - 1 + 1 := by
    have positive := type.element.slotWidth_pos
    rw [Ty.slotCount_of_single single]
    omega
  rw [wide, Memory.block, List.range_succ_eq_map]
  simp

theorem Memory.readDrawing_eq (kinded : memory.Kinded)
    (place : Place address type location)
    (object : type.isObject = true) :
    memory.readDrawing address =
      .ok (Drawing.ofSlots (memory.block address type.slotCount)) := by
  have parts := object
  simp only [Ty.isObject, Bool.and_eq_true, Bool.not_eq_true'] at parts
  obtain ⟨isObject, single⟩ := parts
  have typed := kinded.contents place.located
  rw [place.kind] at typed
  have count : type.slotCount = Element.blockSize := by
    rw [Ty.slotCount_of_single single, Element.slotWidth, isObject, if_pos rfl]
  have attributes : ∀ (fields : List Attribute) (drawing : Drawing),
      fields.foldlM (fun drawing field => do
        return drawing.set field (← memory.read (address + field.offset)))
          drawing =
      (.ok (fields.foldl (fun drawing field => drawing.set field
        ((memory.block address type.slotCount)[field.offset]?.getD default))
        drawing) :
          Except Fault Drawing) := by
    intro fields
    induction fields with
    | nil =>
      intro drawing
      rfl
    | cons field fields induction =>
      intro drawing
      have inside : field.offset < type.slotCount := by
        rw [count]
        exact field.offset_bounds.2
      rw [List.foldlM_cons, Memory.read_eq (place.field object field).located,
        List.foldl_cons, Memory.getElem?_block inside]
      exact induction _
  obtain ⟨_, first⟩ := Memory.block_eq_cons memory address single
  rw [typed.eq_object isObject] at first
  have drawn : Drawing.ofSlots (memory.block address type.slotCount) =
      type.element.attributes.foldl (fun drawing field => drawing.set field
        ((memory.block address type.slotCount)[field.offset]?.getD default))
        { kind := type.element } := by
    rw [first]
    rfl
  unfold Memory.readDrawing
  rw [Memory.read_eq place.located, typed.eq_object isObject, drawn]
  exact attributes _ _

end

end Easel
