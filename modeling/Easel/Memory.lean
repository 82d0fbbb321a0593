import Std.Data.ExtTreeMap
import Easel.Fault
import Easel.Value

/-!
# Memory

Memory is sparse: each region is a map from the addresses that were written
to their values, and every other slot reads as the zero of its type.  A value
is only stored where its type fits, and constants are never overwritten.

Updates are computations that can fail.  A failing update keeps what it wrote
before the failure.
-/

namespace Easel

/-- The written slots of one region. -/
abbrev Bank := Std.ExtTreeMap Address Value

/-- The written slots of all regions. -/
structure Memory where
  globals : Bank
  locals : Bank
  temps : Bank
  constants : Bank
  scopes : Bank
deriving Inhabited

/-- The local and temporary slots of a function that waits for a call. -/
structure Snapshot where
  locals : Bank
  temps : Bank
deriving Inhabited

/-- An update of memory that can fail halfway. -/
abbrev Storing := EStateM Fault Memory

/-- Slots in all regions. -/
def storageSize : Nat := regionSize * Region.all.length

/-- The location of an address. -/
def locate (address : Address) : Except Fault Location :=
  match locate? address with
  | some location => .ok location
  | none => .error (.invalidAddress address)

/-- The location of an address that can be written. -/
def locateWritable (address : Address) : Except Fault Location := do
  let location ← locate address
  if location.region = .constant then throw (.invalidAddress address)
  else return location

/-- The number of slots in a block whose length was computed in 32 bits. -/
def blockLength (count : Nat) : Nat :=
  (Address.wrap count).toNat

namespace Memory

/-- Memory in which nothing was written. -/
def empty : Memory := ⟨∅, ∅, ∅, ∅, ∅⟩

/-- The written slots of a region. -/
def bank (memory : Memory) : Region → Bank
  | .global => memory.globals
  | .local => memory.locals
  | .temp => memory.temps
  | .constant => memory.constants
  | .scope => memory.scopes

/-- Replace the written slots of a region. -/
def setBank (memory : Memory) (region : Region) (bank : Bank) : Memory :=
  match region with
  | .global => { memory with globals := bank }
  | .local => { memory with locals := bank }
  | .temp => { memory with temps := bank }
  | .constant => { memory with constants := bank }
  | .scope => { memory with scopes := bank }

theorem bank_setBank (memory : Memory) (region other : Region) (bank : Bank) :
    (memory.setBank region bank).bank other =
      if other = region then bank else memory.bank other := by
  cases region <;> cases other <;> rfl

@[simp]
theorem setBank_bank (memory : Memory) (region : Region) :
    memory.setBank region (memory.bank region) = memory := by
  cases region <;> rfl

/-- The number of written slots of a region. -/
def used (memory : Memory) (region : Region) : Nat :=
  (memory.bank region).size

/-! ## Reading -/

/-- The value at a known location. -/
def valueAt (memory : Memory) (address : Address) (location : Location) :
    Value :=
  ((memory.bank location.region)[address]?).getD (.zero location.kind)

/-- The value at an address. -/
def read (memory : Memory) (address : Address) : Except Fault Value := do
  return memory.valueAt address (← locate address)

/--
The values of `count` consecutive slots.  A block that is longer than all of
storage leaves it after at most `storageSize` slots, so no more than one slot
beyond that is tried.
-/
def readBlock (memory : Memory) (address : Address) (count : Nat) :
    Except Fault (List Value) :=
  (List.range (min (blockLength count) (storageSize + 1))).mapM
      fun (index : Nat) =>
    memory.read (address + index)

/-- The slots of the value that starts at an address. -/
def readWhole (memory : Memory) (address : Address) :
    Except Fault (List Value) := do
  memory.readBlock address (← locate address).width

/-! ## Writing -/

/-- Put a value into a slot whose location is known. -/
def put (memory : Memory)
    (address : Address)
    (location : Location)
    (value : Value) : Except Fault Memory :=
  match value.fit? location.kind with
  | some fitted =>
    let bank := (memory.bank location.region).insert address fitted
    .ok (memory.setBank location.region bank)
  | none => .error (.typeCoercion address location.kind value.element)

/-- Store a value. -/
def write (address : Address) (value : Value) : Storing Unit := do
  let location ← MonadExcept.ofExcept (locateWritable address)
  set (← MonadExcept.ofExcept ((← get).put address location value))

/-- Store values in consecutive slots. -/
def writeBlock (address : Address) : List Value → Storing Unit
  | [] => return ()
  | value :: values => do
    write address value
    writeBlock (address + 1) values

/-- Copy one value; an object is copied with its attributes. -/
def copy (source target : Address) : Storing Unit := do
  writeBlock target (← MonadExcept.ofExcept ((← get).readWhole source))

/-- Let `count` consecutive slots of one region read as zero again. -/
def clear (address : Address) (count : Nat) : Storing Unit := do
  let location ← MonadExcept.ofExcept (locateWritable address)
  let past := address + blockLength count
  modify fun memory =>
    memory.setBank location.region ((memory.bank location.region).filter
        fun slot _ =>
      slot < address || past ≤ slot)

/-! ## Constants -/

/-- Store a constant in its slot. -/
def loadConstant (constant : Constant) : Storing Unit := do
  match Value.ofLiteral? constant.text constant.element with
  | none =>
    throw (.invalidInstruction (.badConstant constant.text constant.element))
  | some value =>
    let location ← MonadExcept.ofExcept (locate constant.address)
    if location.region = .constant then
      set (← MonadExcept.ofExcept ((← get).put constant.address location value))
    else throw (.invalidAddress constant.address)

/-- Store constants in order. -/
def loadConstants (constants : List Constant) : Storing Unit :=
  constants.forM loadConstant

/-- Memory that keeps its constants and nothing else. -/
def constantsOnly (memory : Memory) : Memory :=
  { empty with constants := memory.constants }

/-! ## Calls -/

/-- The slots that a call has to preserve. -/
def snapshot (memory : Memory) : Snapshot :=
  ⟨memory.locals, memory.temps⟩

/-- Bring back the slots that a call had to preserve. -/
def restore (memory : Memory) (saved : Snapshot) : Memory :=
  { memory with locals := saved.locals, temps := saved.temps }

@[simp]
theorem restore_snapshot (memory : Memory) :
    memory.restore memory.snapshot = memory :=
  rfl

end Memory

end Easel
