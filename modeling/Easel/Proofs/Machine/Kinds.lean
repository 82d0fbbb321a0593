import Easel.Proofs.Machine.Changes
import Easel.Proofs.Machine.Load
import Easel.Proofs.Session.CallerFrame

/-!
# Slots hold values of their kinds

Whatever instructions a machine executes, each slot that was written lies in
the region whose bank holds it and has a value of the kind that its address
tells.  The code need not have been generated: what carries the invariant is
that a value is stored only where it fits, slot by slot, also by a block of
writes that crosses the border of a segment or stops at its first fault.
-/

namespace Easel

/-- The kind of the values of a slot, by the slot's place in its segment. -/
inductive Location.Keeps (location : Location) : Element → Prop where
  | scalar (isScalar : location.element.isObject = false) :
      Keeps location location.element
  | object (isObject : location.element.isObject = true)
      (first : location.offset % Element.blockSize = 0) :
        Keeps location location.element
  | attribute {field : Attribute} (isObject : location.element.isObject = true)
      (inside : location.offset % Element.blockSize = field.offset) :
      Keeps location field.element

theorem Location.keeps_kind (location : Location) :
    location.Keeps location.kind := by
  cases isObject : location.element.isObject with
  | false =>
    rw [kind, isObject, if_neg Bool.false_ne_true]
    exact .scalar isObject
  | true =>
    rw [kind, if_pos isObject]
    cases found : Attribute.ofOffset?
      (location.offset % Element.blockSize : Nat) with
    | some field =>
      have inside := List.find?_some found
      simp only [beq_iff_eq, Int.natCast_inj] at inside
      exact .attribute isObject inside.symm
    | none =>
      refine .object isObject ?_
      have within : location.offset % Element.blockSize < 9 :=
        Nat.mod_lt _ (by decide)
      have listed : ∀ place < 9, Attribute.ofOffset? (place : Nat) = none →
          place = 0 := by
        decide
      exact listed _ within found

/-! ## Banks, memory and saved slots -/

/-- Every slot of the bank lies in the region and holds a value of its kind. -/
def Bank.Sorted (bank : Bank) (region : Region) : Prop :=
  ∀ (address : Address) (value : Value), bank[address]? = some value →
    ∃ location, locate? address = some location ∧ location.region = region ∧
      value.element = location.kind

/-- Every slot that was written is in its bank and has a value of its kind. -/
def Memory.Sorted (memory : Memory) : Prop :=
  ∀ region, (memory.bank region).Sorted region

/-- The slots of a waiting function hold values of their kinds. -/
structure Snapshot.Sorted (saved : Snapshot) : Prop where
  locals : saved.locals.Sorted .local
  temps : saved.temps.Sorted .temp

/-- Whatever slots the frame has saved hold values of their kinds. -/
def Frame.Sorted (frame : Frame) : Prop :=
  ∀ saved, frame.saved = some saved → saved.Sorted

/-- Memory and all saved slots hold values of their kinds. -/
structure Machine.Sorted (machine : Machine) : Prop where
  memory : machine.memory.Sorted
  frames : ∀ frame ∈ machine.frames, frame.Sorted
  pending : ∀ frame ∈ machine.pending, frame.Sorted

namespace Memory.Sorted

variable {memory : Memory} {address : Address} {location : Location}
  {value fitted : Value}

theorem empty : Memory.empty.Sorted := by
  intro region address value found
  cases region <;> simp [Memory.empty, bank] at found

section

variable (sorted : memory.Sorted)
include sorted

theorem assign (located : locate? address = some location)
    (fits : value.fit? location.kind = some fitted) :
    (memory.assign location.region address fitted).Sorted := by
  intro region slot stored written
  rw [bank_assign] at written
  split at written
  · rename_i here
    obtain ⟨rfl, rfl⟩ := here
    cases written
    exact ⟨location, located, rfl, Value.element_of_fit? fits⟩
  · exact sorted region slot stored written

theorem erase (region : Region) (address : Address) (count : Nat) :
    (memory.erase region address count).Sorted := by
  intro other slot stored written
  rw [bank_erase] at written
  split at written
  · cases written
  · exact sorted other slot stored written

theorem snapshot : memory.snapshot.Sorted :=
  ⟨sorted .local, sorted .temp⟩

theorem restore {saved : Snapshot} (savedSorted : saved.Sorted) :
    (memory.restore saved).Sorted := by
  intro region
  cases region with
  | «local» => exact savedSorted.locals
  | temp => exact savedSorted.temps
  | «global» => exact sorted .global
  | constant => exact sorted .constant
  | scope => exact sorted .scope

theorem read (located : locate? address = some location) :
    ∃ value, memory.read address = .ok value ∧
      value.element = location.kind := by
  refine ⟨memory.contents address, read_eq located, ?_⟩
  rw [contents_eq located, valueAt]
  cases written : (memory.bank location.region)[address]? with
  | none => exact Value.element_zero location.kind
  | some value =>
    obtain ⟨_, foundLocated, _, kind⟩ :=
      sorted location.region address value written
    rw [located] at foundLocated
    cases foundLocated
    exact kind

end

theorem loaded {constants : List Constant} {after : Memory}
    (loaded : loadConstants constants .empty = .ok () after) : after.Sorted :=
  loadConstants_keeps Memory.Sorted
    (fun _ _ _ _ _ sorted located inConstants fits => by
      rw [← inConstants]
      exact sorted.assign located fits)
    empty loaded

end Memory.Sorted

/-! ## Instructions -/

/-- Every change that an instruction makes keeps the kinds of all slots. -/
theorem Machine.sorted_allows :
    AllowsCalls fun before after => before.Sorted → after.Sorted where
  refl _ := id
  trans _ _ _ first second sorted := second (first sorted)
  stored _ _ _ _ _ located _ fits sorted :=
    ⟨sorted.memory.assign located fits, sorted.frames, sorted.pending⟩
  cleared _ _ _ _ ran sorted := by
    obtain ⟨_, _, _, rfl⟩ := Memory.clear_ok ran
    exact ⟨sorted.memory.erase _ _ _, sorted.frames, sorted.pending⟩
  shown _ _ sorted := ⟨sorted.memory, sorted.frames, sorted.pending⟩
  announced _ _ sorted := by
    refine ⟨sorted.memory, sorted.frames,
      List.forall_mem_cons.mpr ⟨?_, sorted.pending⟩⟩
    rintro saved ⟨⟩
  passed _ frame staged _ _ _ pending passed sorted := by
    obtain ⟨first, rest⟩ := List.forall_mem_cons.mp (pending ▸ sorted.pending)
    refine ⟨sorted.memory, sorted.frames, List.forall_mem_cons.mpr ⟨?_, rest⟩⟩
    unfold Frame.Sorted
    rw [Frame.saved_of_stage passed]
    exact first
  suspended _ caller _ frames sorted := by
    obtain ⟨_, rest⟩ := List.forall_mem_cons.mp (frames ▸ sorted.frames)
    refine ⟨sorted.memory, List.forall_mem_cons.mpr ⟨?_, rest⟩, sorted.pending⟩
    rintro saved ⟨⟩
    exact sorted.memory.snapshot
  dropped _ _ _ pending sorted :=
    ⟨sorted.memory, sorted.frames,
      (List.forall_mem_cons.mp (pending ▸ sorted.pending)).2⟩
  entered _ _ _ pending sorted := by
    obtain ⟨callee, rest⟩ := List.forall_mem_cons.mp (pending ▸ sorted.pending)
    exact ⟨sorted.memory, List.forall_mem_cons.mpr ⟨callee,
      sorted.frames⟩, rest⟩
  left _ _ _ frames sorted :=
    ⟨sorted.memory, (List.forall_mem_cons.mp (frames ▸ sorted.frames)).2,
      sorted.pending⟩
  resumed _ _ _ saved frames kept sorted := by
    obtain ⟨caller, rest⟩ := List.forall_mem_cons.mp (frames ▸ sorted.frames)
    refine ⟨sorted.memory.restore (caller saved kept), ?_, sorted.pending⟩
    refine List.forall_mem_cons.mpr ⟨?_, rest⟩
    rintro other ⟨⟩

/-- Whatever becomes of a loaded machine, its slots keep their kinds. -/
theorem Machine.Becomes.sorted {executable : Executable} {screen : Screen}
    {start machine : Machine}
    (becomes : start.Becomes machine)
    (loaded : load executable screen = .ok start) :
    machine.Sorted := by
  obtain ⟨memory, stored, rfl⟩ := load_ok loaded
  have initially : (Machine.start executable.code memory screen).Sorted := by
    refine ⟨.loaded stored, ?_, ?_⟩
    · rintro frame (_ | ⟨_, ⟨⟩⟩) saved ⟨⟩
    · rintro frame ⟨⟩
  exact becomes.keeps sorted_allows
    (fun _ _ sorted => ⟨sorted.memory, sorted.frames, sorted.pending⟩) initially

/--
Slots hold values of their kinds.  Let a machine be loaded with any program and
execute any instructions in any order, whether they succeed or fail.  In its
memory and in the slots that any of its frames has saved, each value that was
written is in the bank of the region in which its address lies, and has the
kind of its slot: the element of the segment, or, in a segment of objects, the
object itself in every ninth slot and the type of an attribute in the others.
So reading an address that lies in storage gives a value of that kind.
-/
theorem Machine.sorted_of_becomes {executable : Executable} {screen : Screen}
    {start machine : Machine}
    (loaded : load executable screen = .ok start)
    (becomes : start.Becomes machine) :
    machine.Sorted ∧
      ∀ address location, locate? address = some location →
        ∃ value, machine.memory.read address = .ok value ∧
          value.element = location.kind ∧ location.Keeps location.kind := by
  have sorted := becomes.sorted loaded
  refine ⟨sorted, fun address location located => ?_⟩
  obtain ⟨value, read, kind⟩ := sorted.memory.read located
  exact ⟨value, read, kind, location.keeps_kind⟩

/--
Inside a call, an object is copied that starts in the last slot of its segment.
The copy fails at its second slot and keeps the first.
-/
theorem Machine.sorted_of_becomes_halfCopied :
    let inside := (nestedCalls.start.runFor 4).session.machine
    let copy := Exec.execute ⟨.assign, 15999, -1, 15000⟩
    inside.frames.length = 2 ∧ inside.memory.used .local = 1 ∧
      (copy.yields? inside).isNone ∧
      (copy.leaves inside).memory.used .local = 2 ∧
      (copy.leaves inside).Sorted ∧
      ∃ value, (copy.leaves inside).memory.read 15000 = .ok value ∧
      value.element = .square := by
  intro inside copy
  have loaded : Machine.load nestedCalls {} =
    .ok nestedCalls.start.machine := rfl
  obtain ⟨sorted, reads⟩ := sorted_of_becomes loaded
    ((nestedCalls.start.becomes_of_runFor 4).executed
      ⟨.assign, 15999, -1, 15000⟩)
  obtain ⟨value, read, kind, _⟩ := reads 15000 ⟨.local, .square, 0⟩ (by decide)
  exact ⟨by decide +kernel, by decide +kernel, by decide +kernel,
    by decide +kernel, sorted, value, read, kind⟩

end Easel
