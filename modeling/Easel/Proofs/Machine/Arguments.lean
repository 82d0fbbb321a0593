import Easel.Proofs.Machine.Instruction

/-!
# Arguments of a call

The arguments of a call wait in the frame that was announced for it.  Each of
them waits for the slots of its parameter: the frame counts the slots that the
arguments before it take in the same way as the callee's parameters were laid
out.
-/

namespace Easel

theorem Ty.takes_of_accepts {target value : Ty}
    (single : target.isList = false)
    (accepts : target.accepts value = true) :
    value.isList = false ∧ Value.Takes target.element value.element := by
  simp only [Ty.accepts, Ty.agrees, Bool.or_eq_true,
    Bool.and_eq_true, beq_iff_eq, Bool.not_eq_true'] at accepts
  rcases accepts with ⟨element, depth⟩ | ⟨⟨⟨_, valueSingle⟩, isFloat⟩, isInt⟩
  · rw [← element]
    refine ⟨?_, .same _⟩
    rw [Ty.isList, ← depth]
    exact single
  · rw [isFloat, isInt]
    exact ⟨valueSingle, .widened⟩

/-- The arguments that wait in a frame are values for the parameters. -/
structure Frame.Carries (frame : Frame) (types : List Ty) : Prop where
  unsaved : frame.saved = none
  passed : ∀ element, frame.passed element = slotsOf types element
  count : frame.staged.length = types.length
  arguments : ∀ (index : Nat) (type : Ty), types[index]? = some type →
    ∃ address values, frame.staged[index]? = some (address, values) ∧
      Space.Answers .local type (slotsOf (types.take index) type.element)
        address ∧
      Memory.Suits values type.element type.slotCount

theorem Frame.carries_nil (footprint : Nat) :
    Frame.Carries { footprint } [] := by
  refine ⟨rfl, fun _ => rfl, rfl, ?_⟩
  intro index type listed
  simp at listed

/-- One more argument can be passed if its parameter has room. -/
theorem Frame.Carries.stage {frame : Frame} {types : List Ty} {type : Ty}
    {values : List Value}
    (carries : frame.Carries types)
    (stored : type.element ≠ .void)
    (room : slotsOf types type.element + type.slotCount ≤ segmentSize)
    (suits : Memory.Suits values type.element type.slotCount) :
    ∃ staged, frame.stage type.element values = .ok staged ∧
      staged.Carries (types ++ [type]) := by
  obtain ⟨base, start⟩ : ∃ base, segmentBase? .local type.element =
      some base := by
    unfold segmentBase?
    cases element : type.element <;>
      first | exact (stored element).elim | exact ⟨_, rfl⟩
  have fits : ¬ (frame.passed type.element + values.length > segmentSize) := by
    rw [carries.passed, suits.length]
    omega
  refine ⟨{ frame.take type.element values.length with
      staged := frame.staged ++ [(base + frame.passed type.element, values)] },
    ?_, carries.unsaved, ?_, ?_, ?_⟩
  · simp only [Frame.stage, start, if_neg fits]
  · intro element
    rw [slotsOf_append, slotsOf_cons, slotsOf_nil, Nat.add_zero,
      ← carries.passed element]
    simp only [Frame.take, suits.length]
    by_cases same : element = type.element
    · rw [if_pos same, if_pos same.symm]
    · rw [if_neg same, if_neg fun equal => same equal.symm, Nat.add_zero]
  · simp [carries.count]
  · intro index other listed
    by_cases older : index < types.length
    · rw [List.getElem?_append_left older] at listed
      obtain ⟨address, found, entry, answers, otherSuits⟩ :=
        carries.arguments index other listed
      refine ⟨address, found, ?_, ?_, otherSuits⟩
      · rw [← carries.count] at older
        rw [List.getElem?_append_left older, entry]
      · rw [List.take_append_of_le_length (Nat.le_of_lt older)]
        exact answers
    · have last : index = types.length := by
        have bound := (List.getElem?_eq_some_iff.mp listed).1
        rw [List.length_append, List.length_singleton] at bound
        omega
      subst last
      simp only [List.getElem?_concat_length, Option.some.injEq] at listed
      subst other
      refine ⟨base + frame.passed type.element, values, ?_, ⟨?_, ?_⟩, suits⟩
      · simp [← carries.count]
      · rw [List.take_left, carries.passed, start, Int.add_sub_cancel]
      · rw [List.take_left]
        exact room

/-- An argument is passed behind those that were passed before. -/
theorem Frame.staged_of_stage {frame staged : Frame} {kind : Element}
    {values : List Value}
    (passed : frame.stage kind values = .ok staged) :
    ∃ address, staged.staged = frame.staged ++ [(address, values)] := by
  unfold Frame.stage at passed
  split at passed
  · cases passed
  · split at passed
    · cases passed
    · cases passed
      exact ⟨_, rfl⟩

/-- Memory in which the arguments of a call have been stored. -/
def Memory.deliver (memory : Memory) (staged : List (Address × List Value)) :
    Memory :=
  staged.foldl (fun memory (address, values) =>
    memory.fill .local address values) memory

section

variable {frame : Frame} {types : List Ty} {memory : Memory} {address : Address}
variable {values : List Value}

/-- An argument that waits in a frame has a place among the local slots. -/
theorem Frame.Carries.place (carries : frame.Carries types)
    (declarable : ∀ type ∈ types, type.Declarable)
    (waits : (address, values) ∈ frame.staged) :
    ∃ type ∈ types, ∃ location, Place address type location ∧
      location.region = .local ∧
      Memory.Suits values type.element type.slotCount := by
  obtain ⟨index, entry⟩ := List.getElem?_of_mem waits
  have bound : index < types.length := by
    rw [← carries.count]
    exact (List.getElem?_eq_some_iff.mp entry).1
  obtain ⟨_, _, foundEntry, answers, suits⟩ :=
    carries.arguments index types[index] (List.getElem?_eq_getElem bound)
  rw [entry] at foundEntry
  cases foundEntry
  have member := List.getElem_mem bound
  exact ⟨types[index], member, _,
    answers.place (declarable _ member).slotCount_pos (fun object =>
      slotsOf_aligned _ object), rfl, suits⟩

/-- Places among the local slots, each with values of its type. -/
def Deliverable (staged : List (Address × List Value)) : Prop :=
  ∀ address values, (address, values) ∈ staged →
    ∃ type location, Place address type location ∧ location.region = .local ∧
      Memory.Suits values type.element type.slotCount

theorem Frame.Carries.deliverable (carries : frame.Carries types)
    (declarable : ∀ type ∈ types, type.Declarable) :
    Deliverable frame.staged := by
  intro address values waits
  obtain ⟨type, _, location, place, inLocal, suits⟩ :=
    carries.place declarable waits
  exact ⟨type, location, place, inLocal, suits⟩

theorem Memory.writeArguments_eq {staged : List (Address × List Value)}
    (deliverable : Deliverable staged)
    (memory : Memory) :
    writeArguments staged memory = .ok () (memory.deliver staged) := by
  induction staged generalizing memory with
  | nil => rfl
  | cons entry staged induction =>
    obtain ⟨address, values⟩ := entry
    obtain ⟨_, location, place, inLocal, suits⟩ :=
      deliverable address values List.mem_cons_self
    have writable : location.region ≠ .constant := by
      rw [inLocal]
      decide
    have wrote := writeBlock_place memory place writable suits (.same _)
      (Nat.le_refl _)
    rw [suits.conform_self, inLocal] at wrote
    change (writeBlock address values >>= fun _ => writeArguments staged)
      memory = _
    simp only [bind, EStateM.bind, wrote]
    exact induction (fun other otherValues member =>
      deliverable other otherValues (List.mem_cons_of_mem _ member)) _

theorem Memory.Kinded.deliver {staged : List (Address × List Value)}
    (kinded : memory.Kinded)
    (deliverable : Deliverable staged) :
    (memory.deliver staged).Kinded := by
  induction staged generalizing memory with
  | nil => exact kinded
  | cons entry staged induction =>
    obtain ⟨address, values⟩ := entry
    obtain ⟨_, _, place, _, suits⟩ :=
      deliverable address values List.mem_cons_self
    exact induction (kinded.fill place suits (Nat.le_refl _))
        fun other otherValues member =>
      deliverable other otherValues (List.mem_cons_of_mem _ member)

theorem Memory.bank_deliver {region : Region}
    {staged : List (Address × List Value)}
    (elsewhere : region ≠ .local) :
    (memory.deliver staged).bank region = memory.bank region := by
  induction staged generalizing memory with
  | nil => rfl
  | cons entry staged induction =>
    rw [deliver, List.foldl_cons]
    exact (induction).trans (bank_fill_other elsewhere)

end

namespace Exec

variable {machine : Machine} {frame staged : Frame} {outer : List Frame}
  {address : Address}
variable {type : Ty} {location : Location}

theorem execute_era (machine : Machine) (footprint : Address) :
    execute ⟨.era, footprint, .unused, .unused⟩ machine =
      .ok .next { machine with
        pending := { footprint := footprint.toNat } :: machine.pending } :=
  rfl

/-- An argument is read as a whole. -/
theorem width_mul_argumentSize {other : Ty}
    (place : Place address type location)
    (fits : type.Fits)
    (sameDepth : other.isList = type.isList)
    (sameSize : type.isList = true → other.size = type.size) :
    location.width *
      (if Context.argumentSize other > 0 then (Context.argumentSize other).toNat
        else 1) = type.slotCount := by
  rw [place.width_eq, Context.argumentSize, sameDepth]
  cases list : type.isList with
  | false =>
    have absent : ¬ (Address.unused > 0) := by decide
    rw [Ty.slotCount_of_single list, if_neg Bool.false_ne_true,
      if_neg absent, Nat.mul_one]
  | true =>
    have filled := fits.filled list
    have small := fits.small
    have sizeSmall : type.size ≤ segmentSize := by
      rw [Ty.slotCount_of_list list] at small
      exact Nat.le_trans (Nat.le_mul_of_pos_right _ type.element.slotWidth_pos)
        small
    have positive : ((type.size : Nat) : Int) > 0 := Int.natCast_pos.mpr filled
    rw [if_pos rfl, sameSize list, Address.wrap_of_small sizeSmall,
      if_pos positive, Int.toNat_natCast, Ty.slotCount_of_list list,
      Nat.mul_comm]

theorem bind_of_ok {action : Exec α} {next : α → Exec β} {value : α}
    {before left : Machine}
    (ran : action before = .ok value left) :
    (action >>= next) before = next value left := by
  simp only [bind, EStateM.bind, ran]

theorem ofExcept_of_ok {result : Except Fault α} {value : α}
    (machine : Machine)
    (isOk : result = .ok value) :
    (MonadExcept.ofExcept result : Exec α) machine = .ok value machine := by
  rw [isOk]
  rfl

theorem pass_eq {size : Address} {values : List Value}
    (pending : machine.pending = frame :: outer)
    (located : locate? address = some location)
    (read : machine.memory.readBlock address (location.width * (if size > 0 then
      size.toNat else 1)) = .ok values)
    (passed : frame.stage location.kind values = .ok staged) :
    pass address size machine =
      .ok .next { machine with pending := staged :: outer } := by
  have isLocated : locate address = .ok location := by
    simp only [locate, located]
  unfold pass
  refine (bind_of_ok (ofExcept_of_ok machine isLocated)).trans ?_
  refine (bind_of_ok (rfl : (get : Exec Machine) machine =
    .ok machine machine)).trans ?_
  refine (bind_of_ok (ofExcept_of_ok machine read)).trans ?_
  refine (bind_of_ok (rfl : (get : Exec Machine) machine =
    .ok machine machine)).trans ?_
  rw [pending]
  refine (bind_of_ok (ofExcept_of_ok machine passed)).trans ?_
  rfl

theorem execute_param {other : Ty}
    (pending : machine.pending = frame :: outer)
    (place : Place address type location)
    (fits : type.Fits)
    (sameDepth : other.isList = type.isList)
    (sameSize : type.isList = true → other.size = type.size)
    (passed : frame.stage type.element
      (machine.memory.block address type.slotCount) = .ok staged) :
    execute ⟨.param, address, Context.argumentSize other, .unused⟩ machine =
      .ok .next { machine with pending := staged :: outer } := by
  rw [← place.kind] at passed
  refine pass_eq pending place.located ?_ passed
  rw [width_mul_argumentSize place fits sameDepth sameSize]
  exact Memory.readBlock_place place (Nat.le_refl _)

end Exec

end Easel
