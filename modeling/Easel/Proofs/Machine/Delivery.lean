import Easel.Proofs.Lockstep.Agreement

/-!
# Delivery of arguments

The arguments of a call wait for slots of their own.  Once all of them have
been stored, each can be read in the slots for which it waited, and every
other slot holds what it held before.
-/

namespace Easel

variable {address : Address} {values : List Value} {index : Nat}

/-- No slot is in both sets. -/
def Slots.Apart (first second : Slots) : Prop :=
  ∀ slot, first slot → ¬ second slot

/-- Storage that was handed out later shares no slot with earlier storage. -/
theorem Space.Answers.apart {region : Region} {first second : Ty}
    {before after : Nat} {other : Address}
    (answers : Space.Answers region first before address)
    (others : Space.Answers region second after other)
    (behind : first.element = second.element →
      before + first.slotCount ≤ after) :
    (Slots.range address first.slotCount).Apart
      (.range other second.slotCount) := by
  rintro slot ⟨_, inside, rfl⟩ ⟨_, otherInside, same⟩
  have room := answers.room
  have otherRoom := others.room
  have located := locate?_segment answers.start
    (Nat.lt_of_lt_of_le (Nat.add_lt_add_left inside before) room)
  have otherLocated := locate?_segment others.start
    (Nat.lt_of_lt_of_le (Nat.add_lt_add_left otherInside after) otherRoom)
  rw [Int.natCast_add, ← Int.add_assoc,
    Int.sub_add_cancel] at located otherLocated
  rw [same, otherLocated] at located
  simp only [Option.some.injEq, Location.mk.injEq] at located
  obtain ⟨_, sameElement, _⟩ := located
  have later := behind sameElement.symm
  omega

namespace Memory

variable {memory : Memory} {staged : List (Address × List Value)}
  {slot : Address}

theorem bank_deliver_outside (outside : ¬ stagedSlots staged slot)
    (region : Region) :
    ((memory.deliver staged).bank region)[slot]? =
      (memory.bank region)[slot]? := by
  induction staged generalizing memory with
  | nil => rfl
  | cons entry staged induction =>
    obtain ⟨address, values⟩ := entry
    have later : ¬ stagedSlots staged slot := by
      rintro ⟨other, otherValues, member, inside⟩
      exact outside ⟨other, otherValues, List.mem_cons_of_mem _ member, inside⟩
    rw [deliver, List.foldl_cons]
    refine (induction later).trans ?_
    rcases bank_fill_cases memory .local region address slot values with
      ⟨index, value, _, rfl, member, _⟩ | same
    · have bound := (List.getElem?_eq_some_iff.mp member).1
      exact absurd ⟨address, values, List.mem_cons_self, index,
        bound, rfl⟩ outside
    · exact same

/-- Arguments that wait for different slots. -/
def Apart (staged : List (Address × List Value)) : Prop :=
  staged.Pairwise fun first second =>
    (Slots.range first.1 first.2.length).Apart (.range second.1 second.2.length)

theorem bank_deliver_inside {value : Value}
    (apart : Apart staged)
    (waits : (address, values) ∈ staged)
    (member : values[index]? = some value)
    (memory : Memory) :
    ((memory.deliver staged).bank .local)[address + (index : Int)]? =
      some value := by
  have bound := (List.getElem?_eq_some_iff.mp member).1
  induction staged generalizing memory with
  | nil => cases waits
  | cons entry staged induction =>
    obtain ⟨others, apart⟩ := List.pairwise_cons.mp apart
    rw [deliver, List.foldl_cons]
    rcases List.mem_cons.mp waits with rfl | later
    · -- No later argument waits for this slot.
      refine (bank_deliver_outside ?_ .local).trans (bank_fill_inside member)
      rintro ⟨other, otherValues, otherWaits, inside⟩
      exact others (other, otherValues) otherWaits _ ⟨index, bound, rfl⟩ inside
    · exact induction apart later _

end Memory

namespace Frame.Carries

variable {frame : Frame} {types : List Ty}

theorem apart (carries : frame.Carries types) : Memory.Apart frame.staged := by
  refine List.pairwise_iff_getElem.mpr ?_
  intro first second firstBound secondBound isBefore
  have firstType := List.getElem?_eq_getElem (carries.count ▸ firstBound)
  have secondType := List.getElem?_eq_getElem (carries.count ▸ secondBound)
  obtain ⟨_, _, waits, answers, suits⟩ := carries.arguments first _ firstType
  obtain ⟨_, _, otherWaits, otherAnswers, otherSuits⟩ :=
    carries.arguments second _ secondType
  rw [List.getElem?_eq_getElem firstBound, Option.some.injEq] at waits
  rw [List.getElem?_eq_getElem secondBound, Option.some.injEq] at otherWaits
  rw [waits, otherWaits]
  dsimp only
  rw [suits.length, otherSuits.length]
  refine answers.apart otherAnswers fun same => ?_
  rw [← same]
  exact slotsOf_take_le firstType isBefore

/-- An argument can be read in the slots of its parameter. -/
theorem block_deliver {type : Ty}
    (carries : frame.Carries types)
    (declarable : ∀ type ∈ types, type.Declarable)
    (listed : types[index]? = some type)
    (waits : frame.staged[index]? = some (address, values))
    (memory : Memory) :
    (memory.deliver frame.staged).block address type.slotCount = values := by
  obtain ⟨_, _, otherWaits, answers, suits⟩ :=
    carries.arguments index type listed
  rw [waits] at otherWaits
  cases otherWaits
  have place := answers.place
    (declarable type (List.mem_of_getElem? listed)).slotCount_pos fun object =>
    slotsOf_aligned _ object
  refine List.ext_getElem? fun position => ?_
  by_cases inside : position < type.slotCount
  · obtain ⟨_, located, region, _⟩ := place.slot inside
    have member := List.getElem?_eq_getElem (suits.length.symm ▸ inside)
    have stored := Memory.bank_deliver_inside carries.apart
      (List.mem_of_getElem? waits) member memory
    rw [Memory.getElem?_block inside, member, Memory.contents_eq located,
      Memory.valueAt, region, stored]
    rfl
  · have short : type.slotCount ≤ position := Nat.not_lt.mp inside
    rw [List.getElem?_eq_none (Memory.length_block.symm ▸ short),
      List.getElem?_eq_none (suits.length.symm ▸ short)]

end Frame.Carries

end Easel
