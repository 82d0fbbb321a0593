import Easel.Proofs.Machine.Instruction
import Easel.Proofs.Number

/-!
# Comparing whole numbers

Equality of whole numbers is decided exactly.  The order is that of the
nearest floating point numbers, which is the order of the whole numbers
themselves unless two of them have the same nearest neighbour.  Up to 53
binary digits none have.
-/

namespace Easel

theorem Memory.read_ok {memory : Memory} {address : Address} {value : Value}
    (reads : memory.read address = .ok value) :
    ∃ location, locate? address = some location ∧
      memory.contents address = value := by
  cases located : locate? address with
  | none => simp [read, locate, located, bind, Except.bind] at reads
  | some location =>
    rw [read_eq located] at reads
    exact ⟨location, rfl, Except.ok.inj reads⟩

/-- A comparison stores a truth value, which can be read from then on. -/
def Machine.Stores (machine : Machine)
    (operation : Operation)
    (left right result : Address)
    (truth : Bool) : Prop :=
  ∃ after, Exec.execute ⟨operation, left, right, result⟩ machine =
    .ok .next after ∧ after.memory.read result = .ok (.bool truth)

theorem Machine.stores_of_binary {machine : Machine}
    (operator : Operator) {left right result : Address} {location : Location}
    {first second : Value} {truth : Bool}
    (reads : machine.memory.read left = .ok first)
    (readsOther : machine.memory.read right = .ok second)
    (located : locate? result = some location)
    (writable : location.region ≠ .constant)
    (holdsTruth : location.kind = .bool)
    (computed : Calculation.binary machine.position operator.operation ⟨left,
      first⟩ ⟨right, second⟩ = .ok (.bool truth)) :
    machine.Stores operator.operation left right result truth := by
  obtain ⟨_, leftLocated, rfl⟩ := Memory.read_ok reads
  obtain ⟨_, rightLocated, rfl⟩ := Memory.read_ok readsOther
  have typed : (Value.bool truth).Typed location.kind :=
    holdsTruth ▸ .bool truth
  refine ⟨_, Exec.execute_operator leftLocated rightLocated located writable
    typed computed, ?_⟩
  rw [Memory.read_eq located, Memory.contents_fill_single located]

theorem log2_natAbs_toInt_le (number : Int64) :
    number.toInt.natAbs.log2 ≤ 64 := by
  have low := number.le_toInt
  have high := number.toInt_lt
  rcases Nat.eq_zero_or_pos number.toInt.natAbs with zero | positive
  · simp [zero]
  · apply Nat.le_of_lt
    exact (Nat.log2_lt (by omega)).mpr (by omega)

/-- Whole numbers with different nearest neighbours are in their order. -/
theorem nearestInt_lt_iff {first second : Int}
    (apart : nearestInt first = nearestInt second → first = second) :
    nearestInt first < nearestInt second ↔ first < second := by
  constructor
  · intro less
    by_contra notLess
    have := nearestInt_mono (Int.not_lt.mp notLess)
    omega
  · intro less
    have ordered := nearestInt_mono (Int.le_of_lt less)
    have different : nearestInt first ≠ nearestInt second := by
      intro same
      have := apart same
      omega
    omega

/--
Two whole numbers are compared by their nearest floating point numbers, and
tested for equality by themselves.  So the three comparisons are exact unless
two different numbers have the same nearest neighbour.
-/
theorem Machine.compare_whole_numbers
    {machine : Machine} {left right result : Address} {location : Location}
    {first second : Int64}
    (reads : machine.memory.read left = .ok (.int first))
    (readsOther : machine.memory.read right = .ok (.int second))
    (located : locate? result = some location)
      (writable : location.region ≠ .constant)
    (holdsTruth : location.kind = .bool) :
    let less := nearestInt first.toInt < nearestInt second.toInt
    let greater := nearestInt second.toInt < nearestInt first.toInt
    machine.Stores .less left right result less ∧
      machine.Stores .greater left right result greater ∧
      machine.Stores .equal left right result (first.toInt = second.toInt) ∧
      ((nearestInt first.toInt = nearestInt second.toInt →
        first.toInt = second.toInt) → (less ↔ first.toInt < second.toInt) ∧
        (greater ↔ second.toInt < first.toInt)) ∧
      (first.toInt.natAbs ≤ 2 ^ 53 → second.toInt.natAbs ≤ 2 ^ 53 →
        (less ↔ first.toInt < second.toInt) ∧
        (greater ↔ second.toInt < first.toInt)) := by
  intro less greater
  have isLess : Calculation.binary machine.position .less ⟨left, .int first⟩
      ⟨right, .int second⟩ = .ok (.bool less) := by
    rw [← decide_eq_decide.mpr
      (ofInt_lt_iff (log2_natAbs_toInt_le first) (log2_natAbs_toInt_le second))]
    rfl
  have isGreater : Calculation.binary machine.position .greater
      ⟨left, .int first⟩ ⟨right, .int second⟩ = .ok (.bool greater) := by
    rw [← decide_eq_decide.mpr
      (ofInt_lt_iff (log2_natAbs_toInt_le second) (log2_natAbs_toInt_le first))]
    rfl
  have isEqual : Calculation.binary machine.position .equal ⟨left, .int first⟩
      ⟨right, .int second⟩ = .ok (.bool (first.toInt = second.toInt)) := by
    rw [decide_eq_decide.mpr Int64.toInt_inj]
    rfl
  refine ⟨stores_of_binary .less reads readsOther located writable
    holdsTruth isLess, stores_of_binary .greater reads readsOther located
    writable holdsTruth isGreater,
    stores_of_binary .equal reads readsOther located writable holdsTruth
    isEqual, ?_, ?_⟩
  · intro apart
    exact ⟨nearestInt_lt_iff apart, nearestInt_lt_iff fun same =>
      (apart same.symm).symm⟩
  · intro small otherSmall
    simp only [less, greater, nearestInt_of_small small,
      nearestInt_of_small otherSmall, and_self]

/-- Two whole numbers in variables, and a truth value beside them. -/
def Machine.withNumbers (first second : Int64) : Machine :=
  .start #[] ((Memory.empty.assign .global 3000 (.int first)).assign .global
    3001 (.int second)) {}

theorem Machine.compare_whole_numbers_distant :
    let machine := withNumbers (-9223372036854775808) 9007199254740992
    machine.Stores .less 3000 3001 2000 true ∧
      machine.Stores .greater 3000 3001 2000 false ∧
      machine.Stores .equal 3000 3001 2000 false := by
  intro machine
  have reads : machine.memory.read 3000 = .ok (.int (-9223372036854775808)) :=
    rfl
  have readsOther : machine.memory.read 3001 =
    .ok (.int 9007199254740992) := rfl
  have located : locate? 2000 = some ⟨.global, .bool, 0⟩ := by decide
  obtain ⟨less, greater, equal, _⟩ :=
    compare_whole_numbers reads readsOther located (by decide) rfl
  exact ⟨less, greater, equal⟩

/-- The first odd number of 54 binary digits and the number before it. -/
theorem Machine.no_comparison_holds :
    let machine := withNumbers 9007199254740992 9007199254740993
    machine.Stores .less 3000 3001 2000 false ∧
      machine.Stores .greater 3000 3001 2000 false ∧
      machine.Stores .equal 3000 3001 2000 false :=
  ⟨⟨_, rfl, rfl⟩, ⟨_, rfl, rfl⟩, ⟨_, rfl, rfl⟩⟩

end Easel
