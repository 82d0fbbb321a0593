import Easel.Proofs.Code.Program
import Easel.Proofs.Lockstep.Statement

/-!
# Functions in lockstep

The parameters of a function are the first of its variables, so the arguments
of a call wait for exactly the slots of the parameters.  With that, machines
that have entered a function with the same arguments carry out its body in
lockstep, by induction on the number of steps to go.
-/

namespace Easel

variable {index : Nat} {frame : Frame} {name : String} {address : Address}
variable {slots : Slots} {needed : Bool}

namespace Function.Laid

variable {function : Function} {routine : Routine} {image : Image}
variable {functions : Table Routine} {globals : Table Variable} {start : Nat}

section

variable (laid : function.Laid routine image functions globals start)
include laid

theorem parameter {declaration : Declaration}
    (listed : function.parameters[index]? = some declaration) :
    ∃ found address, routine.locals.find? declaration.name = some found ∧
      found.type = declaration.type ∧ found.address = some address ∧
      Space.Answers .local declaration.type
        (slotsOf (routine.parameters.take index) declaration.type.element)
          address := by
  have bound : index < function.parameters.length :=
    (List.getElem?_eq_some_iff.mp listed).1
  have typedEntry : (typed routine.locals.entries)[index]? =
      some (declaration.name, declaration.type) := by
    rw [laid.locals, typedDeclarations, List.map_append,
      List.getElem?_append_left (by simpa), List.getElem?_map, listed]
    rfl
  rw [typed, List.getElem?_map, Option.map_eq_some_iff] at typedEntry
  obtain ⟨⟨_, found⟩, entry, same⟩ := typedEntry
  simp only [Prod.mk.injEq] at same
  obtain ⟨rfl, sameType⟩ := same
  obtain ⟨address, hasAddress, answers⟩ :=
    laid.arranged.locals index _ found entry
  have before : (typesIn routine.locals.entries).take index =
      routine.parameters.take index := by
    rw [typesIn_eq, laid.locals, laid.parameters,
      typedDeclarations, List.map_map, List.map_append,
      List.take_append_of_le_length (by simpa using Nat.le_of_lt bound)]
    rfl
  rw [Nat.zero_add] at answers
  change Space.Answers .local found.type
    (slotsOf ((typesIn routine.locals.entries).take index) found.type.element)
    address at answers
  rw [before, sameType] at answers
  exact ⟨found, address, Table.find?_of_getElem? laid.unique entry, sameType,
    hasAddress, answers⟩

theorem room {type : Ty} (listed : routine.parameters[index]? = some type) :
    slotsOf (routine.parameters.take index) type.element + type.slotCount ≤
      segmentSize := by
  have listed := listed
  rw [laid.parameters, List.getElem?_map, Option.map_eq_some_iff] at listed
  obtain ⟨_, declared, rfl⟩ := listed
  obtain ⟨_, _, _, _, _, answers⟩ := laid.parameter declared
  exact answers.room

/-- An argument that waits for a parameter waits for its slots. -/
theorem staged {found : Variable}
    (carries : frame.Carries routine.parameters)
    (isParameter : name ∈ function.parameters.map (·.name))
    (isFound : routine.locals.find? name = some found)
    (hasAddress : found.address = some address) :
    (Slots.range address found.type.slotCount).Within
      (Memory.stagedSlots frame.staged) := by
  obtain ⟨declaration, member, rfl⟩ := List.mem_map.mp isParameter
  obtain ⟨index, listed⟩ := List.getElem?_of_mem member
  obtain ⟨_, _, otherFound, sameType, otherHas, answers⟩ :=
    laid.parameter listed
  rw [isFound] at otherFound
  cases otherFound
  rw [hasAddress] at otherHas
  cases otherHas
  have parameterListed : routine.parameters[index]? =
      some declaration.type := by
    rw [laid.parameters, List.getElem?_map, listed]
    rfl
  obtain ⟨_, values, waits, waitingAnswers, suits⟩ :=
    carries.arguments index declaration.type parameterListed
  cases waitingAnswers.unique answers
  intro slot inside
  rw [sameType, ← suits.length] at inside
  exact ⟨address, values, List.mem_of_getElem? waits, inside⟩

end

end Function.Laid

namespace Scene

variable {scene : Scene} {program : Program} {entry : String}

/-- The contexts of the functions of a linked program. -/
theorem hosts_of_linked {routine : Routine}
    (linked : Linked program entry scene.image scene.functions scene.globals)
    (found : scene.functions.find? name = some routine) :
    scene.Hosts (routine.context scene.functions scene.globals) := by
  obtain ⟨_, _, rfl, _, laid⟩ := linked.routines name routine found
  refine ⟨rfl, laid.arranged, (laid.arranged.signatures _ routine found).1,
    ?_, ?_⟩
  · intro other otherRoutine address otherFound located
    obtain ⟨_, _, rfl, otherStart, otherLaid⟩ :=
      linked.routines other otherRoutine otherFound
    rw [otherLaid.located] at located
    cases located
    exact ⟨otherStart, rfl⟩
  · intro other otherRoutine otherFound index type listed
    obtain ⟨_, _, _, _, otherLaid⟩ :=
      linked.routines other otherRoutine otherFound
    exact otherLaid.room listed

/-- The parameters of a function are known when it has been entered. -/
theorem tracks_at_start {function : Function} {routine : Routine} {start : Nat}
    (laid : function.Laid routine scene.image scene.functions
      scene.globals start)
    (carries : frame.Carries routine.parameters)
    (staged : (Memory.stagedSlots frame.staged).Within slots)
    (wide : scene.Wide slots) :
    scene.Tracks routine.locals function.localNames function.knownAtStart
      slots := by
  refine ⟨⟨wide, ?_⟩, fun _ _ => rfl⟩
  intro name found address isReadable isFound hasAddress
  refine (laid.staged carries ?_ isFound hasAddress).trans staged
  have declared : name ∈ function.localNames := by
    obtain ⟨_, entry⟩ := Table.find?_eq_some_getElem? isFound
    have member : (name, found.type) ∈ typed routine.locals.entries :=
      List.mem_map.mpr ⟨(name, found), List.mem_of_getElem? entry, rfl⟩
    rw [laid.locals, typedDeclarations, List.mem_map] at member
    obtain ⟨declaration, inFunction, same⟩ := member
    exact List.mem_map.mpr ⟨declaration, inFunction, congrArg Prod.fst same⟩
  simpa [Known.readable, Function.knownAtStart, declared] using isReadable

/-- The end of a function is a return of the zero value of its type. -/
theorem hands_of_zeroOf {image : Image} {returns : Ty}
    (zeroOf : ZeroOf image returns address)
    (wide : scene.Wide slots)
    (absent : returns.isObject = true → needed = false ∨ scene.settled = none) :
    scene.Hands returns needed slots address := by
  cases zeroOf with
  | absent unwritten =>
    rcases unwritten with isVoid | isObject
    · exact .nothing (.inl isVoid)
    · exact .nothing (.inr (absent isObject))
  | literal place =>
    exact .value place.stored place (by simp [Ty.accepts, Ty.agrees])
      (wide.place place rfl)

/-- Machines that entered a function with equal arguments are in lockstep. -/
theorem onward_of_laid {function : Function} {routine : Routine}
    {start count : Nat} {active : Activation × Activation}
    (linked : Linked program entry scene.image scene.functions scene.globals)
    (found : scene.functions.find? function.name = some routine)
    (laid : function.Laid routine scene.image scene.functions
      scene.globals start)
    (settled : ∀ names, scene.settled = some names →
      function.settled names = true)
    (answers : needed = true → ∀ names, scene.settled = some names →
      function.answers = true)
    (calls : ∀ fewer < count, scene.CallsOnward fewer)
    (carries : frame.Carries routine.parameters)
    (staged : (Memory.stagedSlots frame.staged).Within slots)
    (wide : scene.Wide slots)
    (deep : scene.Deep active)
    (returning : scene.Returning count active routine.returns needed) :
    scene.Onward count start active slots := by
  obtain ⟨stop, zero, body, has, zeroOf⟩ := laid.code
  refine proceeds_of_code (hosts_of_linked linked found) deep body
    (fun _ _ => rfl) count function.knownAtStart slots calls returning
    (tracks_at_start laid carries staged wide) settled ?_
  intro wider within tracks
  refine returning stop.position zero wider has
    (hands_of_zeroOf zeroOf tracks.toWide ?_)
  intro isObject
  cases isNeeded : needed with
  | false => exact .inl rfl
  | true =>
    right
    cases isSettled : scene.settled with
    | none => rfl
    | some names =>
      -- An object has to be returned, but control does not get to the end.
      have unreached := answers isNeeded names isSettled
      have reached := tracks.reached names isSettled
      have object : function.returns.isObject = true := by
        rw [← laid.returns]
        exact isObject
      rw [Function.answers, object, Bool.not_true, Bool.false_or] at unreached
      exact (Option.isSome_iff_ne_none.mp reached
        (Option.isNone_iff_eq_none.mp unreached)).elim

/-- Calls of the functions of a linked program are in lockstep. -/
theorem callsOnward
    (linked : Linked program entry scene.image scene.functions scene.globals)
    (settled : ∀ names, scene.settled = some names →
      program.settled names = true)
    (count : Nat) :
    scene.CallsOnward count := by
  induction count using Nat.strongRecOn with
  | ind count calls =>
    intro name routine position frame active slots found located permitted
      carries staged wide deep returning
    obtain ⟨function, member, rfl, _, laid⟩ :=
      linked.routines name routine found
    have passed : ∀ names, scene.settled = some names →
        function.settled names = true ∧ function.answers = true := by
      intro names isSettled
      have all := settled names isSettled
      have listed := permitted names isSettled
      simp only [Program.settled, List.all_eq_true] at all
      simpa [listed] using all function member
    rw [laid.located] at located
    cases located
    exact onward_of_laid linked found laid (fun names isSettled =>
      (passed names isSettled).1) (fun _ names isSettled =>
      (passed names isSettled).2) calls carries staged wide deep returning

end Scene

end Easel
