import Easel.Proofs.Lockstep.Function
import Easel.Proofs.Machine.Load

/-!
# Programs in lockstep

A program sets its global variables to zero and jumps to the function that it
starts in.  A machine that has been loaded with a linked program is in
lockstep with itself for any number of steps.
-/

namespace Easel

namespace Scene

variable {scene : Scene} {program : Program} {entry : String}
variable {active : Activation × Activation} {slots : Slots}
  {first second : Machine}
variable {count : Nat}

/-- Machines that return from the compared function end together. -/
theorem returning_at_base {returns : Ty} {needed : Bool}
    (single : returns.isList = false)
    (firstBase : active.1.frames = scene.base.1)
    (secondBase : active.2.frames = scene.base.2) :
    scene.Returning count active returns needed := by
  intro position address known has hands steps bound wider within first
    second stands _
  obtain ⟨firstFetched, secondFetched⟩ := stands.fetched has
  obtain ⟨_, firstHanded, secondHanded, _⟩ :=
    hands.handed single (stands.toMatched.mono within)
  refine .ends (.returns firstFetched secondFetched ⟨?_,
    ?_⟩ firstHanded secondHanded stands.alike stands.globals)
  · rw [stands.firstRuns.frames, firstBase]
  · rw [stands.secondRuns.frames, secondBase]

/-- Machines stay in lockstep while other global variables become zero. -/
theorem onward_of_zeroed {index remaining : Nat}
    (linked : Linked program entry scene.image scene.functions scene.globals)
    (onward : scene.Onward count scene.globals.entries.length active slots)
    (counted : index + remaining = scene.globals.entries.length) :
    scene.Onward count index active slots := by
  induction remaining generalizing index with
  | zero =>
    rw [Nat.add_zero] at counted
    rw [counted]
    exact onward
  | succ remaining induction =>
    have bound : index < scene.globals.entries.length := by omega
    have listed := List.getElem?_eq_getElem bound
    obtain ⟨_, hasAddress, init⟩ := linked.zeroed index _ _ listed
    obtain ⟨_, starts, _⟩ := linked.starts
    have arranged := (hosts_of_linked linked starts).arranged
    have fits : (scene.globals.entries[index]).2.type.Fits :=
      arranged.fitGlobals _ (List.mem_map.mpr ⟨_, List.getElem_mem bound, rfl⟩)
    obtain ⟨_, otherHas, place⟩ := arranged.globals.place listed
      fits.toDeclarable
    rw [hasAddress] at otherHas
    cases otherHas
    refine Onward.of_steps init (by simp [initQuad]) (by simp [initQuad]) ?_
    intro wider first second within stands
    exact .next (Exec.execute_init place (by simp) fits)
      (Exec.execute_init place (by simp) fits)
      (stands.toMatched.erase place rfl)
      ((induction (by omega)).mono (within.trans (Slots.within_left _ _)))

/-- Machines are in lockstep from the start of a program to its end. -/
theorem onward_of_start
    (linked : Linked program entry scene.image scene.functions scene.globals)
    (settled : scene.settled = none)
    (firstBase : active.1.frames = scene.base.1)
    (secondBase : active.2.frames = scene.base.2)
    (wide : scene.Wide slots) :
    scene.Onward count 0 active slots := by
  obtain ⟨routine, found, none⟩ := linked.starts
  obtain ⟨start, located, jump⟩ := linked.jump
  have hosts := hosts_of_linked linked found
  refine onward_of_zeroed linked ?_ (Nat.zero_add _)
  refine Onward.of_jump jump fun fewer _ => ?_
  refine callsOnward linked (by simp [settled]) fewer entry routine start
    { footprint := 0 } active slots found located (by simp [settled])
    (none ▸ Frame.carries_nil 0) ?_ wide ?_ ?_
  · exact fun slot _ => wide.every settled slot
  · exact ⟨Nat.le_of_eq (congrArg List.length firstBase.symm),
      Nat.le_of_eq (congrArg List.length secondBase.symm)⟩
  · exact returning_at_base hosts.single firstBase secondBase

/-- A run of a program, compared with itself. -/
def solo (image : Image)
    (functions : Table Routine)
    (globals : Table Variable)
    (screen : Screen) : Scene where
  image := image
  functions := functions
  globals := globals
  settled := none
  origin := (screen, screen)
  base := ([Machine.rootFrame image.code], [Machine.rootFrame image.code])

theorem alike_self (screen : Screen) :
    Screen.Alike (screen, screen) screen screen :=
  ⟨⟨#[], by simp, by simp⟩, ⟨#[], by simp, by simp⟩, rfl, rfl, rfl⟩

/-- A machine loaded with a linked program is in lockstep with itself. -/
theorem lockstep_of_load {image : Image} {functions : Table Routine}
    {globals : Table Variable} {executable : Executable} {screen : Screen}
    {machine : Machine}
    (linked : Linked program entry image functions globals)
    (sameCode : image.code = executable.code)
    (sameConstants : image.constants = executable.constants)
    (loaded : Machine.load executable screen = .ok machine)
    (count : Nat) :
    (solo image functions globals screen).Lockstep count machine machine := by
  obtain ⟨started, holds⟩ := linked.loaded sameConstants loaded
  have wide : (solo image functions globals screen).Wide fun _ => True :=
    ⟨fun _ _ => trivial, fun _ _ _ _ => trivial⟩
  let root : Activation := ⟨Machine.rootFrame image.code, [], [], rfl⟩
  have runs : machine.Runs image root := by
    obtain ⟨memory, stored, isStart⟩ := Machine.load_ok loaded
    have keeps : machine.memory.Keeps image.constants := by
      rw [isStart, sameConstants]
      exact ⟨memory, stored, rfl, rfl⟩
    rw [started, ← sameCode]
    exact ⟨rfl, rfl, rfl, holds.kinded, keeps⟩
  have alike : Screen.Alike (screen, screen) machine.screen machine.screen := by
    rw [started]
    exact alike_self screen
  have begins : machine.position = 0 := by rw [started]; rfl
  have stands : (solo image functions globals screen).Stands 0 (root, root)
      (fun _ => True) machine machine :=
    ⟨⟨runs, runs, ⟨fun _ _ => rfl, fun _ _ _ _ => rfl⟩, alike⟩, begins, begins⟩
  exact (onward_of_start linked rfl rfl rfl wide).lockstep stands

end Scene

end Easel
