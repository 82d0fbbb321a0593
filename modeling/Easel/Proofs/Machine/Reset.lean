import Easel.Proofs.Machine.Changes
import Easel.Proofs.Machine.Load
import Easel.Proofs.Session.CallerFrame

/-!
# A machine that is reset starts again

Resetting a machine keeps its code and its constants and nothing else that the
program can change.  It gives back the machine that was loaded, because no
instruction changes the code or the constants: whatever stores a value locates
each slot for itself and refuses the constants, and what clears slots clears
those of one other region.
-/

namespace Easel

/-- The code and the constants of two machines are the same. -/
structure Machine.SameProgram (before after : Machine) : Prop where
  code : after.code = before.code
  constants : after.memory.constants = before.memory.constants

namespace Memory

variable {memory : Memory} {region : Region}

theorem constants_setBank (bank : Bank) (writable : region ≠ .constant) :
    (memory.setBank region bank).constants = memory.constants := by
  cases region with
  | constant => exact (writable rfl).elim
  | _ => rfl

theorem constants_assign (address : Address)
    (value : Value)
    (writable : region ≠ .constant) :
    (memory.assign region address value).constants = memory.constants :=
  constants_setBank _ writable

/-- Memory into which constants were loaded holds nothing else. -/
theorem constantsOnly_of_load {constants : List Constant}
    (loaded : loadConstants constants .empty = .ok () memory) :
    memory.constantsOnly = memory :=
  loadConstants_keeps (fun memory => memory.constantsOnly = memory)
    (fun before address _ _ fitted only _ _ _ => by
      change { before.constantsOnly with
        constants := before.constants.insert address fitted } = _
      rw [only]
      rfl)
    rfl loaded

end Memory

/-- No change that an instruction makes affects the code or the constants. -/
theorem Machine.sameProgram_allows : AllowsCalls Machine.SameProgram where
  refl _ := ⟨rfl, rfl⟩
  trans _ _ _ first second :=
    ⟨second.code.trans first.code, second.constants.trans first.constants⟩
  stored _ address _ _ fitted _ writable _ :=
    ⟨rfl, Memory.constants_assign address fitted writable⟩
  cleared _ _ _ _ ran := by
    obtain ⟨_, _, writable, rfl⟩ := Memory.clear_ok ran
    exact ⟨rfl, Memory.constants_setBank _ writable⟩
  shown _ _ := ⟨rfl, rfl⟩
  announced _ _ := ⟨rfl, rfl⟩
  passed _ _ _ _ _ _ _ _ := ⟨rfl, rfl⟩
  suspended _ _ _ _ := ⟨rfl, rfl⟩
  dropped _ _ _ _ := ⟨rfl, rfl⟩
  entered _ _ _ _ := ⟨rfl, rfl⟩
  left _ _ _ _ := ⟨rfl, rfl⟩
  resumed _ _ _ _ _ _ := ⟨rfl, rfl⟩

theorem Session.sameProgram_of_runFor {session last : Session} {fuel : Nat}
    (goesOn : session.runFor fuel = .running last) :
    session.machine.SameProgram last.machine := by
  have becomes := session.becomes_of_runFor fuel
  rw [goesOn] at becomes
  exact becomes.keeps Machine.sameProgram_allows fun _ _ => ⟨rfl, rfl⟩

theorem Machine.SameProgram.contents {before after : Machine}
    {address : Address} {location : Location}
    (same : before.SameProgram after)
    (located : locate? address = some location)
    (isConstant : location.region = .constant) :
    after.memory.contents address = before.memory.contents address := by
  refine Memory.contents_congr located ?_
  rw [isConstant]
  exact congrArg (·[address]?) same.constants

/-- A machine with the code and constants of a loaded one is reset to it. -/
theorem Machine.SameProgram.reset {executable : Executable} {screen : Screen}
    {start machine : Machine}
    (loaded : load executable screen = .ok start)
    (same : start.SameProgram machine) :
    machine.reset = { start with screen := machine.screen } := by
  obtain ⟨memory, stored, rfl⟩ := load_ok loaded
  have constants : machine.memory.constantsOnly = memory := by
    rw [Memory.constantsOnly, same.constants]
    exact Memory.constantsOnly_of_load stored
  unfold Machine.reset
  rw [same.code, constants]
  rfl

/--
Resetting gives back the machine that was loaded.  Let a machine be loaded with
any program.  Whatever instructions it executes, and wherever a run of it gets
to or ends, by its last return, at a fault, at the limit or because the window
is closed: once reset, it has the code, the position, the memory, the frames and
the announced calls with which it was loaded.  Only the screen, which is no part
of the program's state, stays.  No instruction changes the constants of any
machine, also if it fails.  A run without a limit ends at the latest where
`Session.run` gives it up, after `2 ^ 64` instructions.
-/
theorem Machine.reset_of_becomes {executable : Executable} {screen : Screen}
    {start : Machine}
    (loaded : load executable screen = .ok start) :
    (∀ machine, start.Becomes machine →
      machine.reset = { start with screen := machine.screen } ∧
        machine.memory.constants = start.memory.constants) ∧
    (∀ (limit : Option Nat) (fuel : Nat),
      let reached :=
        (Session.runFor fuel { machine := start, limit }).session.machine
      reached.reset = { start with screen := reached.screen }) ∧
    (∀ limit : Option Nat,
      let ended := (Session.run { machine := start, limit }).1.machine
      ended.reset = { start with screen := ended.screen }) ∧
    ∀ (quad : Quad) (machine : Machine),
      ((Exec.execute quad).leaves machine).memory.constants =
        machine.memory.constants := by
  have keeps : ∀ machine, start.Becomes machine → start.SameProgram machine :=
    fun _ becomes => becomes.keeps sameProgram_allows fun _ _ => ⟨rfl, rfl⟩
  refine ⟨fun machine becomes => ?_, fun limit fuel => ?_, fun limit =>
    ?_, fun quad machine => ?_⟩
  · exact ⟨(keeps machine becomes).reset loaded,
      (keeps machine becomes).constants⟩
  · exact (keeps _ (Session.becomes_of_runFor { machine := start, limit }
      fuel)).reset loaded
  · exact (keeps _ (Session.becomes_of_run { machine := start, limit })).reset
      loaded
  · exact (Exec.execute_respects_calls sameProgram_allows quad
      machine).constants

/-- A run with two calls and changed slots is cut off and reset. -/
theorem Machine.reset_of_becomes_nestedCalls :
    let ended :=
      (Session.run
        { machine := nestedCalls.start.machine, limit := some 8 }).1.machine
    ended.position ≠ 0 ∧ ended.memory.used .temp = 1 ∧
      ended.memory.used .constant = 2 ∧
      ended.reset =
        { nestedCalls.start.machine with screen := ended.screen } := by
  intro ended
  have loaded : Machine.load nestedCalls {} =
    .ok nestedCalls.start.machine := rfl
  exact ⟨by decide +kernel, by decide +kernel, by decide +kernel,
    (reset_of_becomes loaded).2.2.1 (some 8)⟩

end Easel
