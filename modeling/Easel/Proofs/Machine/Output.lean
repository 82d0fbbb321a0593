import Easel.Proofs.Machine.Changes

/-!
# What instructions show and report

An instruction adds to what the screen shows and takes nothing back, and it
never reports that the allowed number of instructions was executed.  Both hold
of the elementary computations of which all instructions are made, calls and
returns included.
-/

namespace Easel

namespace Screen.Extends

theorem of_eq {first second : Screen} (same : second = first) :
    first.Extends second := by
  subst same
  exact ⟨List.prefix_rfl, List.prefix_rfl⟩

theorem trans {first second third : Screen}
    (before : first.Extends second)
    (after : second.Extends third) :
    first.Extends third :=
  ⟨before.lines.trans after.lines, before.strokes.trans after.strokes⟩

end Screen.Extends

namespace Exec

namespace Made

variable {address : Address}

theorem pass {size : Address} : Made true true (pass address size) := by
  refine (ofExcept .locate).bind fun _ => get.bind fun _ =>
      (ofExcept .readBlock).bind fun _ =>
    get.bind fun _ => ?_
  split
  · exact throw rfl
  · exact (ofExcept .stage).bind fun _ => (rearrange rfl).bind fun _ => pure _

theorem enter : Made true true (enter address) := by
  simp only [Exec.enter, forM_storing_writeBlock]
  refine jumpTarget.bind fun _ => bind (get.bind fun _ => ?_) fun callee =>
    bind (get.bind fun _ => ?_) fun _ =>
        (writeArguments callee.staged).bind fun _ =>
      (rearrange rfl).bind fun _ => pure _
  · split
    · exact throw rfl
    · exact (rearrange rfl).bind fun _ => pure _
  · split
    · exact throw rfl
    · exact rearrange

theorem leave : Made true true (leave address) := by
  refine bind (get.bind fun _ => ?_) fun callee => get.bind fun _ => ?_
  · split
    · exact throw rfl
    · exact (rearrange rfl).bind fun _ => pure _
  · split
    · exact pure _
    · refine bind ?_ fun values => bind ?_ fun _ => get.bind fun _ => ?_
      · unfold returned
        split
        · exact pure none
        · exact get.bind fun _ => (ofExcept .readWhole).bind fun _ => pure _
      · unfold resumeCaller
        split
        · exact throw rfl
        · exact rearrange
      · split
        · exact throw rfl
        · cases values with
          | none => exact pure _
          | some values =>
            dsimp only
            split
            · exact pure _
            · exact (writeBlock _).bind fun _ => pure _

/-- Every instruction is made of elementary computations. -/
theorem execute (quad : Quad) : Made true true (execute quad) := by
  cases operation : quad.operation with
  | era =>
    simp only [Exec.execute, operation]
    exact (rearrange rfl).bind fun _ => pure _
  | param => simpa only [Exec.execute, operation] using pass
  | call => simpa only [Exec.execute, operation] using enter
  | ret => simpa only [Exec.execute, operation] using leave
  | _ => exact execute_quiet (by rw [operation]; rfl)

end Made

/-- A computation adds to the screen, and none of its faults is the limit. -/
def Adds (action : Exec α) : Prop :=
  ∀ machine, machine.screen.Extends (action.leaves machine).screen ∧
    ∀ fault left, action machine = .error fault left → fault.isLimit = false

theorem storing_adds {update : Storing α}
    (ordinary : ∀ memory fault left, update memory = .error fault left →
      fault.isLimit = false) :
    Adds (storing update) := by
  intro machine
  simp only [leaves, storing]
  cases ran : update machine.memory with
  | ok value memory => exact ⟨.of_eq rfl, fun _ _ failed => by cases failed⟩
  | error fault memory =>
    refine ⟨.of_eq rfl, fun _ _ failed => ?_⟩
    cases failed
    exact ordinary _ _ _ ran

theorem Made.adds {action : Exec α} (made : Made true true action) :
    Adds action := by
  induction made with
  | pure | get =>
    exact fun machine => ⟨.of_eq rfl, fun _ _ failed => by cases failed⟩
  | throw ordinary =>
    exact fun machine =>
      ⟨.of_eq rfl, fun _ _ failed => by cases failed; exact ordinary⟩
  | @bind _ _ action next _ _ before after =>
    intro machine
    obtain ⟨grows, ordinary⟩ := before machine
    simp only [leaves, Bind.bind, EStateM.bind] at grows ⊢
    cases ran : action machine with
    | error fault left =>
      rw [ran] at grows
      refine ⟨grows, fun _ _ failed => ?_⟩
      cases failed
      exact ordinary fault left ran
    | ok value left =>
      rw [ran] at grows
      exact ⟨grows.trans (after value left).1, (after value left).2⟩
  | store => exact storing_adds fun _ _ _ ran => (Memory.write_failed ran).2
  | clear => exact storing_adds fun _ _ _ ran => (Memory.clear_failed ran).2
  | onScreen grows =>
    exact fun machine =>
      ⟨grows machine.screen, fun _ _ failed => by cases failed⟩
  | rearrange _ same =>
    exact fun machine =>
      ⟨.of_eq (same machine), fun _ _ failed => by cases failed⟩

end Exec

end Easel
