import Easel.Proofs.Code.Assembly

/-!
# Variables that are too large for their segment

A segment has room for a thousand slots.  As long as the slots of every
variable can be added up in 32 bits, a program that declares a larger one is
refused.  Beyond that bound the count of slots wraps around, and a list can be
granted fewer slots than it has items.
-/

namespace Easel

/-- A countable variable that exceeds its segment is refused. -/
theorem compile_refuses_oversized {source entry : String} {program : Program}
    {declaration : Declaration}
    (parsed : Program.parse source = .ok program)
    (countable : program.Countable)
    (declared : declaration ∈ program.declarations)
    (oversized : segmentSize < declaration.type.slotCount) :
    ∀ executable, compile source entry ≠ .ok executable := by
  intro executable compiled
  obtain ⟨read, parsedAgain, compiled⟩ := bind_eq_ok.mp compiled
  obtain rfl : program = read := Except.ok.inj (parsed.symm.trans parsedAgain)
  have declarable := Program.declarable_of_parse parsed
  obtain ⟨_, _, _, _, _, _, _, checks, places, _⟩ :=
    Program.assembly_of_compile declarable compiled
  have fits := places.fits checks declarable countable
  exact Nat.not_le_of_lt oversized (fits declaration declared).small

/-- A list with one item more than a segment has slots. -/
def overfull : String :=
  "program p;func void main()\x7bvar int[1001]a;write a[0];\x7d"

theorem compile_refuses_oversized_overfull :
    ∃ program declaration, Program.parse overfull = .ok program ∧
      program.Countable ∧ declaration ∈ program.declarations ∧
      segmentSize < declaration.type.slotCount ∧
      ∀ executable, compile overfull "main" ≠ .ok executable := by
  have shown : (do
      let program ← (Program.parse overfull).toOption
      let declaration ← program.declarations.head?
      if program.Countable ∧ segmentSize < declaration.type.slotCount then
        some (program, declaration)
      else none).isSome = true := by
    decide +kernel
  simp only [Option.isSome_iff_exists, bind, Option.bind_eq_some_iff,
    toOption_eq_some, Option.ite_none_right_eq_some] at shown
  obtain ⟨_, program, parsed, declaration, first, ⟨countable, oversized⟩, _⟩ :=
    shown
  have declared := List.mem_of_head? first
  exact ⟨program, declaration, parsed, countable, declared, oversized,
    compile_refuses_oversized parsed countable declared oversized⟩

/-- A list whose slots, counted in 32 bits, are none. -/
def boundless : String :=
  "program p;var int[4294967296]a;func void main()\x7b\x7d"

/-- The list is accepted although it exceeds its segment. -/
theorem compile_accepts_boundless :
    ∃ program declaration executable, Program.parse boundless = .ok program ∧
      declaration ∈ program.declarations ∧
        segmentSize < declaration.type.slotCount ∧
      compile boundless "main" = .ok executable := by
  have shown : (do
      let program ← (Program.parse boundless).toOption
      let declaration ← program.declarations.head?
      let executable ← (compile boundless "main").toOption
      if segmentSize < declaration.type.slotCount then
        some (program, declaration, executable)
      else none).isSome = true := by
    decide +kernel
  simp only [Option.isSome_iff_exists, bind, Option.bind_eq_some_iff,
    toOption_eq_some, Option.ite_none_right_eq_some] at shown
  obtain ⟨_, program, parsed, declaration, first, executable, compiled,
    oversized, _⟩ := shown
  exact ⟨program, declaration, executable, parsed, List.mem_of_head? first,
    oversized, compiled⟩

end Easel
