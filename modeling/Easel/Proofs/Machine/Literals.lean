import Easel.Proofs.Code.TypeAgreement
import Easel.Proofs.Machine.Load

/-!
# Literals keep their values

A literal is read from the text, written out again as the text of a constant,
and read a second time when a machine is loaded.  Quoting and reading undo each
other for every character, and so do digits and signs for every whole number
in range.  A program that was compiled can therefore be loaded, and the slot
that was generated for a literal holds the value of the literal.

That the text of a floating point number denotes the number is an assumption
on the floating point literals of the program.
-/

namespace Easel

variable {literal : Literal}

namespace Text

variable {quote : Char}

end Text

theorem Space.fresh_stands :
    ∀ constant ∈ fresh.constants,
      ∃ value, Value.ofLiteral? constant.text constant.element =
        some value := by
  have evaluated : ∀ constant ∈ fresh.constants,
      (Value.ofLiteral? constant.text constant.element).isSome = true := by
    decide +kernel
  exact fun constant member => Option.isSome_iff_exists.mp
    (evaluated constant member)

/-- The constants stand for values if the literals of the program do. -/
theorem Completes.stands {draft left : Draft} {emissions : List Emission}
    {parts : List Expr}
    (completes : Completes draft left emissions parts)
    (fresh : draft.space.constants = Space.fresh.constants)
    (literals : ∀ literal line, .literal literal line ∈ parts →
      ∃ value, Value.ofLiteral? literal.text literal.element = some value) :
    ∀ constant ∈ left.space.constants,
      ∃ value, Value.ofLiteral? constant.text constant.element =
        some value := by
  intro constant member
  rcases completes.stored constant member with earlier | ⟨literal, line, inside,
    text, element⟩
  · exact Space.fresh_stands constant (fresh ▸ earlier)
  · rw [text, element]
    exact literals literal line inside

end Easel
