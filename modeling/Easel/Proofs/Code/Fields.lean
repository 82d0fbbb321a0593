import Easel.Proofs.ObjectFile
import Easel.Proofs.Space
import Mathlib.Data.Int.Interval

/-!
# The fields of generated code

Storage is counted in 32 bits and no segment is taken beyond its end, so every
address that is handed out fits the field of an instruction, however large the
variables of a program are.  Sizes and the storage that calls use are cut to
fields when code is generated.  What remains are positions in the code, which
fit as long as the code is not longer than fields can count.

The constants of generated code are literals, each in the segment of its
element.
-/

namespace Easel

variable {address : Address} {space : Space} {constant : Constant}

theorem Space.Roomy.narrow (roomy : Space.Roomy address) : address.Narrow :=
  ⟨roomy.1, Int.le_trans roomy.2 (by decide)⟩

theorem Address.narrow_wrap (number : Int) : (Address.wrap number).Narrow := by
  have positive : 0 < 4294967296 := by decide
  have above : -2147483648 ≤ number.bmod 4294967296 := Int.le_bmod positive
  have below : number.bmod 4294967296 < 2147483648 := Int.bmod_lt positive
  exact ⟨above, Int.le_of_lt_add_one below⟩

theorem Quad.narrow_mk {operation : Operation} {left right result : Address}
    (leftNarrow : left.Narrow)
    (rightNarrow : right.Narrow)
    (resultNarrow : result.Narrow) :
    Quad.Narrow ⟨operation, left, right, result⟩ :=
  ⟨leftNarrow, rightNarrow, resultNarrow⟩

theorem Address.narrow_unused : Address.unused.Narrow := by
  constructor <;> decide

theorem Address.narrow_natCast {number : Nat} (small : number ≤ 2147483647) :
    Address.Narrow (number : Int) := by
  constructor <;> omega

theorem Literal.solid_text (value : Literal) :
    Text.Solid value.text.toList := by
  cases value with
  | integer negative magnitude =>
    have word := Decimal.word_toString magnitude
    rw [Literal.text, String.toList_append]
    cases negative with
    | true =>
      have signed := word.unbroken.cons (show Text.isBlank '-' = false from rfl)
      exact (Text.Word.mk (List.cons_ne_nil _ _) signed).solid
    | false => exact word.solid
  | float value => exact (literalLayout.word_write value).solid
  | char value =>
    rw [Literal.text, Text.quoteChar, String.toList_ofList]
    exact Text.solid_quoteWith rfl _
  | string value =>
    rw [Literal.text, Text.quoteString, String.toList_ofList]
    exact Text.solid_quoteWith rfl _
  | bool value =>
    have word : Text.Word (Literal.bool value).text.toList := by
      cases value <;> exact ⟨by decide, .of_all (by decide)⟩
    exact word.solid

theorem narrow_argumentSize (type : Ty) :
    (Context.argumentSize type).Narrow := by
  unfold Context.argumentSize
  split
  · exact Address.narrow_wrap _
  · exact Address.narrow_unused

theorem narrow_getD {addresses : List Address}
    (narrow : ∀ address ∈ addresses, address.Narrow)
    (index : Nat) :
    (addresses[index]?.getD .unused).Narrow := by
  cases found : addresses[index]? with
  | none => exact Address.narrow_unused
  | some address => exact narrow address (List.mem_of_getElem? found)

theorem narrow_initQuad (roomy : Space.Roomy address) (type : Ty) :
    (initQuad address type).Narrow := by
  have code : Address.Narrow type.element.code := by
    cases type.element <;> constructor <;> decide
  unfold initQuad
  split
  · exact Quad.narrow_mk roomy.narrow (Address.narrow_wrap _) code
  · exact Quad.narrow_mk roomy.narrow (Address.narrow_natCast (by decide)) code

namespace Space

theorem Literals.storable (literals : space.Literals)
    (member : constant ∈ space.constants)
    (solid : Text.Solid constant.text.toList) :
    constant.Storable := by
  obtain ⟨_, _, place⟩ := literals.place member
  exact ⟨solid, _, place.located, rfl, rfl⟩

theorem Literals.narrow (literals : space.Literals)
    (member : constant ∈ space.constants) :
    constant.address.Narrow := by
  obtain ⟨_, _, place⟩ := literals.place member
  exact Executable.narrow_of_locate? place.located

/-- There are no more literals than addresses. -/
theorem Literals.few (literals : space.Literals) :
    space.constants.length ≤ Executable.greatestCount := by
  have distinct : (space.constants.map (·.address)).Nodup :=
    List.pairwise_map.mpr literals.distinct
  have within : (space.constants.map (·.address)).toFinset ⊆
      Finset.Icc (-2147483648 : Int) 2147483647 := by
    intro address member
    obtain ⟨_, inSpace, rfl⟩ := List.mem_map.mp (List.mem_toFinset.mp member)
    have narrow := literals.narrow inSpace
    exact Finset.mem_Icc.mpr ⟨narrow.1, narrow.2⟩
  have counted := Finset.card_le_card within
  rw [List.toFinset_card_of_nodup distinct, List.length_map,
    Int.card_Icc] at counted
  exact Nat.le_trans counted (by decide)

theorem Literals.narrow_zeroAddress (literals : space.Literals) (type : Ty) :
    (space.zeroAddress type).Narrow := by
  unfold zeroAddress
  extract_lets zero
  split
  · rename_i constant found
    obtain ⟨_, _, known⟩ := Option.bind_eq_some_iff.mp found
    exact literals.narrow (List.mem_of_find?_eq_some known)
  · exact Address.narrow_unused

theorem fresh_solid :
    ∀ constant ∈ fresh.constants, Text.Solid constant.text.toList := by
  have words : (fresh.constants.all fun constant =>
      !constant.text.toList.isEmpty && constant.text.toList.all fun character =>
      !Text.isBlank character) = true := by
    decide
  intro constant member
  have each := List.all_eq_true.mp words constant member
  rw [Bool.and_eq_true] at each
  exact (Text.Word.mk (by simpa using each.1) (.of_all each.2)).solid

end Space

end Easel
