import Easel.Decimal.Write
import Easel.Proofs.Text.Solid

/-!
# Numbers read back

The decimal digits of a natural number denote it, and so do a sign and digits
for an integer.  No number is written with a blank in it, a floating point
number included, whatever its layout.
-/

namespace Easel.Decimal

variable {character : Char} {number : Int} {text : List Char}

theorem toNat_of_isDigit (digit : isDigit character = true) :
    48 ≤ character.toNat ∧ character.toNat ≤ 57 := by
  simpa [isDigit, Char.le_def, UInt32.le_iff_toNat_le] using digit

theorem isBlank_of_isDigit (digit : isDigit character = true) :
    Text.isBlank character = false := by
  have bounds := toNat_of_isDigit digit
  simp [Text.isBlank, Text.Ranges.contains, Text.blankRanges]
  omega

theorem toList_toString (number : Nat) :
    (toString number).toList = Nat.toDigits 10 number := by
  rw [Nat.toString_eq_ofList_toDigits, String.toList_ofList]

theorem toString_ne_nil (number : Nat) : (toString number).toList ≠ [] := by
  rw [toList_toString]
  exact Nat.toDigits_ne_nil

theorem isDigit_of_mem_toString {number : Nat}
    (member : character ∈ (toString number).toList) :
    isDigit character = true := by
  rw [toList_toString] at member
  exact Nat.isDigit_of_mem_toDigits (by decide) (by decide) member

/-- The digits of a number denote it. -/
theorem readDigits?_toString (number : Nat) :
    readDigits? (toString number).toList = some number := by
  have digits : (toString number).toList.all isDigit = true :=
    List.all_eq_true.mpr fun _ => isDigit_of_mem_toString
  have value : valueOfDigits (toString number).toList = number := by
    rw [toList_toString, valueOfDigits, ← Nat.ofDigitChars_eq_foldl]
    exact Nat.ofDigitChars_ten_toDigits
  rw [readDigits?, if_pos ⟨toString_ne_nil number, digits⟩, value]

/-- The text of a number starts with a digit. -/
theorem exists_toString_eq_cons (number : Nat) :
    ∃ first rest, (toString number).toList = first :: rest ∧
      isDigit first = true := by
  cases digits : (toString number).toList with
  | nil => exact absurd digits (toString_ne_nil number)
  | cons first rest =>
    have member : first ∈ (toString number).toList :=
      digits ▸ List.mem_cons_self
    exact ⟨first, rest, rfl, isDigit_of_mem_toString member⟩

theorem readNatural?_toString {bound number : Nat} (within : number ≤ bound) :
    readNatural? bound (toString number).toList = some number := by
  have denotes := readDigits?_toString number
  obtain ⟨first, rest, digits, isFirst⟩ := exists_toString_eq_cons number
  rw [digits] at denotes ⊢
  unfold readNatural?
  split
  · rename_i plus
    cases plus
    cases isFirst
  · dsimp only
    rw [denotes, Option.filter_some, if_pos (decide_eq_true within)]

theorem toString_of_neg (negative : number < 0) :
    (toString number).toList = '-' :: (toString (-number).toNat).toList := by
  rw [Int.toString_eq_repr, Int.repr_eq_if, if_neg (Int.not_le.mpr negative),
    String.toList_append]
  rfl

theorem toString_of_nonneg (nonneg : 0 ≤ number) :
    toString number = toString number.toNat := by
  rw [Int.toString_eq_repr, Int.repr_eq_if, if_pos nonneg]
  rfl

theorem readInteger?_toString {least greatest : Int}
    (above : least ≤ number)
    (below : number ≤ greatest) :
    readInteger? least greatest (toString number).toList = some number := by
  have within : (decide (least ≤ number) && decide (number ≤ greatest)) =
      true := by
    rw [decide_eq_true above, decide_eq_true below]
    rfl
  by_cases negative : number < 0
  · have magnitude : -((-number).toNat : Int) = number := by omega
    have denotes : (readDigits? (toString (-number).toNat).toList).map
        (fun value => -(value : Int)) = some number := by
      rw [readDigits?_toString]
      exact congrArg some magnitude
    rw [toString_of_neg negative, readInteger?, denotes, Option.filter_some,
      if_pos within]
  · have nonneg : 0 ≤ number := Int.not_lt.mp negative
    rw [toString_of_nonneg nonneg]
    have denotes := readDigits?_toString number.toNat
    obtain ⟨first, rest, digits, isFirst⟩ :=
      exists_toString_eq_cons number.toNat
    rw [digits] at denotes ⊢
    unfold readInteger?
    split
    · rename_i minus
      cases minus
      cases isFirst
    · rename_i plus
      cases plus
      cases isFirst
    · have whole : Int.ofNat number.toNat = number := Int.toNat_of_nonneg nonneg
      rw [denotes, Option.map_some, whole, Option.filter_some, if_pos within]

theorem bounds_of_readInteger? {least greatest : Int}
    (read : readInteger? least greatest text = some number) :
    least ≤ number ∧ number ≤ greatest := by
  unfold readInteger? at read
  have within := (Option.filter_eq_some_iff.mp read).2
  rwa [Bool.and_eq_true, decide_eq_true_eq, decide_eq_true_eq] at within

theorem bound_of_readNatural? {bound number : Nat}
    (read : readNatural? bound text = some number) :
    number ≤ bound := by
  unfold readNatural? at read
  exact of_decide_eq_true (Option.filter_eq_some_iff.mp read).2

theorem unbroken_toString (number : Nat) :
    Text.Unbroken (toString number).toList :=
  fun _ member => isBlank_of_isDigit (isDigit_of_mem_toString member)

theorem word_toString (number : Nat) : Text.Word (toString number).toList :=
  ⟨toString_ne_nil number, unbroken_toString number⟩

theorem word_toString_int (number : Int) :
    Text.Word (toString number).toList := by
  by_cases negative : number < 0
  · rw [toString_of_neg negative]
    exact ⟨List.cons_ne_nil _ _, (unbroken_toString _).cons rfl⟩
  · rw [toString_of_nonneg (Int.not_lt.mp negative)]
    exact word_toString _

theorem Layout.unbroken_arrange (layout : Layout)
    (unbroken : Text.Unbroken text)
    (point : Int) :
    Text.Unbroken (layout.arrange text point) := by
  have zeros (count : Nat) : Text.Unbroken (List.replicate count '0') :=
    .replicate rfl count
  unfold Layout.arrange
  extract_lets plain scientific
  have plainly : Text.Unbroken plain := by
    unfold plain
    split
    · exact (((zeros _).append unbroken).cons rfl).cons rfl
    · split
      · exact (unbroken.take _).append ((unbroken.drop _).cons rfl)
      · refine (unbroken.append (zeros _)).append ?_
        split
        · exact (Text.Unbroken.nil.cons rfl).cons rfl
        · exact .nil
  have scientifically : Text.Unbroken scientific := by
    refine ((unbroken.take _).append ?_).append
      ((word_toString_int _).unbroken.cons rfl)
    split
    · exact .nil
    · exact (unbroken.drop _).cons rfl
  split
  · exact plainly
  · split
    · exact plainly
    · exact scientifically

theorem Layout.arrange_ne_nil (layout : Layout)
    (nonempty : text ≠ [])
    (point : Int) :
    layout.arrange text point ≠ [] := by
  unfold Layout.arrange
  extract_lets plain scientific
  have plainly : plain ≠ [] := by
    unfold plain
    split
    · exact List.cons_ne_nil _ _
    · split
      · exact List.append_ne_nil_of_right_ne_nil _ (List.cons_ne_nil _ _)
      · exact List.append_ne_nil_of_left_ne_nil
          (List.append_ne_nil_of_left_ne_nil nonempty _) _
  split
  · exact plainly
  · split
    · exact plainly
    · exact List.append_ne_nil_of_right_ne_nil _ (List.cons_ne_nil _ _)

/-- A floating point number is written without blanks. -/
theorem Layout.word_write (layout : Layout) (value : Float) :
    Text.Word (layout.write value).toList := by
  have sign : Text.Unbroken (signText value).toList := by
    unfold signText
    split <;> exact .of_all (by decide)
  have signed {text : String} (word : Text.Word text.toList) :
      Text.Word (signText value ++ text).toList := by
    rw [String.toList_append]
    exact ⟨List.append_ne_nil_of_right_ne_nil _ word.nonempty,
      sign.append word.unbroken⟩
  unfold Layout.write
  split
  · exact ⟨by decide, .of_all (by decide)⟩
  · split
    · exact signed ⟨by decide, .of_all (by decide)⟩
    · split
      · split
        · exact signed ⟨by decide, .of_all (by decide)⟩
        · exact signed ⟨by decide, .of_all (by decide)⟩
      · extract_lets decimal text
        refine signed ?_
        rw [String.toList_ofList]
        exact ⟨layout.arrange_ne_nil (toString_ne_nil _) _,
          layout.unbroken_arrange (unbroken_toString _) _⟩

end Easel.Decimal
