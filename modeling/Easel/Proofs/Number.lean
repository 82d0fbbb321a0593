import Mathlib

/-!
# Floating point numbers

Negation changes the sign of a number and nothing else.  A whole number is
converted to the nearest number with 53 binary digits, so whole numbers of
greater width are told apart only as far as their nearest neighbours are; the
conversion never turns their order around.
-/

namespace Easel

variable {scale digits : Nat} {float : UnpackedFloat}

open Float.Model Float.Model.UnpackedFloat

/-- Negating a number flips its sign bit, unless it is not a number at all. -/
theorem neg_unpack (format : Format) (bits : BitVec format.numBits) :
    (unpack format bits).neg = .notANumber ∨
      (unpack format bits).neg = unpack format
        (packComponents format (-Sign.ofBitVec (unpackSign bits))
          (unpackExponent bits) (unpackMantissa bits)) := by
  unfold UnpackedFloat.unpack
  simp only [unpackSign_packComponents, unpackExponent_packComponents,
    unpackMantissa_packComponents, Sign.ofBitVec_toBitVec]
  split
  · split
    · exact .inr rfl
    · exact .inl rfl
  · split
    · split
      · exact .inr rfl
      · exact .inr rfl
    · exact .inr rfl

theorem unpack_pack_unpack {format : Format}
    (wide : 2 ≤ format.exponentBits)
    (bits : BitVec format.numBits) :
    unpack format (UnpackedFloat.pack format (unpack format bits)) =
      unpack format bits := by
  rw [pack_unpack bits wide]
  split
  · rename_i isNaN
    simp only [isNaNBits, decide_eq_true_eq] at isNaN
    rw [unpack_packedNaN]
    simp [UnpackedFloat.unpack, isNaN]
  · rfl

theorem unpack_neg (number : Float.Model) :
    (-number).unpack = number.unpack.neg := by
  obtain ⟨⟨bits⟩, _⟩ := number
  change unpack .binary64
    (UnpackedFloat.pack .binary64 (unpack .binary64 bits).neg) =
      (unpack .binary64 bits).neg
  rcases neg_unpack .binary64 bits with nothing | flipped
  · rw [nothing]
    exact unpack_packedNaN
  · rw [flipped]
    exact unpack_pack_unpack (by decide) _

theorem unpacked_neg_neg (number : UnpackedFloat) :
    number.neg.neg = number := by
  cases number with
  | notANumber => rfl
  | infinity sign => cases sign <;> rfl
  | zero sign => cases sign <;> rfl
  | finite sign => cases sign <;> rfl

theorem float_neg_neg (number : Float) : - -number = number := by
  obtain ⟨model⟩ := number
  have same : - -model = model := by
    change Float.Model.pack (-model).unpack.neg = model
    rw [unpack_neg, unpacked_neg_neg]
    obtain ⟨_, valid⟩ := model
    have back := pack_unpack_of_valid valid (by decide)
    simp only [Float.Model.pack, Float.Model.unpack, back]
  exact congrArg (fun model => (⟨model⟩ : Float)) same

/-! ## Rounding -/

/-- The quotient by a unit, rounded to the nearest, halves to the even. -/
def roundTo (unit number : Nat) : Nat :=
  if 2 * (number % unit) < unit then number / unit
  else if unit < 2 * (number % unit) then number / unit + 1
  else number / unit + number / unit % 2

theorem roundTo_le (unit number : Nat) :
    roundTo unit number ≤ number / unit + 1 := by
  unfold roundTo
  split
  · omega
  · split <;> omega

theorem le_roundTo (unit number : Nat) :
    number / unit ≤ roundTo unit number := by
  unfold roundTo
  split
  · omega
  · split <;> omega

theorem roundTo_mul (unit number : Nat) (positive : 0 < scale) :
    roundTo (unit * scale) (number * scale) = roundTo unit number := by
  unfold roundTo
  rw [Nat.mul_mod_mul_right, Nat.mul_div_mul_right _ _ positive,
    ← Nat.mul_assoc]
  simp only [Nat.mul_lt_mul_right positive]

variable {number mantissa : Nat} {exponent : Int}

theorem roundTo_mono {unit other : Nat} (least : number ≤ other) :
    roundTo unit number ≤ roundTo unit other := by
  have quotients := Nat.div_le_div_right (c := unit) least
  rcases Nat.eq_or_lt_of_le quotients with same | less
  · have split := Nat.div_add_mod number unit
    have otherSplit := Nat.div_add_mod other unit
    rw [← same] at otherSplit
    unfold roundTo
    rw [← same]
    have rest : number % unit ≤ other % unit := by omega
    split <;> split <;> (try split) <;> (try split) <;> omega
  · have := roundTo_le unit number
    have := le_roundTo unit other
    omega

/-- What shifting to the right leaves of a mantissa. -/
theorem repeat_shiftRightOne (mantissa count : Nat) :
    count.repeat ExtendedMantissa.shiftRightOne ⟨mantissa, false, false⟩ =
      ⟨mantissa / 2 ^ count, decide (2 ^ count ≤ 2 * (mantissa % 2 ^ count)),
        decide (2 * (mantissa % 2 ^ count) % 2 ^ count ≠ 0)⟩ := by
  induction count with
  | zero => simp [Nat.repeat, Nat.mod_one]
  | succ count ih =>
    rw [Nat.repeat, ih, ExtendedMantissa.shiftRightOne]
    have unit : 0 < 2 ^ count := Nat.two_pow_pos count
    have rest := Nat.mod_lt mantissa unit
    have digits := Nat.mod_pow_succ (x := mantissa) (b := 2) (k := count)
    have bit := Nat.mod_two_eq_zero_or_one (mantissa / 2 ^ count)
    rw [ExtendedMantissa.mk.injEq, Nat.div_div_eq_div_mul, ← Nat.pow_succ]
    refine ⟨rfl, ?_, ?_⟩
    · rw [digits, Nat.pow_succ]
      rcases bit with zero | one
      · simp only [zero, Nat.mul_zero, Nat.add_zero]; simp; omega
      · simp only [one, Nat.mul_one]; simp; omega
    · rw [digits, Nat.pow_succ, Nat.mul_comm (2 ^ count) 2,
        Nat.mul_mod_mul_left, Nat.add_mul_mod_self_left, Nat.mod_mod,
        ← Bool.decide_or]
      apply decide_eq_decide.mpr
      constructor
      · rintro (above | odd) none
        · omega
        · rw [none, Nat.zero_mod] at odd
          exact odd rfl
      · intro some
        by_cases above : 2 ^ count ≤ 2 * (mantissa % 2 ^ count)
        · exact .inl above
        · exact .inr (by rwa [Nat.mod_eq_of_lt (Nat.not_le.mp above)])

theorem roundedMantissa_shift (mantissa count : Nat) :
    ExtendedMantissa.roundedMantissa
      (count.repeat ExtendedMantissa.shiftRightOne ⟨mantissa, false, false⟩) =
        roundTo (2 ^ count) mantissa := by
  have unit : 0 < 2 ^ count := Nat.two_pow_pos count
  have rest := Nat.mod_lt mantissa unit
  rw [repeat_shiftRightOne]
  unfold roundTo
  by_cases below : 2 * (mantissa % 2 ^ count) < 2 ^ count
  · rw [if_pos below, decide_eq_false (Nat.not_le.mpr below)]
    cases decide (2 * (mantissa % 2 ^ count) % 2 ^ count ≠ 0) <;> rfl
  · rw [if_neg below, decide_eq_true (Nat.not_lt.mp below)]
    by_cases above : 2 ^ count < 2 * (mantissa % 2 ^ count)
    · have sticky : 2 * (mantissa % 2 ^ count) % 2 ^ count ≠ 0 := by
        rw [Nat.mod_eq_sub_mod (Nat.le_of_lt above),
          Nat.mod_eq_of_lt (by omega)]
        omega
      rw [if_pos above, decide_eq_true sticky]
      rfl
    · have exact : 2 * (mantissa % 2 ^ count) = 2 ^ count := by omega
      rw [if_neg above, exact, Nat.mod_self, decide_eq_false (by simp)]
      rfl

/-- The exponent that a mantissa of at least 53 digits is brought to. -/
theorem targetExponent_eq (wide : 52 ≤ mantissa.log2)
    (normal : -1074 ≤ exponent + (mantissa.log2 - 52 : Nat)) :
    Format.binary64.targetExponent (totalExponent mantissa exponent) =
      exponent + (mantissa.log2 - 52 : Nat) := by
  simp only [Format.targetExponent, totalExponent, Format.mantissaBits,
    Format.minExponent]
  norm_num
  omega

theorem shiftToTargetExponent_eq (exponent : Int)
    (wide : 52 ≤ mantissa.log2)
    (normal : -1074 ≤ exponent + (mantissa.log2 - 52 : Nat)) :
    shiftToTargetExponent .binary64 mantissa exponent .exact =
      ((mantissa.log2 - 52).repeat ExtendedMantissa.shiftRightOne ⟨mantissa,
        false, false⟩, exponent + (mantissa.log2 - 52 : Nat)) := by
  have amount : (exponent + (mantissa.log2 - 52 : Nat) - exponent).toNat =
      mantissa.log2 - 52 := by
    omega
  simp only [shiftToTargetExponent, targetExponent_eq wide normal,
    shiftToExponent, amount]
  rfl

/-- The digits of a number that is wide enough, rounded to 53 of them. -/
theorem roundTo_bounds (wide : 52 ≤ mantissa.log2) :
    2 ^ 52 ≤ roundTo (2 ^ (mantissa.log2 - 52)) mantissa ∧
      roundTo (2 ^ (mantissa.log2 - 52)) mantissa ≤ 2 ^ 53 := by
  have positive : mantissa ≠ 0 := by
    rintro rfl
    simp at wide
  have unit : 0 < 2 ^ (mantissa.log2 - 52) := Nat.two_pow_pos _
  have low : 2 ^ 52 * 2 ^ (mantissa.log2 - 52) ≤ mantissa := by
    rw [← Nat.pow_add, Nat.add_sub_cancel' wide]
    exact Nat.log2_self_le positive
  have high : mantissa < 2 ^ 53 * 2 ^ (mantissa.log2 - 52) := by
    rw [← Nat.pow_add, show 53 + (mantissa.log2 - 52) =
      mantissa.log2 + 1 by omega]
    exact Nat.lt_log2_self
  have least := (Nat.le_div_iff_mul_le unit).mpr low
  have greatest := (Nat.div_lt_iff_lt_mul unit).mpr high
  have above := le_roundTo (2 ^ (mantissa.log2 - 52)) mantissa
  have below := roundTo_le (2 ^ (mantissa.log2 - 52)) mantissa
  omega

theorem log2_eq (low : 2 ^ 52 ≤ mantissa) (high : mantissa < 2 ^ 53) :
    mantissa.log2 = 52 :=
  (Nat.log2_eq_iff (by omega)).mpr ⟨low, high⟩

theorem roundWithAccuracy_exact (sign : Sign)
    (low : 2 ^ 52 ≤ digits)
    (high : digits < 2 ^ 53)
    (normal : -1074 ≤ exponent) :
    roundWithAccuracy .binary64 sign digits exponent .exact =
      .finite sign digits exponent (Nat.lt_of_lt_of_le (by decide) low) := by
  have width := log2_eq low high
  have some : digits ≠ 0 := by omega
  have shifted := shiftToTargetExponent_eq exponent (Nat.le_of_eq width.symm)
    (by omega)
  rw [width] at shifted
  rw [roundWithAccuracy, shifted]
  simp only [Nat.sub_self, Nat.repeat, ExtendedMantissa.roundedMantissa,
    ExtendedMantissa.accuracy, Accuracy.roundToNearestEven,
    Int.natCast_zero, Int.add_zero] at shifted ⊢
  simp [shifted, some]

/-- Rounding a number of at least 53 digits to 53 of them. -/
theorem roundWithAccuracy_eq (sign : Sign)
    (mantissa : Nat)
    (exponent : Int)
    (wide : 52 ≤ mantissa.log2)
    (normal : -1074 ≤ exponent + (mantissa.log2 - 52 : Nat)) :
    ∃ digits shift positive,
      roundWithAccuracy .binary64 sign mantissa exponent .exact =
        .finite sign digits (exponent + (mantissa.log2 - 52 : Nat) +
          (shift : Nat)) positive ∧
      shift ≤ 1 ∧ 2 ^ 52 ≤ digits ∧ digits < 2 ^ 53 ∧
      digits * 2 ^ shift = roundTo (2 ^ (mantissa.log2 - 52)) mantissa := by
  obtain ⟨low, high⟩ := roundTo_bounds wide
  rw [roundWithAccuracy, shiftToTargetExponent_eq _ wide normal]
  dsimp only
  rw [roundedMantissa_shift]
  generalize roundTo (2 ^ (mantissa.log2 - 52)) mantissa = rounded at low high
  generalize hExp : exponent + (mantissa.log2 - 52 : Nat) = reached at normal
  rcases Nat.lt_or_eq_of_le high with less | rfl
  · have width := log2_eq low less
    rw [shiftToTargetExponent_eq _ (by omega) (by omega), width]
    refine ⟨rounded, 0, by omega, ?_, by omega, low, less, by omega⟩
    have some : rounded ≠ 0 := by omega
    simp [Nat.repeat, some]
  · have width : Nat.log2 (2 ^ 53) = 53 := Nat.log2_two_pow
    rw [shiftToTargetExponent_eq _ (by omega) (by omega), width]
    refine ⟨2 ^ 52, 1, by decide, ?_,
      Nat.le_refl _, by decide, by decide, by decide⟩
    simp [Nat.repeat, ExtendedMantissa.shiftRightOne]

theorem unpack_pack_normal (sign : Sign)
    (positive : 0 < digits)
    (low : 2 ^ 52 ≤ digits)
    (high : digits < 2 ^ 53)
    (least : -1074 ≤ exponent)
    (greatest : exponent ≤ 971) :
    (Float.Model.pack (.finite sign digits exponent positive)).unpack =
      .finite sign digits exponent positive := by
  have width := log2_eq low high
  have bias : (exponent + Format.binary64.exponentBias +
      Format.binary64.mantissaBitsWithoutImplicit).toNat =
        (exponent + 1075).toNat := by
    change (exponent + 1023 + 52).toNat = _
    omega
  change unpack .binary64
    (UnpackedFloat.pack .binary64 (.finite sign digits exponent positive)) = _
  have packed : UnpackedFloat.pack .binary64
      (.finite sign digits exponent positive) =
        packComponents .binary64 sign (BitVec.ofNat 11 (exponent + 1075).toNat)
        (BitVec.ofNat 52 digits) := by
    simp only [UnpackedFloat.pack, width, bias]
    rw [if_neg (by omega),
      if_pos (show 52 + 1 = Format.binary64.mantissaBits by decide)]
  have notAll : BitVec.ofNat 11 (exponent + 1075).toNat ≠ -1#11 := by
    intro same
    have numbers := congrArg BitVec.toNat same
    simp at numbers
    omega
  have notZero : BitVec.ofNat 11 (exponent + 1075).toNat ≠ 0#11 := by
    intro same
    have numbers := congrArg BitVec.toNat same
    simp at numbers
    omega
  have number : (1#1 ++ BitVec.ofNat 52 digits).toNat = digits := by
    rw [BitVec.toNat_append,
      ← Nat.shiftLeft_add_eq_or_of_lt (BitVec.ofNat 52 digits).isLt]
    simp [Nat.shiftLeft_eq]
    omega
  have back : ((BitVec.ofNat 11 (exponent + 1075).toNat).toNat : Int) -
      (Format.binary64.exponentBias +
        Format.binary64.mantissaBitsWithoutImplicit) = exponent := by
    change ((BitVec.ofNat 11 (exponent + 1075).toNat).toNat : Int) -
      (1023 + 52) = exponent
    simp
    omega
  simp only [packed, UnpackedFloat.unpack, unpackSign_packComponents,
    unpackExponent_packComponents, unpackMantissa_packComponents,
    Sign.ofBitVec_toBitVec, if_neg notAll, if_neg notZero, number, back]

/-- The nearest number with 53 binary digits. -/
def nearest (number : Nat) : Nat :=
  2 ^ (number.log2 - 52) * roundTo (2 ^ (number.log2 - 52)) number

/-- A floating point number of integer value, as comparisons need it. -/
def Shows (float : UnpackedFloat) (value : Int) : Prop :=
  match float with
  | .zero _ => value = 0
  | .finite sign digits exponent _ =>
    2 ^ 52 ≤ digits ∧ digits < 2 ^ 53 ∧ -52 ≤ exponent ∧
      value * 2 ^ 52 =
        sign.apply ((digits * 2 ^ (exponent + 52).toNat : Nat) : Int)
  | _ => False

theorem nearest_of_small (small : number < 2 ^ 53) :
    nearest number = number := by
  have width : number.log2 - 52 = 0 := by
    by_cases zero : number = 0
    · simp [zero]
    · have := (Nat.log2_lt zero).mpr small
      omega
  simp [nearest, width, roundTo, Nat.mod_one]

theorem log2_scaled (positive : number ≠ 0) (scale : Nat) :
    (number * 2 ^ scale).log2 = number.log2 + scale := by
  have unit := Nat.two_pow_pos scale
  refine (Nat.log2_eq_iff (Nat.mul_ne_zero positive unit.ne')).mpr ⟨?_, ?_⟩
  · rw [Nat.pow_add]
    exact Nat.mul_le_mul_right _ (Nat.log2_self_le positive)
  · rw [Nat.add_right_comm, Nat.pow_add]
    exact Nat.mul_lt_mul_of_pos_right Nat.lt_log2_self unit

/-- Rounding the shifted digits of a whole number gives the nearest number. -/
theorem roundTo_scaled (scaled : 52 ≤ number.log2 + scale) :
    roundTo (2 ^ (number.log2 + scale - 52)) (number * 2 ^ scale) *
      2 ^ number.log2 = nearest number * 2 ^ 52 := by
  rcases Nat.le_total 52 number.log2 with long | short
  · rw [show number.log2 + scale - 52 = number.log2 - 52 + scale by omega,
      Nat.pow_add, roundTo_mul _ number (Nat.two_pow_pos scale), nearest,
      Nat.mul_comm (2 ^ (number.log2 - 52)), Nat.mul_assoc, ← Nat.pow_add,
      Nat.sub_add_cancel long]
  · have unit : number.log2 - 52 = 0 := by omega
    have split : number * 2 ^ scale =
        number * 2 ^ (52 - number.log2) * 2 ^ (number.log2 + scale - 52) := by
      rw [Nat.mul_assoc, ← Nat.pow_add]
      congr 2
      omega
    rw [split]
    have whole := roundTo_mul 1 (number * 2 ^ (52 - number.log2))
      (Nat.two_pow_pos (number.log2 + scale - 52))
    rw [Nat.one_mul] at whole
    have exact : ∀ other, roundTo 1 other = other := by
      intro other
      simp [roundTo, Nat.mod_one]
    rw [whole, exact, nearest, unit, Nat.pow_zero, exact, Nat.one_mul,
      Nat.mul_assoc, ← Nat.pow_add, Nat.sub_add_cancel short]

theorem shows_of_round (scale : Nat)
    (positive : number ≠ 0)
    (small : number.log2 ≤ 64)
    (scaled : 52 ≤ number.log2 + scale) :
    Shows (Float.Model.pack
      (roundWithAccuracy .binary64 .positive (number * 2 ^ scale)
      (-(scale : Int)) .exact)).unpack (nearest number) := by
  have width := log2_scaled positive scale
  obtain ⟨_, shift, some, rounded, _, low, high, value⟩ :=
    roundWithAccuracy_eq .positive (number * 2 ^ scale) (-scale)
      (by omega) (by omega)
  rw [rounded, unpack_pack_normal .positive some low high (by omega) (by omega)]
  refine ⟨low, high, by omega, ?_⟩
  have exponent :
      (-(scale : Int) + ((number * 2 ^ scale).log2 - 52 : Nat) + (shift : Nat) +
        52).toNat = shift + number.log2 := by omega
  rw [exponent, Sign.apply, Nat.pow_add, ← Nat.mul_assoc, value, width,
    roundTo_scaled scaled]
  push_cast
  rfl

theorem shows_ofNat (small : number.log2 ≤ 64) :
    Shows (Float.ofNat number).toModel.unpack (nearest number) := by
  by_cases few : number < 2 ^ 53
  · have made : Float.ofNat number =
        number.toUInt64.toFloat * Float.ofBits 0x3FF0000000000000 := by
      simp [Float.ofNat, OfScientific.ofScientific, Float.ofScientific,
        Float.exactlyRepresentablePowersOfTen]
      omega
    rw [made]
    rcases Nat.eq_zero_or_pos number with rfl | positive
    · have zero : (Nat.toUInt64 0).toFloat * Float.ofBits 0x3FF0000000000000 =
          ⟨Float.Model.pack (.zero .positive)⟩ := by rfl
      rw [zero]
      rfl
    · have short : number.log2 ≤ 52 := by
        have := (Nat.log2_lt (by omega)).mpr few
        omega
      have width := log2_scaled (Nat.ne_of_gt positive) (52 - number.log2)
      have word : number.toUInt64.toNat = number :=
        UInt64.toNat_ofNat_of_lt (Nat.lt_trans few (by decide))
      have target : Format.binary64.targetExponent (totalExponent number 0) =
          -((52 - number.log2 : Nat) : Int) := by
        simp only [Format.targetExponent, totalExponent, Format.mantissaBits,
          Format.minExponent]
        norm_num
        omega
      -- fewer than 53 digits are filled up with zeros
      have first : number.toUInt64.toFloat.toModel.unpack =
          .finite .positive (number * 2 ^ (52 - number.log2))
          (-((52 - number.log2 : Nat) : Int))
            (Nat.mul_pos positive (Nat.two_pow_pos _)) := by
        have sign : compare (number : Int) 0 = .gt :=
          Int.compare_eq_gt.mpr (by omega)
        have amount : (0 - -((52 - number.log2 : Nat) : Int)).toNat =
          52 - number.log2 := by omega
        change (Float.Model.pack (UnpackedFloat.normalize .binary64
          (number.toUInt64.toNat : Int) 0 .positive)).unpack = _
        rw [word]
        simp only [UnpackedFloat.normalize, sign, Int.toNat_natCast,
          UnpackedFloat.round, target, decreaseExponent, amount,
          Nat.shiftLeft_eq]
        rw [Int.zero_sub]
        have low := Nat.log2_self_le
          (Nat.mul_pos positive (Nat.two_pow_pos (52 - number.log2))).ne'
        have high := @Nat.lt_log2_self (number * 2 ^ (52 - number.log2))
        rw [width, Nat.add_sub_cancel' short] at low high
        rw [roundWithAccuracy_exact _ low high (by omega)]
        exact unpack_pack_normal _ _ low high (by omega) (by omega)
      have one : (Float.ofBits 0x3FF0000000000000).toModel.unpack =
          .finite .positive (2 ^ 52) (-52) (by decide) := by rfl
      change Shows (Float.Model.pack (UnpackedFloat.mul .binary64 _ _)).unpack _
      rw [first, one]
      have shown :=
        shows_of_round (52 - number.log2 + 52) (Nat.ne_of_gt positive)
          small (by omega)
      rw [Nat.pow_add, ← Nat.mul_assoc] at shown
      have sum : -((52 - number.log2 : Nat) : Int) + -52 =
          -((52 - number.log2 + 52 : Nat) : Int) := by omega
      rw [UnpackedFloat.mul, sum]
      exact shown
  · have made : Float.ofNat number = ⟨Float.Model.ofScientific number 0⟩ := by
      simp [Float.ofNat, OfScientific.ofScientific, Float.ofScientific]
      omega
    have shown := shows_of_round 53 (by omega : number ≠ 0) small (by omega)
    rw [made]
    change Shows
      (Float.Model.pack (UnpackedFloat.ofScientific .binary64 number 0)).unpack
      _
    rw [UnpackedFloat.ofScientific, dif_neg (by omega), if_neg (by decide),
      if_neg (by simp), if_pos (by decide)]
    have sign : Sign.positive * Sign.positive = .positive := rfl
    simpa [UnpackedFloat.mul, Nat.shiftLeft_eq, Format.mantissaBits,
      sign] using shown

theorem Shows.neg {value : Int} (shows_ : Shows float value) :
    Shows float.neg (-value) := by
  cases float with
  | notANumber => exact shows_
  | infinity sign => exact shows_
  | zero sign =>
    change -value = 0
    rw [show value = 0 from shows_]
    rfl
  | finite sign digits exponent positive =>
    obtain ⟨low, high, least, value⟩ := shows_
    refine ⟨low, high, least, ?_⟩
    rw [Int.neg_mul, value]
    cases sign with
    | positive => rfl
    | negative => exact Int.neg_neg _

/-- Normal numbers are ordered by their exponents first. -/
theorem compare_normal {first second : Nat} {low high : Int}
    (firstLow : 2 ^ 52 ≤ first)
    (firstHigh : first < 2 ^ 53)
    (secondLow : 2 ^ 52 ≤ second)
    (secondHigh : second < 2 ^ 53)
    (least : -52 ≤ low)
    (otherLeast : -52 ≤ high) :
    (compare low high).then (compare first second) =
      compare (first * 2 ^ (low + 52).toNat)
        (second * 2 ^ (high + 52).toNat) := by
  have apart : ∀ {digits others : Nat} {lower higher : Int}, digits < 2 ^ 53 →
      2 ^ 52 ≤ others → -52 ≤ lower → lower < higher →
      digits * 2 ^ (lower + 52).toNat < others * 2 ^ (higher + 52).toNat := by
    intro digits others lower higher high low least less
    calc digits * 2 ^ (lower + 52).toNat < 2 ^ 53 * 2 ^ (lower + 52).toNat :=
          Nat.mul_lt_mul_of_pos_right high (Nat.two_pow_pos _)
      _ = 2 ^ 52 * 2 ^ ((lower + 52).toNat + 1) := by rw [Nat.pow_succ]; omega
      _ ≤ others * 2 ^ (higher + 52).toNat :=
          Nat.mul_le_mul low (Nat.pow_le_pow_right (by decide) (by omega))
  rcases Int.lt_trichotomy low high with less | rfl | greater
  · rw [Int.compare_eq_lt.mpr less,
      Nat.compare_eq_lt.mpr (apart firstHigh secondLow least less)]
    rfl
  · have unit := Nat.two_pow_pos (low + 52).toNat
    rw [Int.compare_eq_eq.mpr rfl, Ordering.eq_then]
    simp only [Nat.compare_eq_ite_lt, Nat.mul_lt_mul_right unit]
  · rw [Int.compare_eq_gt.mpr greater,
      Nat.compare_eq_gt.mpr (apart secondHigh firstLow otherLeast greater)]
    rfl

theorem Shows.lt_iff {other : UnpackedFloat} {value greater : Int}
    (shown : Shows float value)
    (otherShown : Shows other greater) :
    float.lt other = true ↔ value < greater := by
  rw [UnpackedFloat.lt, beq_iff_eq]
  cases float with
  | notANumber => exact shown.elim
  | infinity sign => exact shown.elim
  | zero sign =>
    have none : value = 0 := shown
    cases other with
    | notANumber => exact otherShown.elim
    | infinity sign => exact otherShown.elim
    | zero sign =>
      have noOther : greater = 0 := otherShown
      simp [UnpackedFloat.compare, none, noOther]
    | finite sign digits exponent positive =>
      have some := Nat.mul_pos positive (Nat.two_pow_pos (exponent + 52).toNat)
      obtain ⟨_, _, _, same⟩ := otherShown
      generalize digits * 2 ^ (exponent + 52).toNat = size at some same
      cases sign <;> simp [UnpackedFloat.compare, Sign.apply] at same ⊢ <;>
        omega
  | finite sign digits exponent positive =>
    have some := Nat.mul_pos positive (Nat.two_pow_pos (exponent + 52).toNat)
    obtain ⟨low, high, least, same⟩ := shown
    cases other with
    | notANumber => exact otherShown.elim
    | infinity sign => exact otherShown.elim
    | zero otherSign =>
      have none : greater = 0 := otherShown
      generalize digits * 2 ^ (exponent + 52).toNat = size at some same
      cases sign <;> simp [UnpackedFloat.compare, Sign.apply] at same ⊢ <;>
        omega
    | finite otherSign others power otherPositive =>
      have someOther := Nat.mul_pos otherPositive
        (Nat.two_pow_pos (power + 52).toNat)
      obtain ⟨otherLow, otherHigh, otherLeast, otherSame⟩ := otherShown
      have order := compare_normal low high otherLow otherHigh least otherLeast
      generalize digits * 2 ^ (exponent + 52).toNat = size at *
      generalize others * 2 ^ (power + 52).toNat = otherSize at *
      cases sign <;> cases otherSign <;>
        simp [UnpackedFloat.compare, Sign.apply, order, Nat.compare_eq_lt,
          Nat.compare_eq_gt] at same otherSame ⊢ <;> omega

/-- The nearest integer with 53 binary digits. -/
def nearestInt (number : Int) : Int :=
  if number < 0 then -nearest number.natAbs else nearest number.natAbs

theorem shows_ofInt {number : Int} (small : number.natAbs.log2 ≤ 64) :
    Shows (Float.ofInt number).toModel.unpack (nearestInt number) := by
  have shown := shows_ofNat small
  cases number with
  | ofNat count => exact shown
  | negSucc count =>
    rw [nearestInt, if_pos (Int.negSucc_lt_zero count)]
    change Shows (-(Float.ofNat count.succ).toModel).unpack _
    rw [unpack_neg]
    exact shown.neg

/-- Whole numbers are compared as the nearest floating point numbers. -/
theorem ofInt_lt_iff {first second : Int}
    (small : first.natAbs.log2 ≤ 64)
    (otherSmall : second.natAbs.log2 ≤ 64) :
    Float.ofInt first < Float.ofInt second ↔
      nearestInt first < nearestInt second := by
  rw [← (shows_ofInt small).lt_iff (shows_ofInt otherSmall)]
  change decide _ = true ↔ _
  rw [decide_eq_true_iff]
  rfl

theorem nearest_bounds (positive : number ≠ 0) :
    2 ^ number.log2 ≤ nearest number ∧
      nearest number ≤ 2 ^ (number.log2 + 1) := by
  rcases Nat.lt_or_ge number.log2 52 with short | long
  · rw [nearest_of_small (Nat.lt_of_lt_of_le Nat.lt_log2_self
      (Nat.pow_le_pow_right (by decide) (by omega)))]
    exact ⟨Nat.log2_self_le positive, Nat.le_of_lt Nat.lt_log2_self⟩
  · obtain ⟨low, high⟩ := roundTo_bounds long
    have least := Nat.mul_le_mul_left (2 ^ (number.log2 - 52)) low
    have greatest := Nat.mul_le_mul_left (2 ^ (number.log2 - 52)) high
    rw [← Nat.pow_add] at least greatest
    rw [show number.log2 - 52 + 52 = number.log2 by omega] at least
    rw [show number.log2 - 52 + 53 = number.log2 + 1 by omega] at greatest
    exact ⟨least, greatest⟩

/-- Rounding keeps the order, though not all differences. -/
theorem nearest_mono {other : Nat} (least : number ≤ other) :
    nearest number ≤ nearest other := by
  rcases Nat.eq_zero_or_pos number with rfl | positive
  · exact Nat.zero_le _
  · have widths : number.log2 ≤ other.log2 :=
      (Nat.le_log2 (by omega)).mpr
        (Nat.le_trans (Nat.log2_self_le (by omega)) least)
    rcases Nat.lt_or_eq_of_le widths with shorter | same
    · calc nearest number ≤ 2 ^ (number.log2 + 1) :=
        (nearest_bounds (by omega)).2
        _ ≤ 2 ^ other.log2 := Nat.pow_le_pow_right (by decide) shorter
        _ ≤ nearest other := (nearest_bounds (by omega)).1
    · unfold nearest
      rw [same]
      exact Nat.mul_le_mul_left _ (roundTo_mono least)

theorem nearestInt_mono {number other : Int} (least : number ≤ other) :
    nearestInt number ≤ nearestInt other := by
  unfold nearestInt
  split <;> split
  · have := nearest_mono (show other.natAbs ≤ number.natAbs by omega)
    omega
  · omega
  · omega
  · have := nearest_mono (show number.natAbs ≤ other.natAbs by omega)
    omega

theorem nearestInt_of_small {number : Int} (small : number.natAbs ≤ 2 ^ 53) :
    nearestInt number = number := by
  have exact : nearest number.natAbs = number.natAbs := by
    rcases Nat.lt_or_eq_of_le small with less | same
    · exact nearest_of_small less
    · rw [same]
      decide +kernel
  unfold nearestInt
  rw [exact]
  split <;> omega

end Easel
