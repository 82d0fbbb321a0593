import Easel.Address

/-!
# Addresses and the slots they name

Every slot of a segment has one address, and the address of a slot tells its
location.  Slots that follow each other inside a segment have addresses that
follow each other, so a block is found by counting from its first slot.
-/

namespace Easel

theorem segmentSize_eq : segmentSize = 1000 :=
  rfl

theorem regionSize_eq : regionSize = 10000 :=
  rfl

variable {element : Element} {index : Nat} {region : Region} {address : Address}
  {location : Location}

theorem segment?_lt (segment : element.segment? = some index) : index < 10 := by
  cases element <;> simp [Element.segment?] at segment <;> omega

theorem segmentBase?_eq_some {base : Address}
    (start : segmentBase? region element = some base) :
    ∃ index, element.segment? = some index ∧
      base = ((region.index * 10000 + index * 1000 : Nat) : Int) := by
  cases segment : element.segment? with
  | none => simp [segmentBase?, segment] at start
  | some index =>
    refine ⟨index, rfl, ?_⟩
    simpa [segmentBase?, segment, segmentSize_eq,
      regionSize_eq] using start.symm

/-- The slot at a given offset of a segment is located there. -/
theorem locate?_segment {base : Address} {offset : Nat}
    (start : segmentBase? region element = some base)
    (inside : offset < segmentSize) :
    locate? (base + offset) = some ⟨region, element, offset⟩ := by
  obtain ⟨index, segment, rfl⟩ := segmentBase?_eq_some start
  rw [segmentSize_eq] at inside
  have number : ((region.index * 10000 + index * 1000 : Nat) : Int) + offset =
      ((10000 * region.index + (1000 * index + offset) : Nat) : Int) := by
    omega
  have bound : 1000 * index + offset < 10000 := by
    have small := segment?_lt segment
    omega
  rw [number, locate?, if_neg (Int.not_lt.mpr (Int.natCast_nonneg _)),
    Int.toNat_natCast, regionSize_eq, segmentSize_eq,
    Nat.mul_add_div (by decide), Nat.mul_add_mod, Nat.div_eq_of_lt bound,
    Nat.mod_eq_of_lt bound, Nat.add_zero, Region.ofIndex?_index]
  simp only [Option.bind_eq_bind, Option.bind_some, Nat.mul_add_div
    (by decide : 0 < 1000), Nat.mul_add_mod, Nat.div_eq_of_lt inside,
    Nat.mod_eq_of_lt inside, Nat.add_zero,
    Element.ofSegment?_of_segment? segment]

theorem index_of_ofIndex? (found : Region.ofIndex? index = some region) :
    region.index = index := by
  match index, found with
  | 0, found | 1, found | 2, found | 3, found | 4, found =>
    cases found
    rfl
  | index + 5, found => simp [Region.ofIndex?, Region.all] at found

theorem segment?_of_ofSegment?
    (found : Element.ofSegment? index = some element) :
    element.segment? = some index := by
  match index, found with
  | 0, found | 1, found | 2, found | 3, found | 4, found
  | 5, found | 6, found | 7, found | 8, found | 9, found =>
    cases found
    rfl
  | index + 10, found => simp [Element.ofSegment?, Element.storable] at found

/-- An address that names a slot is its segment's first plus an offset. -/
theorem segmentBase?_of_locate? (located : locate? address = some location) :
    ∃ base, segmentBase? location.region location.element = some base ∧
      address = base + location.offset ∧ location.offset < segmentSize := by
  unfold locate? at located
  split at located
  case isTrue negative => cases located
  case isFalse notNegative =>
    simp only [Option.bind_eq_bind, Option.bind_eq_some_iff,
      Option.some.injEq] at located
    obtain ⟨region, foundRegion, _, foundElement, rfl⟩ := located
    have regionIndex := index_of_ofIndex? foundRegion
    have segmentIndex := segment?_of_ofSegment? foundElement
    refine ⟨((region.index * regionSize +
      address.toNat % regionSize / segmentSize * segmentSize : Nat) : Int),
      ?_, ?_, ?_⟩
    · simp [segmentBase?, segmentIndex]
    · have whole := Nat.div_add_mod address.toNat regionSize
      have part := Nat.div_add_mod (address.toNat % regionSize) segmentSize
      have number : ((address.toNat : Nat) : Int) = address :=
        Int.toNat_of_nonneg (Int.not_lt.mp notNegative)
      rw [← number, ← Int.natCast_add, Int.toNat_natCast, regionIndex,
        Nat.add_assoc, Nat.mul_comm _ segmentSize, part,
        Nat.mul_comm _ regionSize, whole]
    · exact Nat.mod_lt _ (by decide)

/-- The slots after a slot of a segment, as far as the segment goes. -/
theorem locate?_add {count : Nat}
    (located : locate? address = some location)
    (inside : location.offset + count < segmentSize) :
    locate? (address + count) =
      some { location with offset := location.offset + count } := by
  obtain ⟨_, start, rfl, _⟩ := segmentBase?_of_locate? located
  rw [Int.add_assoc, ← Int.natCast_add]
  exact locate?_segment start inside

theorem region_index_le {later : Address} {found : Location}
    (located : locate? address = some location)
    (foundLater : locate? later = some found)
    (isLater : address ≤ later) :
    location.region.index ≤ found.region.index := by
  obtain ⟨_, start, rfl, inside⟩ := segmentBase?_of_locate? located
  obtain ⟨_, otherStart, rfl, otherInside⟩ := segmentBase?_of_locate? foundLater
  obtain ⟨_, segment, rfl⟩ := segmentBase?_eq_some start
  obtain ⟨_, otherSegment, rfl⟩ := segmentBase?_eq_some otherStart
  have bound := segment?_lt segment
  have otherBound := segment?_lt otherSegment
  rw [segmentSize_eq] at inside otherInside
  unfold Address at *
  omega

end Easel
