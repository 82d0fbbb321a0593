import Easel.Proofs.Code.Operands
import Easel.Proofs.Machine.Delivery

/-!
# The order of temporaries

Temporaries are handed out one behind the other and are never given back
inside a function.  So what a piece of code leaves in use includes what was in
use before it, a new temporary is apart from all older ones, and the value of
an expression lies either in a variable, in a literal, or in a temporary that
is in use once the expression has been computed.
-/

namespace Easel

variable {slots : Slots} {phrase : Phrase}

/-- No segment has fewer slots in use. -/
def TempsLe (before after : Element → Nat) : Prop :=
  ∀ element, before element ≤ after element

namespace TempsLe

theorem refl (temps : Element → Nat) : TempsLe temps temps :=
  fun _ => Nat.le_refl _

theorem trans {first second third : Element → Nat}
    (before : TempsLe first second)
    (after : TempsLe second third) :
    TempsLe first third :=
  fun element => Nat.le_trans (before element) (after element)

end TempsLe

/-- The slots of the temporaries that are in use. -/
def tempSlots (temps : Element → Nat) : Slots := fun slot =>
  ∃ location, locate? slot = some location ∧ location.region = .temp ∧
    location.offset < temps location.element

theorem tempSlots_within {before after : Element → Nat}
    (grown : TempsLe before after) :
    (tempSlots before).Within (tempSlots after) := by
  rintro slot ⟨location, located, inTemp, inUse⟩
  exact ⟨location, located, inTemp, Nat.lt_of_lt_of_le inUse (grown _)⟩

/-- Those of the given slots that are temporaries are in use. -/
def Slots.Before (slots : Slots) (temps : Element → Nat) : Prop :=
  ∀ slot location, slots slot → locate? slot = some location →
    location.region = .temp → location.offset < temps location.element

theorem Slots.Before.mono {before after : Element → Nat}
    (inUse : slots.Before before)
    (grown : TempsLe before after) :
    slots.Before after := fun slot location member located inTemp =>
  Nat.lt_of_lt_of_le (inUse slot location member located inTemp) (grown _)

namespace Space.Fresh

variable {before after : Element → Nat} {type : Ty} {address : Address}

section

variable (fresh : Fresh before type address after)
include fresh

theorem le : TempsLe before after := by
  cases fresh with
  | absent => exact .refl _
  | slots => exact fun element => Nat.le_add_right _ _

theorem slot {slot : Address}
    (member : Slots.range address type.slotCount slot) :
    locate? slot = none ∨ ∃ index < type.slotCount,
      locate? slot = some ⟨.temp, type.element, before type.element + index⟩ ∧
      after type.element = before type.element + type.slotCount := by
  obtain ⟨index, inside, rfl⟩ := member
  cases fresh with
  | absent isVoid =>
    have first : index = 0 := by
      rw [Ty.slotCount_of_void isVoid] at inside
      omega
    subst first
    exact .inl rfl
  | slots stored answers =>
    have located := locate?_segment answers.start
      (Nat.lt_of_lt_of_le (Nat.add_lt_add_left inside _) answers.room)
    rw [Int.natCast_add, ← Int.add_assoc, Int.sub_add_cancel] at located
    exact .inr ⟨index, inside, located, by simp [counts]⟩

theorem before_after : (Slots.range address type.slotCount).Before after := by
  intro slot location member located inTemp
  rcases fresh.slot member with nowhere | ⟨_, _, found, _⟩
  · rw [nowhere] at located
    cases located
  · rw [found] at located
    cases located
    dsimp only
    omega

theorem inside (stored : type.isVoid = false) :
    (Slots.range address type.slotCount).Within (tempSlots after) := by
  intro slot member
  rcases fresh.slot member with nowhere | ⟨index, inside, found, _⟩
  · cases fresh with
    | absent isVoid =>
      rw [isVoid] at stored
      cases stored
    | slots _ answers =>
      obtain ⟨index, inside, rfl⟩ := member
      have located := locate?_segment answers.start
        (Nat.lt_of_lt_of_le (Nat.add_lt_add_left inside _) answers.room)
      rw [Int.natCast_add, ← Int.add_assoc, Int.sub_add_cancel,
        nowhere] at located
      cases located
  · refine ⟨_, found, rfl, ?_⟩
    dsimp only
    omega

/-- A new temporary is apart from everything that was in use before. -/
theorem apart (stored : type.isVoid = false) (older : slots.Before before) :
    slots.Apart (.range address type.slotCount) := by
  intro slot isOlder member
  rcases fresh.slot member with nowhere | ⟨_, _, found, _⟩
  · obtain ⟨_, located, _⟩ := fresh.inside stored slot member
    rw [nowhere] at located
    cases located
  · have inUse := older slot _ isOlder found rfl
    dsimp only at inUse
    omega

end

end Space.Fresh

/-- The slots of the temporaries that are not yet in use. -/
def laterTemps (temps : Element → Nat) : Slots := fun slot =>
  ∃ location, locate? slot = some location ∧ location.region = .temp ∧
    temps location.element ≤ location.offset

theorem laterTemps_within {before after : Element → Nat}
    (grown : TempsLe before after) :
    (laterTemps after).Within (laterTemps before) := by
  rintro slot ⟨location, located, inTemp, unused⟩
  exact ⟨location, located, inTemp, Nat.le_trans (grown _) unused⟩

theorem Space.Fresh.later {before after : Element → Nat} {type : Ty}
    {address : Address}
    (fresh : Fresh before type address after)
    (stored : type.isVoid = false) :
    (Slots.range address type.slotCount).Within (laterTemps before) := by
  intro slot member
  rcases fresh.slot member with nowhere | ⟨_, _, found, _⟩
  · obtain ⟨_, located, _⟩ := fresh.inside stored slot member
    rw [nowhere] at located
    cases located
  · exact ⟨_, found, rfl, Nat.le_add_right _ _⟩

theorem Slots.Before.apart {temps : Element → Nat}
    (older : slots.Before temps) :
    slots.Apart (laterTemps temps) := by
  rintro slot member ⟨location, located, inTemp, unused⟩
  exact absurd (older slot location member located inTemp)
    (Nat.not_lt.mpr unused)

section

variable {image : Image} {context : Context}
variable {start stop : Point}

theorem PointerCode.le {name : String} {field : Option String} {index : Operand}
    {resolved : Resolved} {pointer : Address}
    (code : PointerCode image context name field index resolved
      pointer start stop) :
    TempsLe start.temps stop.temps :=
  code.fresh.le

theorem Widening.le {parameter : Ty} {argument : Operand} {address : Address}
    (widening : Widening image parameter argument address start stop) :
    TempsLe start.temps stop.temps := by
  cases widening with
  | same => exact .refl _
  | widened _ fresh => exact fresh.le

theorem ExprCode.le (code : ExprCode image context phrase start stop) :
    TempsLe start.temps stop.temps := by
  induction code with
  | literal | access | noOperands | noArguments => exact .refl _
  | item _ pointed fresh _ induction =>
    exact (induction.trans pointed.le).trans fresh.le
  | builtin _ _ _ fresh _ induction | call _ _ _ _ _ fresh _ induction
  | not _ _ fresh _ induction => exact induction.trans fresh.le
  | group _ induction => exact induction
  | binary _ _ _ fresh _ first second =>
    exact (first.trans second).trans fresh.le
  | operand _ _ first rest => exact first.trans rest
  | argument _ _ widening _ _ first rest =>
    exact (first.trans widening.le).trans rest

theorem AssignCode.le {assignment : Assignment}
    (code : AssignCode image context assignment start stop) :
    TempsLe start.temps stop.temps := by
  cases code with
  | whole _ computed => exact computed.le
  | item _ computed located pointed =>
    exact (computed.le.trans located.le).trans pointed.le

theorem StmtCode.le {clause : Clause}
    (code : StmtCode image context clause start stop) :
    TempsLe start.temps stop.temps := by
  induction code with
  | declare | leave | nil => exact .refl _
  | assign code => exact code.le
  | branch condition _ _ induction | whileLoop condition _ _ _ induction =>
    exact condition.computed.le.trans induction
  | branchElse condition _ _ _ _ inside outside =>
    exact (condition.computed.le.trans inside).trans outside
  | forLoop initially condition _ _ advance _ induction =>
    exact ((initially.le.trans condition.computed.le).trans induction).trans
      advance.le
  | write computed | ret computed | call computed => exact computed.le
  | cons _ _ first rest => exact first.trans rest

theorem Slots.before_of_place {address : Address} {type : Ty}
    {location : Location}
    (place : Place address type location)
    (elsewhere : location.region ≠ .temp)
    (temps : Element → Nat) :
    (Slots.range address type.slotCount).Before temps := by
  rintro slot found ⟨index, inside, rfl⟩ located inTemp
  obtain ⟨_, otherLocated, sameRegion, _⟩ := place.slot inside
  rw [located] at otherLocated
  cases otherLocated
  exact (elsewhere (sameRegion ▸ inTemp)).elim

/-- The operands of a phrase that are temporaries are in use. -/
def Phrase.Before : Phrase → (Element → Nat) → Prop
  | .value _ operand, temps => operand.slots.Before temps
  | .operands _ found, temps => ∀ operand ∈ found, operand.slots.Before temps
  | .arguments _ _, _ => True

/-- The value of an expression is no temporary that is handed out later. -/
theorem ExprCode.before (code : ExprCode image context phrase start stop) :
    phrase.Before stop.temps := by
  induction code with
  | literal _ place => exact Slots.before_of_place place (by simp) _
  | access designates =>
    obtain ⟨_, place, region⟩ := designates.whole
    refine Slots.before_of_place place ?_ _
    rw [region]
    rcases designates.writable with isLocal | isGlobal
    · rw [isLocal]
      decide
    · rw [isGlobal]
      decide
  | item _ _ fresh => exact fresh.before_after
  | builtin _ _ _ fresh => exact fresh.before_after
  | call _ _ _ _ _ fresh => exact fresh.before_after
  | not _ _ fresh => exact fresh.before_after
  | group _ induction => exact induction
  | binary _ _ _ fresh => exact fresh.before_after
  | noOperands =>
    intro operand member
    cases member
  | operand _ others first rest =>
    intro operand member
    rcases List.mem_cons.mp member with rfl | later
    · exact Slots.Before.mono first others.le
    · exact rest operand later
  | noArguments => trivial
  | argument => trivial

end

end Easel
