import Easel.Proofs.Lockstep.Expression

/-!
# Statements in lockstep

Two machines that hold the same in the variables that have been set carry out
a statement in lockstep, and then hold the same in the variables that have
been set behind it.  A loop goes back with fewer steps to go, so the argument
for it is an induction on the number of steps.
-/

namespace Easel

variable {name : String} {resolved : Resolved} {address : Address}
variable {location : Location} {needed : Bool} {target : Nat} {value : Operand}

theorem Context.Designates.varies {context : Context} {indexed : Bool}
    {field : Option String}
    (designates : context.Designates name indexed field resolved
      address location) :
    location.region.isVariable = true := by
  rcases designates.writable with isLocal | isGlobal
  · rw [isLocal]
    rfl
  · rw [isGlobal]
    rfl

namespace Clause

def knownAfter (known : Known) : Clause → Known
  | .statement single => single.knownAfter known
  | .block statements => knownAfterAll known statements

def settled (locals : List String) (callable : String → Bool) (known : Known) :
    Clause → Bool
  | .statement single => single.settled locals callable known
  | .block statements => settledAll locals callable known statements

end Clause

namespace Scene

variable {scene : Scene}
variable {active : Activation × Activation} {slots wider : Slots}
  {first second : Machine}
variable {count position : Nat} {context : Context} {locals : Table Variable}
variable {names : List String} {known : Known}

theorem Returning.le {returns : Ty} {fewer : Nat}
    (returning : scene.Returning count active returns needed)
    (noMore : fewer ≤ count) :
    scene.Returning fewer active returns needed :=
  fun position address slots has hands =>
    (returning position address slots has hands).le noMore

/--
The slots on which the runs agree include those of the variables that have been
set, and control can be where they have been set.
-/
structure Tracks (scene : Scene)
    (locals : Table Variable)
    (names : List String)
    (known : Known)
    (slots : Slots) :
    Prop
    extends scene.Covers locals (known.readable names) slots where
  reached : ∀ callable, scene.settled = some callable → known.isSome = true

section

variable (tracks : scene.Tracks locals names known slots)
include tracks

theorem Tracks.mono (within : slots.Within wider) :
    scene.Tracks locals names known wider :=
  ⟨tracks.toCovers.mono within, tracks.reached⟩

/-- A variable that has been set is known as well. -/
theorem Tracks.add
    (set : ∀ found address, locals.find? name = some found →
      found.address = some address →
      (Slots.range address found.type.slotCount).Within slots) :
    scene.Tracks locals names (known.add name) slots := by
  refine ⟨⟨tracks.toWide, ?_⟩, ?_⟩
  · intro other found address isReadable isFound hasAddress
    rcases Known.readable_add isReadable with rfl | older
    · exact set found address isFound hasAddress
    · exact tracks.named other found address older isFound hasAddress
  · intro callable isSettled
    simpa [Known.add] using tracks.reached callable isSettled

theorem Tracks.meet_left (other : Known) :
    scene.Tracks locals names (known.meet other) slots := by
  refine ⟨⟨tracks.toWide, ?_⟩, ?_⟩
  · intro name found address isReadable
    rw [Known.readable_meet, Bool.and_eq_true] at isReadable
    exact tracks.named name found address isReadable.1
  · intro callable isSettled
    exact Known.isSome_meet (.inl (tracks.reached callable isSettled))

theorem Tracks.meet_right (other : Known) :
    scene.Tracks locals names (other.meet known) slots := by
  refine ⟨⟨tracks.toWide, ?_⟩, ?_⟩
  · intro name found address isReadable
    rw [Known.readable_meet, Bool.and_eq_true] at isReadable
    exact tracks.named name found address isReadable.2
  · intro callable isSettled
    exact Known.isSome_meet (.inr (tracks.reached callable isSettled))

end

/-- A jump may lead back if there are fewer steps to go from there. -/
theorem Onward.of_jump (jump : scene.image.Has position (Context.jump target))
    (onward : ∀ fewer < count, scene.Onward fewer target active slots) :
    scene.Onward count position active slots := by
  refine OnwardWhen.of_fewer jump (by simp [Context.jump])
    (by simp [Context.jump]) ?_
  intro fewer isFewer wider first second within stands _
  exact .move (Exec.execute_jump first target)
    (Exec.execute_jump second target) rfl (stands.toMatched.mono within) trivial
    (onward fewer isFewer)

theorem Onward.of_guard
    (skip : scene.image.Has position (Context.jumpUnless value target))
    (truth : value.type.agrees (.basic .bool) = true)
    (placed : value.Placed)
    (known : value.slots.Within slots)
    (taken : scene.Onward count (position + 1) active slots)
    (skipped : scene.Onward count target active slots) :
    scene.Onward count position active slots := by
  obtain ⟨isBool, single⟩ := Ty.eq_of_agrees truth
  obtain ⟨_, place⟩ := placed.place (by simp [Ty.isVoid, isBool])
  refine Onward.of_steps skip (by simp [Context.jumpUnless])
    (by simp [Context.jumpUnless]) ?_
  intro wider first second within stands
  obtain ⟨typed, same⟩ := stands.toMatched.contents place isBool single
    (known.trans within)
  obtain ⟨holds, isHolds⟩ := typed.eq_bool
  have firstRan := Exec.execute_jumpUnless target place.located isHolds
  have secondRan := Exec.execute_jumpUnless target place.located
    (same.trans isHolds)
  cases holds with
  | true => exact .next firstRan secondRan (stands.toMatched.mono within) taken
  | false =>
    exact .move firstRan secondRan rfl (stands.toMatched.mono within)
      trivial skipped

theorem Onward.of_condition {guard : Expr} {start guarded : Point}
    {readable : String → Bool}
    (hosts : scene.Hosts context)
    (calls : ∀ fewer < count, scene.CallsOnward fewer)
    (condition : GuardCode scene.image context guard value start guarded)
    (skip : scene.image.Has guarded.position (Context.jumpUnless value target))
    (aligned : start.Aligned)
    (deep : scene.Deep active)
    (covers : scene.Covers context.scope.locals readable slots)
    (permitted : scene.Permits (guard.uses readable))
    (taken : ∀ wider, slots.Within wider →
      scene.Onward count (guarded.position + 1) active wider)
    (skipped : ∀ wider, slots.Within wider →
      scene.Onward count target active wider) :
    scene.Onward count start.position active slots := by
  obtain ⟨_, placed⟩ := condition.computed.placed hosts.singleReturns aligned
  refine advances_of_code hosts calls condition.computed aligned active slots
    readable deep covers permitted ?_
  exact Onward.of_guard skip condition.truth placed (Slots.within_right _ _)
    (taken _ (Slots.within_left _ _)) (skipped _ (Slots.within_left _ _))

/-- A loop keeps lockstep if each round does that has fewer steps to go. -/
theorem Onward.of_loop
    (round : ∀ steps ≤ count,
      (∀ fewer < steps, ∀ wider, slots.Within wider →
        scene.Onward fewer position active wider) →
      ∀ wider, slots.Within wider → scene.Onward steps position active wider) :
    scene.Onward count position active slots := by
  have rounds : ∀ steps ≤ count, ∀ wider, slots.Within wider →
      scene.Onward steps position active wider := by
    intro steps
    induction steps using Nat.strongRecOn with
    | ind steps induction =>
      intro bound
      exact round steps bound fun fewer isFewer =>
        induction fewer isFewer (Nat.le_trans (Nat.le_of_lt isFewer) bound)
  exact rounds count (Nat.le_refl _) slots (.refl _)

/-- A variable has been set once all of its slots are known. -/
theorem Tracks.assigned
    (tracks : scene.Tracks context.scope.locals names known slots)
    (designates : context.Designates name false none resolved address location)
    (assigned :
      (Slots.range (address + resolved.offset) resolved.type.slotCount).Within
      slots) :
    scene.Tracks context.scope.locals names (known.add name) slots := by
  refine tracks.add ?_
  intro found foundAddress isFound hasAddress
  obtain ⟨_, ran⟩ := designates.named
  cases Scope.resolves_of_resolve ran with
  | @whole owner inScope =>
    have isOwner : found = owner := by
      simpa [Scope.find?, isFound] using inScope
    subst isOwner
    have sameAddress := designates.address
    rw [hasAddress] at sameAddress
    cases sameAddress
    simpa [Resolved.offset] using assigned

theorem Onward.of_assign {assignment : Assignment} {start stop : Point}
    (hosts : scene.Hosts context)
    (calls : ∀ fewer < count, scene.CallsOnward fewer)
    (code : AssignCode scene.image context assignment start stop)
    (aligned : start.Aligned)
    (deep : scene.Deep active)
    (tracks : scene.Tracks context.scope.locals names known slots)
    (permitted : scene.Permits fun callable =>
      assignment.uses (known.readable names) callable)
    (onward : ∀ wider, slots.Within wider →
      scene.Tracks context.scope.locals names (assignment.knownAfter known)
      wider → scene.Onward count stop.position active wider) :
    scene.Onward count start.position active slots := by
  obtain ⟨valuePermitted, indexPermitted⟩ := permitted.split fun _ => rfl
  have returns := hosts.singleReturns
  cases code with
  | @whole value resolved owner location _ stop unindexed computed designates
      single accepts assign =>
    obtain ⟨between, placed⟩ := computed.placed returns aligned
    obtain ⟨found, place, inRegion⟩ := designates.whole
    have copies := Exec.Copies.of_accepts placed place
      (inRegion ▸ designates.varies) single accepts
    refine advances_of_code hosts calls computed aligned active slots _ deep
      tracks.toCovers valuePermitted ?_
    refine Onward.of_copy assign copies (Slots.within_right _ _) ?_
    have within := (Slots.within_left slots value.slots).trans
      (Slots.within_left _ (.range (owner + resolved.offset)
        resolved.type.slotCount))
    refine onward _ within ?_
    unfold Assignment.knownAfter
    rw [unindexed]
    cases isField : assignment.target.field with
    | none =>
      rw [isField] at designates
      exact (tracks.mono within).assigned designates (Slots.within_right _ _)
    | some field => exact tracks.mono within
  | @item value index expression resolved pointer _ between afterIndex
      afterPointer indexed computed located pointed single accepts assign =>
    obtain ⟨valueAligned, valuePlaced⟩ := computed.placed returns aligned
    obtain ⟨indexAligned, indexPlaced⟩ := located.placed returns valueAligned
    rw [indexed] at indexPermitted
    refine advances_of_code hosts calls computed aligned active slots _ deep
      tracks.toCovers valuePermitted ?_
    refine advances_of_code hosts calls located valueAligned active _ _ deep
      (tracks.toCovers.mono (Slots.within_left _ _)) indexPermitted ?_
    refine Onward.of_pointer pointed indexAligned indexPlaced
      (Slots.within_right _ _) ?_
    intro owner location designates
    refine OnwardWhen.of_steps assign (by simp) (by simp) ?_
    rintro wider first second within stands
      ⟨target, found, firstHolds, secondHolds, place, inRegion, _⟩
    have pointerLocated :=
      (pointed.fresh.basic indexAligned (by decide)).located
    have copies := Exec.Copies.of_accepts valuePlaced place
      (inRegion ▸ designates.varies) single accepts
    have valueKnown : value.slots.Within wider :=
      ((Slots.within_right _ _).trans (Slots.within_left _ _)).trans within
    have inside : slots.Within wider :=
      ((Slots.within_left _ _).trans (Slots.within_left _ _)).trans within
    refine .next
      (Exec.execute_assignIndex stands.firstRuns.kinded pointerLocated
        firstHolds copies)
      (Exec.execute_assignIndex stands.secondRuns.kinded pointerLocated
        secondHolds copies)
      (stands.toMatched.copied copies valueKnown) ?_
    refine onward _ (inside.trans (Slots.within_left _ _)) ?_
    have unchanged : assignment.knownAfter known = known := by
      rw [Assignment.knownAfter, indexed]
    rw [unchanged]
    exact tracks.mono (inside.trans (Slots.within_left _ _))

/-! ## Statements -/

/-- Code for a statement or a block keeps machines in lockstep. -/
def Proceeds (scene : Scene)
    (context : Context)
    (names : List String)
    (needed : Bool)
    (active : Activation × Activation)
    (start stop : Point)
    (clause : Clause) : Prop :=
  ∀ count known slots, (∀ fewer < count, scene.CallsOnward fewer) →
    scene.Returning count active context.returns needed →
    scene.Tracks context.scope.locals names known slots →
    scene.Permits (fun callable => clause.settled names callable known) →
    (∀ wider, slots.Within wider →
      scene.Tracks context.scope.locals names (clause.knownAfter known) wider →
        scene.Onward count stop.position active wider) →
      scene.Onward count start.position active slots

/-- The code for a statement keeps machines in lockstep. -/
theorem proceeds_of_code {clause : Clause} {start stop : Point}
    (hosts : scene.Hosts context)
    (deep : scene.Deep active)
    (code : StmtCode scene.image context clause start stop)
    (aligned : start.Aligned) :
    scene.Proceeds context names needed active start stop clause := by
  have returns := hosts.singleReturns
  intro count known slots calls returning tracks permitted onward
  induction code generalizing count known slots with
  | @declare declaration found address location point isFound hasAddress place
      inLocal fits init =>
    refine Onward.of_steps init (by simp [initQuad]) (by simp [initQuad]) ?_
    intro wider first second within stands
    have varies : location.region.isVariable = true := by
      rw [inLocal]
      rfl
    have writable := Region.not_constant varies
    refine .next (Exec.execute_init place writable fits)
      (Exec.execute_init place writable fits)
      (stands.toMatched.erase place varies) ?_
    have grown := within.trans
      (Slots.within_left wider (.range address found.type.slotCount))
    refine onward _ grown ((tracks.mono grown).add ?_)
    intro other otherAddress isOther otherHas
    rw [isFound] at isOther
    cases isOther
    rw [hasAddress] at otherHas
    cases otherHas
    exact Slots.within_right _ _
  | assign code =>
    exact Onward.of_assign hosts calls code aligned deep tracks permitted onward
  | branch condition skip inside induction =>
    obtain ⟨guardPermitted, bodyPermitted⟩ := permitted.split fun _ => rfl
    have guardedAligned := (condition.computed.placed returns aligned).1
    refine Onward.of_condition hosts calls condition skip aligned deep
      tracks.toCovers guardPermitted ?_ ?_
    · intro guarded within
      refine induction guardedAligned count known guarded calls returning
        (tracks.mono within) bodyPermitted ?_
      intro wider inWider _
      exact onward wider (within.trans inWider)
        (tracks.mono (within.trans inWider))
    · intro guarded within
      exact onward guarded within (tracks.mono within)
  | branchElse condition skip inside across outside insideInduction
      outsideInduction =>
    obtain ⟨firstPermitted, elsePermitted⟩ := permitted.split fun _ => rfl
    obtain ⟨guardPermitted, bodyPermitted⟩ := firstPermitted.split fun _ => rfl
    have guardedAligned := (condition.computed.placed returns aligned).1
    refine Onward.of_condition hosts calls condition skip aligned deep
      tracks.toCovers guardPermitted ?_ ?_
    · intro guarded within
      refine insideInduction guardedAligned count known guarded calls returning
        (tracks.mono within) bodyPermitted ?_
      intro wider inWider after
      refine Onward.of_jump across fun fewer isFewer => ?_
      exact (onward wider (within.trans inWider) (after.meet_left _)).le
        (Nat.le_of_lt isFewer)
    · intro guarded within
      refine outsideInduction (inside.aligned returns guardedAligned) count
        known guarded calls returning (tracks.mono within) elsePermitted ?_
      intro wider inWider after
      exact onward wider (within.trans inWider) (after.meet_right _)
  | whileLoop condition skip inside again induction =>
    obtain ⟨guardPermitted, bodyPermitted⟩ := permitted.split fun _ => rfl
    have guardedAligned := (condition.computed.placed returns aligned).1
    refine Onward.of_loop fun steps bound shorter wider within => ?_
    have stepsCalls := fun fewer isFewer =>
      calls fewer (Nat.lt_of_lt_of_le isFewer bound)
    refine Onward.of_condition hosts stepsCalls condition skip aligned deep
      (tracks.toCovers.mono within) guardPermitted ?_ ?_
    · intro guarded inGuarded
      have grown := within.trans inGuarded
      refine induction guardedAligned steps known guarded stepsCalls
        (returning.le bound) (tracks.mono grown) bodyPermitted ?_
      intro more inMore _
      exact Onward.of_jump again fun fewer isFewer =>
        shorter fewer isFewer more (grown.trans inMore)
    · intro guarded inGuarded
      have grown := within.trans inGuarded
      exact (onward guarded grown (tracks.mono grown)).le bound
  | forLoop initially condition skip inside advance again induction =>
    obtain ⟨earlyPermitted, stepPermitted⟩ := permitted.split fun _ => rfl
    obtain ⟨headPermitted, bodyPermitted⟩ := earlyPermitted.split fun _ => rfl
    obtain ⟨initialPermitted, guardPermitted⟩ :=
      headPermitted.split fun _ => rfl
    have begunAligned := initially.aligned returns aligned
    have guardedAligned := (condition.computed.placed returns begunAligned).1
    have bodyAligned := inside.aligned returns guardedAligned
    refine Onward.of_assign hosts calls initially aligned deep tracks
      initialPermitted ?_
    intro begun inBegun begunTracks
    refine Onward.of_loop fun steps bound shorter wider within => ?_
    have stepsCalls := fun fewer isFewer =>
      calls fewer (Nat.lt_of_lt_of_le isFewer bound)
    refine Onward.of_condition hosts stepsCalls condition skip begunAligned deep
      (begunTracks.toCovers.mono within) guardPermitted ?_ ?_
    · intro guarded inGuarded
      have grown := within.trans inGuarded
      refine induction guardedAligned steps _ guarded stepsCalls
        (returning.le bound) (begunTracks.mono grown) bodyPermitted ?_
      intro more inMore after
      refine Onward.of_assign hosts stepsCalls advance bodyAligned deep after
        stepPermitted ?_
      intro most inMost _
      exact Onward.of_jump again fun fewer isFewer =>
        shorter fewer isFewer most ((grown.trans inMore).trans inMost)
    · intro guarded inGuarded
      have grown := within.trans inGuarded
      exact (onward guarded (inBegun.trans grown) (begunTracks.mono grown)).le
        bound
  | @write value line printed start stop computed printable print =>
    obtain ⟨between, placed⟩ := computed.placed returns aligned
    obtain ⟨_, place⟩ := Operand.Placed.place placed printable.1
    refine advances_of_code hosts calls computed aligned active slots _ deep
      tracks.toCovers permitted ?_
    refine Onward.of_steps print (by simp) (by simp) ?_
    intro wider first second within stands
    have inside := (Slots.within_left slots printed.slots).trans within
    have firstRan := Exec.execute_print stands.firstRuns.kinded
      place printable.2
    have secondRan := Exec.execute_print stands.secondRuns.kinded
      place printable.2
    rw [← stands.agrees.block ((Slots.within_right _ _).trans within) place
      (Nat.le_refl _)] at secondRan
    exact .next firstRan secondRan
      (stands.toMatched.shown (stands.alike.print _))
      (onward wider inside (tracks.mono inside))
  | leave nothing ret =>
    exact returning _ _ slots ret (.nothing (.inl nothing))
  | ret computed something accepts ret =>
    obtain ⟨between, placed⟩ := computed.placed returns aligned
    obtain ⟨_, takes⟩ := Ty.takes_of_accepts hosts.single accepts
    have stored : context.returns.element ≠ .void := by
      simpa [Ty.isVoid, hosts.single] using something
    obtain ⟨_, place⟩ := Operand.Placed.place placed
      (by simp [Ty.isVoid, takes.stored stored])
    refine advances_of_code hosts calls computed aligned active slots _ deep
      tracks.toCovers permitted ?_
    exact returning _ _ _ ret
      (.value something place accepts (Slots.within_right _ _))
  | call code =>
    refine advances_of_code hosts calls code aligned active slots _ deep
      tracks.toCovers permitted ?_
    exact onward _ (Slots.within_left _ _) (tracks.mono (Slots.within_left _ _))
  | nil =>
    exact onward slots (.refl _) tracks
  | cons first others firstInduction othersInduction =>
    obtain ⟨firstPermitted, othersPermitted⟩ := permitted.split fun _ => rfl
    refine firstInduction aligned count known slots calls returning tracks
      firstPermitted ?_
    intro wider within after
    refine othersInduction (first.aligned returns aligned) count _ wider calls
      returning after othersPermitted ?_
    intro more inMore last
    exact onward more (within.trans inMore) last

end Scene

end Easel
