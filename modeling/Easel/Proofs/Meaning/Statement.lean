import Easel.Proofs.Lockstep.Statement
import Easel.Proofs.Meaning.Expression

/-!
# The execution of statements

The code for a statement that calls only built-in functions does what the
execution of the statement does.  Each round of a loop takes at least one
step, so a machine that follows a loop for a number of rounds takes at least
as many steps if the loop is not over by then.
-/

namespace Easel.Meaning

variable {operand : Operand}

theorem World.given_bind (world : World)
    (found : Except Mishap α)
    (rest : α → Except Mishap β)
    (next : β → Outcome) :
    world.given (found >>= rest) next = world.given found fun value =>
      world.given (rest value) next := by
  cases found <;> rfl

namespace Stage

variable {stage : Stage} {world : World} {machine : Machine} {datum : Datum}
variable {name : String} {field : Option String} {resolved : Resolved}
  {first : Address}
variable {location : Location} {least position : Nat} {start stop : Point}

/-! ## Assignments -/

/-- A datum is copied to a part of a variable. -/
theorem Stands.stores {quad : Quad} {value : Operand} {offset : Nat}
    {changed : Holding} {indexed : Bool}
    (stands : stage.Stands world position machine)
    (has : stage.image.Has position quad)
    (ran : Exec.execute quad machine =
      .ok .next (Exec.copied machine value.address value.type (first +
      (offset : Int)) resolved.type location.region))
    (copies : Exec.Copies value.address value.type (first + (offset : Int))
      resolved.type location.region)
    (designates : stage.context.Designates name indexed field resolved
      first location)
    (inside : offset + resolved.type.slotCount ≤ resolved.owner.type.slotCount)
    (lies : datum.LiesAt value machine.memory)
    (typed : changed.Typed resolved.owner.type)
    (slots : changed.slots =
      splice (machine.memory.block first resolved.owner.type.slotCount) offset
      (Memory.conform resolved.type.element datum.slots)) :
    ∃ next, machine.Goes 1 next ∧
      stage.Stands { world with store := world.store.set name changed }
        (position + 1) next := by
  obtain ⟨_, targetPlace, region⟩ := copies.target
  have block : machine.memory.block value.address value.type.slotCount =
    datum.slots := lies.slots
  have suits := lies.typed.suits.conform copies.takes
  rw [← Ty.slotCount_of_single copies.single, copies.narrow] at suits
  have changes := machine.memory.changesOnly_fill location.region
    (first + (offset : Int)) (Memory.conform resolved.type.element datum.slots)
  rw [suits.length] at changes
  have filled := machine.memory.block_fill_part designates.place
    (show offset + (Memory.conform resolved.type.element datum.slots).length ≤
      resolved.owner.type.slotCount by rw [suits.length]; exact inside)
  have intact := stands.runs.intact.fill targetPlace (region ▸ copies.varies)
    suits (Nat.le_refl _)
  rw [region] at intact
  have shows : stage.Shows { world with store := world.store.set name changed }
      (Exec.copied machine value.address value.type (first + (offset : Int))
        resolved.type location.region) := by
    unfold Exec.copied
    rw [block]
    exact ⟨⟨stands.runs.code, stands.runs.frames, stands.runs.pending, intact⟩,
      stands.store.set stage.arranged designates
      (changes.mono (Slots.range_within inside)) typed
        (filled.trans slots.symm), stands.lines, stands.strokes, stands.held,
        stands.closing⟩
  obtain ⟨next, goes, _, standsNext⟩ := stands.executes has ran shows
  exact ⟨next, goes, standsNext⟩

/-- The code for an assignment does what the assignment does. -/
theorem Follows.assign {assignment : Assignment}
    (code : AssignCode stage.image stage.context assignment start stop)
    (aligned : start.Aligned)
    (selfContained : assignment.selfContained = true)
    (stands : stage.Stands world start.position machine) :
    stage.Follows least stop.position machine
      (assign stage.origin.held assignment world) := by
  have returns := stage.arranged.singleReturns
  simp only [Assignment.selfContained, Assignment.uses,
    Bool.and_eq_true] at selfContained
  obtain ⟨valueContained, indexContained⟩ := selfContained
  unfold Meaning.assign assigned
  dsimp only
  cases code with
  | @whole value resolved first location _ stop unindexed computed designates
      single accepts has =>
    obtain ⟨between, placed⟩ := computed.placed returns aligned
    obtain ⟨found, place, region⟩ := designates.whole
    have copies := Exec.Copies.of_accepts placed place
      (region ▸ designates.varies) single accepts
    rw [region] at copies
    rw [unindexed, World.given_bind]
    refine Follows.given (computes_of_code computed aligned valueContained
      (copies.source.elim fun _ place =>
        place.stored) copies.single world machine stands) ?_
    intro datum next standsNext _ lies
    obtain ⟨holding, held, typed, block⟩ := standsNext.store.lookup designates
    obtain ⟨changed, updated, changedTyped, slots⟩ :=
      Holding.update_whole designates typed single lies.typed copies.takes
    rw [← block] at slots
    obtain ⟨last, goes, standsLast⟩ := standsNext.stores has
      (Exec.execute_assign standsNext.runs.kinded copies) copies designates
      designates.whole_inside lies changedTyped slots
    simp only [index?, held, updated, bind, Except.bind, pure, Except.pure,
      World.given]
    exact .next goes standsLast
  | @item value index expression resolved pointer _ between afterIndex
      afterPointer indexed computed located pointed single accepts has =>
    obtain ⟨valueAligned, valuePlaced⟩ := computed.placed returns aligned
    obtain ⟨indexAligned, indexPlaced⟩ := located.placed returns valueAligned
    obtain ⟨valueSingle, takes⟩ := Ty.takes_of_accepts single accepts
    obtain ⟨isInt, indexSingle⟩ := Ty.eq_of_agrees pointed.whole
    obtain ⟨first, location, designates, add⟩ := pointed.designated
    have stored : resolved.type.element ≠ .void := by
      simpa [Ty.isVoid, single] using stored_item designates
    rw [indexed] at indexContained ⊢
    rw [World.given_bind]
    refine Follows.given (computes_of_code computed aligned valueContained
      (by simp [Ty.isVoid, takes.stored stored]) valueSingle world
      machine stands) ?_
    intro datum valued standsValued _ valueLies
    simp only [index?]
    rw [World.given_bind, World.given_bind]
    refine Follows.given (computes_of_code located valueAligned indexContained
      (by simp [Ty.isVoid, isInt]) indexSingle world valued standsValued) ?_
    intro position reached standsReached changes indexLies
    have positionTyped := indexLies.typed
    rw [isInt] at positionTyped
    obtain ⟨held, rfl, heldTyped⟩ := positionTyped.plain_of_scalar rfl
    obtain ⟨number, rfl⟩ := heldTyped.eq_int
    have lies := valueLies.keeps changes computed.before
    change stage.Follows _ _ _ (world.given (do
      let holding ← world.store.holding assignment.target.name
      let new ← holding.update (some number) fun old =>
        old.assign assignment.target.field datum
      return world.store.set assignment.target.name new) _)
    by_cases inBounds : 0 ≤ number.toInt ∧
      number.toInt < resolved.owner.type.size
    · obtain ⟨atLeast, below⟩ := inBounds
      refine Follows.onward
        (standsReached.points pointed designates add indexAligned indexPlaced
          indexLies atLeast below) ?_
      intro next standsNext changesNext points
      obtain ⟨found, place, region⟩ := place_item designates atLeast below
      have copies := Exec.Copies.of_accepts valuePlaced place
        (region ▸ designates.varies) single accepts
      rw [region] at copies
      have liesNext := lies.keeps changesNext (computed.before.mono located.le)
      obtain ⟨holding, held, typed, block⟩ := standsNext.store.lookup designates
      have narrow : datum.slots.length = resolved.type.slotCount := by
        rw [liesNext.typed.length, ← Ty.slotCount_of_single valueSingle,
          copies.narrow]
      have bound : number.toInt.toNat < resolved.owner.type.size := by omega
      obtain ⟨changed, updated, changedTyped, slots⟩ :=
        Holding.update_item designates typed liesNext.typed takes
        narrow atLeast below
      rw [← block] at slots
      obtain ⟨last, goes, standsLast⟩ := standsNext.stores has
        (Exec.execute_assignIndex standsNext.runs.kinded
          (pointed.fresh.basic indexAligned (by decide)).located points copies)
          copies designates
        (designates.item_inside bound) liesNext changedTyped slots
      simp only [held, updated, bind, Except.bind, pure,
        Except.pure, World.given]
      exact .next goes standsLast
    · obtain ⟨holding, held, missed⟩ := standsReached.toShows.outside
        designates inBounds
      simp only [held, Holding.update, missed, bind, Except.bind]
      exact .failed (.refl _) standsReached.toShows
        (standsReached.misses pointed indexPlaced indexLies inBounds)
        (.indexOutOfBounds number _)

theorem Follows.of_jump {outcome : Outcome} {last target : Nat}
    (stands : stage.Stands world position machine)
    (jump : stage.image.Has position (Context.jump target))
    (onward : ∀ next, stage.Stands world target next →
      stage.Follows least last next outcome) :
    stage.Follows least last machine outcome := by
  obtain ⟨next, goes, _, standsNext⟩ :=
    stands.jumps jump (Exec.execute_jump machine target)
  exact (onward next standsNext).behind goes (Nat.le_add_left _ _)

/-- A guard is computed and tested, which takes at least one step. -/
theorem Follows.condition {guard : Expr} {guarded : Point} {last target : Nat}
    {rest : Bool → Outcome}
    (condition : GuardCode stage.image stage.context guard operand
      start guarded)
    (skip : stage.image.Has guarded.position
      (Context.jumpUnless operand target))
    (aligned : start.Aligned)
    (selfContained : guard.selfContained = true)
    (stands : stage.Stands world start.position machine)
    (taken : ∀ next, stage.Stands world guarded.next.position next →
      stage.Follows least last next (rest true))
    (skipped : ∀ next, stage.Stands world target next →
      stage.Follows least last next (rest false)) :
    stage.Follows (least + 1) last machine
      (world.given (holds stage.origin.held world.store guard) rest) := by
  obtain ⟨isBool, single⟩ := Ty.eq_of_agrees condition.truth
  obtain ⟨_, placed⟩ := condition.computed.placed
    stage.arranged.singleReturns aligned
  obtain ⟨_, place⟩ := Operand.Placed.place placed (by simp [Ty.isVoid, isBool])
  unfold holds
  rw [World.given_bind]
  refine Follows.given
    (computes_of_code condition.computed aligned selfContained
      (by simp [Ty.isVoid, isBool]) single world machine stands) ?_
  intro datum next standsNext _ lies
  have typed := lies.typed
  rw [isBool] at typed
  obtain ⟨_, rfl, heldTyped⟩ := typed.plain_of_scalar rfl
  obtain ⟨truth, rfl⟩ := heldTyped.eq_bool
  have ran := Exec.execute_jumpUnless target place.located
    (lies.contents single)
  change stage.Follows _ _ _ (rest truth)
  cases truth with
  | true =>
    obtain ⟨after, goes, _, standsAfter⟩ :=
      standsNext.executes skip ran standsNext.toShows
    exact (taken after standsAfter).behind goes
      (Nat.le_of_eq (Nat.add_comm _ _))
  | false =>
    obtain ⟨after, goes, _, standsAfter⟩ := standsNext.jumps skip ran
    exact (skipped after standsAfter).behind goes
      (Nat.le_of_eq (Nat.add_comm _ _))

/-- A loop is followed if each of its rounds is, and takes at least one step. -/
theorem Follows.loop {guard : World → Except Mishap Bool}
    {body : World → Outcome} {rounds first last : Nat}
    (round : ∀ fewer < rounds, ∀ rest : World → Outcome,
      (∀ world next, stage.Stands world first next →
      stage.Follows fewer last next (rest world)) →
      ∀ world machine, stage.Stands world first machine →
      stage.Follows (fewer + 1) last machine (world.given (guard world)
      fun goesOn => if goesOn then (body world).andThen rest
      else some (.next, world))) :
    ∀ count ≤ rounds, ∀ world machine, stage.Stands world first machine →
      stage.Follows count last machine
        (Meaning.loop guard body count world) := by
  intro count
  induction count with
  | zero => exact fun _ world machine _ => .unfinished (.refl _) (Nat.le_refl _)
  | succ count induction =>
    exact fun bound => round count bound _ (induction (Nat.le_of_lt bound))

/-! ## Statements -/

/-- Variables have the types with which they are declared. -/
def Declares (stage : Stage) (declarations : List Declaration) : Prop :=
  ∀ declaration ∈ declarations, ∀ found,
    stage.context.scope.locals.find? declaration.name = some found →
      found.type = declaration.type

/-- The code for a statement or a block does what they do. -/
def Proceeds (stage : Stage) (rounds : Nat) (start stop : Point) : Clause → Prop
  | .statement statement =>
    statement.selfContained = true → stage.Declares statement.declarations →
    ∀ world machine, stage.Stands world start.position machine →
      stage.Follows rounds stop.position machine
        (execute stage.origin.held rounds statement world)
  | .block statements =>
    selfContainedAll statements = true →
      stage.Declares (declarationsOf statements) →
    ∀ world machine, stage.Stands world start.position machine →
      stage.Follows rounds stop.position machine
        (executeAll stage.origin.held rounds statements world)

/-- A call of a built-in function as a statement. -/
theorem Follows.call {arguments : List Expr} {line : Nat}
    (code : ExprCode stage.image stage.context
      (.value (.call name arguments line) operand) start stop)
    (aligned : start.Aligned)
    (selfContained : (Expr.call name arguments line).selfContained = true)
    (stands : stage.Stands world start.position machine)
    (rounds : Nat) :
    stage.Follows least stop.position machine
      (execute stage.origin.held rounds (.call name arguments line) world) := by
  have returns := stage.arranged.singleReturns
  cases code with
  | @builtin _ _ _ builtin operands value _ stop temps found computed takes
      fresh apply =>
    have member := Builtin.find?_mem found
    obtain ⟨between, placed⟩ := computed.placed returns aligned
    simp only [Expr.selfContained, Expr.uses, Bool.and_eq_true] at selfContained
    simp only [execute, found]
    rw [World.given_bind]
    refine Follows.given (computes_of_code computed aligned selfContained.2
      (fun operand listed => ⟨takes.stored member operand listed,
        takes_single takes operand listed⟩) world machine stands) ?_
    intro data next standsNext _ lie
    have receives := fresh.receives between rfl
    obtain ⟨answered, isAnswer, typed, ran⟩ :=
      standsNext.toShows.applies member takes placed receives lie
    rw [isAnswer]
    cases answered with
    | inl result =>
      cases typed with
      | value typed =>
        obtain ⟨_, place, inTemp⟩ :=
          receives.place (by simp [Ty.isVoid, typed.not_void])
        have suits := Memory.suits_single typed
        rw [← Space.slotCount_scalar (Builtin.returns_scalar member)] at suits
        obtain ⟨last, goes, _, standsLast⟩ := standsNext.executes apply ran
          (standsNext.toShows.fills fresh place inTemp suits)
        exact .next goes standsLast
    | inr stroke =>
      obtain ⟨last, goes, _, standsLast⟩ :=
        standsNext.executes apply ran (standsNext.toShows.records stroke)
      exact .next goes standsLast
  | call user =>
    simp [Expr.selfContained, Expr.uses, Builtin.isReserved,
      user] at selfContained

/-- The code for a statement does what the statement does. -/
theorem proceeds_of_code {clause : Clause}
    (rounds : Nat)
    (code : StmtCode stage.image stage.context clause start stop)
    (aligned : start.Aligned) :
    stage.Proceeds rounds start stop clause := by
  have returns := stage.arranged.singleReturns
  induction code with
  | @declare declaration found address location point known hasAddress place
      region fits init =>
    intro _ declares world machine stands
    have sameType := declares declaration (by simp [Stmt.declarations])
      found known
    obtain ⟨next, goes, _, standsNext⟩ := stands.executes init
      (Exec.execute_init place (by rw [region]; decide) fits)
      (stands.toShows.declares known sameType hasAddress place region fits)
    exact .next goes standsNext
  | assign code =>
    intro selfContained _ world machine stands
    exact .assign code aligned selfContained stands
  | branch condition skip inside induction =>
    intro selfContained declares world machine stands
    simp only [Stmt.selfContained, Bool.and_eq_true] at selfContained
    have guardedAligned := (condition.computed.placed returns aligned).1
    simp only [execute]
    refine (Follows.condition condition skip aligned selfContained.1
      stands ?_ ?_).le (Nat.le_succ _)
    · exact induction guardedAligned selfContained.2 declares world
    · exact fun next standsNext => .next (.refl _) standsNext
  | branchElse condition skip inside across outside insideInduction
      outsideInduction =>
    intro selfContained declares world machine stands
    simp only [Stmt.selfContained, Bool.and_eq_true] at selfContained
    have guardedAligned := (condition.computed.placed returns aligned).1
    simp only [execute]
    refine (Follows.condition condition skip aligned selfContained.1.1
      stands ?_ ?_).le (Nat.le_succ _)
    · intro next standsNext
      refine Follows.through (insideInduction guardedAligned selfContained.1.2
        (fun declaration member =>
          declares declaration (List.mem_append_left _ member))
        world next standsNext) ?_
      intro after last standsLast
      obtain ⟨behind, goes, _, standsBehind⟩ :=
        standsLast.jumps across (Exec.execute_jump last _)
      exact ⟨_, behind, goes, standsBehind⟩
    · intro next standsNext
      exact outsideInduction (inside.aligned returns guardedAligned)
        selfContained.2 (fun declaration member =>
          declares declaration (List.mem_append_right _ member))
        world next standsNext
  | whileLoop condition skip inside again induction =>
    intro selfContained declares world machine stands
    simp only [Stmt.selfContained, Bool.and_eq_true] at selfContained
    have guardedAligned := (condition.computed.placed returns aligned).1
    simp only [execute]
    refine Follows.loop ?_ rounds (Nat.le_refl _) world machine stands
    intro fewer isFewer rest onward world machine stands
    refine Follows.condition condition skip aligned selfContained.1 stands ?_ ?_
    · intro next standsNext
      refine Follows.andThen
        ((induction guardedAligned selfContained.2 declares world next
          standsNext).le (Nat.le_of_lt isFewer)) ?_
      intro after last standsLast
      exact .of_jump standsLast again fun back standsBack =>
        onward after back standsBack
    · exact fun next standsNext => .next (.refl _) standsNext
  | forLoop initially condition skip inside advance again induction =>
    intro selfContained declares world machine stands
    simp only [Stmt.selfContained, Bool.and_eq_true] at selfContained
    obtain ⟨⟨⟨firstContained, guardContained⟩, stepContained⟩, bodyContained⟩ :=
      selfContained
    have begunAligned := initially.aligned returns aligned
    have guardedAligned := (condition.computed.placed returns begunAligned).1
    have bodyAligned := inside.aligned returns guardedAligned
    simp only [execute]
    refine Follows.andThen (.assign initially aligned firstContained stands) ?_
    refine Follows.loop ?_ rounds (Nat.le_refl _)
    intro fewer isFewer rest onward world machine stands
    refine Follows.condition condition skip begunAligned
      guardContained stands ?_ ?_
    · intro next standsNext
      have body :=
        (induction guardedAligned bodyContained declares world next
          standsNext).le (Nat.le_of_lt isFewer)
      refine Follows.andThen (body.andThen fun after last standsLast =>
        .assign advance bodyAligned stepContained standsLast) ?_
      intro after last standsLast
      exact .of_jump standsLast again fun back standsBack =>
        onward after back standsBack
    · exact fun next standsNext => .next (.refl _) standsNext
  | @write value line printed start stop computed printable print =>
    intro selfContained _ world machine stands
    obtain ⟨_, placed⟩ := computed.placed returns aligned
    obtain ⟨_, place⟩ := Operand.Placed.place placed printable.1
    simp only [execute]
    refine Follows.given
      (computes_of_code computed aligned selfContained printable.1 printable.2
        world machine stands) ?_
    intro datum next standsNext _ lies
    have block : next.memory.block printed.address printed.type.slotCount =
        datum.slots :=
      lies.slots
    have ran := Exec.execute_print standsNext.runs.kinded place printable.2
    rw [block, Datum.textOfSlots_slots lies.typed] at ran
    obtain ⟨last, goes, _, standsLast⟩ :=
      standsNext.executes print ran (standsNext.toShows.prints datum.text)
    exact .next goes standsLast
  | leave nothing ret =>
    intro _ _ world machine stands
    exact .returned (.refl _) stands.toShows (stands.fetched ret)
  | ret computed something accepts ret =>
    intro selfContained _ world machine stands
    obtain ⟨single, takes⟩ := Ty.takes_of_accepts stage.single accepts
    have stored : stage.context.returns.element ≠ .void := by
      simpa [Ty.isVoid, stage.single] using something
    simp only [execute]
    refine Follows.given (computes_of_code computed aligned selfContained
      (by simp [Ty.isVoid, takes.stored stored]) single world machine stands) ?_
    intro datum next standsNext _ _
    exact .returned (.refl _) standsNext.toShows (standsNext.fetched ret)
  | call code =>
    intro selfContained _ world machine stands
    exact .call code aligned selfContained stands rounds
  | nil =>
    intro _ _ world machine stands
    exact .next (.refl _) stands
  | cons first others firstInduction othersInduction =>
    intro selfContained declares world machine stands
    simp only [selfContainedAll, Bool.and_eq_true] at selfContained
    simp only [executeAll]
    refine Follows.andThen (firstInduction aligned selfContained.1
      (fun declaration member =>
        declares declaration (List.mem_append_left _ member))
      world machine stands) ?_
    exact othersInduction (first.aligned returns aligned) selfContained.2
      fun declaration member =>
      declares declaration (List.mem_append_right _ member)

end Stage

end Easel.Meaning
