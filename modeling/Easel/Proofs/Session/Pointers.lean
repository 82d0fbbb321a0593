import Easel.Proofs.Code.Roles
import Easel.Proofs.Session.Arrival

/-!
# Pointers are followed to items

An instruction that follows a pointer relies on the two in front of it, of
which the first has checked the index and the second has computed the pointer.
It is never reached in another way: no jump, call or return leads to it or
between them.  So the pointer is that of an item of the list that the text
names, and the index of the item is one that the list has.
-/

namespace Easel

variable {program : Program} {executable : Executable} {screen : Screen}

/-- The item of a list, or the attribute of one, that an access designates. -/
structure Item where
  resolved : Resolved
  /-- The address of the list. -/
  first : Address
  number : Int64

namespace Item

def width (item : Item) : Nat :=
  item.resolved.owner.type.element.slotWidth

def address (item : Item) : Address :=
  item.first + item.resolved.offset + item.number.toInt * item.width

def slots (item : Item) : Slots :=
  .range item.address item.resolved.type.slotCount

def element (item : Item) : Slots :=
  .range (item.first + item.number.toInt * item.width) item.width

end Item

/-- A list has an item of the number. -/
def Resolved.InRange (resolved : Resolved) (number : Int64) : Prop :=
  0 ≤ number.toInt ∧ number.toInt < resolved.owner.type.size

section

variable {context : Context} {name : String} {field : Option String}
  {item : Item}
variable {location : Location}

section

variable (designates : context.Designates name true field item.resolved
  item.first location)
include designates

/-- What an access designates lies inside its item. -/
theorem Context.Designates.inside_element : item.slots.Within item.element := by
  have room : item.resolved.offset + item.resolved.type.slotCount ≤
      item.width :=
    designates.item_room
  unfold Item.slots Item.element Item.address
  rw [show item.first + item.resolved.offset + item.number.toInt * item.width =
    item.first + item.number.toInt * item.width + item.resolved.offset from
      Int.add_right_comm _ _ _]
  exact Slots.range_within room

/-- What an access designates lies inside its list. -/
theorem Context.Designates.inside_owner
    (inRange : item.resolved.InRange item.number) :
    item.slots.Within
      (.range item.first item.resolved.owner.type.slotCount) := by
  obtain ⟨atLeast, _⟩ := inRange
  have bound : item.number.toInt.toNat < item.resolved.owner.type.size := by
    omega
  have inside := designates.item_inside bound
  have address : item.address = item.first +
      ((item.resolved.offset + item.number.toInt.toNat * item.width : Nat) :
        Int) := by
    unfold Item.address
    rw [Int.natCast_add, Int.natCast_mul, Int.toNat_of_nonneg atLeast,
      Int.add_assoc]
  unfold Item.slots
  rw [address]
  exact Slots.range_within inside

theorem Context.Designates.item_place
    (inRange : item.resolved.InRange item.number) :
    ∃ found, Place item.address item.resolved.type found := by
  obtain ⟨atLeast, _⟩ := inRange
  have bound : item.number.toInt.toNat < item.resolved.owner.type.size := by
    omega
  obtain ⟨found, place, _⟩ := designates.item bound
  rw [Int.natCast_mul, Int.toNat_of_nonneg atLeast] at place
  exact ⟨found, place⟩

end

end

/-! ## Functions and their code -/

theorem Image.has_of_code {image : Image} {code : Array Quad} {position : Nat}
    {quad : Quad}
    (sameCode : code = image.code)
    (fetched : code[position]? = some quad) :
    image.Has position quad := by
  rw [sameCode] at fetched
  exact fetched

/-- A position belongs to an extent. -/
def Extent.Contains (extent : Extent) (position : Nat) : Prop :=
  extent.first ≤ position ∧ position < extent.first + extent.length

/-- The code and tables of a program, and the segments of the code. -/
structure Plan where
  program : Program
  entry : String
  image : Image
  functions : Table Routine
  globals : Table Variable
  segments : List Segment

namespace Plan

/-- A function of the program, with its tables and the extent of its code. -/
structure Houses (plan : Plan)
    (function : Function)
    (routine : Routine)
    (extent : Extent) : Prop where
  member : function ∈ plan.program.functions
  found : plan.functions.find? function.name = some routine
  measured : plan.program.extentOf? plan.entry function.name = some extent
  located : plan.image.entryOf function.name = some (extent.first : Int)
  holds : extent.Holds plan.image (routine.context plan.functions plan.globals)
    function.body

/-- The code is the program's, and each segment a function's extent. -/
structure Valid (plan : Plan) : Prop where
  linked : Linked plan.program plan.entry plan.image plan.functions plan.globals
  outline : Outline plan.program plan.entry plan.image.code plan.segments
  housed : ∀ segment ∈ plan.segments, ∃ function routine extent,
    plan.Houses function routine extent ∧
      extent.first = segment.first ∧ extent.length = segment.code.length

/-- Every function of the program has its extent. -/
def Complete (plan : Plan) : Prop :=
  ∀ function ∈ plan.program.functions, ∃ routine extent,
    plan.Houses function routine extent

def site (plan : Plan)
    (function : Function)
    (routine : Routine)
    (extent : Extent) : Site :=
  ⟨plan.image, routine.context plan.functions plan.globals, extent.temps,
    function.body⟩

variable {plan : Plan} {function : Function} {routine : Routine}
  {extent : Extent}
variable {machine left : Machine} {quad inner : Quad} {outcome : Outcome}
  {position : Nat}
variable {segment : Segment}

theorem Valid.filled (valid : plan.Valid)
    (houses : plan.Houses function routine extent) :
    (plan.site function routine extent).Filled
      (Role (plan.site function routine extent)) (partsIn function.body)
      extent.first (extent.first + extent.length) := by
  obtain ⟨_, _, _, _, laid⟩ := valid.linked.routines function.name
    routine houses.found
  have single := (laid.arranged.signatures _ routine houses.found).1
  obtain ⟨stop, zero, code, ret, zeroOf, length, temps⟩ := houses.holds
  have bounded : TempsLe stop.temps
      (plan.site function routine extent).temps := by
    rw [temps]
    exact .refl _
  have written : StmtCode (plan.site function routine extent).image
      (plan.site function routine extent).context (.block function.body)
      ⟨extent.first, fun _ => 0⟩ stop := code
  have body := written.filled laid.arranged single (fun _ _ => rfl) bounded
    (ret.opens rfl) (List.Subset.refl _)
  have last : Role (plan.site function routine extent) stop.position
      ⟨.ret, .unused, .unused, zero⟩ := by
    refine .ret ?_
    cases zeroOf with
    | absent => exact .inl rfl
    | literal place => exact .inr (place.widthAt single)
  rw [← length]
  exact body.snoc ret last

/-- Every instruction of a function has a role. -/
theorem Valid.role (valid : plan.Valid)
    (houses : plan.Houses function routine extent)
    (inside : extent.Contains position)
    (has : plan.image.Has position quad) :
    Role (plan.site function routine extent) position quad := by
  obtain ⟨above, below⟩ := inside
  obtain ⟨_, found, role⟩ := (valid.filled houses).duties position above below
  unfold Image.Has at has found
  rw [show (plan.site function routine extent).image = plan.image from rfl,
    has] at found
  cases found
  exact role

/-- A position of a segment belongs to a function. -/
theorem Valid.inside (valid : plan.Valid)
    (member : segment ∈ plan.segments)
    (contains : segment.Contains position) :
    ∃ function routine extent, plan.Houses function routine extent ∧
      extent.first = segment.first ∧ extent.Contains position := by
  obtain ⟨function, routine, extent, houses, first, length⟩ :=
    valid.housed segment member
  refine ⟨function, routine, extent, houses, first, ?_⟩
  unfold Extent.Contains
  rw [first, length]
  exact contains

/-- Control may be led to the start of a function. -/
theorem Valid.opens (valid : plan.Valid) (member : segment ∈ plan.segments) :
    plan.image.Opens segment.first := by
  obtain ⟨_, _, _, houses, first, _⟩ := valid.housed segment member
  obtain ⟨_, _, code, ret, _⟩ := houses.holds
  rw [← first]
  exact code.opens (ret.opens rfl)

/--
Where an instruction is reached that no other may lead to, the one in front of
it was executed.
-/
theorem Valid.inner_follows (valid : plan.Valid)
    (sameCode : machine.code = plan.image.code)
    (confined : machine.Confined plan.segments plan.entry)
    (fetched : machine.code[machine.position]? = some quad)
    (ran : Exec.execute quad machine = .ok outcome left)
    (leads : outcome.destination? left.position = some position)
    (has : plan.image.Has position inner)
    (isInner : inner.operation.isInner = true) :
    position = machine.position + 1 := by
  have closed : ∀ {target}, plan.image.Opens target → position ≠ target := by
    rintro target opens rfl
    rw [opens inner has] at isInner
    cases isInner
  have outline : Outline plan.program plan.entry machine.code
      plan.segments := by
    rw [sameCode]
    exact valid.outline
  have samePosition := (Exec.code_of_execute ran).2
  obtain ⟨_, _, owned, inside⟩ := confined
  by_cases isCall : quad.operation = .call
  · rw [Exec.execute_call isCall] at ran
    obtain ⟨_, _, _, _, _, _, _, _, rfl, _⟩ := Exec.enter_ok ran
    obtain ⟨callee, inSegments, isLeft⟩ := outline.call_leads owned.member
      inside fetched isCall
    cases leads
    refine (closed (valid.opens inSegments) ?_).elim
    rw [isLeft]
    rfl
  · by_cases isReturn : quad.operation = .ret
    · rw [Exec.execute_ret isReturn] at ran
      rcases Exec.leave_ok ran with
        ⟨callee, _, rfl, _⟩ |
        ⟨callee, caller, outer, saved, site, values, memory, frames, _,
          called, _, _, rfl, _⟩
      · cases leads
      · cases leads
        rw [frames] at owned
        cases owned with
        | call callerOwned calledAt siteIsCall calledInside =>
          obtain ⟨_, _, _, houses, _, contains⟩ :=
            valid.inside callerOwned.member calledInside
          obtain ⟨_, _, _, _, opens, _⟩ :=
            (valid.role houses contains
              (Image.has_of_code sameCode calledAt)).of_call siteIsCall
          exact (closed opens rfl).elim
    · by_cases isJump : quad.operation.isJump = true
      · obtain ⟨_, _, _, houses, _, contains⟩ :=
          valid.inside owned.member inside
        obtain ⟨target, isTarget, opens⟩ :=
          (valid.role houses contains
            (Image.has_of_code sameCode fetched)).of_jump isJump
        rcases Exec.jump_of_execute isJump isTarget ran with rfl | rfl
        · cases leads
          rw [samePosition]
        · cases leads
          exact (closed opens rfl).elim
      · have straight : quad.operation.isStraight = true := by
          simp [Operation.isStraight, isJump, isCall]
        rw [Exec.next_of_execute straight isReturn ran] at leads
        cases leads
        rw [samePosition]

end Plan

/-! ## Indices and pointers -/

/--
What the code that computes a pointer has established: behind its first
instruction the index has been checked, and behind the second the pointer is
that of the item.
-/
structure Machine.Ready (machine : Machine) (image : Image) : Prop where
  checked : ∀ (site : Site), site.image = image →
    ∀ access index resolved pointer start stop,
      site.Reaches access index resolved pointer start stop →
      machine.position = start.position + 1 →
      ∃ number, machine.memory.contents index.address = .int number ∧
        resolved.InRange number
  computed : ∀ (site : Site), site.image = image →
    ∀ access index resolved pointer start stop first inner,
      site.Reaches access index resolved pointer start stop →
      resolved.owner.address = some first → machine.position = stop.position →
      image.Has stop.position inner → inner.operation.isInner = true →
      ∃ number, machine.memory.contents index.address = .int number ∧
        resolved.InRange number ∧
        machine.memory.contents pointer =
          .pointer (Item.address ⟨resolved, first, number⟩)

section

variable {site : Site} {access : Access} {index : Operand} {resolved : Resolved}
variable {pointer first : Address} {start stop : Point} {machine left : Machine}
  {quad : Quad}
variable {outcome : Outcome} {position : Nat} {image : Image}

theorem Site.Reaches.checks
    (reaches : site.Reaches access index resolved pointer start stop)
    (kinded : machine.memory.Kinded)
    (ran : Exec.execute ⟨.checkBound, .wrap resolved.owner.type.size, .unused,
      index.address⟩ machine = .ok outcome left) :
    ∃ number, left.memory.contents index.address = .int number ∧
      resolved.InRange number := by
  obtain ⟨owner, location, designates, _⟩ := reaches.pointed.designated
  obtain ⟨isInt, single⟩ := Ty.eq_of_agrees reaches.pointed.whole
  obtain ⟨indexLocation, place⟩ :=
    reaches.placed.place (by simp [Ty.isVoid, isInt])
  have list : resolved.owner.type.isList = true := by
    obtain ⟨line, resolves⟩ := designates.named
    exact (Scope.resolves_of_resolve resolves).list
  have sizeSmall : resolved.owner.type.size ≤ segmentSize := by
    have small := designates.fits.small
    rw [Ty.slotCount_of_list list] at small
    exact Nat.le_trans (Nat.le_mul_of_pos_right _ (Element.slotWidth_pos _))
      small
  have typed := kinded.contents place.located
  rw [place.kind, isInt] at typed
  obtain ⟨number, holds⟩ := typed.eq_int
  rw [Address.wrap_of_small sizeSmall,
    Exec.execute_checkBound _ place.located holds] at ran
  split at ran
  · rename_i inRange
    cases ran
    exact ⟨number, holds, inRange⟩
  · cases ran

theorem Site.Reaches.points {base : Address} {number : Int64}
    (reaches : site.Reaches access index resolved pointer start stop)
    (hasAddress : resolved.owner.address = some first)
    (isBase : base = first + resolved.offset)
    (holds : machine.memory.contents index.address = .int number)
    (ran : Exec.execute ⟨.addAddress, base, index.address, pointer⟩ machine =
      .ok outcome left) :
    left.memory.contents index.address = .int number ∧
      left.memory.contents pointer =
        .pointer (Item.address ⟨resolved, first, number⟩) := by
  obtain ⟨owner, _, designates, _⟩ := reaches.pointed.designated
  obtain rfl : owner = first :=
    Option.some.inj (designates.address.symm.trans hasAddress)
  obtain ⟨_, computed⟩ := reaches.computed
  obtain ⟨isInt, single⟩ := Ty.eq_of_agrees reaches.pointed.whole
  obtain ⟨_, place⟩ := reaches.placed.place (by simp [Ty.isVoid, isInt])
  have pointerPlace := reaches.pointed.fresh.basic reaches.aligned (by decide)
  obtain ⟨_, located, element⟩ := designates.base
  subst isBase
  rw [Exec.execute_addAddress place.located holds located pointerPlace
    (by simp), element] at ran
  cases ran
  refine ⟨?_, Memory.contents_fill_single pointerPlace.located⟩
  -- The pointer is a temporary that was not in use when the index was computed.
  have apart : ¬ Slots.range pointer 1 index.address := by
    refine reaches.pointed.fresh.apart (by decide) computed.before
      index.address ?_
    refine ⟨0, ?_, by simp⟩
    rw [Ty.slotCount_of_single single]
    exact Element.slotWidth_pos _
  exact ((Memory.changesOnly_fill _ _ _ _).contents apart).trans holds

/--
One instruction leaves a machine ready, if the instructions that nothing else
may lead to are reached from those in front of them.
-/
theorem Machine.Ready.step (ready : machine.Ready image)
    (sameCode : machine.code = image.code)
    (kinded : machine.memory.Kinded)
    (fetched : machine.code[machine.position]? = some quad)
    (ran : Exec.execute quad machine = .ok outcome left)
    (follows : ∀ inner, image.Has position inner →
      inner.operation.isInner = true → position = machine.position + 1) :
    (left.arrived position).Ready image := by
  rw [sameCode] at fetched
  constructor
  · rintro site rfl access index resolved pointer start stop reaches arrived
    obtain ⟨owner, location, _, add⟩ := reaches.pointed.designated
    have check := reaches.pointed.check
    change position = start.position + 1 at arrived
    have passed := follows _ (arrived ▸ add) rfl
    rw [show start.position = machine.position by omega] at check
    cases Option.some.inj (fetched.symm.trans check)
    obtain ⟨number, holds, inRange⟩ := reaches.checks kinded ran
    exact ⟨number, holds, inRange⟩
  · rintro site rfl access index resolved pointer start stop first inner
      reaches hasAddress arrived has isInner
    obtain ⟨owner, location, designates, add⟩ := reaches.pointed.designated
    have two := reaches.pointed.position
    change position = stop.position at arrived
    have passed := follows inner (arrived ▸ has) isInner
    have here : machine.position = start.position + 1 := by omega
    obtain ⟨number, holds, inRange⟩ := ready.checked site rfl access index
      resolved pointer start stop reaches here
    rw [← here] at add
    cases Option.some.inj (fetched.symm.trans add)
    have isFirst := Option.some.inj (designates.address.symm.trans hasAddress)
    obtain ⟨still, points⟩ :=
      reaches.points hasAddress (by rw [isFirst]) holds ran
    exact ⟨number, still, inRange, points⟩

end

namespace Session

variable {plan : Plan} {scene : Scene} {session last : Session} {moment : Nat}

/-- A session of a program that is ready wherever it gets to. -/
structure Prepared (plan : Plan) (scene : Scene) (session : Session) :
    Prop where
  onTrack : session.OnTrack plan.program plan.entry
    plan.image.code plan.segments
  sound : scene.Sound session.machine
  ready : session.machine.Ready plan.image

/-- The instructions before the functions lead on, and to a function. -/
theorem OnTrack.inner_follows {quad inner : Quad} {outcome : Outcome}
    {left : Machine} {position : Nat}
    (valid : plan.Valid)
    (onTrack : session.OnTrack plan.program plan.entry plan.image.code
      plan.segments)
    (executes : session.Executes quad outcome left)
    (leads : outcome.destination? left.position = some position)
    (has : plan.image.Has position inner)
    (isInner : inner.operation.isInner = true) :
    position = session.machine.position + 1 := by
  rcases onTrack.place with ⟨early, isExecuted, _⟩ | ⟨_, confined⟩
  · rw [← isExecuted] at early
    rcases Nat.lt_or_eq_of_le early with before | behind
    · have isInit := zeroes valid.outline onTrack.sameCode before
        executes.fetched
      rw [Exec.next_of_execute (by rw [isInit]; rfl) (by simp [isInit])
        executes.ran] at leads
      cases leads
      rw [(Exec.code_of_execute executes.ran).2]
    · obtain ⟨_, member, _, rfl⟩ := jumps valid.outline onTrack.sameCode behind
        executes.fetched
      have ran := executes.ran
      rw [Exec.execute_jump] at ran
      cases ran
      cases leads
      rw [valid.opens member inner has] at isInner
      cases isInner
  · exact valid.inner_follows onTrack.sameCode confined executes.fetched
      executes.ran leads has isInner

/-- One instruction keeps a session prepared. -/
theorem Prepared.step {next : Session}
    (valid : plan.Valid)
    (prepared : session.Prepared plan scene)
    (stepped : session.step = .running next) :
    next.Prepared plan scene := by
  obtain ⟨quad, outcome, left, position, executes, leads, rfl⟩ :=
    step_running stepped
  have continues : session.machine.Continues (left.arrived position) :=
    ⟨quad, outcome, left, position, executes.fetched, executes.ran, leads, rfl⟩
  refine ⟨?_, prepared.sound.continued continues, ?_⟩
  · rcases prepared.onTrack.executes valid.outline executes with ⟨rfl, _⟩
      | ⟨_, leadsTo, after⟩
    · cases leads
    · rw [leads] at leadsTo
      cases leadsTo
      exact after
  · exact prepared.ready.step prepared.onTrack.sameCode
      (prepared.sound.kinded continues) executes.fetched executes.ran
      fun inner has isInner =>
        prepared.onTrack.inner_follows valid executes leads has isInner

theorem Prepared.runFor (valid : plan.Valid)
    (prepared : session.Prepared plan scene)
    (goesOn : session.runFor moment = .running last) :
    last.Prepared plan scene :=
  runFor_invariant _ (fun _ _ still stepped => still.step valid stepped)
    prepared goesOn

end Session

section

variable {source entry : String} {machine : Machine} (limit : Option Nat)
  (parsed : Program.parse source = .ok program) (listsFit : program.ListsFit)
  (compiled : program.compile entry = .ok executable)
  (loaded : Machine.load executable screen = .ok machine)
include limit parsed listsFit compiled loaded

/-- A compiled program has a plan, and a session that runs it is prepared. -/
theorem Plan.complete_of_compile :
    ∃ (image : Image) (placed : Checked) (segments : List Segment),
      program.layout? entry = some placed ∧ image.code = executable.code ∧
      image.constants = executable.constants ∧
      let plan : Plan :=
  ⟨program, entry, image, placed.functions, placed.globals, segments⟩
      plan.Valid ∧ plan.Complete ∧
        Session.Prepared plan
        (.solo image placed.functions placed.globals screen)
          { machine, limit } := by
  obtain ⟨image, placed, segments, layout, sameCode, sameConstants, _, linked,
      outline, bodies, extents⟩ :=
      extents_of_layout (Program.declarable_of_parse parsed) listsFit compiled
  rw [← sameCode] at outline
  refine ⟨image, placed, segments, layout, sameCode, sameConstants,
    ⟨linked, outline, ?_⟩, ?_, ?_,
    linked.sound sameCode sameConstants loaded, ?_⟩
  · intro segment member
    obtain ⟨function, inProgram, encloses⟩ := outline.encloses member
    obtain ⟨extent, routine, measured, found, located, holds⟩ :=
      bodies function inProgram
    obtain ⟨_, otherMeasured, first, length⟩ := extents segment member
    rw [encloses.name, measured] at otherMeasured
    cases otherMeasured
    exact ⟨function, routine, extent, ⟨inProgram, found, measured, located,
      holds⟩, first, length⟩
  · intro function inProgram
    obtain ⟨extent, routine, measured, found, located, holds⟩ :=
      bodies function inProgram
    exact ⟨routine, extent, inProgram, found, measured, located, holds⟩
  · rw [sameCode]
    exact .of_load limit loaded
  · have begins : machine.position = 0 := by
      obtain ⟨_, _, rfl⟩ := Machine.load_ok loaded
      rfl
    constructor
    · intro site _ access index resolved pointer start stop _ arrived
      exact absurd (begins.symm.trans arrived) (Nat.succ_ne_zero _).symm
    · intro site _ access index resolved pointer start stop first inner
        reaches _ arrived
      rw [reaches.pointed.position] at arrived
      exact absurd (begins.symm.trans arrived) (Nat.succ_ne_zero _).symm

theorem Plan.of_compile :
    ∃ (image : Image) (placed : Checked) (segments : List Segment),
      program.layout? entry = some placed ∧ image.code = executable.code ∧
      image.constants = executable.constants ∧
      let plan : Plan :=
  ⟨program, entry, image, placed.functions, placed.globals, segments⟩
      plan.Valid ∧
      Session.Prepared plan (.solo image placed.functions placed.globals screen)
        { machine, limit } := by
  obtain ⟨image, placed, segments, layout, sameCode, sameConstants, valid,
      _, prepared⟩ :=
    complete_of_compile limit parsed listsFit compiled loaded
  exact ⟨image, placed, segments, layout, sameCode, sameConstants,
    valid, prepared⟩

end

end Easel
