import Easel.Proofs.Session.Accounts

/-!
# Announced calls in the code of a function

A call is announced before its arguments are computed, and is made after the
last of them was passed.  In between, its arguments may announce and make
calls of their own.  Reading the code of a function from its start, the calls
that are announced and not yet made are therefore nested: an argument is
passed to the innermost of them, which is the one that the argument is written
for, a call makes the innermost of them, and between two statements there are
none.
-/

namespace Easel

/-- The announcements open behind an instruction, by those before it. -/
def Quad.openBehind (quad : Quad) (position : Nat) (waiting : List Nat) :
    List Nat :=
  match quad.operation with
  | .era => position :: waiting
  | .call => waiting.tail
  | _ => waiting

/-- The announcements open behind the first `count` instructions. -/
def openAfter (code : Array Quad) (first : Nat) : Nat → List Nat
  | 0 => []
  | count + 1 =>
    match code[first + count]? with
    | some quad => quad.openBehind (first + count) (openAfter code first count)
    | none => openAfter code first count

/--
The positions in front of `position`, in code that starts at `first`, at which
a call is announced that is not made in front of `position`; innermost first.
-/
def openCalls (code : Array Quad) (first position : Nat) : List Nat :=
  openAfter code first (position - first)

theorem openCalls_first (code : Array Quad) (first : Nat) :
    openCalls code first first = [] := by
  rw [openCalls, Nat.sub_self, openAfter]

theorem openCalls_next {code : Array Quad} {first position : Nat} {quad : Quad}
    (behind : first ≤ position)
    (found : code[position]? = some quad) :
    openCalls code first (position + 1) =
      quad.openBehind position (openCalls code first position) := by
  rw [openCalls, Nat.sub_add_comm behind, openAfter, Nat.add_sub_cancel' behind,
    found, openCalls]

theorem Quad.openBehind_of_quiet {quad : Quad}
    (position : Nat)
    (waiting : List Nat)
    (quiet : quad.operation.isQuiet = true) :
    quad.openBehind position waiting = waiting := by
  unfold openBehind
  cases operation : quad.operation <;> simp_all [Operation.isQuiet]

/-- The code of a function: where it stands, and what it was generated from. -/
structure Listing where
  image : Image
  context : Context
  body : List Stmt
  /-- The position at which the code starts. -/
  first : Nat

namespace Listing

/-- The calls that are open in front of a position. -/
def waiting (listing : Listing) (position : Nat) : List Nat :=
  openCalls listing.image.code listing.first position

/--
A call in the body of the function: it is announced at one position, each of
its arguments is passed at the position of its passage, and it is made at
another position.
-/
inductive Makes (listing : Listing)
    (announce : Nat)
    (passages : List Passage)
    (enter : Nat) : Prop where
  | intro {name : String} {arguments : List Expr} {line : Nat}
      {routine : Routine}
      {entry value : Address} {begins ends : Point}
      (written : Expr.call name arguments line ∈ partsIn listing.body)
      (found : listing.context.functions.find? name = some routine)
      (located : listing.image.entryOf name = some entry)
      (announced : listing.image.Has announce
        ⟨.era, .wrap routine.footprint, .unused, .unused⟩)
      (passed : Passages listing.image listing.context arguments
        routine.parameters passages begins ends)
      (entered : listing.image.Has enter ⟨.call, entry, .unused, value⟩)
      (behind : begins.position = announce + 1)
      (here : ends.position = enter)

/-- An instruction deals with the innermost open call, if it is its own. -/
structure Orderly (listing : Listing) (position : Nat) (quad : Quad) :
    Prop where
  jump : quad.operation.isJump = true → listing.waiting position = [] ∧
    ∀ target : Nat, quad.result = target → listing.waiting target = []
  ret : quad.operation = .ret → listing.waiting position = []
  param : quad.operation = .param → ∃ announce passages enter outer,
    listing.Makes announce passages enter ∧
      position ∈ passages.map (·.position) ∧
      listing.waiting position = announce :: outer
  call : quad.operation = .call → ∃ announce passages outer,
    listing.Makes announce passages position ∧
      listing.waiting position = announce :: outer

/--
Code that leaves no call open, from one position to another.  Arguments that
are not those of a call inside are passed at the positions `own`, for a call
that was open at the start.
-/
structure Spans (listing : Listing) (own : List Nat) (start stop : Nat) :
    Prop where
  forward : start ≤ stop
  same : listing.waiting stop = listing.waiting start
  inside : ∀ position quad, start ≤ position → position < stop →
    listing.image.Has position quad → listing.Orderly position quad ∨
      quad.operation = .param ∧ position ∈ own ∧
        listing.waiting position = listing.waiting start

section

variable {listing : Listing} {position : Nat} {quad : Quad}

theorem waiting_next (behind : listing.first ≤ position)
    (has : listing.image.Has position quad) :
    listing.waiting (position + 1) =
      quad.openBehind position (listing.waiting position) :=
  openCalls_next behind has

theorem waiting_next_of_quiet (behind : listing.first ≤ position)
    (has : listing.image.Has position quad)
    (quiet : quad.operation.isQuiet = true) :
    listing.waiting (position + 1) = listing.waiting position := by
  rw [waiting_next behind has, Quad.openBehind_of_quiet _ _ quiet]

theorem Orderly.of_plain
    (plain : quad.operation.isQuiet = true ∧ quad.operation.isJump = false) :
    listing.Orderly position quad := by
  obtain ⟨_, _⟩ := plain
  constructor <;> intro operation <;> simp_all [Operation.isQuiet]

end

namespace Spans

variable {listing : Listing} {own others : List Nat}
  {start middle stop position : Nat}
variable {quad : Quad}

theorem nil (position : Nat) : listing.Spans [] position position :=
  ⟨Nat.le_refl _, rfl, fun _ _ above below =>
    absurd below (Nat.not_lt.mpr above)⟩

theorem single (has : listing.image.Has position quad)
    (same : listing.waiting (position + 1) = listing.waiting position)
    (role : listing.Orderly position quad ∨ quad.operation = .param ∧
      position ∈ own) :
    listing.Spans own position (position + 1) := by
  refine ⟨Nat.le_succ _, same, ?_⟩
  intro other found above below otherHas
  obtain rfl : other = position := by omega
  unfold Image.Has at has otherHas
  rw [has] at otherHas
  cases otherHas
  exact role.imp_right fun ⟨isParam, inOwn⟩ => ⟨isParam, inOwn, rfl⟩

theorem append (before : listing.Spans own start middle)
    (after : listing.Spans others middle stop) :
    listing.Spans (own ++ others) start stop := by
  refine ⟨Nat.le_trans before.forward after.forward,
    after.same.trans before.same, ?_⟩
  intro position quad above below has
  rcases Nat.lt_or_ge position middle with isBefore | isAfter
  · rcases before.inside position quad above isBefore has with orderly
      | ⟨isParam, inOwn, same⟩
    · exact .inl orderly
    · exact .inr ⟨isParam, List.mem_append_left _ inOwn, same⟩
  · rcases after.inside position quad isAfter below has with orderly
      | ⟨isParam, inOwn, same⟩
    · exact .inl orderly
    · exact .inr ⟨isParam, List.mem_append_right _ inOwn,
        same.trans before.same⟩

section

variable (before : listing.Spans [] start stop) (behind : listing.first ≤ start)
include before behind

theorem snoc (has : listing.image.Has stop quad)
    (plain : quad.operation.isQuiet = true ∧ quad.operation.isJump = false) :
    listing.Spans [] start (stop + 1) :=
  before.append (single has
    (waiting_next_of_quiet (Nat.le_trans behind before.forward) has plain.1)
    (.inl (.of_plain plain)))

theorem jump {target : Nat}
    (idle : listing.waiting start = [])
    (has : listing.image.Has stop quad)
    (quiet : quad.operation.isQuiet = true)
    (leads : quad.result = target)
    (lands : listing.waiting target = []) :
    listing.Spans [] start (stop + 1) := by
  refine before.append (single has
    (waiting_next_of_quiet (Nat.le_trans behind before.forward) has quiet)
    (.inl ?_))
  constructor
  · intro _
    refine ⟨before.same.trans idle, ?_⟩
    intro other leadsTo
    cases Int.natCast_inj.mp (leads.symm.trans leadsTo)
    exact lands
  all_goals
    intro operation
    rw [operation] at quiet
    cases quiet

theorem ret {address : Address}
    (idle : listing.waiting start = [])
    (has : listing.image.Has stop ⟨.ret, .unused, .unused, address⟩) :
    listing.Spans [] start (stop + 1) := by
  refine before.append
    (single has (waiting_next (Nat.le_trans behind before.forward) has)
      (.inl ⟨nofun, fun _ => before.same.trans idle, nofun, nofun⟩))

end

/-- The code of a call: its announcement, its arguments, and the call. -/
theorem call {passages : List Passage} {announced entered : Quad}
    (behind : listing.first ≤ start)
    (makes : listing.Makes start passages stop)
    (announce : listing.image.Has start announced)
    (isEra : announced.operation = .era)
    (passed : listing.Spans (passages.map (·.position)) (start + 1) stop)
    (enter : listing.image.Has stop entered)
    (isCall : entered.operation = .call) :
    listing.Spans [] start (stop + 1) := by
  have opened : listing.waiting (start + 1) =
      start :: listing.waiting start := by
    rw [waiting_next behind announce, Quad.openBehind, isEra]
  have still : listing.waiting stop = start :: listing.waiting start :=
    passed.same.trans opened
  have forward : start + 1 ≤ stop := passed.forward
  refine ⟨by omega, ?_, ?_⟩
  · rw [waiting_next (by omega) enter, Quad.openBehind, isCall, still,
      List.tail_cons]
  · intro position quad above below has
    left
    unfold Image.Has at announce enter has
    rcases Nat.lt_or_ge start position with isLater | isFirst
    · rcases Nat.lt_or_ge position stop with isInside | isLast
      · rcases passed.inside position quad isLater isInside has with
          orderly | ⟨isParam, inOwn, same⟩
        · exact orderly
        · refine ⟨?_, ?_, fun _ => ⟨start, passages, stop, _, makes, inOwn,
            same.trans opened⟩, ?_⟩
          all_goals
            intro operation
            rw [isParam] at operation
            cases operation
      · obtain rfl : position = stop := by omega
        cases enter.symm.trans has
        refine ⟨?_, ?_, ?_, fun _ => ⟨start, passages, _, makes, still⟩⟩
        all_goals
          intro operation
          rw [isCall] at operation
          cases operation
    · obtain rfl : position = start := by omega
      cases announce.symm.trans has
      constructor
      all_goals
        intro operation
        rw [isEra] at operation
        cases operation

end Spans

end Listing

/-- The code for a phrase leaves no call open and passes to the innermost. -/
def Listing.Covers (listing : Listing) (start stop : Point) : Phrase → Prop
  | .value _ _ | .operands _ _ => listing.Spans [] start.position stop.position
  | .arguments expressions parameters => ∃ passages,
      Passages listing.image listing.context expressions parameters
      passages start stop ∧
        listing.Spans (passages.map (·.position)) start.position stop.position

section

variable {listing : Listing} {start stop : Point}

theorem PointerCode.spans {name : String} {field : Option String}
    {index : Operand} {resolved : Resolved} {pointer : Address}
    (code : PointerCode listing.image listing.context name field index resolved
      pointer start stop)
    (behind : listing.first ≤ start.position) :
    listing.Spans [] start.position stop.position := by
  obtain ⟨_, _, _, add⟩ := code.designated
  rw [code.position]
  exact ((Listing.Spans.nil _).snoc behind code.check ⟨rfl, rfl⟩).snoc behind
    add ⟨rfl, rfl⟩

theorem Widening.spans {parameter : Ty} {argument : Operand} {address : Address}
    (widening : Widening listing.image parameter argument address start stop)
    (behind : listing.first ≤ start.position) :
    listing.Spans [] start.position stop.position := by
  cases widening with
  | same => exact .nil _
  | widened _ _ assign =>
    exact (Listing.Spans.nil _).snoc behind assign ⟨rfl, rfl⟩

theorem ExprCode.covers {phrase : Phrase}
    (code : ExprCode listing.image listing.context phrase start stop)
    (behind : listing.first ≤ start.position)
    (held : phrase.parts ⊆ partsIn listing.body) :
    listing.Covers start stop phrase := by
  induction code with
  | literal | access | noOperands => exact .nil _
  | noArguments => exact ⟨[], .nil, .nil _⟩
  | group _ induction =>
    exact induction behind (List.subset_of_cons_subset held)
  | item _ pointed _ load induction =>
    have index := induction behind (List.subset_of_cons_subset held)
    have pointer := pointed.spans (Nat.le_trans behind index.forward)
    exact (index.append pointer).snoc behind load ⟨rfl, rfl⟩
  | builtin found _ _ _ apply induction =>
    have operands := induction behind (List.subset_of_cons_subset held)
    have all : ∀ other ∈ Builtin.all, other.operation.isJump = false := by
      decide
    exact operands.snoc behind apply
      ⟨Builtin.operation_quiet found, all _ (Builtin.find?_mem found)⟩
  | not _ _ _ negate induction =>
    exact (induction behind (List.subset_of_cons_subset held)).snoc behind
      negate ⟨rfl, rfl⟩
  | @binary operator _ _ _ _ _ _ _ _ _ _ _ _ _ _ apply first second =>
    obtain ⟨leftHeld, rightHeld⟩ :=
      List.append_subset.mp (List.subset_of_cons_subset held)
    have left := first behind leftHeld
    have right := second (Nat.le_trans behind left.forward) rightHeld
    exact (left.append right).snoc behind apply
      ⟨operator.operation_quiet, by cases operator <;> rfl⟩
  | operand _ _ first rest =>
    obtain ⟨firstHeld, restHeld⟩ := List.append_subset.mp held
    have one := first behind firstHeld
    exact one.append (rest (Nat.le_trans behind one.forward) restHeld)
  | call _ found located announce _ _ enter induction =>
    obtain ⟨passages, passed, arguments⟩ :=
      induction (Nat.le_succ_of_le behind) (List.subset_of_cons_subset held)
    exact .call behind
      (.intro (held List.mem_cons_self) found located announce passed enter rfl
        rfl) announce rfl arguments enter rfl
  | argument code _ widening pass _ first rest =>
    obtain ⟨firstHeld, restHeld⟩ := List.append_subset.mp held
    have computed := first behind firstHeld
    have widened := computed.append
      (widening.spans (Nat.le_trans behind computed.forward))
    have above := Nat.le_trans behind widened.forward
    obtain ⟨passages, passed, others⟩ := rest (Nat.le_succ_of_le above) restHeld
    have here := Listing.Spans.single pass (Listing.waiting_next above pass)
      (.inr ⟨rfl, List.mem_singleton_self _⟩)
    exact ⟨_, .cons code widening pass passed,
      (widened.append here).append others⟩

/-! ## Statements -/

theorem AssignCode.spans {assignment : Assignment}
    (code : AssignCode listing.image listing.context assignment start stop)
    (behind : listing.first ≤ start.position)
    (held : assignment.parts ⊆ partsIn listing.body) :
    listing.Spans [] start.position stop.position := by
  obtain ⟨valueHeld, indexHeld⟩ := List.append_subset.mp held
  cases code with
  | whole _ computed _ _ _ assign =>
    exact Listing.Spans.snoc (computed.covers behind valueHeld) behind
      assign ⟨rfl, rfl⟩
  | item indexed computed located pointed _ _ assign =>
    rw [indexed] at indexHeld
    have value : listing.Spans [] _ _ := computed.covers behind valueHeld
    have index := value.append
      (located.covers (Nat.le_trans behind value.forward) indexHeld)
    have pointer :=
      index.append (pointed.spans (Nat.le_trans behind index.forward))
    exact pointer.snoc behind assign ⟨rfl, rfl⟩

/-- Statements start, end, jump and return with no open call. -/
theorem StmtCode.spans {clause : Clause}
    (code : StmtCode listing.image listing.context clause start stop)
    (behind : listing.first ≤ start.position)
    (idle : listing.waiting start.position = [])
    (held : clause.parts ⊆ partsIn listing.body) :
    listing.Spans [] start.position stop.position := by
  induction code with
  | nil => exact .nil _
  | declare _ _ _ _ _ init =>
    exact (Listing.Spans.nil _).snoc behind init ⟨rfl, rfl⟩
  | assign code => exact code.spans behind held
  | write computed _ print =>
    exact Listing.Spans.snoc (computed.covers behind held) behind
      print ⟨rfl, rfl⟩
  | leave _ ret => exact (Listing.Spans.nil _).ret behind idle ret
  | ret computed _ _ ret =>
    exact Listing.Spans.ret (computed.covers behind held) behind idle ret
  | call code => exact code.covers behind held
  | cons _ _ first rest =>
    obtain ⟨firstHeld, restHeld⟩ := List.append_subset.mp held
    have one := first behind idle firstHeld
    exact one.append
      (rest (Nat.le_trans behind one.forward) (one.same.trans idle) restHeld)
  | branch condition skip _ induction =>
    obtain ⟨guardHeld, bodyHeld⟩ := List.append_subset.mp held
    have guarded : listing.Spans [] _ _ :=
      condition.computed.covers behind guardHeld
    have above := Nat.le_trans behind guarded.forward
    have entered := (Listing.waiting_next_of_quiet above skip rfl).trans
      (guarded.same.trans idle)
    have inside := induction (Nat.le_succ_of_le above) entered bodyHeld
    exact (guarded.jump behind idle skip rfl rfl
      (inside.same.trans entered)).append inside
  | branchElse condition skip _ across _ first second =>
    obtain ⟨guardHeld, bodiesHeld⟩ := List.append_subset.mp held
    obtain ⟨bodyHeld, otherwiseHeld⟩ := List.append_subset.mp bodiesHeld
    have guarded : listing.Spans [] _ _ :=
      condition.computed.covers behind guardHeld
    have above := Nat.le_trans behind guarded.forward
    have entered := (Listing.waiting_next_of_quiet above skip rfl).trans
      (guarded.same.trans idle)
    have inside := first (Nat.le_succ_of_le above) entered bodyHeld
    have further := Nat.le_trans (Nat.le_succ_of_le above) inside.forward
    have left := (Listing.waiting_next_of_quiet further across rfl).trans
      (inside.same.trans entered)
    have outside := second (Nat.le_succ_of_le further) left otherwiseHeld
    have skipping := (guarded.jump behind idle skip rfl rfl left).append inside
    exact (skipping.jump behind idle across rfl rfl
      (outside.same.trans left)).append outside
  | whileLoop condition skip _ again induction =>
    obtain ⟨guardHeld, bodyHeld⟩ := List.append_subset.mp held
    have guarded : listing.Spans [] _ _ :=
      condition.computed.covers behind guardHeld
    have above := Nat.le_trans behind guarded.forward
    have entered := (Listing.waiting_next_of_quiet above skip rfl).trans
      (guarded.same.trans idle)
    have inside := induction (Nat.le_succ_of_le above) entered bodyHeld
    have left := (Listing.waiting_next_of_quiet
      (Nat.le_trans (Nat.le_succ_of_le above) inside.forward) again rfl).trans
      (inside.same.trans entered)
    exact ((guarded.jump behind idle skip rfl rfl left).append inside).jump
      behind idle again rfl rfl idle
  | forLoop initially condition skip _ advance again induction =>
    obtain ⟨firstHeld, othersHeld⟩ := List.append_subset.mp held
    obtain ⟨guardHeld, innerHeld⟩ := List.append_subset.mp othersHeld
    obtain ⟨bodyHeld, stepHeld⟩ := List.append_subset.mp innerHeld
    have begun := initially.spans behind firstHeld
    have ready := begun.same.trans idle
    have guarded := begun.append (condition.computed.covers
      (Nat.le_trans behind begun.forward) guardHeld)
    have above := Nat.le_trans behind guarded.forward
    have entered := (Listing.waiting_next_of_quiet above skip rfl).trans
      (guarded.same.trans idle)
    have inside := induction (Nat.le_succ_of_le above) entered bodyHeld
    have advanced := inside.append (advance.spans
      (Nat.le_trans (Nat.le_succ_of_le above) inside.forward) stepHeld)
    have left := (Listing.waiting_next_of_quiet
      (Nat.le_trans (Nat.le_succ_of_le above) advanced.forward) again rfl).trans
      (advanced.same.trans entered)
    exact ((guarded.jump behind idle skip rfl rfl left).append advanced).jump
      behind idle again rfl rfl ready

/-- Every instruction of a function is orderly. -/
theorem Extent.Holds.orderly {extent : Extent} {position : Nat} {quad : Quad}
    (holds : extent.Holds listing.image listing.context listing.body)
    (starts : listing.first = extent.first)
    (above : extent.first ≤ position)
    (below : position < extent.first + extent.length)
    (has : listing.image.Has position quad) :
    listing.Orderly position quad := by
  obtain ⟨stop, _, code, ret, _, _, _⟩ := holds
  have behind : listing.first ≤ extent.first := Nat.le_of_eq starts
  have idle : listing.waiting extent.first = [] := by
    rw [Listing.waiting, starts, openCalls_first]
  have spans : listing.Spans [] extent.first (stop.position + 1) :=
    Listing.Spans.ret (code.spans behind idle (List.Subset.refl _))
      behind idle ret
  rcases spans.inside position quad above (by omega) has with orderly
    | ⟨_, none, _⟩
  · exact orderly
  · cases none

end

end Easel
