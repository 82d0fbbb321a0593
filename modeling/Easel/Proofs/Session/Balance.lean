import Easel.Proofs.Session.Announced
import Easel.Proofs.Session.Arrival
import Easel.Proofs.Session.Pointers

/-!
# Announced calls are balanced

Every active function has announced the calls that are open in its code in
front of the position that it has reached.  These calls, of all active
functions, are what the machine keeps pending: an announcement adds one, a
call takes the one that it makes, and a function that returns has none left.
-/

namespace Easel

variable {code : Array Quad} {call : OpenCall} {next : Machine}

/-- A call that an active function has announced and not made. -/
structure OpenCall where
  /-- How many frames there are up to that of the function. -/
  level : Nat
  /-- Where the call is announced. -/
  position : Nat

/--
The open calls of functions with the given frames and segments, innermost
first.  The innermost function has reached a position; each of the others is
behind the call from which the frame above it was entered.
-/
def openCallsOf (code : Array Quad) :
    List Frame → List Segment → Nat → List OpenCall
  | frame :: outer, owner :: owners, position =>
    (openCalls code owner.first position).map (⟨outer.length + 1, ·⟩) ++
      openCallsOf code outer owners (frame.calledFrom + 1)
  | _, _, _ => []

/-- Frames that were entered from the same calls have the same open calls. -/
theorem openCallsOf_replace {frame other : Frame}
    (code : Array Quad)
    (outer : List Frame)
    (owners : List Segment)
    (position : Nat)
    (same : other.calledFrom = frame.calledFrom) :
    openCallsOf code (other :: outer) owners position =
      openCallsOf code (frame :: outer) owners position := by
  cases owners with
  | nil => rfl
  | cons owner owners => rw [openCallsOf, openCallsOf, same]

theorem level_le_of_mem {frames : List Frame} {owners : List Segment}
    {position : Nat}
    (member : call ∈ openCallsOf code frames owners position) :
    call.level ≤ frames.length := by
  induction frames generalizing owners position with
  | nil => cases member
  | cons frame outer induction =>
    cases owners with
    | nil => cases member
    | cons owner owners =>
      rcases List.mem_append.mp member with isTop | isBelow
      · obtain ⟨_, _, rfl⟩ := List.mem_map.mp isTop
        exact Nat.le_refl _
      · exact Nat.le_succ_of_le (induction isBelow)

theorem getElem?_reverse_cons (head : α) (rest : List α) :
    (head :: rest).reverse[rest.length]? = some head := by
  rw [List.reverse_cons, ← List.length_reverse, List.getElem?_concat_length]

/-- Passing an argument neither announces a call nor makes one. -/
theorem Exec.pending_of_param {machine left : Machine} {quad : Quad}
    {outcome : Outcome}
    (isParam : quad.operation = .param)
    (ran : execute quad machine = .ok outcome left) :
    left.pending.length = machine.pending.length := by
  have allows : AllowsStoring fun before after : Machine =>
      after.pending.length = before.pending.length :=
    { refl := fun _ => rfl
      trans := fun _ _ _ first second => second.trans first
      stored := fun _ _ _ _ _ _ _ _ => rfl
      cleared := fun _ _ _ _ _ => rfl
      shown := fun _ _ => rfl }
  have respected := pass_respects_of allows
    (fun machine frame staged outer _ _ pending _ => by rw [pending]; rfl)
    quad.left quad.right machine
  simp only [execute, isParam] at ran
  rwa [leaves_of_ok ran] at respected

/-- The next machine is the one that the next instruction leads to. -/
theorem Session.At.determined {start : Session} {now position : Nat}
    {machine left other : Machine} {quad : Quad} {outcome : Outcome}
    (reached : start.At now machine)
    (fetched : machine.code[machine.position]? = some quad)
    (ran : Exec.execute quad machine = .ok outcome left)
    (leads : outcome.destination? left.position = some position)
    (otherwise : start.At (now + 1) other) :
    other = left.arrived position := by
  obtain ⟨_, _, _, _, otherFetched, otherRan, otherLeads, rfl⟩ :=
    reached.continues otherwise
  cases fetched.symm.trans otherFetched
  cases ran.symm.trans otherRan
  cases leads.symm.trans otherLeads
  rfl

/--
An open call was announced at an earlier moment, by an instruction of the
function to which it belongs and when `depth` other calls were pending.  Ever
since, the function has been active and the call has been pending.
-/
def Session.Announced (start : Session)
    (now : Nat)
    (call : OpenCall)
    (depth : Nat) : Prop :=
  ∃ earlier machine, earlier < now ∧ start.At earlier machine ∧
    machine.position = call.position ∧ machine.frames.length = call.level ∧
    machine.pending.length = depth ∧
    ∀ moment other, earlier < moment → moment ≤ now → start.At moment other →
      call.level ≤ other.frames.length ∧ depth < other.pending.length

/-- One moment later the call is still pending. -/
theorem Session.Announced.later {start : Session} {now depth : Nat}
    (announced : start.Announced now call depth)
    (kept : ∀ other, start.At (now + 1) other →
      call.level ≤ other.frames.length ∧ depth < other.pending.length) :
    start.Announced (now + 1) call depth := by
  obtain ⟨earlier, machine, isEarlier, reached, position, level, below,
    since⟩ := announced
  refine ⟨earlier, machine, Nat.lt_succ_of_lt isEarlier, reached, position,
    level, below, ?_⟩
  intro moment other after before otherwise
  rcases Nat.lt_or_eq_of_le before with isBefore | rfl
  · exact since moment other after (Nat.le_of_lt_succ isBefore) otherwise
  · exact kept other otherwise

namespace Plan

variable {plan : Plan} {start : Session} {now : Nat} {machine left : Machine}
variable {owner : Segment} {owners : List Segment} {quad : Quad}
  {outcome : Outcome}

/--
The frames belong to functions of the program, and the pending calls are, one
by one, the open calls of these functions.
-/
structure Tallies (plan : Plan)
    (start : Session)
    (now : Nat)
    (machine : Machine)
    (owner : Segment)
    (owners : List Segment) : Prop where
  owned : Owned machine.code plan.segments plan.entry machine.frames
    (owner :: owners)
  inside : owner.Contains machine.position
  count : machine.pending.length =
    (openCallsOf machine.code machine.frames (owner :: owners)
      machine.position).length
  announced : ∀ depth call,
    (openCallsOf machine.code machine.frames (owner :: owners)
      machine.position).reverse[depth]? = some call →
      start.Announced now call depth

def listing (plan : Plan)
    (function : Function)
    (routine : Routine)
    (extent : Extent) : Listing :=
  ⟨plan.image, routine.context plan.functions plan.globals,
    function.body, extent.first⟩

/-- The next instruction belongs to a function and is orderly. -/
theorem Tallies.orderly (valid : plan.Valid)
    (sameCode : machine.code = plan.image.code)
    (tallies : plan.Tallies start now machine owner owners) :
    ∃ function routine extent, plan.Houses function routine extent ∧
      extent.first = owner.first ∧
      (∀ position, (plan.listing function routine extent).waiting position =
        openCalls machine.code owner.first position) ∧
      ∀ quad, machine.code[machine.position]? = some quad →
        (plan.listing function routine extent).Orderly
          machine.position quad := by
  obtain ⟨function, routine, extent, houses, first, above, below⟩ :=
    valid.inside tallies.owned.member tallies.inside
  refine ⟨function, routine, extent, houses, first, ?_, ?_⟩
  · intro position
    rw [sameCode, ← first]
    rfl
  · intro quad fetched
    have holds : extent.Holds (plan.listing function routine extent).image
      (plan.listing function routine extent).context
      (plan.listing function routine extent).body := houses.holds
    exact holds.orderly rfl above below (Image.has_of_code sameCode fetched)

/-- The open calls of the next machine are old or just announced. -/
theorem Tallies.of_origin (reached : start.At now machine)
    (determined : ∀ other, start.At (now + 1) other → other = next)
    (owned : Owned next.code plan.segments plan.entry next.frames
      (owner :: owners))
    (inside : owner.Contains next.position)
    (count : next.pending.length =
      (openCallsOf next.code next.frames (owner :: owners)
      next.position).length)
    (origin : ∀ depth call,
      (openCallsOf next.code next.frames (owner :: owners)
      next.position).reverse[depth]? = some call →
      start.Announced now call depth ∨
      call = ⟨machine.frames.length, machine.position⟩ ∧
      depth = machine.pending.length) :
    plan.Tallies start (now + 1) next owner owners := by
  refine ⟨owned, inside, count, ?_⟩
  intro depth call listed
  have level : call.level ≤ next.frames.length :=
    level_le_of_mem (List.mem_reverse.mp (List.mem_of_getElem? listed))
  have deep : depth < next.pending.length := by
    rw [count, ← List.length_reverse]
    exact (List.getElem?_eq_some_iff.mp listed).1
  have kept : ∀ other, start.At (now + 1) other →
      call.level ≤ other.frames.length ∧ depth < other.pending.length := by
    intro other otherwise
    rw [determined other otherwise]
    exact ⟨level, deep⟩
  rcases origin depth call listed with old | ⟨rfl, rfl⟩
  · exact old.later kept
  · refine ⟨now, machine, Nat.lt_succ_self _, reached, rfl, rfl, rfl, ?_⟩
    intro moment other after before otherwise
    cases Nat.le_antisymm before after
    exact kept other otherwise

section

variable (tallies : plan.Tallies start now machine owner owners)
  (reached : start.At now machine)
include tallies reached

/-- As many calls are pending as before, and the same ones are open. -/
theorem Tallies.of_same {other : Segment} {others : List Segment}
    (determined : ∀ after, start.At (now + 1) after → after = next)
    (owned : Owned next.code plan.segments plan.entry next.frames
      (other :: others))
    (inside : other.Contains next.position)
    (pending : next.pending.length = machine.pending.length)
    (same : openCallsOf next.code next.frames (other :: others) next.position =
      openCallsOf machine.code machine.frames (owner :: owners)
      machine.position) :
    plan.Tallies start (now + 1) next other others := by
  refine .of_origin reached determined owned inside ?_ ?_
  · rw [pending, tallies.count, same]
  · intro depth call listed
    rw [same] at listed
    exact .inl (tallies.announced depth call listed)

theorem Tallies.stays {position : Nat}
    (fetched : machine.code[machine.position]? = some quad)
    (ran : Exec.execute quad machine = .ok outcome left)
    (leads : outcome.destination? left.position = some position)
    (same : machine.SameControl left)
    (pending : left.pending.length = machine.pending.length)
    (inside : owner.Contains position)
    (alike : openCalls machine.code owner.first position =
      openCalls machine.code owner.first machine.position) :
    plan.Tallies start (now + 1) (left.arrived position) owner owners := by
  refine tallies.of_same reached (fun _ => reached.determined fetched ran leads)
    ?_ inside pending ?_
  · change Owned left.code _ _ left.frames _
    rw [same.code, same.frames]
    exact tallies.owned
  · change openCallsOf left.code left.frames _ position = _
    rw [same.code, same.frames]
    cases machine.frames with
    | nil => rfl
    | cons top outer => rw [openCallsOf, openCallsOf, alike]

/-- An announcement adds a call to those that are pending. -/
theorem Tallies.announce (fetched : machine.code[machine.position]? = some quad)
    (isEra : quad.operation = .era)
    (ran : Exec.execute quad machine = .ok outcome left)
    (inside : owner.Contains (machine.position + 1)) :
    outcome = .next ∧
      plan.Tallies start (now + 1) (left.arrived (left.position + 1))
        owner owners := by
  have isNext : outcome = .next ∧ left = { machine with
      pending := { footprint := quad.left.toNat } :: machine.pending } := by
    simp only [Exec.execute, isEra] at ran
    cases ran
    exact ⟨rfl, rfl⟩
  obtain ⟨rfl, rfl⟩ := isNext
  have more : openCallsOf machine.code machine.frames (owner :: owners)
      (machine.position + 1) = ⟨machine.frames.length, machine.position⟩ ::
        openCallsOf machine.code machine.frames (owner :: owners)
        machine.position := by
    cases frames : machine.frames with
    | nil =>
      have owned := tallies.owned
      rw [frames] at owned
      cases owned
    | cons top outer =>
      rw [openCallsOf, openCallsOf, openCalls_next tallies.inside.1 fetched,
        Quad.openBehind, isEra]
      rfl
  refine ⟨rfl, .of_origin reached (fun _ =>
    reached.determined fetched ran rfl) tallies.owned inside ?_ ?_⟩
  · change machine.pending.length + 1 =
      (openCallsOf machine.code machine.frames (owner :: owners)
        (machine.position + 1)).length
    rw [more, List.length_cons, tallies.count]
  · intro depth call listed
    change (openCallsOf machine.code machine.frames (owner :: owners)
      (machine.position + 1)).reverse[depth]? = _ at listed
    rw [more] at listed
    rcases Nat.lt_or_ge depth machine.pending.length with isOld | isNew
    · rw [tallies.count, ← List.length_reverse] at isOld
      rw [List.reverse_cons, List.getElem?_append_left isOld] at listed
      exact .inl (tallies.announced depth call listed)
    · have bound := (List.getElem?_eq_some_iff.mp listed).1
      rw [List.length_reverse, List.length_cons, ← tallies.count] at bound
      have last : depth = machine.pending.length :=
        Nat.le_antisymm (Nat.le_of_lt_succ bound) isNew
      rw [last, tallies.count, getElem?_reverse_cons] at listed
      cases listed
      exact .inr ⟨rfl, last⟩

end

section

variable {position : Nat} (valid : plan.Valid)
  (sameCode : machine.code = plan.image.code)
  (tallies : plan.Tallies start now machine owner owners)
  (reached : start.At now machine)
  (fetched : machine.code[machine.position]? = some quad)
include valid sameCode tallies reached fetched

/-- A call takes the innermost pending call and enters its function. -/
theorem Tallies.enter {outer : List Nat}
    (isCall : quad.operation = .call)
    (ran : Exec.execute quad machine = .ok outcome left)
    (opens : openCalls machine.code owner.first machine.position =
      position :: outer) :
    ∃ target callee, outcome.destination? left.position = some target ∧
      plan.Tallies start (now + 1) (left.arrived target) callee
        (owner :: owners) := by
  have outline : Outline plan.program plan.entry machine.code
      plan.segments := by
    rw [sameCode]
    exact valid.outline
  have determined : ∀ next target,
      outcome.destination? left.position = some target →
      start.At (now + 1) next → next = left.arrived target :=
    fun _ _ => reached.determined fetched ran
  rw [Exec.execute_call isCall] at ran
  obtain ⟨callee, _, caller, below, _, pending, frames, _, rfl, rfl⟩ :=
    Exec.enter_ok ran
  obtain ⟨target, inSegments, leads⟩ :=
    outline.call_leads tallies.owned.member tallies.inside fetched isCall
  have isTarget : quad.left.toNat = target.first := by
    rw [leads]
    exact Int.toNat_natCast _
  have owned := tallies.owned
  have count := tallies.count
  have entries := tallies.announced
  rw [frames] at owned count entries
  have fewer : openCallsOf machine.code (caller :: below) (owner :: owners)
      machine.position = ⟨below.length + 1, position⟩ ::
        openCallsOf machine.code
          (Exec.entered callee machine.position ::
            Exec.suspended caller machine.memory :: below)
          (target :: owner :: owners) target.first := by
    have behind : openCalls machine.code owner.first
        ((Exec.entered callee machine.position).calledFrom + 1) = outer := by
      rw [Exec.entered, openCalls_next tallies.inside.1 fetched,
        Quad.openBehind, isCall, opens, List.tail_cons]
    rw [openCallsOf, openCallsOf, openCallsOf, openCalls_first, behind, opens]
    rfl
  refine ⟨target.first, target, congrArg some isTarget,
    .of_origin reached (fun next =>
      determined next _ (congrArg some isTarget)) ?_
      (outline.contains_first inSegments) ?_ ?_⟩
  · exact .call (owned.replace rfl) fetched isCall tallies.inside
      inSegments leads
  · rw [fewer, List.length_cons, pending, List.length_cons] at count
    exact Nat.succ.inj count
  · intro depth call listed
    refine .inl (entries depth call ?_)
    rw [fewer, List.reverse_cons]
    exact (List.getElem?_append_left
      (List.getElem?_eq_some_iff.mp listed).1).trans listed

/-- A function that returns leaves no pending call behind. -/
theorem Tallies.leave (isReturn : quad.operation = .ret)
    (ran : Exec.execute quad machine = .ok outcome left)
    (none : openCalls machine.code owner.first machine.position = []) :
    (outcome = .halt ∧ left.frames = [] ∧ left.pending = []) ∨
      ∃ target caller callers,
        outcome.destination? left.position = some target ∧
        plan.Tallies start (now + 1) (left.arrived target) caller callers := by
  have determined : ∀ next target,
      outcome.destination? left.position = some target →
      start.At (now + 1) next → next = left.arrived target :=
    fun _ _ => reached.determined fetched ran
  have owned := tallies.owned
  rw [Exec.execute_ret isReturn] at ran
  rcases Exec.leave_ok ran with
    ⟨callee, frames, rfl, rfl⟩ |
    ⟨callee, waiting, below, _, _, _, memory, frames, _, _, _, _, rfl, rfl⟩
  · refine .inl ⟨rfl, rfl, List.eq_nil_of_length_eq_zero ?_⟩
    change machine.pending.length = 0
    rw [tallies.count, frames, openCallsOf, none]
    rfl
  · rw [frames] at owned
    cases owned with
    | @call _ _ _ _ calling callers _ callerOwned calledAt siteIsCall
        calledInside =>
      refine .inr ⟨callee.calledFrom + 1, calling, callers, rfl,
        tallies.of_same reached (fun next => determined next _ rfl)
          (callerOwned.replace rfl) ?_ rfl ?_⟩
      · rw [sameCode] at calledAt
        refine valid.outline.contains_next callerOwned.member
          calledInside calledAt ?_
        rw [siteIsCall]
        exact Operation.noConfusion
      · have top : openCallsOf machine.code (callee :: waiting :: below)
            (owner :: calling :: callers) machine.position =
              openCallsOf machine.code (waiting :: below) (calling :: callers)
                (callee.calledFrom + 1) := by
          rw [openCallsOf, none]
          rfl
        rw [frames, top]
        exact openCallsOf_replace machine.code below _ _ rfl

/-- One instruction keeps the account of the pending calls. -/
theorem Tallies.execute (ran : Exec.execute quad machine = .ok outcome left) :
    (outcome = .halt ∧ left.frames = [] ∧ left.pending = []) ∨
      ∃ position other others,
        outcome.destination? left.position = some position ∧
        plan.Tallies start (now + 1) (left.arrived position) other others := by
  obtain ⟨_, _, _, _, _, waits, isOrderly⟩ := tallies.orderly valid sameCode
  have orderly := isOrderly quad fetched
  have outline : Outline plan.program plan.entry machine.code
      plan.segments := by
    rw [sameCode]
    exact valid.outline
  by_cases isCall : quad.operation = .call
  · obtain ⟨_, _, _, _, opens⟩ := orderly.call isCall
    rw [waits] at opens
    obtain ⟨target, callee, leads, after⟩ :=
      tallies.enter valid sameCode reached fetched isCall ran opens
    exact .inr ⟨target, callee, _, leads, after⟩
  by_cases isReturn : quad.operation = .ret
  · have none := orderly.ret isReturn
    rw [waits] at none
    exact tallies.leave valid sameCode reached fetched isReturn ran none
  right
  have same := Exec.sameControl_of_execute isCall isReturn ran
  have next := outline.contains_next tallies.owned.member tallies.inside
    fetched isReturn
  have behind := openCalls_next tallies.inside.1 fetched
  by_cases isEra : quad.operation = .era
  · obtain ⟨rfl, after⟩ := tallies.announce reached fetched isEra ran next
    exact ⟨_, owner, owners, rfl, after⟩
  by_cases isParam : quad.operation = .param
  · have straight : quad.operation.isStraight = true := by rw [isParam]; rfl
    cases Exec.next_of_execute straight isReturn ran
    refine ⟨_, owner, owners, rfl, tallies.stays reached fetched ran rfl same
      (Exec.pending_of_param isParam ran) ?_ ?_⟩
    all_goals rw [same.position]
    · exact next
    · rw [behind, Quad.openBehind, isParam]
  have quiet : quad.operation.isQuiet = true := by
    cases operation : quad.operation <;> simp_all [Operation.isQuiet]
  rw [Quad.openBehind_of_quiet _ _ quiet] at behind
  have pending := congrArg List.length
    (Exec.sameCalls_of_execute quiet ran).pending
  have goesOn : outcome = .next → ∃ position other others,
      outcome.destination? left.position = some position ∧
        plan.Tallies start (now + 1) (left.arrived position) other others := by
    rintro rfl
    refine ⟨_, owner, owners, rfl,
      tallies.stays reached fetched ran rfl same pending ?_ ?_⟩
    all_goals rw [same.position]
    · exact next
    · exact behind
  by_cases isJump : quad.operation.isJump = true
  · obtain ⟨_, _, enclosed⟩ := outline.encloses tallies.owned.member
    obtain ⟨target, leads, contained⟩ := enclosed.jumps quad
      (List.mem_of_getElem? (outline.fetched tallies.owned.member tallies.inside
        fetched)) isJump
    rcases Exec.jump_of_execute isJump leads ran with isNext | rfl
    · exact goesOn isNext
    · obtain ⟨here, there⟩ := orderly.jump isJump
      have lands := there target leads
      rw [waits] at here lands
      exact ⟨target, owner, owners, rfl,
        tallies.stays reached fetched ran rfl same pending contained
        (lands.trans here.symm)⟩
  · have straight : quad.operation.isStraight = true := by
      simp [Operation.isStraight, isJump, isCall]
    exact goesOn (Exec.next_of_execute straight isReturn ran)

end

end Plan

/--
The innermost pending call is one that is written in a function, where its
arguments are passed by the given passages and it is made at a position; it
was announced there, by the frame that is on top.
-/
def Listing.Innermost (listing : Listing)
    (start : Session)
    (now : Nat)
    (machine : Machine)
    (passages : List Passage)
    (enter : Nat) : Prop :=
  ∃ announce depth, listing.Makes announce passages enter ∧
    machine.pending.length = depth + 1 ∧
    start.Announced now ⟨machine.frames.length, announce⟩ depth

/--
The pending calls are the open calls of the active functions.  If the next
instruction returns, its function has none of them; if it passes an argument
or makes a call, then to or of the innermost one, which is its own.
-/
structure Plan.Balanced (plan : Plan)
    (start : Session)
    (now : Nat)
    (machine : Machine)
    (owner : Segment)
    (owners : List Segment) :
    Prop extends plan.Tallies start now machine owner owners where
  instruction : ∃ function routine extent, plan.Houses function routine extent ∧
    extent.first = owner.first ∧
      ∀ quad, machine.code[machine.position]? = some quad →
      (quad.operation = .ret →
        openCalls machine.code owner.first machine.position = []) ∧
        (quad.operation = .param →
          ∃ passages enter,
          (plan.listing function routine extent).Innermost start now machine
          passages enter ∧ machine.position ∈ passages.map (·.position)) ∧
      (quad.operation = .call → ∃ passages,
        (plan.listing function routine extent).Innermost start now
          machine passages machine.position)

theorem Plan.Tallies.balanced {plan : Plan} {start : Session} {now : Nat}
    {machine : Machine} {owner : Segment} {owners : List Segment}
    (valid : plan.Valid)
    (sameCode : machine.code = plan.image.code)
    (tallies : plan.Tallies start now machine owner owners) :
    plan.Balanced start now machine owner owners := by
  obtain ⟨function, routine, extent, houses, first, waits, orderly⟩ :=
    tallies.orderly valid sameCode
  -- The innermost open call of the frame on top is the last one that was
  -- announced.
  have top : ∀ announce outer,
      openCalls machine.code owner.first machine.position = announce :: outer →
      ∃ depth, machine.pending.length = depth + 1 ∧
        start.Announced now ⟨machine.frames.length, announce⟩ depth := by
    intro announce outer opens
    obtain ⟨owned, _, count, announced⟩ := tallies
    cases frames : machine.frames with
    | nil =>
      rw [frames] at owned
      cases owned
    | cons frame below =>
      rw [frames, openCallsOf, opens, List.map_cons,
        List.cons_append] at count announced
      exact ⟨_, count, announced _ _ (getElem?_reverse_cons ..)⟩
  refine ⟨tallies, function, routine, extent, houses, first, ?_⟩
  intro quad fetched
  have isOrderly := orderly quad fetched
  refine ⟨fun isReturn => (waits _).symm.trans (isOrderly.ret isReturn), ?_, ?_⟩
  · intro isParam
    obtain ⟨announce, passages, enter, outer, makes, inside, opens⟩ :=
      isOrderly.param isParam
    obtain ⟨depth, deep, announced⟩ :=
      top announce outer ((waits _).symm.trans opens)
    exact ⟨passages, enter, ⟨announce, depth, makes, deep, announced⟩, inside⟩
  · intro isCall
    obtain ⟨announce, passages, outer, makes, opens⟩ := isOrderly.call isCall
    obtain ⟨depth, deep, announced⟩ :=
      top announce outer ((waits _).symm.trans opens)
    exact ⟨passages, announce, depth, makes, deep, announced⟩

/-! ## Runs -/

/-- Whether the window was closed when the screen was last asked. -/
def Screen.isClosed (screen : Screen) : Bool :=
  screen.closeAfter.any (· ≤ screen.polls)

namespace Session

variable {plan : Plan} {start session : Session}

/-- No call is pending before the first function; later all have accounts. -/
structure Accounted (plan : Plan) (start session : Session) : Prop where
  onTrack : OnTrack plan.program plan.entry plan.image.code
    plan.segments session
  early : session.executed ≤ plan.program.globals.length →
    session.machine.pending = []
  late : plan.program.globals.length < session.executed →
    ∃ owner owners,
      plan.Tallies start session.executed session.machine owner owners

/-- One instruction keeps the account of a session, or ends the program. -/
theorem Accounted.executes {quad : Quad} {outcome : Outcome} {left : Machine}
    (valid : plan.Valid)
    (reached : start.At session.executed session.machine)
    (accounted : Accounted plan start session)
    (executes : session.Executes quad outcome left) :
    (outcome = .halt ∧ left.frames = [] ∧ left.pending = []) ∨
      ∃ position, outcome.destination? left.position = some position ∧
        Accounted plan start (session.counted (left.arrived position)) := by
  have sameCode := accounted.onTrack.sameCode
  rcases accounted.onTrack.place with ⟨early, isExecuted, _, frames⟩
    | ⟨isLate, _⟩
  · have none := accounted.early early
    have quiet : quad.operation.isQuiet = true := by
      rcases Nat.lt_or_eq_of_le early with before | behind
      · rw [OnTrack.zeroes valid.outline sameCode (isExecuted ▸ before)
          executes.fetched]
        rfl
      · obtain ⟨_, _, _, rfl⟩ := OnTrack.jumps valid.outline sameCode
          (isExecuted.trans behind) executes.fetched
        rfl
    have same := Exec.sameCalls_of_execute quiet executes.ran
    rcases accounted.onTrack.executes valid.outline executes with
      ⟨_, noFrames⟩ | ⟨position, leads, onTrack⟩
    · rw [same.frames, frames] at noFrames
      cases noFrames
    refine .inr ⟨position, leads, onTrack, fun _ => same.pending.trans none, ?_⟩
    -- The jump behind the instructions for the global variables leads into the
    -- first function.
    intro isLate
    obtain ⟨segment, member, named, rfl⟩ := OnTrack.jumps valid.outline sameCode
      (isExecuted.trans (Nat.le_antisymm early (Nat.le_of_lt_succ isLate)))
      executes.fetched
    have ran := executes.ran
    rw [Exec.execute_jump] at ran
    cases ran
    cases leads
    have opens : openCallsOf session.machine.code session.machine.frames
        [segment] segment.first = [] := by
      rw [frames, openCallsOf, openCalls_first]
      rfl
    refine ⟨segment, [], ?_, valid.outline.contains_first member, ?_, ?_⟩
    · change Owned _ _ _ session.machine.frames _
      rw [frames]
      exact .start member named
    · exact (congrArg List.length none).trans (congrArg List.length opens).symm
    · intro depth call listed
      cases (congrArg (·.reverse[depth]?) opens).symm.trans listed
  · obtain ⟨_, _, tallies⟩ := accounted.late isLate
    rcases tallies.execute valid sameCode reached executes.fetched
        executes.ran with
      ended | ⟨position, other, others, leads, after⟩
    · exact .inl ended
    · rcases accounted.onTrack.executes valid.outline executes with
        ⟨rfl, _⟩ | ⟨target, leadsTo, onTrack⟩
      · cases leads
      · cases leads.symm.trans leadsTo
        exact .inr ⟨position, leads, onTrack,
          fun early => absurd early (Nat.not_le.mpr (Nat.lt_succ_of_lt isLate)),
          fun _ => ⟨other, others, after⟩⟩

/-- The account is kept over a whole run. -/
theorem Accounted.runFor {moment : Nat}
    (valid : plan.Valid)
    (begins : start.executed = 0)
    (initially : Accounted plan start start)
    (goesOn : start.runFor moment = .running session) :
    session.executed = moment ∧ Accounted plan start session := by
  induction moment generalizing session with
  | zero =>
    cases goesOn
    exact ⟨begins, initially⟩
  | succ moment induction =>
    obtain ⟨before, ran, stepped⟩ := runFor_succ_running goesOn
    obtain ⟨rfl, accounted⟩ := induction ran
    obtain ⟨_, _, _, _, executes, leads, rfl⟩ := step_running stepped
    refine ⟨rfl, ?_⟩
    rcases accounted.executes valid ⟨before, ran, rfl⟩ executes with
      ⟨rfl, _⟩ | ⟨target, leadsTo, after⟩
    · cases leads
    · cases leads.symm.trans leadsTo
      exact after

/-- A session that is on track has a next instruction. -/
theorem OnTrack.fetches {program : Program} {entry : String}
    {segments : List Segment}
    (outline : Outline program entry code segments)
    (onTrack : OnTrack program entry code segments session) :
    session.machine.code[session.machine.position]? ≠ none := by
  rw [onTrack.sameCode]
  rcases onTrack.place with ⟨_, isExecuted, _⟩
    | ⟨_, owner, _, owned, above, below⟩
  · obtain ⟨_, _, text, _, _⟩ := outline.text
    rw [← Array.getElem?_toList, text, isExecuted, ne_eq,
      List.getElem?_eq_none_iff, List.length_append, List.length_cons]
    omega
  · unfold Segment.stop at below
    have bound : session.machine.position - owner.first <
      owner.code.length := by omega
    have found := outline.getElem? owned.member bound
    rw [Nat.add_sub_cancel' above, List.getElem?_eq_getElem bound] at found
    rw [found]
    exact Option.some_ne_none _

/-- A run that ends without a fault or a closed window has no open call. -/
theorem Accounted.stopped {last : Session} {fuel : Nat}
    (valid : plan.Valid)
    (begins : start.executed = 0)
    (initially : Accounted plan start start)
    (ended : start.runFor fuel = .stopped last none) :
    (last.machine.Halted ∧ last.machine.pending = []) ∨
      (last.machine.screen.isClosed = true ∧ Accounted plan start last) := by
  obtain ⟨_, before, _, ran, stepped⟩ := runFor_stopped ended
  obtain ⟨rfl, accounted⟩ := initially.runFor valid begins ran
  rcases step_stopped stepped with ⟨nothing, _⟩ | ⟨quad, outcome, left,
    executes, ends⟩
  · exact absurd nothing (accounted.onTrack.fetches valid.outline)
  · rcases accounted.executes valid ⟨before, ran, rfl⟩ executes with
      ⟨rfl, noFrames, noCalls⟩ | ⟨position, leads, after⟩
    · rcases ends with ⟨_, rfl⟩ | ⟨_, leads, _⟩
      · exact .inl ⟨⟨noFrames, rfl⟩, noCalls⟩
      · cases leads
    · rw [executes.step_eq, follow_eq (before.counted left) leads] at stepped
      split at stepped
      · rename_i closed
        cases stepped
        exact .inr ⟨closed, after⟩
      · cases stepped

/-- What the account says about the pending calls. -/
theorem Accounted.balanced (valid : plan.Valid)
    (accounted : Accounted plan start session) :
    (session.executed ≤ plan.program.globals.length ∧
      session.machine.frames.length = 1 ∧ session.machine.pending = []) ∨
    ∃ owner owners,
      plan.Balanced start session.executed session.machine owner owners := by
  rcases accounted.onTrack.place with ⟨early, _, _, frames⟩ | ⟨late, _⟩
  · exact .inl ⟨early, by rw [frames]; rfl, accounted.early early⟩
  · obtain ⟨owner, owners, tallies⟩ := accounted.late late
    exact .inr ⟨owner, owners,
      tallies.balanced valid accounted.onTrack.sameCode⟩

end Session

/--
Announcements, arguments and calls are balanced in every run of a compiled
program.  Before the first function is entered no call is pending.  From then
on the pending calls are, one by one, those that are open in the code of the
active functions in front of the positions that they have reached.  An
argument is passed to the call that it is written for, and a call is made of
what was announced for it, by the same frame; a function that returns leaves
none of its calls pending; and when the program has come to its end, which
without a closed window is the only way to stop without a fault, there is
neither a pending call nor a frame.
-/
theorem Session.calls_balanced {source entry : String} {program : Program}
    {executable : Executable} {screen : Screen} {machine : Machine}
    {limit : Option Nat} {fuel : Nat}
    (parsed : Program.parse source = .ok program)
    (listsFit : program.ListsFit)
    (compiled : program.compile entry = .ok executable)
    (loaded : Machine.load executable screen = .ok machine)
    (noFault : (Session.runFor fuel { machine, limit }).fault? = none) :
    ∃ (plan : Plan), plan.program = program ∧ plan.entry = entry ∧
      plan.image.code = executable.code ∧ plan.Valid ∧
      let progress := Session.runFor fuel { machine, limit }
      let last := progress.session
      (last.machine.Halted ∧ last.machine.pending = []) ∨
      ((progress.goesOn = true ∨ last.machine.screen.isClosed = true) ∧
        ((last.executed ≤ program.globals.length ∧
          last.machine.frames.length = 1 ∧ last.machine.pending = []) ∨
        ∃ owner owners,
          plan.Balanced { machine, limit } last.executed last.machine owner
          owners)) := by
  obtain ⟨image, placed, segments, _, sameCode, _, valid, prepared⟩ :=
    Plan.of_compile limit parsed listsFit compiled loaded
  refine ⟨_, rfl, rfl, sameCode, valid, ?_⟩
  have initially : Accounted ⟨program, entry, image, placed.functions,
      placed.globals, segments⟩
      { machine, limit } { machine, limit } := by
    obtain ⟨_, _, rfl⟩ := Machine.load_ok loaded
    exact ⟨prepared.onTrack, fun _ => rfl, fun late =>
      absurd late (Nat.not_lt_zero _)⟩
  cases ran : Session.runFor fuel { machine, limit } with
  | running last =>
    obtain ⟨_, accounted⟩ := initially.runFor valid rfl ran
    exact .inr ⟨.inl rfl, accounted.balanced valid⟩
  | stopped last fault =>
    rw [ran] at noFault
    cases noFault
    exact (initially.stopped valid rfl ran).imp_right
      fun ⟨closed, accounted⟩ => ⟨.inr closed, accounted.balanced valid⟩

/-- The inner call of `nestedArguments` runs while the outer one waits. -/
theorem Session.calls_balanced_nestedArguments :
    ∃ (program : Program) (executable : Executable) (machine : Machine)
      (session : Session), Program.parse nestedArguments = .ok program ∧
      program.ListsFit ∧ program.compile "main" = .ok executable ∧
      Machine.load executable {} = .ok machine ∧
      Session.runFor 17 { machine } = .running session ∧
      session.machine.frames.length = 2 ∧ session.machine.pending.length = 1 ∧
      ∃ (plan : Plan) (owner : Segment) (owners : List Segment),
      plan.program = program ∧
        plan.image.code = executable.code ∧ plan.Valid ∧
        plan.Balanced { machine } session.executed session.machine
          owner owners := by
  have evaluated : (do
      let program ← (Program.parse nestedArguments).toOption
      let executable ← (program.compile "main").toOption
      let machine ← (Machine.load executable {}).toOption
      let last := ({ machine } : Session).runFor 17
      if program.ListsFit ∧ last.goesOn ∧
          last.session.machine.frames.length = 2 ∧
          last.session.machine.pending.length = 1 then
        some (program, executable, machine, last.session)
      else none).isSome = true := by
    decide +kernel
  simp only [Option.isSome_iff_exists, bind, Option.bind_eq_some_iff,
    toOption_eq_some, Option.ite_none_right_eq_some] at evaluated
  obtain ⟨_, program, parsed, executable, compiled, machine, loaded,
    ⟨listsFit, goesOn, frames, pending⟩, _⟩ := evaluated
  have reached := Progress.eq_running goesOn
  have noFault : (Session.runFor 17 { machine }).fault? = none := by
    rw [reached]
    rfl
  obtain ⟨plan, sameProgram, _, sameCode, valid, balanced⟩ :=
    calls_balanced parsed listsFit compiled loaded noFault
  refine ⟨program, executable, machine, _, parsed, listsFit, compiled, loaded,
    reached, frames, pending, plan, ?_⟩
  rcases balanced with ⟨⟨noFrames, _⟩, _⟩
    | ⟨_, ⟨_, one, _⟩ | ⟨owner, owners, holds⟩⟩
  · rw [noFrames] at frames
    cases frames
  · rw [one] at frames
    cases frames
  · exact ⟨owner, owners, sameProgram, sameCode, valid, holds⟩

end Easel
