import Easel.Proofs.Space.Requests

/-!
# The pool of literals

A space keeps the literals that it was asked for in a pool.  Whatever else it
is asked for in between, a literal keeps the slot that it was given first, two
literals never share a slot, and the pool lists each of them once, in the order
in which they were first answered, behind the literals of the zero values.
-/

namespace Easel

variable {element : Element} {text : String} {constant : Constant} {type : Ty}
variable {address : Address} {other : Space} {requests : List Request}

/-- What tells one literal from another. -/
def Constant.key (constant : Constant) : Element × String :=
  (constant.element, constant.text)

namespace Space

/-- A literal is asked for as a single value of a type that is stored. -/
def Request.Single (request : Request) : Prop :=
  ∀ text type, request = .literal text type → ∃ element, element ≠ .void ∧
    type = .basic element

/-- The literal with which a request is answered. -/
def answered? (space : Space) : Request → Option Constant
  | .literal text type =>
    match space.intern text type with
    | .ok (address, _) => some ⟨text, type.element, address⟩
    | .error _ => none
  | _ => none

/-- The literals with which requests are answered in turn. -/
def answered (space : Space) : List Request → List Constant
  | [] => []
  | request :: rest =>
    (space.answered? request).toList ++ (space.after request).answered rest

/-! ## One request -/

theorem constant?_eq_none_iff {space : Space} :
    space.constant? element text = none ↔
      ∀ constant ∈ space.constants, constant.key ≠ (element, text) := by
  simp only [constant?, List.find?_eq_none, Constant.key, Bool.and_eq_true,
    beq_iff_eq, ne_eq, Prod.mk.injEq]

theorem constant?_eq_some {space : Space}
    (found : space.constant? element text = some constant) :
    constant = ⟨text, element, constant.address⟩ ∧
      constant ∈ space.constants := by
  have matched := List.find?_some found
  simp only [Bool.and_eq_true, beq_iff_eq] at matched
  obtain ⟨rfl, rfl⟩ := matched
  exact ⟨rfl, List.mem_of_find?_eq_some found⟩

/-- A request for the slot of a literal, and the literal if it is answered. -/
theorem answered?_of_respond {space left : Space}
    (granted : space.respond (.literal text type) = .ok (some address, left)) :
    space.answered? (.literal text type) =
      some ⟨text, type.element, address⟩ := by
  cases interned : space.intern text type with
  | error problem =>
    rw [respond, interned] at granted
    cases granted
  | ok answer =>
    rw [respond, interned] at granted
    cases granted
    simp only [answered?, interned]

/--
What a request does to the pool.  Either nothing, and then a literal that it is
answered with was there before, or it adds the literal that it is answered with.
-/
theorem pool_after (space : Space) (request : Request) :
    ((space.after request).constants = space.constants ∧
      ∀ constant, space.answered? request = some constant →
        constant ∈ space.constants) ∨
    ∃ text type address, request = .literal text type ∧
      space.constant? type.element text = none ∧
      space.Grants request .constant type address ∧
      space.answered? request = some ⟨text, type.element, address⟩ ∧
      (space.after request).constants = space.constants ++
        [⟨text, type.element, address⟩] := by
  cases request with
  | reserve region type =>
    refine .inl ⟨?_, fun _ answers => by cases answers⟩
    cases granted : space.next region type with
    | error problem => simp only [after, respond, granted, Except.map]
    | ok answer =>
      simp only [after, respond, granted, Except.map]
      exact (next_kept granted).1
  | temporary type =>
    refine .inl ⟨?_, fun _ answers => by cases answers⟩
    by_cases isVoid : type.isVoid = true
    · simp only [after, respond, nextTemp, isVoid, if_true, Except.map]
    · cases granted : space.next .temp type with
      | error problem =>
        simp only [after, respond, nextTemp, if_neg isVoid, granted, Except.map]
      | ok answer =>
        simp only [after, respond, nextTemp, if_neg isVoid, granted, Except.map]
        exact (next_kept granted).1
  | resetLocal | resetTemp =>
    exact .inl ⟨rfl, fun _ answers => by cases answers⟩
  | literal text type =>
    cases known : space.constant? type.element text with
    | some constant =>
      refine .inl ⟨?_, ?_⟩
      · simp only [after, respond, intern, known, Except.map]
      · intro other answers
        simp only [answered?, intern, known, Option.some.injEq] at answers
        obtain ⟨same, member⟩ := constant?_eq_some known
        rw [← answers, ← same]
        exact member
    | none =>
      cases granted : space.next .constant type with
      | error problem =>
        refine .inl ⟨?_, ?_⟩
        · simp only [after, respond, intern, known, granted, bind,
            Except.bind, Except.map]
        · intro other answers
          simp [answered?, intern, known, granted, bind, Except.bind] at answers
      | ok answer =>
        refine .inr ⟨text, type, answer.1, rfl, known,
          ⟨by simp [asked?, known], ?_⟩, ?_, ?_⟩
        · simp only [respond, intern, known, granted, bind, Except.bind,
            Except.map, pure, Except.pure]
          exact ⟨_, rfl⟩
        · simp only [answered?, intern, known, granted, bind, Except.bind,
            pure, Except.pure]
        · simp only [after, respond, intern, known, granted, bind,
            Except.bind, Except.map, pure, Except.pure, (next_kept granted).1]

theorem constants_prefix_after (space : Space) (request : Request) :
    space.constants <+: (space.after request).constants := by
  rcases space.pool_after request with ⟨same, _⟩ | ⟨_, _, _, _, _, _, _, more⟩
  · rw [same]
  · rw [more]
    exact List.prefix_append _ _

/-- A literal that a request is answered with is in the pool from then on. -/
theorem mem_constants_after {space : Space} {request : Request}
    (answers : space.answered? request = some constant) :
    constant ∈ (space.after request).constants := by
  rcases space.pool_after request with ⟨same, known⟩
    | ⟨_, _, _, _, _, _, isNew, more⟩
  · rw [same]
    exact known constant answers
  · rw [answers, Option.some.injEq] at isNew
    rw [more, isNew]
    exact List.mem_append_right _ List.mem_cons_self

theorem eraseDups_of_nodup {constants : List Constant}
    (distinct : constants.Nodup) :
    constants.eraseDups = constants := by
  induction constants with
  | nil => rfl
  | cons first rest ih =>
    obtain ⟨apart, distinctRest⟩ := List.nodup_cons.mp distinct
    have others : rest.filter (fun other => !other == first) = rest := by
      rw [List.filter_eq_self]
      intro other member
      simpa using fun same : other = first => apart (same ▸ member)
    rw [List.eraseDups_cons, others, ih distinctRest]

/-! ## Slots of literals -/

/-- Every literal is listed once and has a taken slot of its own. -/
structure Pool (space : Space) : Prop where
  placed : ∀ constant ∈ space.constants, ∃ offset : Nat,
    segmentBase? .constant constant.element = some (constant.address - offset) ∧
      (offset : Int) < space.used .constant constant.element
  keys : (space.constants.map Constant.key).Nodup
  addresses : (space.constants.map (·.address)).Nodup

namespace Pool

variable {space : Space} {request : Request}

section

variable (pool : space.Pool)
include pool

/-- The slot of a literal is in its type's segment, before what is left. -/
theorem locate (valid : space.Valid) (member : constant ∈ space.constants) :
    ∃ offset : Nat,
      locate? constant.address = some ⟨.constant, constant.element, offset⟩ ∧
      (offset : Int) < space.used .constant constant.element := by
  obtain ⟨offset, start, taken⟩ := pool.placed constant member
  have room := (valid .constant).room constant.element
  have located := locate?_segment start (show offset < segmentSize by omega)
  rw [Int.sub_add_cancel] at located
  exact ⟨offset, located, taken⟩

theorem congr (constants : other.constants = space.constants)
    (grown : ∀ element, space.used .constant element ≤
      other.used .constant element) :
    other.Pool := by
  refine ⟨?_, constants ▸ pool.keys, constants ▸ pool.addresses⟩
  intro constant member
  obtain ⟨offset, start, taken⟩ := pool.placed constant (constants ▸ member)
  exact ⟨offset, start, Int.lt_of_lt_of_le taken (grown _)⟩

/-- The pool with a new literal in the first slot that is left. -/
theorem concat (valid : space.Valid)
    (isNew : space.constant? type.element text = none)
    (filled : 0 < type.slotCount)
    (extended : space.Extends other .constant type address)
    (grown : ∀ element, space.used .constant element ≤
      other.used .constant element)
    (constants : other.constants = space.constants ++
      [⟨text, type.element, address⟩]) :
    other.Pool := by
  have taken := (valid .constant).taken type.element
  have room := extended.room
  have number : ((space.used .constant type.element).toNat : Int) =
      space.used .constant type.element := Int.toNat_of_nonneg taken
  have start : segmentBase? .constant type.element =
      some (address - (space.used .constant type.element).toNat) := by
    rw [number]
    exact extended.start
  have counted : other.used .constant type.element =
      space.used .constant type.element + type.slotCount := by
    rw [extended.counters]
    exact if_pos ⟨rfl, rfl⟩
  have located := locate?_segment start
    (show (space.used .constant type.element).toNat < segmentSize by omega)
  rw [Int.sub_add_cancel] at located
  refine ⟨?_, ?_, ?_⟩
  · rw [constants]
    intro constant member
    rcases List.mem_append.mp member with older | newest
    · obtain ⟨offset, olderStart, before⟩ := pool.placed constant older
      exact ⟨offset, olderStart, Int.lt_of_lt_of_le before (grown _)⟩
    · cases List.mem_singleton.mp newest
      exact ⟨_, start, by dsimp only; omega⟩
  · rw [constants, List.map_append, List.nodup_append]
    refine ⟨pool.keys, List.nodup_singleton _, ?_⟩
    intro key older other newest
    obtain ⟨constant, member, rfl⟩ := List.mem_map.mp older
    cases List.mem_singleton.mp newest
    exact constant?_eq_none_iff.mp isNew constant member
  · rw [constants, List.map_append, List.nodup_append]
    refine ⟨pool.addresses, List.nodup_singleton _, ?_⟩
    intro slot older other newest same
    obtain ⟨constant, member, rfl⟩ := List.mem_map.mp older
    cases List.mem_singleton.mp newest
    obtain ⟨offset, olderLocated, before⟩ := pool.locate valid member
    -- two literals at one address would lie in one segment, the older one
    -- before the newest
    rw [same, located, Option.some.injEq, Location.mk.injEq] at olderLocated
    obtain ⟨_, sameElement, _⟩ := olderLocated
    rw [← sameElement] at before
    omega

theorem after (valid : space.Valid)
    (countable : request.Countable)
    (single : request.Single) :
    (space.after request).Pool := by
  have grown (element : Element) :=
    used_le_after element valid countable (empties?_ne_constant request)
  rcases space.pool_after request with
    ⟨same, _⟩ | ⟨text, type, address, isLiteral, isNew, granted, _, more⟩
  · exact pool.congr same grown
  · obtain ⟨element, _, rfl⟩ := single text type isLiteral
    refine pool.concat valid isNew ?_
      (extends_of_grants valid countable granted) grown more
    rw [Ty.slotCount_basic]
    exact element.slotWidth_pos

/-- The pool lists no literal twice: an answer is added unless it is there. -/
theorem constants_after :
    (space.after request).constants =
      (space.constants ++ (space.answered? request).toList).eraseDups := by
  have listed : space.constants.eraseDups = space.constants :=
    eraseDups_of_nodup (List.Nodup.of_map _ pool.keys)
  rw [List.eraseDups_append, listed]
  rcases space.pool_after request with ⟨same, known⟩ |
    ⟨text, type, address, _, isNew, _, answers, more⟩
  · have nothing : (space.answered? request).toList.removeAll
        space.constants = [] := by
      rw [List.removeAll, List.filter_eq_nil_iff]
      intro constant member
      simpa using known constant (Option.mem_toList.mp member)
    rw [same, nothing, List.eraseDups_nil, List.append_nil]
  · have missing : ⟨text, type.element, address⟩ ∉ space.constants :=
        fun member =>
      constant?_eq_none_iff.mp isNew _ member rfl
    rw [more, answers, Option.toList_some, List.removeAll,
      List.filter_singleton]
    simp [missing, List.eraseDups_cons]

theorem known (member : constant ∈ space.constants)
    (same : constant.key = (element, text)) :
    space.constant? element text = some constant := by
  cases found : space.constant? element text with
  | none => exact absurd same (constant?_eq_none_iff.mp found constant member)
  | some other =>
    obtain ⟨isOther, otherMember⟩ := constant?_eq_some found
    have sameKey : other.key = constant.key := by
      rw [isOther, same]
      rfl
    rw [List.inj_on_of_nodup_map pool.keys otherMember member sameKey]

end

end Pool

/-! ## Requests in turn -/

theorem fresh_pool : fresh.Pool := by
  refine ⟨?_, by decide, by decide⟩
  intro zero member
  obtain ⟨_, one⟩ := fronts_of_fresh zero member
  exact ⟨0, by rwa [Int.natCast_zero, Int.sub_zero], by rw [one]; decide⟩

theorem afterAll_pool {space : Space}
    (pool : space.Pool)
    (valid : space.Valid)
    (countable : ∀ request ∈ requests, request.Countable)
    (single : ∀ request ∈ requests, request.Single) :
    (space.afterAll requests).Pool := by
  induction requests generalizing space with
  | nil => exact pool
  | cons request requests ih =>
    obtain ⟨countableHere, countableLater⟩ := List.forall_mem_cons.mp countable
    obtain ⟨singleHere, singleLater⟩ := List.forall_mem_cons.mp single
    exact ih (pool.after valid countableHere singleHere)
      (after_valid valid countableHere) countableLater singleLater

theorem constants_prefix_afterAll (space : Space) (requests : List Request) :
    space.constants <+: (space.afterAll requests).constants := by
  induction requests generalizing space with
  | nil => exact List.prefix_refl _
  | cons request requests ih =>
    exact (space.constants_prefix_after request).trans
      (ih (space.after request))

/-- The pool after requests: what was there and the answers, each once. -/
theorem constants_afterAll {space : Space}
    (pool : space.Pool)
    (valid : space.Valid)
    (countable : ∀ request ∈ requests, request.Countable)
    (single : ∀ request ∈ requests, request.Single) :
    (space.afterAll requests).constants =
      (space.constants ++ space.answered requests).eraseDups := by
  induction requests generalizing space with
  | nil =>
    rw [answered, List.append_nil,
      eraseDups_of_nodup (List.Nodup.of_map _ pool.keys)]
    rfl
  | cons request requests ih =>
    obtain ⟨countableHere, countableLater⟩ := List.forall_mem_cons.mp countable
    obtain ⟨singleHere, singleLater⟩ := List.forall_mem_cons.mp single
    have pooled := pool.after valid countableHere singleHere
    have later := ih pooled (after_valid valid countableHere)
      countableLater singleLater
    have listed := eraseDups_of_nodup (List.Nodup.of_map _ pooled.keys)
    have sameMembers : ((space.after request).answered requests).removeAll
          (space.after request).constants =
        ((space.after request).answered requests).removeAll
          (space.constants ++ (space.answered? request).toList) := by
      refine List.filter_congr fun constant _ => ?_
      rw [pool.constants_after]
      simp only [List.elem_eq_contains, List.contains_eq_mem,
        List.mem_eraseDups]
    calc (space.afterAll (request :: requests)).constants
        = ((space.after request).constants ++
            (space.after request).answered requests).eraseDups := later
      _ = (space.constants ++ (space.answered? request).toList).eraseDups ++
            (((space.after request).answered requests).removeAll
              (space.constants ++
                (space.answered? request).toList)).eraseDups := by
          rw [List.eraseDups_append, listed, sameMembers, pool.constants_after]
      _ = (space.constants ++
          space.answered (request :: requests)).eraseDups := by
          rw [← List.eraseDups_append, answered, List.append_assoc]

theorem zeroAddress_of_grown {space : Space}
    (grown : fresh.constants <+: space.constants)
    (type : Ty) :
    space.zeroAddress type = fresh.zeroAddress type := by
  unfold zeroAddress
  dsimp only
  congr 1
  refine Option.bind_congr fun zero wanted => ?_
  obtain ⟨_, found⟩ := Option.isSome_iff_exists.mp
    (zeros_interned zero (List.mem_of_find?_eq_some wanted))
  exact (constant?_of_grown grown found).trans found.symm

/--
Literals keep their slots.  Let a fresh space be asked for anything, in any
order, where literals are asked for as single values of stored types.  At any
time the pool lists the five zero values and then the literals that requests
were answered with, each once and in the order of their first answers, and the
zero values are found in their slots.  A literal that has a slot is answered
with that slot, whatever happened since, and with no other literal's.  Each
slot lies in the segment of its type among the constants.  A request for a
literal that is refused leaves the pool as it was.
-/
theorem literals_keep_slots (requests : List Request)
    (countable : ∀ request ∈ requests, request.Countable)
    (single : ∀ request ∈ requests, request.Single) :
    fresh.constants = [⟨"0.0", .float, 30000⟩, ⟨"'a'", .char, 31000⟩,
      ⟨"false", .bool, 32000⟩, ⟨"0", .int, 33000⟩, ⟨"\"-\"", .string, 34000⟩] ∧
    (∀ before, before <+: requests →
      (fresh.afterAll before).constants =
        (fresh.constants ++ fresh.answered before).eraseDups ∧
      ((fresh.afterAll before).constants.map Constant.key).Nodup ∧
      ∀ zero ∈ fresh.constants,
        (fresh.afterAll before).zeroAddress (.basic zero.element) =
          zero.address) ∧
    ∀ before text type later, requests = before ++ .literal text type :: later →
      (∀ known ∈ fresh.constants ++ fresh.answered before,
        (known.key = (type.element, text) →
          (fresh.afterAll before).respond (.literal text type) =
            .ok (some known.address, fresh.afterAll before)) ∧
        ∀ address left,
          (fresh.afterAll before).respond (.literal text type) =
            .ok (some address, left) →
            (address = known.address ↔ known.key = (type.element, text))) ∧
      (∀ address left,
        (fresh.afterAll before).respond (.literal text type) =
          .ok (some address, left) →
          ∃ offset, locate? address = some ⟨.constant, type.element, offset⟩) ∧
      ∀ problem, (fresh.afterAll before).respond (.literal text type) =
        .error problem →
        (fresh.afterAll (before ++ [.literal text type])).constants =
          (fresh.afterAll before).constants := by
  refine ⟨by decide, ?_, ?_⟩
  · intro before start
    have countableBefore := fun request member =>
      countable request (start.subset member)
    have singleBefore := fun request member =>
      single request (start.subset member)
    have zeros : ∀ zero ∈ fresh.constants,
        fresh.zeroAddress (.basic zero.element) = zero.address := by decide
    refine ⟨constants_afterAll fresh_pool fresh_valid.1
      countableBefore singleBefore,
      (afterAll_pool fresh_pool fresh_valid.1 countableBefore
        singleBefore).keys, ?_⟩
    intro zero member
    rw [zeroAddress_of_grown (fresh.constants_prefix_afterAll before),
      zeros zero member]
  · rintro before text type later rfl
    have countableBefore : ∀ request ∈ before, request.Countable :=
      fun request member => countable request (List.mem_append_left _ member)
    have singleBefore : ∀ request ∈ before, request.Single :=
      fun request member => single request (List.mem_append_left _ member)
    have countableHere := countable (.literal text type) (by simp)
    have valid := afterAll_valid fresh_valid.1 countableBefore
    have pool := afterAll_pool fresh_pool fresh_valid.1
      countableBefore singleBefore
    have listed := constants_afterAll fresh_pool fresh_valid.1
      countableBefore singleBefore
    have pooled := pool.after valid countableHere
      (single (.literal text type) (by simp))
    rw [afterAll_append]
    generalize fresh.afterAll before = space at valid pool listed pooled
    refine ⟨?_, ?_, ?_⟩
    · intro known member
      rw [← List.mem_eraseDups, ← listed] at member
      refine ⟨?_, ?_⟩
      · intro same
        simp only [respond, intern, pool.known member same, Except.map]
      · intro address left granted
        have answers := mem_constants_after (answered?_of_respond granted)
        have still := (space.constants_prefix_after (.literal text type)).subset
          member
        constructor
        · intro same
          rw [← List.inj_on_of_nodup_map pooled.addresses answers still same]
          rfl
        · intro same
          rw [← List.inj_on_of_nodup_map pooled.keys answers still same.symm]
    · intro address left granted
      obtain ⟨offset, located, _⟩ :=
        pooled.locate (after_valid valid countableHere)
        (mem_constants_after (answered?_of_respond granted))
      exact ⟨offset, located⟩
    · intro problem refused
      have unanswered : space.after (.literal text type) = space := by
        simp only [after, refused]
      exact congrArg constants unanswered

/-- A word, two numbers among the constants, a number, the word again. -/
theorem literals_keep_slots_word :
    (fresh.afterAll [.literal "\"ab\"" (.basic .string),
      .reserve .constant (.list .int 2),
        .literal "7" (.basic .int)]).respond
          (.literal "\"ab\"" (.basic .string)) =
      .ok (some 34001, fresh.afterAll [.literal "\"ab\"" (.basic .string),
        .reserve .constant (.list .int 2), .literal "7" (.basic .int)]) ∧
    (fresh.afterAll [.literal "\"ab\"" (.basic .string),
      .reserve .constant (.list .int 2),
        .literal "7" (.basic .int)]).constants =
      fresh.constants ++ [⟨"\"ab\"", .string, 34001⟩, ⟨"7", .int, 33003⟩] := by
  obtain ⟨_, listed, slots⟩ := literals_keep_slots
    [.literal "\"ab\"" (.basic .string), .reserve .constant (.list .int 2),
      .literal "7" (.basic .int), .literal "\"ab\"" (.basic .string)]
    (by simp [Request.Countable, Request.type?, greatestRequest]; decide)
    (by
      simp only [List.forall_mem_cons]
      refine ⟨?_, ?_, ?_, ?_, List.forall_mem_nil _⟩
      · rintro _ _ ⟨⟩
        exact ⟨.string, by decide, rfl⟩
      · rintro _ _ ⟨⟩
      · rintro _ _ ⟨⟩
        exact ⟨.int, by decide, rfl⟩
      · rintro _ _ ⟨⟩
        exact ⟨.string, by decide, rfl⟩)
  refine ⟨?_, ?_⟩
  · exact ((slots [.literal "\"ab\"" (.basic .string),
      .reserve .constant (.list .int 2), .literal "7" (.basic .int)] _ _ []
      rfl).1 ⟨"\"ab\"", .string, 34001⟩ (by decide)).1 rfl
  · rw [(listed [.literal "\"ab\"" (.basic .string),
      .reserve .constant (.list .int 2), .literal "7" (.basic .int)] ⟨_,
      rfl⟩).1]
    decide

end Space

end Easel
