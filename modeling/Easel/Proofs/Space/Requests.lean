import Easel.Proofs.Code.Assembly

/-!
# Sequences of requests

A space serves requests for storage one after the other, and gives back all
local or temporary storage between them.  As long as the slots of every type
can be counted, the counters stay inside their segments, a request is refused
exactly if its segment has no room left for it, and what a segment hands out
between two resets are blocks one behind the other.
-/

namespace Easel

variable {problem : CompileError} {address : Address} {requests : List Request}

namespace Space

variable {space : Space} {request : Request} {region : Region} {type : Ty}

/-- What a space can be asked to do. -/
inductive Request where
  /-- Storage in a region. -/
  | reserve (region : Region) (type : Ty)
  | temporary (type : Ty)
  /-- The slot of a literal. -/
  | literal (text : String) (type : Ty)
  | resetLocal
  | resetTemp
deriving Repr, DecidableEq

namespace Request

def type? : Request → Option Ty
  | .reserve _ type | .temporary type | .literal _ type => some type
  | .resetLocal | .resetTemp => none

def empties? : Request → Option Region
  | .resetLocal => some .local
  | .resetTemp => some .temp
  | _ => none

/-- The slots of the type can be added to those of a segment. -/
def Countable (request : Request) : Prop :=
  ∀ type ∈ request.type?, type.slotCount ≤ greatestRequest

end Request

/-- The answer to a request and the space left; a reset has no address. -/
def respond (space : Space) :
    Request → Except CompileError (Option Address × Space)
  | .reserve region type =>
    (space.next region type).map fun (address, left) => (some address, left)
  | .temporary type =>
    (space.nextTemp type).map fun (address, left) => (some address, left)
  | .literal text type =>
    (space.intern text type).map fun (address, left) => (some address, left)
  | .resetLocal => .ok (none, space.reset .local)
  | .resetTemp => .ok (none, space.reset .temp)

/-- The space after a request, which is as before if the request was refused. -/
def after (space : Space) (request : Request) : Space :=
  match space.respond request with
  | .ok (_, left) => left
  | .error _ => space

/-- The space after requests in turn. -/
def afterAll (space : Space) (requests : List Request) : Space :=
  requests.foldl after space

/--
The storage that has to be found for a request: none for the absent value as a
temporary, and none for a literal that has its slot already.
-/
def asked? (space : Space) : Request → Option (Region × Ty)
  | .reserve region type => some (region, type)
  | .temporary type => if type.isVoid then none else some (.temp, type)
  | .literal text type =>
    if (space.constant? type.element text).isSome then
      none else some (.constant, type)
  | .resetLocal | .resetTemp => none

/-- A request for which storage is found, and where the storage starts. -/
def Grants (space : Space)
    (request : Request)
    (region : Region)
    (type : Ty)
    (address : Address) : Prop :=
  space.asked? request = some (region, type) ∧
    ∃ left, space.respond request = .ok (some address, left)

/-! ## One request -/

/-- Where storage has to be found, a request fares as its storage does. -/
theorem respond_of_asked (asked : space.asked? request = some (region, type)) :
    (∃ problem, space.next region type = .error problem ∧
      space.respond request = .error problem) ∨
    ∃ address reserved left, space.next region type = .ok (address, reserved) ∧
      space.respond request = .ok (some address, left) ∧
        left.used = reserved.used := by
  cases request with
  | reserve region type =>
    cases asked
    rw [respond]
    cases space.next region type with
    | error problem => exact .inl ⟨problem, rfl, rfl⟩
    | ok answer => exact .inr ⟨answer.1, answer.2, answer.2, rfl, rfl, rfl⟩
  | temporary type =>
    obtain ⟨stored, same⟩ := Option.ite_none_left_eq_some.mp asked
    cases same
    rw [respond, nextTemp, if_neg stored]
    cases space.next .temp type with
    | error problem => exact .inl ⟨problem, rfl, rfl⟩
    | ok answer => exact .inr ⟨answer.1, answer.2, answer.2, rfl, rfl, rfl⟩
  | literal text type =>
    obtain ⟨unknown, same⟩ := Option.ite_none_left_eq_some.mp asked
    cases same
    rw [Bool.not_eq_true, Option.isSome_eq_false_iff,
      Option.isNone_iff_eq_none] at unknown
    rw [respond, intern, unknown]
    cases space.next .constant type with
    | error problem => exact .inl ⟨problem, rfl, rfl⟩
    | ok answer => exact .inr ⟨answer.1, answer.2, _, rfl, rfl, rfl⟩
  | resetLocal => cases asked
  | resetTemp => cases asked

/-- A request that needs no storage and gives none back changes nothing. -/
theorem after_of_idle (idle : space.asked? request = none)
    (keeps : request.empties? = none) :
    space.after request = space := by
  cases request with
  | reserve region type => cases idle
  | temporary type =>
    cases isVoid : type.isVoid with
    | false => simp [asked?, isVoid] at idle
    | true =>
      rw [after, respond, nextTemp, isVoid]
      rfl
  | literal text type =>
    cases known : space.constant? type.element text with
    | none => simp [asked?, known] at idle
    | some constant =>
      rw [after, respond, intern, known]
      rfl
  | resetLocal => cases keeps
  | resetTemp => cases keeps

theorem after_of_empties (empties : request.empties? = some region) :
    space.after request = space.reset region := by
  cases request with
  | resetLocal =>
    cases empties
    rfl
  | resetTemp =>
    cases empties
    rfl
  | reserve region type => cases empties
  | temporary type => cases empties
  | literal text type => cases empties

theorem after_of_error (refused : space.respond request = .error problem) :
    space.after request = space := by
  rw [after, refused]

theorem after_of_ok {left : Space} {address : Option Address}
    (granted : space.respond request = .ok (address, left)) :
    space.after request = left := by
  rw [after, granted]

theorem type?_of_asked (asked : space.asked? request = some (region, type)) :
    request.type? = some type := by
  cases request with
  | reserve region type =>
    cases asked
    rfl
  | temporary type =>
    cases (Option.ite_none_left_eq_some.mp asked).2
    rfl
  | literal text type =>
    cases (Option.ite_none_left_eq_some.mp asked).2
    rfl
  | resetLocal => cases asked
  | resetTemp => cases asked

/-- A segment with a block after all the slots that were taken before. -/
structure Extends (space left : Space)
    (region : Region)
    (type : Ty)
    (address : Address) : Prop where
  start : segmentBase? region type.element =
    some (address - space.used region type.element)
  room : space.used region type.element + type.slotCount ≤ segmentSize
  counters : left.used = (space.take region type.element
    (space.used region type.element + type.slotCount)).used

theorem extends_of_grants (valid : space.Valid)
    (countable : request.Countable)
    (granted : space.Grants request region type address) :
    space.Extends (space.after request) region type address := by
  obtain ⟨asked, left, answered⟩ := granted
  have small := countable type (type?_of_asked asked)
  rcases respond_of_asked asked with ⟨_, _, refused⟩ | ⟨_, reserved, last,
    next, same, used⟩
  · rw [answered] at refused
    cases refused
  · rw [answered] at same
    cases same
    rw [after_of_ok answered]
    cases start : segmentBase? region type.element with
    | none => simp [Space.next, start] at next
    | some base =>
      rw [next_of_countable (valid region) small start] at next
      split at next
      · cases next
      · rename_i fits
        cases next
        exact ⟨by rw [start, Int.add_sub_cancel], Int.not_lt.mp fits, used⟩

theorem grants_iff_fits (valid : space.Valid)
    (countable : request.Countable)
    (asked : space.asked? request = some (region, type))
    (stored : type.element ≠ .void) :
    (∃ address, space.Grants request region type address) ↔
      space.used region type.element + type.slotCount ≤ segmentSize := by
  constructor
  · rintro ⟨address, granted⟩
    exact (extends_of_grants valid countable granted).room
  · intro fits
    obtain ⟨_, start⟩ := segmentBase?_isSome region stored
    have next := next_of_countable (valid region)
      (countable type (type?_of_asked asked)) start
    rw [if_neg (Int.not_lt.mpr fits)] at next
    rcases respond_of_asked asked with ⟨_, refused, _⟩ | ⟨address, _, left,
      _, answered, _⟩
    · rw [next] at refused
      cases refused
    · exact ⟨address, asked, left, answered⟩

theorem refusal_of_asked (asked : space.asked? request = some (region, type))
    (stored : type.element ≠ .void)
    (refused : space.respond request = .error problem) :
    problem = .exhausted region type.element := by
  rcases respond_of_asked asked with ⟨_, failed, same⟩
    | ⟨_, _, _, _, answered, _⟩
  · rw [refused] at same
    cases same
    obtain ⟨_, start⟩ := segmentBase?_isSome region stored
    unfold Space.next at failed
    rw [start] at failed
    dsimp only at failed
    split at failed
    · cases failed
      rfl
    · cases failed
  · rw [refused] at answered
    cases answered

/-- What a request needs to keep the counters of a space in order. -/
theorem after_valid (valid : space.Valid) (countable : request.Countable) :
    (space.after request).Valid := by
  cases asked : space.asked? request with
  | none =>
    cases empties : request.empties? with
    | none => rwa [after_of_idle asked empties]
    | some region =>
      rw [after_of_empties empties]
      intro other
      by_cases same : other = region
      · rw [same]
        exact space.validIn_reset region
      · exact (valid other).congr (by rw [reset_used, if_neg same])
  | some storage =>
    obtain ⟨region, type⟩ := storage
    rcases respond_of_asked asked with
      ⟨_, _, refused⟩ | ⟨_, reserved, left, next, answered, used⟩
    · rwa [after_of_error refused]
    · rw [after_of_ok answered]
      intro other
      by_cases same : other = region
      · have small :=
          small_of_next (valid region)
            (countable type (type?_of_asked asked)) next
        rw [same]
        exact (next_ok (valid region) small next).2.1.congr
          (congrFun used region)
      · exact (valid other).congr
          ((congrFun used other).trans ((next_kept next).2 other same))

/-- Only a reset gives slots back. -/
theorem used_le_after (element : Element)
    (valid : space.Valid)
    (countable : request.Countable)
    (keeps : request.empties? ≠ some region) :
    space.used region element ≤ (space.after request).used region element := by
  cases asked : space.asked? request with
  | none =>
    cases empties : request.empties? with
    | none =>
      exact Int.le_of_eq (by rw [after_of_idle asked empties])
    | some other =>
      have different : region ≠ other := by
        rintro rfl
        exact keeps empties
      rw [after_of_empties empties, reset]
      exact Int.le_of_eq (if_neg different).symm
  | some storage =>
    obtain ⟨other, type⟩ := storage
    cases answered : space.respond request with
    | error problem =>
      exact Int.le_of_eq (by rw [after_of_error answered])
    | ok answer =>
      rcases respond_of_asked asked with ⟨_, _, refused⟩ | ⟨address, _, left,
        _, granted, _⟩
      · rw [answered] at refused
        cases refused
      · have extended := extends_of_grants valid countable
          ⟨asked, left, granted⟩
        rw [extended.counters, take]
        dsimp only
        split
        · rename_i same
          obtain ⟨rfl, rfl⟩ := same
          omega
        · exact Int.le_refl _

/-! ## Requests in turn -/

theorem afterAll_append (space : Space) (first second : List Request) :
    space.afterAll (first ++ second) = (space.afterAll first).afterAll second :=
  List.foldl_append

theorem afterAll_valid (valid : space.Valid)
    (countable : ∀ request ∈ requests, request.Countable) :
    (space.afterAll requests).Valid := by
  induction requests generalizing space with
  | nil => exact valid
  | cons request requests ih =>
    obtain ⟨here, later⟩ := List.forall_mem_cons.mp countable
    exact ih (after_valid valid here) later

theorem used_le_afterAll (element : Element)
    (valid : space.Valid)
    (countable : ∀ request ∈ requests, request.Countable)
    (keep : ∀ request ∈ requests, request.empties? ≠ some region) :
    space.used region element ≤
      (space.afterAll requests).used region element := by
  induction requests generalizing space with
  | nil => exact Int.le_refl _
  | cons request requests ih =>
    obtain ⟨here, later⟩ := List.forall_mem_cons.mp countable
    obtain ⟨keepsHere, keepLater⟩ := List.forall_mem_cons.mp keep
    exact Int.le_trans (used_le_after element valid here keepsHere)
      (ih (after_valid valid here) later keepLater)

/-- What a request does to a space, granted, refused or giving back. -/
structure Serves (space : Space) (request : Request) : Prop where
  /-- A block lies in its segment, that of an object at a block's start. -/
  inside : ∀ region type address, space.Grants request region type address →
    ∃ base, segmentBase? region type.element = some base ∧ base ≤ address ∧
      address + type.slotCount ≤ base + segmentSize ∧
      (type.element.isObject = true → (address - base) % Element.blockSize = 0)
  /-- The slots of a block are taken from now on, and no others. -/
  takes : ∀ region type address, space.Grants request region type address →
    ∀ other element, (space.after request).used other element =
      if other = region ∧ element = type.element then
        space.used region type.element + type.slotCount
      else space.used other element
  /-- Storage is found exactly if it fits in what is left of its segment. -/
  fits : ∀ region type, space.asked? request = some (region, type) →
    type.element ≠ .void →
    ((∃ address, space.Grants request region type address) ↔
      (type.slotCount : Int) ≤ segmentSize - space.used region type.element)
  refusal : ∀ region type problem, space.asked? request = some (region, type) →
    type.element ≠ .void → space.respond request = .error problem →
    problem = .exhausted region type.element
  /-- There is no segment for the absent value. -/
  absent : ∀ region type, space.asked? request = some (region, type) →
    type.element = .void →
    space.respond request = .error (.generation (.noStorage type))
  refused : ∀ problem, space.respond request = .error problem →
    space.after request = space
  idle : space.asked? request = none → request.empties? = none →
    space.after request = space
  /-- A reset is felt in its own region only. -/
  reset : ∀ region, request.empties? = some region →
    (space.after request).constants = space.constants ∧
    ∀ other element, (space.after request).used other element =
      if other = region then 0 else space.used other element

theorem serves_of_valid (valid : space.Valid) (countable : request.Countable) :
    space.Serves request := by
  refine ⟨?_, ?_, ?_, ?_, ?_, fun _ => after_of_error, after_of_idle, ?_⟩
  · intro region type address granted
    have extended := extends_of_grants valid countable granted
    have taken := (valid region).taken type.element
    have room := extended.room
    refine ⟨_, extended.start, ?_, ?_, ?_⟩
    · unfold Address
      omega
    · unfold Address
      omega
    · intro object
      have number : ((space.count region type.element : Nat) : Int) =
          space.used region type.element := Int.toNat_of_nonneg taken
      rw [Int.sub_sub_self, ← number]
      exact_mod_cast (valid region).aligned type.element object
  · intro region type address granted other element
    rw [(extends_of_grants valid countable granted).counters]
    rfl
  · intro region type asked stored
    rw [grants_iff_fits valid countable asked stored]
    omega
  · intro region type problem asked stored refused
    exact refusal_of_asked asked stored refused
  · intro region type asked isVoid
    have missing : space.next region type =
        .error (.generation (.noStorage type)) := by
      simp [Space.next, isVoid, segmentBase?, Element.segment?]
    rcases respond_of_asked asked with ⟨_, failed, refused⟩
      | ⟨_, _, _, granted, _⟩
    · rw [missing] at failed
      cases failed
      exact refused
    · rw [missing] at granted
      cases granted
  · intro region empties
    rw [after_of_empties empties]
    exact ⟨rfl, fun _ _ => rfl⟩

/-- A block that is handed out starts after those before it in its segment. -/
theorem end_le_of_grants {first second : Request} {between : List Request}
    {other : Ty} {next : Address}
    (valid : space.Valid)
    (firstCountable : first.Countable)
    (secondCountable : second.Countable)
    (countable : ∀ request ∈ between, request.Countable)
    (keep : ∀ request ∈ between, request.empties? ≠ some region)
    (granted : space.Grants first region type address)
    (grantedNext : ((space.after first).afterAll between).Grants second
      region other next)
    (same : type.element = other.element) :
    address + type.slotCount ≤ next := by
  have extended := extends_of_grants valid firstCountable granted
  have middle := after_valid valid firstCountable
  have extendedNext :=
    extends_of_grants (afterAll_valid middle countable)
      secondCountable grantedNext
  have grown := used_le_afterAll type.element middle countable keep
  have counted := congrFun (congrFun extended.counters region) type.element
  have starts := extended.start
  rw [same, extendedNext.start, ← same] at starts
  simp only [take, and_self, if_true] at counted
  simp only [Option.some.injEq] at starts
  unfold Address at *
  omega

/-- The zero values stand at the front of the constants. -/
theorem fronts_of_fresh :
    ∀ zero ∈ fresh.constants,
      segmentBase? .constant zero.element = some zero.address ∧
      fresh.used .constant zero.element = 1 := by
  decide

/-- Constants are never given back. -/
theorem empties?_ne_constant (request : Request) :
    request.empties? ≠ some .constant := by
  cases request <;> exact nofun

theorem zero_lt_of_grants {zero : Constant}
    (countable : ∀ request ∈ requests, request.Countable)
    (hereCountable : request.Countable)
    (granted : (fresh.afterAll requests).Grants request .constant type address)
    (member : zero ∈ fresh.constants)
    (same : zero.element = type.element) :
    zero.address < address := by
  obtain ⟨base, one⟩ := fronts_of_fresh zero member
  have valid := afterAll_valid fresh_valid.1 countable
  have grown := used_le_afterAll zero.element fresh_valid.1 countable
    fun request _ => empties?_ne_constant request
  have start := (extends_of_grants valid hereCountable granted).start
  rw [← same, base, Option.some.injEq] at start
  rw [one] at grown
  unfold Address at *
  omega

/--
Whatever a fresh space is asked for, and however often storage is given back:
counters never leave their segments, every request is served as `Serves` says,
and two blocks of one segment with no reset between them follow each other.
-/
theorem requests_in_order (requests : List Request)
    (countable : ∀ request ∈ requests, request.Countable) :
    (∀ before, before <+: requests → ∀ region element,
      0 ≤ (fresh.afterAll before).used region element ∧
        (fresh.afterAll before).used region element ≤ segmentSize) ∧
    (∀ before request later, requests = before ++ request :: later →
      (fresh.afterAll before).Serves request ∧
      ∀ type address,
        (fresh.afterAll before).Grants request .constant type address →
        ∀ zero ∈ fresh.constants, zero.element = type.element →
        zero.address < address) ∧
    ∀ before first between second later,
      requests = before ++ first :: (between ++ second :: later) →
      ∀ region type other address next,
        (fresh.afterAll before).Grants first region type address →
        (fresh.afterAll (before ++ first :: between)).Grants second
          region other next →
        type.element = other.element →
        (∀ request ∈ between, request.empties? ≠ some region) →
        address + type.slotCount ≤ next := by
  refine ⟨?_, ?_, ?_⟩
  · intro before start region element
    have valid := afterAll_valid fresh_valid.1
      fun request member => countable request (start.subset member)
    exact ⟨(valid region).taken element, (valid region).room element⟩
  · rintro before request later rfl
    have earlier : ∀ other ∈ before, other.Countable :=
      fun other member => countable other (List.mem_append_left _ member)
    have here := countable request (by simp)
    exact ⟨serves_of_valid (afterAll_valid fresh_valid.1 earlier) here,
      fun _ _ granted _ => zero_lt_of_grants earlier here granted⟩
  · rintro before first between second later rfl region type other
      address next granted grantedNext same keep
    rw [afterAll_append] at grantedNext
    have earlier : ∀ request ∈ before, request.Countable :=
      fun request member => countable request (List.mem_append_left _ member)
    exact end_le_of_grants (afterAll_valid fresh_valid.1 earlier)
      (countable first (by simp)) (countable second (by simp))
      (fun request member => countable request (by simp [member])) keep granted
      grantedNext same

/-- Two squares, a list for which there is no room, another square. -/
theorem requests_in_order_squares :
    (fresh.afterAll [.temporary (.basic .void)]).Grants
      (.reserve .local (.list .square 2)) .local
        (.list .square 2) 15000 ∧
      (fresh.afterAll [.temporary (.basic .void),
        .reserve .local (.list .square 2),
          .reserve .local (.list .square 110), .resetTemp]).Grants
        (.reserve .local (.basic .square)) .local (.basic .square) 15018 ∧
      (15000 : Address) + (Ty.list .square 2).slotCount ≤ 15018 := by
  refine ⟨⟨rfl, _, rfl⟩, ⟨rfl, _, rfl⟩, ?_⟩
  exact (requests_in_order [.temporary (.basic .void),
      .reserve .local (.list .square 2), .reserve .local (.list .square 110),
      .resetTemp, .reserve .local (.basic .square)]
      (by simp [Request.Countable, Request.type?, greatestRequest]; decide)).2.2
    [.temporary (.basic .void)] (.reserve .local (.list .square 2))
    [.reserve .local (.list .square 110),
      .resetTemp] (.reserve .local (.basic .square)) [] rfl
    .local (.list .square 2) (.basic .square) 15000 15018 ⟨rfl, _,
      rfl⟩ ⟨rfl, _, rfl⟩ rfl
    (by decide)

end Space

end Easel
