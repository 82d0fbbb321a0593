import Easel.Code.Emit
import Easel.Proofs.Place
import Easel.Proofs.Success

/-!
# What is handed out is a place

Storage that is handed out starts where the storage handed out before ends.
As long as no variable needs more than a segment, every address that is
handed out is a place of its type, and variables of one table share no slot.
-/

namespace Easel

variable {before : Nat} {other : Space} {constant : Constant} {text : String}

/-- Numbers of slots in a segment can be added in the 32 bits of an address. -/
theorem Address.wrap_add_of_small {taken : Int} {count : Nat}
    (nonneg : 0 ≤ taken)
    (room : taken ≤ segmentSize)
    (small : count ≤ segmentSize) :
    Address.wrap (taken + count) = taken + count := by
  rw [segmentSize_eq] at small room
  unfold Address.wrap
  exact Int.bmod_eq_of_le (by omega) (by omega)

theorem Address.wrap_of_small {count : Nat} (small : count ≤ segmentSize) :
    Address.wrap count = count := by
  have wrapped := wrap_add_of_small (Int.le_refl 0)
    (Int.natCast_nonneg segmentSize) small
  rwa [Int.zero_add] at wrapped

/-- The slots of variables of the given types in the segment of an element. -/
def slotsOf : List Ty → Element → Nat
  | [], _ => 0
  | type :: types, element =>
    (if type.element = element then type.slotCount else 0) +
      slotsOf types element

theorem slotsOf_nil (element : Element) : slotsOf [] element = 0 :=
  rfl

theorem slotsOf_cons (type : Ty) (types : List Ty) (element : Element) :
    slotsOf (type :: types) element =
      (if type.element = element then type.slotCount else 0) +
        slotsOf types element :=
  rfl

theorem slotsOf_append (first second : List Ty) (element : Element) :
    slotsOf (first ++ second) element = slotsOf first element +
      slotsOf second element := by
  induction first with
  | nil => rw [List.nil_append, slotsOf_nil, Nat.zero_add]
  | cons type types induction =>
    rw [List.cons_append, slotsOf_cons, slotsOf_cons, induction, Nat.add_assoc]

theorem slotsOf_aligned (types : List Ty) {element : Element}
    (object : element.isObject = true) :
    slotsOf types element % Element.blockSize = 0 := by
  induction types with
  | nil => rfl
  | cons type types induction =>
    rw [slotsOf_cons]
    split
    · rename_i same
      have block := Ty.slotCount_mod_blockSize (same.symm ▸ object)
      rw [Nat.add_mod, block, induction, Nat.add_zero, Nat.zero_mod]
    · rw [Nat.zero_add, induction]

/-- The slots of a variable come before those of the variables after it. -/
theorem slotsOf_take_le {types : List Ty} {first second : Nat} {type : Ty}
    (found : types[first]? = some type)
    (before : first < second) :
    slotsOf (types.take first) type.element + type.slotCount ≤
      slotsOf (types.take second) type.element := by
  induction types generalizing first second with
  | nil => simp at found
  | cons head types induction =>
    cases second with
    | zero => omega
    | succ second =>
      cases first with
      | zero =>
        simp only [List.getElem?_cons_zero, Option.some.injEq] at found
        subst head
        rw [List.take_zero, List.take_succ_cons, slotsOf_nil,
          slotsOf_cons, if_pos rfl]
        omega
      | succ first =>
        have later := induction (by simpa using found)
          (Nat.lt_of_succ_lt_succ before)
        rw [List.take_succ_cons, List.take_succ_cons,
          slotsOf_cons, slotsOf_cons]
        omega

/-! ## Requests -/

namespace Space

variable {space left : Space} {type : Ty} {element : Element} {region : Region}
  {address : Address}

/-- The slots taken in a segment, as a number. -/
def count (space : Space) (region : Region) (element : Element) : Nat :=
  (space.used region element).toNat

/-- Only taken regions were given back, and objects took whole blocks. -/
structure ValidIn (space : Space) (region : Region) : Prop where
  taken : ∀ element, 0 ≤ space.used region element
  room : ∀ element, space.used region element ≤ segmentSize
  aligned : ∀ element, element.isObject = true →
    space.count region element % Element.blockSize = 0

/-- All regions are in order. -/
def Valid (space : Space) : Prop :=
  ∀ region, space.ValidIn region

/-- Slots after a request. -/
def counts (before : Element → Nat) (type : Ty) :
    Element → Nat := fun element =>
  before element + if type.element = element then type.slotCount else 0

/-- The address in a segment at a distance, and the request it answers. -/
structure Answers (region : Region)
    (type : Ty)
    (before : Nat)
    (address : Address) : Prop where
  start : segmentBase? region type.element = some (address - before)
  room : before + type.slotCount ≤ segmentSize

theorem Answers.unique {other : Address}
    (answers : Answers region type before address)
    (others : Answers region type before other) :
    address = other := by
  have starts := answers.start
  rw [others.start] at starts
  simp only [Option.some.injEq] at starts
  unfold Address at *
  omega

theorem Answers.place (answers : Answers region type before address)
    (filled : 0 < type.slotCount)
    (aligned : type.element.isObject = true → before % Element.blockSize = 0) :
    Place address type ⟨region, type.element, before⟩ := by
  have place := Place.of_segment answers.start answers.room filled aligned
  rwa [Int.sub_add_cancel] at place

theorem count_congr (same : other.used region = space.used region) :
    other.count region = space.count region := by
  funext element
  rw [count, count, same]

theorem ValidIn.congr (valid : space.ValidIn region)
    (same : other.used region = space.used region) :
    other.ValidIn region := by
  refine ⟨?_, ?_, ?_⟩
  · rw [same]
    exact valid.taken
  · rw [same]
    exact valid.room
  · rw [count_congr same]
    exact valid.aligned

/-- What a request that was granted hands out, whatever was taken before. -/
theorem next_cases (granted : space.next region type = .ok (address, left)) :
    ∃ base, segmentBase? region type.element = some base ∧
      address = base + space.used region type.element ∧
      (segmentSize : Int) ≥ Address.wrap
        (space.used region type.element + type.slotCount) ∧
      left = space.take region type.element
        (Address.wrap (space.used region type.element + type.slotCount)) := by
  unfold Space.next at granted
  cases start : segmentBase? region type.element with
  | none =>
    rw [start] at granted
    cases granted
  | some base =>
    rw [start] at granted
    dsimp only at granted
    split at granted
    · cases granted
    · rename_i fits
      cases granted
      exact ⟨base, rfl, rfl, Int.not_lt.mp fits, rfl⟩

/-- A request leaves the literals and the other regions alone. -/
theorem next_kept (granted : space.next region type = .ok (address, left)) :
    left.constants = space.constants ∧
      ∀ other, other ≠ region → left.used other = space.used other := by
  obtain ⟨_, _, _, _, rfl⟩ := next_cases granted
  refine ⟨rfl, fun other different => ?_⟩
  funext element
  exact if_neg fun same => different same.1

/-- A request that was granted in a region that is in order. -/
theorem next_ok (valid : space.ValidIn region)
    (small : type.slotCount ≤ segmentSize)
    (granted : space.next region type = .ok (address, left)) :
    Answers region type (space.count region type.element) address ∧
      left.ValidIn region ∧
      left.count region = counts (space.count region) type := by
  obtain ⟨base, start, rfl, fits, rfl⟩ := next_cases granted
  have number : ((space.count region type.element : Nat) : Int) =
      space.used region type.element := Int.toNat_of_nonneg (valid.taken _)
  rw [Address.wrap_add_of_small (valid.taken _) (valid.room _) small] at fits ⊢
  generalize extended : space.take region type.element
    (space.used region type.element + type.slotCount) = left
  have used (element : Element) : left.used region element = space.used
      region element +
      if type.element = element then (type.slotCount : Int) else 0 := by
    rw [← extended, take]
    by_cases same : type.element = element
    · subst same
      simp
    · simp [same, Ne.symm same]
  have counted : left.count region = counts (space.count region) type := by
    funext element
    rw [count, used, counts, count]
    split
    · rw [Int.toNat_add (valid.taken _) (Int.natCast_nonneg _),
        Int.toNat_natCast]
    · rw [Int.add_zero, Nat.add_zero]
  refine ⟨⟨?_, ?_⟩, ⟨?_, ?_, ?_⟩, counted⟩
  · rw [start, number, Int.add_sub_cancel]
  · omega
  · intro element
    have taken := valid.taken element
    rw [used]
    split <;> omega
  · intro element
    rw [used]
    split
    · rename_i same
      rw [← same]
      exact fits
    · rw [Int.add_zero]
      exact valid.room _
  · intro element object
    rw [counted, counts, Nat.add_mod, valid.aligned _ object]
    split
    · rename_i same
      rw [Ty.slotCount_mod_blockSize (same.symm ▸ object),
        Nat.add_zero, Nat.zero_mod]
    · rfl

/-- The greatest number of slots that can be added to those of a segment. -/
def greatestRequest : Nat := 2147482647

/-- A countable request is refused when it does not fit, and only then. -/
theorem next_of_countable {base : Address}
    (valid : space.ValidIn region)
    (countable : type.slotCount ≤ greatestRequest)
    (start : segmentBase? region type.element = some base) :
    space.next region type =
      if segmentSize < space.used region type.element + type.slotCount then
        .error (.exhausted region type.element)
      else .ok (base + space.used region type.element,
        space.take region type.element (space.used region type.element +
          type.slotCount)) := by
  have taken := valid.taken type.element
  have room := valid.room type.element
  rw [segmentSize_eq] at room
  unfold greatestRequest at countable
  have counted : Address.wrap
      (space.used region type.element + type.slotCount) =
        space.used region type.element + type.slotCount :=
    Int.bmod_eq_of_le (by omega) (by omega)
  unfold Space.next
  rw [start]
  dsimp only
  rw [counted]

theorem small_of_next (valid : space.ValidIn region)
    (countable : type.slotCount ≤ greatestRequest)
    (granted : space.next region type = .ok (address, left)) :
    type.slotCount ≤ segmentSize := by
  have taken := valid.taken type.element
  obtain ⟨_, start, _⟩ := next_cases granted
  rw [next_of_countable valid countable start] at granted
  split at granted
  · cases granted
  · omega

theorem segmentBase?_isSome (region : Region) (stored : element ≠ .void) :
    ∃ base, segmentBase? region element = some base := by
  cases element with
  | void => exact absurd rfl stored
  | _ => exact ⟨_, rfl⟩

theorem next_exhausts (space : Space)
    (region : Region)
    (stored : type.element ≠ .void) :
    OnlyExhausts (space.next region type) := by
  obtain ⟨_, start⟩ := segmentBase?_isSome region stored
  unfold Space.next
  rw [start]
  dsimp only
  split
  · rintro _ ⟨⟩
    exact ⟨region, type.element, rfl⟩
  · exact .ok _

theorem reset_used (space : Space) (region other : Region) :
    (space.reset region).used other = if other = region then fun _ => 0
      else space.used other := by
  unfold reset
  dsimp only
  split <;> rfl

theorem count_of_unused (unused : space.used region = fun _ => 0) :
    space.count region = fun _ => 0 := by
  funext element
  rw [count, unused]
  rfl

theorem validIn_of_unused (unused : space.used region = fun _ => 0) :
    space.ValidIn region := by
  refine ⟨?_, ?_, ?_⟩
  · simp [unused]
  · simp [unused]
  · simp [count_of_unused unused]

theorem validIn_reset (space : Space) (region : Region) :
    (space.reset region).ValidIn region :=
  validIn_of_unused (by rw [reset_used, if_pos rfl])

theorem reset_count (space : Space) (region other : Region) :
    (space.reset region).count other =
      if other = region then fun _ => 0 else space.count other := by
  funext element
  unfold count
  rw [reset_used]
  split <;> rfl

/-- Addresses of slots that can have slots of the same variable behind them. -/
def Roomy (address : Address) : Prop :=
  (-2147483648 : Int) ≤ address ∧ (50000 : Int) ≥ address

/-- No counter passed the end of its segment, whatever was asked for. -/
structure Bounded (space : Space) : Prop where
  low : ∀ region element, -2147483648 ≤ space.used region element
  high : ∀ region element, space.used region element ≤ segmentSize

theorem Valid.bounded (valid : space.Valid) : space.Bounded :=
  ⟨fun region element =>
    Int.le_trans (by decide) ((valid region).taken element), fun region =>
    (valid region).room⟩

theorem Bounded.reset (bounded : space.Bounded) (region : Region) :
    (space.reset region).Bounded := by
  constructor <;> intro other element <;> rw [reset_used] <;> split
  · exact (by decide : (-2147483648 : Int) ≤ 0)
  · exact bounded.low _ _
  · exact Int.natCast_nonneg _
  · exact bounded.high _ _

theorem Bounded.next (bounded : space.Bounded)
    (granted : space.next region type = .ok (address, left)) :
    Roomy address ∧ left.Bounded := by
  obtain ⟨_, start, rfl, fits, rfl⟩ := next_cases granted
  obtain ⟨_, segment, rfl⟩ := segmentBase?_eq_some start
  have few := segment?_lt segment
  have regions : region.index ≤ 4 := by cases region <;> decide
  have low := bounded.low region type.element
  have high := bounded.high region type.element
  have cut : -2147483648 ≤ Address.wrap
      (space.used region type.element + type.slotCount) :=
    Int.le_bmod (by decide)
  refine ⟨⟨?_, ?_⟩, ⟨?_, ?_⟩⟩
  · omega
  · rw [segmentSize_eq] at high
    omega
  all_goals
    intro other element
    unfold take
    dsimp only
    split
  · exact cut
  · exact bounded.low _ _
  · exact fits
  · exact bounded.high _ _

/-! ## Temporaries and literals -/

/--
A temporary of a type, handed out when `before` slots of each segment were in
use, and the slots in use from then on.
-/
inductive Fresh (before : Element → Nat) (type : Ty) :
    Address → (Element → Nat) → Prop where
  | absent (isVoid : type.isVoid = true) : Fresh before type .unused before
  | slots {address : Address} (stored : type.isVoid = false)
      (answers : Answers .temp type (before type.element) address) :
      Fresh before type address (counts before type)

theorem nextTemp_ok (valid : space.ValidIn .temp)
    (small : type.slotCount ≤ segmentSize)
    (granted : space.nextTemp type = .ok (address, left)) :
    Fresh (space.count .temp) type address (left.count .temp) ∧
      left.ValidIn .temp ∧ left.constants = space.constants ∧
      ∀ other, other ≠ .temp → left.used other = space.used other := by
  unfold nextTemp at granted
  split at granted
  · rename_i isVoid
    cases granted
    exact ⟨.absent isVoid, valid, rfl, fun _ _ => rfl⟩
  · rename_i stored
    obtain ⟨answers, leftValid, counted⟩ := next_ok valid small granted
    refine ⟨?_, leftValid, next_kept granted⟩
    rw [counted]
    exact .slots (Bool.eq_false_iff.mpr stored) answers

theorem nextTemp_exhausts (space : Space) (single : type.isList = false) :
    OnlyExhausts (space.nextTemp type) := by
  unfold Space.nextTemp
  split
  · exact .ok _
  · rename_i notVoid
    apply next_exhausts
    intro isVoid
    simp [Ty.isVoid, isVoid, single] at notVoid

/-- The literals of a space have slots of their own among the constants. -/
structure Literals (space : Space) : Prop where
  scalar : ∀ constant ∈ space.constants, constant.element.isObject = false
  placed : ∀ constant ∈ space.constants, ∃ offset,
    Answers .constant (.basic constant.element) offset constant.address ∧
      offset < space.count .constant constant.element
  distinct : space.constants.Pairwise fun first second => first.address ≠
    second.address

theorem Literals.of_constants (literals : space.Literals)
    (constants : other.constants = space.constants)
    (counted : other.count .constant = space.count .constant) :
    other.Literals := by
  refine ⟨?_, ?_, ?_⟩
  · rw [constants]
    exact literals.scalar
  · rw [constants, counted]
    exact literals.placed
  · rw [constants]
    exact literals.distinct

theorem slotCount_scalar (scalar : element.isObject = false) :
    (Ty.basic element).slotCount = 1 := by
  simp [Ty.slotCount_basic, Element.slotWidth, scalar]

theorem Literals.place (literals : space.Literals)
    (member : constant ∈ space.constants) :
    ∃ offset < space.count .constant constant.element,
      Place constant.address (.basic constant.element)
        ⟨.constant, constant.element, offset⟩ := by
  have scalar := literals.scalar constant member
  obtain ⟨offset, answers, bound⟩ := literals.placed constant member
  refine ⟨offset, bound, answers.place ?_ ?_⟩
  · rw [slotCount_scalar scalar]
    exact Nat.one_pos
  · intro object
    have owner : constant.element.isObject = true := object
    rw [scalar] at owner
    cases owner

/-- A literal that is new takes the next slot of the constants. -/
theorem Literals.append {extended : Space}
    (literals : space.Literals)
    (scalar : element.isObject = false)
    (answers : Answers .constant (.basic element)
      (space.count .constant element) address)
    (counted : extended.count .constant =
      counts (space.count .constant) (.basic element))
    (constants : extended.constants = space.constants ++
      [⟨text, element, address⟩]) :
    extended.Literals := by
  have one := slotCount_scalar scalar
  have place := answers.place (one ▸ Nat.one_pos)
    fun object => by simp [scalar] at object
  refine ⟨?_, ?_, ?_⟩
  · intro constant member
    rw [constants, List.mem_append, List.mem_singleton] at member
    rcases member with older | rfl
    · exact literals.scalar constant older
    · exact scalar
  · intro constant member
    rw [constants, List.mem_append, List.mem_singleton] at member
    rcases member with older | rfl
    · obtain ⟨offset, olderAnswers, bound⟩ := literals.placed constant older
      refine ⟨offset, olderAnswers, Nat.lt_of_lt_of_le bound ?_⟩
      rw [counted]
      exact Nat.le_add_right _ _
    · refine ⟨_, answers, ?_⟩
      rw [counted]
      simp [counts, one]
  · rw [constants, List.pairwise_append]
    refine ⟨literals.distinct, List.pairwise_singleton _ _, ?_⟩
    intro older olderMember newer newerMember same
    rw [List.mem_singleton] at newerMember
    subst newerMember
    obtain ⟨offset, bound, olderPlace⟩ := literals.place olderMember
    have located := olderPlace.located
    rw [same, place.located] at located
    cases located
    exact Nat.lt_irrefl _ bound

/-- The slot of a literal that was asked for. -/
theorem intern_ok (valid : space.ValidIn .constant)
    (literals : space.Literals)
    (scalar : element.isObject = false)
    (granted : space.intern text (.basic element) = .ok (address, left)) :
    ⟨text, element, address⟩ ∈ left.constants ∧ left.ValidIn .constant ∧
      left.Literals ∧ (∃ added, left.constants = space.constants ++ added ∧
        ∀ constant ∈ added, constant.text = text ∧ constant.element = element) ∧
      ∀ region, region ≠ .constant → left.used region = space.used region := by
  simp only [intern, Ty.element_basic] at granted
  cases found : space.constant? element text with
  | some constant =>
    simp only [found] at granted
    cases granted
    have member := List.mem_of_find?_eq_some found
    have matched := List.find?_some found
    simp only [Bool.and_eq_true, beq_iff_eq] at matched
    obtain ⟨rfl, rfl⟩ := matched
    exact ⟨member, valid, literals, ⟨[], by simp⟩, fun _ _ => rfl⟩
  | none =>
    simp only [found] at granted
    obtain ⟨⟨_, _⟩, requested, granted⟩ := bind_eq_ok.mp granted
    have small : (Ty.basic element).slotCount ≤ segmentSize := by
      rw [slotCount_scalar scalar]
      decide
    obtain ⟨answers, extendedValid, counted⟩ := next_ok valid small requested
    obtain ⟨constants, others⟩ := next_kept requested
    cases granted
    exact ⟨by simp, extendedValid.congr rfl,
      literals.append scalar answers counted (by rw [constants]),
      ⟨[_], by rw [constants], by simp⟩, others⟩

theorem intern_exhausts (space : Space)
    (text : String)
    (stored : element ≠ .void) :
    OnlyExhausts (space.intern text (.basic element)) := by
  unfold Space.intern
  split
  · exact .ok _
  · exact (space.next_exhausts .constant stored).bind fun _ _ => .ok _

/-! ## The literals of the zero values -/

theorem blank_valid : blank.Valid := fun _ =>
  ⟨fun _ => Int.le_refl 0, fun _ => Int.natCast_nonneg _, fun _ _ => rfl⟩

theorem blank_literals : blank.Literals := by
  refine ⟨?_, ?_, List.Pairwise.nil⟩
  · intro constant member
    cases member
  · intro constant member
    cases member

/-- Literals of scalars keep a space in order and change no other region. -/
theorem foldl_internOrSkip (literals : List (String × Element))
    (scalars : ∀ literal ∈ literals, literal.2.isObject = false)
    (valid : space.Valid)
    (known : space.Literals) :
    let extended := literals.foldl
      (fun space (text, element) => space.internOrSkip text element) space
    extended.Valid ∧ extended.Literals ∧
      ∀ region, region ≠ .constant →
      extended.used region = space.used region := by
  induction literals generalizing space with
  | nil => exact ⟨valid, known, fun _ _ => rfl⟩
  | cons literal literals induction =>
    obtain ⟨text, element⟩ := literal
    have scalar := scalars (text, element) List.mem_cons_self
    have later : ∀ literal ∈ literals, literal.2.isObject = false :=
      fun literal member => scalars literal (List.mem_cons_of_mem _ member)
    cases granted : space.intern text (.basic element) with
    | error problem =>
      have skipped : space.internOrSkip text element = space := by
        simp [internOrSkip, granted]
      simp only [List.foldl_cons, skipped]
      exact induction later valid known
    | ok answer =>
      obtain ⟨_, left⟩ := answer
      have interned : space.internOrSkip text element = left := by
        simp [internOrSkip, granted]
      obtain ⟨_, constantsValid, leftLiterals, _, others⟩ :=
        intern_ok (valid .constant) known scalar granted
      have leftValid : left.Valid := by
        intro region
        by_cases same : region = .constant
        · exact same ▸ constantsValid
        · exact (valid region).congr (others region same)
      simp only [List.foldl_cons, interned]
      obtain ⟨lastValid, lastLiterals, lastOthers⟩ :=
        induction later leftValid leftLiterals
      exact ⟨lastValid, lastLiterals,
        fun region different =>
        (lastOthers region different).trans (others region different)⟩

theorem fresh_valid :
    fresh.Valid ∧ fresh.Literals ∧ ∀ region, region ≠ .constant →
      fresh.used region = fun _ => 0 :=
  foldl_internOrSkip zeros (by decide) blank_valid blank_literals

theorem zeros_interned :
    ∀ zero ∈ zeros, (fresh.constant? zero.2 zero.1).isSome = true := by
  decide

/-- A literal keeps its slot however many come after it. -/
theorem constant?_of_grown {later : Space}
    (grown : space.constants <+: later.constants)
    (found : space.constant? element text = some constant) :
    later.constant? element text = some constant := by
  obtain ⟨_, extended⟩ := grown
  unfold constant? at found ⊢
  rw [← extended, List.find?_append, found]
  rfl

/-- The zero value of a single scalar is read from a literal of its type. -/
theorem zeroAddress_mem (grown : fresh.constants <+: space.constants)
    (scalar : type.element.isObject = false)
    (stored : type.element ≠ .void)
    (single : type.isList = false) :
    ∃ constant ∈ space.constants, (constant.text, constant.element) ∈ zeros ∧
      constant.element = type.element ∧
        space.zeroAddress type = constant.address := by
  have wanted : ∃ zero, (zeros.find? fun (_, element) =>
      element == type.element && !type.isList) = some zero := by
    rw [single]
    cases element : type.element <;> simp_all [zeros, Element.isObject]
  obtain ⟨⟨_, element⟩, wanted⟩ := wanted
  have matched := List.find?_some wanted
  simp only [Bool.and_eq_true, beq_iff_eq] at matched
  have known := zeros_interned _ (List.mem_of_find?_eq_some wanted)
  obtain ⟨first, found⟩ := Option.isSome_iff_exists.mp known
  have stillFound := constant?_of_grown grown found
  have same := List.find?_some stillFound
  simp only [Bool.and_eq_true, beq_iff_eq] at same
  refine ⟨first, List.mem_of_find?_eq_some stillFound, ?_,
    same.1.trans matched.1, ?_⟩
  · rw [same.1, same.2]
    exact List.mem_of_find?_eq_some wanted
  · unfold zeroAddress
    simp only [wanted, Option.bind_some, stillFound]

/-- There is no literal of an object, and none of the absent value. -/
theorem zeroAddress_unused
    (unwritten : type.element.isObject = true ∨ type.element = .void) :
    space.zeroAddress type = .unused := by
  have missing : (zeros.find? fun (_, element) =>
      element == type.element && !type.isList) = none := by
    rcases unwritten with object | isVoid
    · cases element : type.element <;> simp_all [zeros, Element.isObject]
    · simp [zeros, isVoid]
  unfold zeroAddress
  simp only [missing, Option.bind_none]

end Space

end Easel
