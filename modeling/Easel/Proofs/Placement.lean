import Easel.Proofs.Checked.Tables
import Easel.Proofs.Program.Declarable
import Easel.Proofs.Space

/-!
# Where variables lie

The variables of a table are given storage one after the other, each behind
those of its type before it.  Laying out a program gives an address to every
parameter, local and global variable and changes nothing else about them.
-/

namespace Easel

variable {type : Ty} {found : Variable} {routine : Routine} {checked : Checked}

variable {countable : Prop} {space left : Space} {region : Region}

/-- A type of which variables can be declared, with room in a segment. -/
structure Ty.Fits (type : Ty) : Prop extends type.Declarable where
  small : type.slotCount ≤ segmentSize

theorem Ty.Declarable.fits (declarable : type.Declarable)
    (listFits : type.isList = true → type.slotCount ≤ segmentSize) :
    type.Fits := by
  refine ⟨declarable, ?_⟩
  cases list : type.isList with
  | true => exact listFits list
  | false =>
    rw [slotCount_of_single list]
    cases type.element <;> decide

theorem Ty.Declarable.slotCount_pos (declarable : type.Declarable) :
    0 < type.slotCount := by
  cases list : type.isList with
  | true =>
    rw [slotCount_of_list list]
    exact Nat.mul_pos (declarable.filled list) type.element.slotWidth_pos
  | false =>
    rw [slotCount_of_single list]
    exact type.element.slotWidth_pos

def typed (entries : List (String × Variable)) : List (String × Ty) :=
  entries.map fun entry => (entry.1, entry.2.type)

def typesIn (entries : List (String × Variable)) : List Ty :=
  entries.map fun entry => entry.2.type

/--
Every entry has an address in a region, behind the entries of its type before
it and behind what was taken of its segment already.
-/
def ArrangedFrom (taken : Element → Nat)
    (region : Region)
    (entries : List (String × Variable)) : Prop :=
  ∀ (index : Nat) (name : String) (found : Variable),
    entries[index]? = some (name, found) →
    ∃ address, found.address = some address ∧
      Space.Answers region found.type
        (taken found.type.element +
          slotsOf ((typesIn entries).take index) found.type.element) address

/-- Every entry has an address. -/
def StoredEntries (entries : List (String × Variable)) : Prop :=
  ∀ entry ∈ entries, ∃ address, entry.2.address = some address ∧
    Space.Roomy address

/--
What laying out a table in a region does to the table and to a space.  What
lies where is known only if the slots of all entries can be counted.
-/
structure LaysOut (countable : Prop)
    (region : Region)
    (entries placed : List (String × Variable))
    (space left : Space) : Prop where
  bounded : left.Bounded
  constants : left.constants = space.constants
  others : ∀ other, other ≠ region → left.used other = space.used other
  kept : typed placed = typed entries
  stored : StoredEntries placed
  valid : countable → left.ValidIn region
  small : countable → ∀ type ∈ typesIn entries, type.slotCount ≤ segmentSize
  arranged : countable → ArrangedFrom (space.count region) region placed

variable {entries : List (String × Variable)} {name : String}

/-- The first entry of a table is arranged in front of the others. -/
theorem ArrangedFrom.cons {taken : Element → Nat} {address : Address}
    (answers : Space.Answers region found.type
      (taken found.type.element) address)
    (arranged : ArrangedFrom (Space.counts taken found.type) region entries) :
    ArrangedFrom taken region ((name, { found with address := some address }) ::
      entries) := by
  intro index otherName other entry
  cases index with
  | zero =>
    simp only [List.getElem?_cons_zero, Option.some.injEq,
      Prod.mk.injEq] at entry
    obtain ⟨rfl, rfl⟩ := entry
    exact ⟨address, rfl, answers⟩
  | succ index =>
    rw [List.getElem?_cons_succ] at entry
    obtain ⟨otherAddress, hasAddress, otherAnswers⟩ :=
      arranged index otherName other entry
    refine ⟨otherAddress, hasAddress, ?_⟩
    change Space.Answers region other.type
      (_ + slotsOf (found.type :: (typesIn entries).take index) _) otherAddress
    rw [slotsOf_cons, ← Nat.add_assoc]
    exact otherAnswers

theorem placeVariables_ok {placed : List (String × Variable)}
    (bounded : space.Bounded)
    (valid : countable → space.ValidIn region)
    (counts : countable → ∀ type ∈ typesIn entries, type.slotCount ≤
      Space.greatestRequest)
    (ran : placeVariables region entries space = .ok (placed, left)) :
    LaysOut countable region entries placed space left := by
  induction entries generalizing placed space with
  | nil =>
    cases ran
    exact ⟨bounded, rfl, fun _ _ => rfl, rfl, by simp [StoredEntries], valid,
      by simp [typesIn], by simp [ArrangedFrom]⟩
  | cons entry entries induction =>
    obtain ⟨_, found⟩ := entry
    simp only [placeVariables, Threaded.get_bind, Threaded.set_bind,
      Threaded.bind_eq_ok, Threaded.lift_eq_ok, Threaded.pure_eq_ok, and_assoc,
      exists_and_left, exists_eq_left] at ran
    obtain ⟨⟨address, _⟩, granted, _, _, placedOthers, rfl, rfl⟩ := ran
    obtain ⟨roomy, betweenBounded⟩ := bounded.next granted
    obtain ⟨constants, otherRegions⟩ := Space.next_kept granted
    have small : countable → found.type.slotCount ≤ segmentSize := fun all =>
      Space.small_of_next (valid all) (counts all _ List.mem_cons_self) granted
    have served (all : countable) :=
      Space.next_ok (valid all) (small all) granted
    have rest := induction betweenBounded (fun all => (served all).2.1)
      (fun all type member => counts all type (List.mem_cons_of_mem _ member))
      placedOthers
    refine ⟨rest.bounded, rest.constants.trans constants, ?_, ?_, ?_,
      rest.valid, ?_, ?_⟩
    · intro other different
      rw [rest.others other different, otherRegions other different]
    · exact congrArg (_ :: ·) rest.kept
    · exact List.forall_mem_cons.mpr ⟨⟨address, rfl, roomy⟩, rest.stored⟩
    · exact fun all => List.forall_mem_cons.mpr ⟨small all, rest.small all⟩
    · intro all
      refine .cons (served all).1 ?_
      rw [← (served all).2.2]
      exact rest.arranged all

/-- A function before and after its variables were given addresses. -/
structure Routine.Places (countable : Prop) (routine placed : Routine) :
    Prop where
  returns : placed.returns = routine.returns
  parameters : placed.parameters = routine.parameters
  locals : typed placed.locals.entries = typed routine.locals.entries
  stored : StoredEntries placed.locals.entries
  small : countable → ∀ type ∈ typesIn routine.locals.entries,
    type.slotCount ≤ segmentSize
  arranged : countable → ArrangedFrom (fun _ => 0) .local placed.locals.entries

/-- A space before and after local storage was laid out in it. -/
structure Space.Localized (space left : Space) : Prop where
  bounded : left.Bounded
  constants : left.constants = space.constants
  others : ∀ region, region ≠ .local → left.used region = space.used region

theorem placeRoutine_ok {placed : Routine}
    (bounded : space.Bounded)
    (counts : countable → ∀ type ∈ typesIn routine.locals.entries,
      type.slotCount ≤ Space.greatestRequest)
    (ran : placeRoutine routine space = .ok (placed, left)) :
    space.Localized left ∧ routine.Places countable placed := by
  simp only [placeRoutine, Threaded.modify_bind, Threaded.bind_eq_ok,
    Threaded.get_bind, Threaded.pure_eq_ok] at ran
  obtain ⟨_, _, placedLocals, rfl, rfl⟩ := ran
  have laid := placeVariables_ok (bounded.reset .local)
    (fun _ => space.validIn_reset .local) counts placedLocals
  refine ⟨⟨laid.bounded, laid.constants, ?_⟩, ⟨rfl, rfl, laid.kept, laid.stored,
    laid.small, ?_⟩⟩
  · intro other different
    rw [laid.others other different, Space.reset_used, if_neg different]
  · intro all
    have arranged := laid.arranged all
    rwa [Space.reset_count, if_pos rfl] at arranged

def Routine.PlaceAll (countable : Prop)
    (entries placed : List (String × Routine)) : Prop :=
  placed.length = entries.length ∧
    ∀ (index : Nat) (name : String) (routine : Routine),
      entries[index]? = some (name, routine) →
        ∃ after, placed[index]? = some (name, after) ∧
        routine.Places countable after

/-- Layout keeps whatever of a function does not depend on addresses. -/
theorem Routine.PlaceAll.map_eq {α : Type}
    {entries placed : List (String × Routine)}
    (all : PlaceAll countable entries placed)
    (view : Routine → α)
    (kept : ∀ routine after : Routine, routine.Places countable after →
      view after = view routine) :
    placed.map (fun entry => (entry.1, view entry.2)) =
      entries.map fun entry => (entry.1, view entry.2) := by
  refine List.ext_getElem? fun index => ?_
  rw [List.getElem?_map, List.getElem?_map]
  cases entry : entries[index]? with
  | none =>
    have beyond : placed[index]? = none := by
      rw [List.getElem?_eq_none_iff, all.1]
      exact List.getElem?_eq_none_iff.mp entry
    rw [beyond]
  | some pair =>
    obtain ⟨name, routine⟩ := pair
    obtain ⟨after, placedEntry, places⟩ := all.2 index name routine entry
    rw [placedEntry]
    simp [kept routine after places]

theorem Routine.PlaceAll.find? {before after : Table Routine}
    (all : PlaceAll countable before.entries after.entries)
    (unique : before.names.Nodup)
    (found : after.find? name = some routine) :
    ∃ plain, before.find? name = some plain ∧
      plain.Places countable routine := by
  obtain ⟨index, placedEntry⟩ := Table.find?_eq_some_getElem? found
  have bound : index < before.entries.length := by
    rw [← all.1]
    exact (List.getElem?_eq_some_iff.mp placedEntry).1
  obtain ⟨⟨otherName, plain⟩, listed⟩ : ∃ entry,
      before.entries[index]? = some entry :=
    ⟨_, List.getElem?_eq_getElem bound⟩
  obtain ⟨_, otherEntry, places⟩ := all.2 index otherName plain listed
  rw [placedEntry] at otherEntry
  cases otherEntry
  exact ⟨plain, Table.find?_of_getElem? unique listed, places⟩

theorem placeRoutines_ok {entries placed : List (String × Routine)}
    (bounded : space.Bounded)
    (counts : countable →
      ∀ entry ∈ entries, ∀ type ∈ typesIn entry.2.locals.entries,
      type.slotCount ≤ Space.greatestRequest)
    (ran : placeRoutines entries space = .ok (placed, left)) :
    space.Localized left ∧ Routine.PlaceAll countable entries placed := by
  induction entries generalizing placed space with
  | nil =>
    cases ran
    exact ⟨⟨bounded, rfl, fun _ _ => rfl⟩, rfl, by simp⟩
  | cons entry entries induction =>
    obtain ⟨name, routine⟩ := entry
    simp only [placeRoutines, Threaded.bind_eq_ok, Threaded.pure_eq_ok] at ran
    obtain ⟨first, _, placedFirst, _, _, placedOthers, rfl, rfl⟩ := ran
    obtain ⟨firstSpace, firstPlaces⟩ := placeRoutine_ok bounded
      (fun all => counts all (name, routine) List.mem_cons_self) placedFirst
    obtain ⟨otherSpace, length, otherPlaces⟩ := induction firstSpace.bounded
      (fun all entry member => counts all entry (List.mem_cons_of_mem _ member))
      placedOthers
    refine ⟨⟨otherSpace.bounded,
      otherSpace.constants.trans firstSpace.constants, ?_⟩,
      by simp [length], ?_⟩
    · intro region different
      rw [otherSpace.others region different,
        firstSpace.others region different]
    · intro index otherName other found
      cases index with
      | zero =>
        simp only [List.getElem?_cons_zero, Option.some.injEq,
          Prod.mk.injEq] at found
        obtain ⟨rfl, rfl⟩ := found
        exact ⟨first, rfl, firstPlaces⟩
      | succ index =>
        rw [List.getElem?_cons_succ] at found ⊢
        exact otherPlaces index otherName other found

/-- A checked program before and after its storage was laid out. -/
structure Checked.Places (countable : Prop) (checked placed : Checked) :
    Prop where
  sameProgram : placed.program = checked.program
  sameEntry : placed.entry = checked.entry
  functions : Routine.PlaceAll countable checked.functions.entries
    placed.functions.entries
  globals : typed placed.globals.entries = typed checked.globals.entries
  stored : StoredEntries placed.globals.entries
  small : countable → ∀ type ∈ typesIn checked.globals.entries,
    type.slotCount ≤ segmentSize
  arranged : countable →
    ArrangedFrom (fun _ => 0) .global placed.globals.entries

theorem Checked.place_ok {placed : Checked}
    (countsLocals : countable →
      ∀ entry ∈ checked.functions.entries,
      ∀ type ∈ typesIn entry.2.locals.entries,
      type.slotCount ≤ Space.greatestRequest)
    (countsGlobals : countable → ∀ type ∈ typesIn checked.globals.entries,
      type.slotCount ≤ Space.greatestRequest)
    (ran : checked.place .fresh = .ok (placed, left)) :
    checked.Places countable placed ∧ left.constants = Space.fresh.constants ∧
      ∀ region, region ≠ .local → region ≠ .global →
        left.used region = Space.fresh.used region := by
  simp only [Checked.place, Threaded.modify_bind, Threaded.bind_eq_ok,
    Threaded.pure_eq_ok] at ran
  obtain ⟨_, between, placedFunctions, _, _, placedGlobals, rfl, rfl⟩ := ran
  obtain ⟨valid, _, untaken⟩ := Space.fresh_valid
  obtain ⟨functionSpace, functionPlaces⟩ :=
    placeRoutines_ok valid.bounded countsLocals placedFunctions
  have unused : (between.reset .local).used .global = fun _ => 0 := by
    rw [Space.reset_used, if_neg (by decide),
      functionSpace.others .global (by decide), untaken .global (by decide)]
  have laid := placeVariables_ok (functionSpace.bounded.reset .local)
    (fun _ => Space.validIn_of_unused unused) countsGlobals placedGlobals
  refine ⟨⟨rfl, rfl, functionPlaces, laid.kept, laid.stored, laid.small,
    fun all => ?_⟩, laid.constants.trans functionSpace.constants, ?_⟩
  · have arranged := laid.arranged all
    rwa [Space.count_of_unused unused] at arranged
  · intro region notLocal notGlobal
    rw [laid.others region notGlobal, Space.reset_used, if_neg notLocal,
      functionSpace.others region notLocal]

theorem placeVariables_exhausts
    (stored : ∀ type ∈ typesIn entries, type.element ≠ .void) :
    OnlyExhausts (placeVariables region entries space) := by
  induction entries generalizing space with
  | nil => exact .ok _
  | cons entry entries ih =>
    obtain ⟨_, _⟩ := entry
    obtain ⟨here, later⟩ := List.forall_mem_cons.mp stored
    unfold placeVariables
    refine .bindRun (.ok _) fun _ _ ran => ?_
    cases ran
    refine .bindRun ((space.next_exhausts region here).bind fun _ _ => .ok _)
      fun _ _ _ => ?_
    refine .bindRun (.ok _) fun _ _ _ => ?_
    exact .bindRun (ih later) fun _ _ _ => .ok _

theorem placeRoutines_exhausts {entries : List (String × Routine)}
    (stored : ∀ entry ∈ entries, ∀ type ∈ typesIn entry.2.locals.entries,
      type.element ≠ .void) :
    OnlyExhausts (placeRoutines entries space) := by
  induction entries generalizing space with
  | nil => exact .ok _
  | cons entry entries ih =>
    obtain ⟨_, _⟩ := entry
    obtain ⟨here, later⟩ := List.forall_mem_cons.mp stored
    unfold placeRoutines placeRoutine
    refine .bindRun (.bindRun (.ok _) fun _ _ _ =>
      .bindRun (placeVariables_exhausts here) fun _ _ _ => .ok _)
        fun _ _ _ => ?_
    exact .bindRun (ih later) fun _ _ _ => .ok _

theorem Checked.place_exhausts
    (storedLocals : ∀ entry ∈ checked.functions.entries,
      ∀ type ∈ typesIn entry.2.locals.entries, type.element ≠ .void)
    (storedGlobals : ∀ type ∈ typesIn checked.globals.entries,
      type.element ≠ .void) :
    OnlyExhausts (checked.place space) := by
  unfold Checked.place
  refine .bindRun (placeRoutines_exhausts storedLocals) fun _ _ _ => ?_
  refine .bindRun (.ok _) fun _ _ _ => ?_
  exact .bindRun (placeVariables_exhausts storedGlobals) fun _ _ _ => .ok _

theorem ArrangedFrom.place {index : Nat}
    (arranged : ArrangedFrom (fun _ => 0) region entries)
    (entry : entries[index]? = some (name, found))
    (declarable : found.type.Declarable) :
    ∃ address, found.address = some address ∧
      Place address found.type ⟨region, found.type.element,
        slotsOf ((typesIn entries).take index) found.type.element⟩ := by
  obtain ⟨address, hasAddress, answers⟩ := arranged index name found entry
  rw [Nat.zero_add] at answers
  exact ⟨address, hasAddress,
    answers.place declarable.slotCount_pos fun object =>
    slotsOf_aligned _ object⟩

end Easel
