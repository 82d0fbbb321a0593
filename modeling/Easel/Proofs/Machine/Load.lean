import Easel.Machine
import Easel.Proofs.Code.Program
import Easel.Proofs.Memory.Contents

/-!
# Machines that have been loaded

The constants of a program lie at different places for their types.  A
machine that has been loaded with the program holds, at each of these places,
the value that the text of the constant stands for.
-/

namespace Easel

variable {value : Value} {space : Space}

theorem Value.typed_of_ofLiteral? {text : String} {element : Element}
    (stands : ofLiteral? text element = some value) : value.Typed element := by
  cases element with
  | int =>
    obtain ⟨number, _, rfl⟩ := Option.map_eq_some_iff.mp stands
    exact .int number
  | float =>
    obtain ⟨number, _, rfl⟩ := Option.map_eq_some_iff.mp stands
    exact .float number
  | bool =>
    simp only [ofLiteral?] at stands
    split at stands
    · cases stands
      exact .bool true
    · split at stands
      · cases stands
        exact .bool false
      · cases stands
  | char =>
    obtain ⟨letter, _, rfl⟩ := Option.map_eq_some_iff.mp stands
    exact .char letter
  | string =>
    obtain ⟨_, _, rfl⟩ := Option.map_eq_some_iff.mp stands
    exact .string _
  | square => cases stands
  | circle => cases stands
  | image => cases stands
  | text => cases stands
  | background => cases stands
  | void => cases stands

namespace Memory

/-- A constant lies at a place for its type. -/
def Houses (constant : Constant) : Prop :=
  ∃ offset, Place constant.address (.basic constant.element)
    ⟨.constant, constant.element, offset⟩

variable {memory after : Memory} {constant : Constant}
  {constants : List Constant}

theorem loadConstant_eq (houses : Houses constant)
    (stands : Value.ofLiteral? constant.text constant.element = some value) :
    loadConstant constant memory =
      .ok () (memory.fill .constant constant.address [value]) := by
  obtain ⟨_, place⟩ := houses
  have typed := Value.typed_of_ofLiteral? stands
  rw [← Ty.element_basic constant.element, ← place.kind] at typed
  simp only [loadConstant, stands, locate, place.located, if_true, put,
    typed.fit?_self, bind, EStateM.bind, MonadExcept.ofExcept, pure,
    EStateM.pure, get_run, set_run]
  rfl

theorem loadConstant_ok (houses : Houses constant)
    (loaded : loadConstant constant memory = .ok () after) :
    ∃ value, Value.ofLiteral? constant.text constant.element = some value ∧
      after = memory.fill .constant constant.address [value] := by
  cases stands : Value.ofLiteral? constant.text constant.element with
  | none =>
    simp [loadConstant, stands, throw_run] at loaded
  | some value =>
    rw [loadConstant_eq houses stands] at loaded
    cases loaded
    exact ⟨value, rfl, rfl⟩

theorem loadConstants_cons {first : Constant} {rest : List Constant} :
    loadConstants (first :: rest) memory = .ok () after ↔
      ∃ between, loadConstant first memory = .ok () between ∧
        loadConstants rest between = .ok () after := by
  change (loadConstant first >>= fun _ => loadConstants rest) memory = _ ↔ _
  simp only [bind, EStateM.bind]
  cases stored : loadConstant first memory with
  | ok done between => simp
  | error fault left => simp

/-- A constant that was stored lies among the constants and fits its slot. -/
theorem loadConstant_fits
    (loaded : loadConstant constant memory = .ok () after) :
    ∃ (location : Location) (value fitted : Value),
      locate? constant.address = some location ∧ location.region = .constant ∧
      value.fit? location.kind = some fitted ∧
      after = memory.assign .constant constant.address fitted := by
  cases stands : Value.ofLiteral? constant.text constant.element with
  | none => simp [loadConstant, stands, throw_run] at loaded
  | some value =>
    cases located : locate? constant.address with
    | none =>
      simp [loadConstant, stands, locate, located, bind, EStateM.bind,
        MonadExcept.ofExcept, throw_run] at loaded
    | some location =>
      by_cases inConstants : location.region = .constant
      · cases fits : value.fit? location.kind with
        | none =>
          simp [loadConstant, stands, locate, located, inConstants,
            put, fits, bind, EStateM.bind, pure, EStateM.pure,
            MonadExcept.ofExcept, get_run, throw_run] at loaded
        | some fitted =>
          simp only [loadConstant, stands, locate, located, inConstants,
            if_true, put, fits, bind, EStateM.bind, pure, EStateM.pure,
            MonadExcept.ofExcept, get_run, set_run, EStateM.Result.ok.injEq,
            true_and] at loaded
          exact ⟨location, value, fitted, rfl, inConstants, fits, loaded.symm⟩
      · simp [loadConstant, stands, locate, located, inConstants, bind,
          EStateM.bind, pure, EStateM.pure, MonadExcept.ofExcept,
          throw_run] at loaded

/-- What is kept by storing a constant is kept by storing constants. -/
theorem loadConstants_keeps (property : Memory → Prop)
    (kept : ∀ (memory : Memory) (address : Address) (location : Location)
      (value fitted : Value), property memory →
      locate? address = some location → location.region = .constant →
      value.fit? location.kind = some fitted →
      property (memory.assign .constant address fitted))
    (initially : property memory)
    (loaded : loadConstants constants memory = .ok () after) :
    property after := by
  induction constants generalizing memory with
  | nil =>
    cases loaded
    exact initially
  | cons first rest induction =>
    obtain ⟨_, stored, restLoaded⟩ := loadConstants_cons.mp loaded
    obtain ⟨location, value, fitted, located, inConstants, fits, rfl⟩ :=
      loadConstant_fits stored
    exact induction (kept memory _ location value fitted initially located
      inConstants fits) restLoaded

/-- Storing constants makes each readable and changes nothing else. -/
theorem loadConstants_ok (houses : ∀ constant ∈ constants, Houses constant)
    (distinct : constants.Pairwise fun first second => first.address ≠
      second.address)
    (kinded : memory.Kinded)
    (loaded : loadConstants constants memory = .ok () after) :
    after.Kinded ∧
      (∀ region address, (∀ constant ∈ constants, constant.address ≠ address) →
        (after.bank region)[address]? = (memory.bank region)[address]?) ∧
      ∀ constant ∈ constants,
        Value.ofLiteral? constant.text constant.element =
          some (after.contents constant.address) := by
  induction constants generalizing memory with
  | nil =>
    cases loaded
    exact ⟨kinded, fun _ _ _ => rfl, by simp⟩
  | cons first rest induction =>
    obtain ⟨apart, restDistinct⟩ := List.pairwise_cons.mp distinct
    obtain ⟨_, stored, restLoaded⟩ := loadConstants_cons.mp loaded
    have firstHouses := houses first List.mem_cons_self
    obtain ⟨value, stands, rfl⟩ := loadConstant_ok firstHouses stored
    obtain ⟨_, place⟩ := firstHouses
    have typed := Value.typed_of_ofLiteral? stands
    have betweenKinded : (memory.fill .constant first.address [value]).Kinded :=
      kinded.fill place (suits_single typed) (by
        rw [Ty.slotCount_basic]
        exact first.element.slotWidth_pos)
    obtain ⟨afterKinded, unchanged, holds⟩ := induction
      (fun constant member => houses constant (List.mem_cons_of_mem _ member))
      restDistinct betweenKinded restLoaded
    refine ⟨afterKinded, ?_, ?_⟩
    · intro region address elsewhere
      rw [unchanged region address fun constant member =>
        elsewhere constant (List.mem_cons_of_mem _ member)]
      have different := elsewhere first List.mem_cons_self
      refine bank_fill_outside (.inr ?_)
      simp only [List.length_singleton]
      grind
    · intro constant member
      rcases List.mem_cons.mp member with rfl | later
      · have same := contents_congr place.located
          (unchanged .constant constant.address fun other inRest =>
            (apart other inRest).symm)
        rw [stands, same, contents_fill_single place.located]
      · exact holds constant later

theorem kinded_empty : empty.Kinded := by
  intro region address value found
  cases region <;> simp [empty, bank] at found

end Memory

theorem Space.Literals.houses {constant : Constant}
    (literals : space.Literals)
    (member : constant ∈ space.constants) :
    Memory.Houses constant := by
  obtain ⟨offset, _, place⟩ := literals.place member
  exact ⟨offset, place⟩

variable {executable : Executable} {screen : Screen} {machine : Machine}

/-- A machine that has been loaded stands at the start of its code. -/
theorem Machine.load_ok (loaded : load executable screen = .ok machine) :
    ∃ memory, Memory.loadConstants executable.constants .empty = .ok () memory ∧
      machine = start executable.code memory screen := by
  unfold load at loaded
  split at loaded
  · rename_i done memory stored
    cases loaded
    exact ⟨memory, stored, rfl⟩
  · cases loaded

/-- Memory that holds the constants of a program and nothing else. -/
structure Memory.HoldsConstants (memory : Memory) (constants : List Constant) :
    Prop where
  kinded : memory.Kinded
  empty : ∀ region address,
    (∀ constant ∈ constants, constant.address ≠ address) →
    (memory.bank region)[address]? = none
  holds : ∀ constant ∈ constants,
    Value.ofLiteral? constant.text constant.element =
      some (memory.contents constant.address)

/-- Literals can be read once they have been loaded. -/
theorem Space.Literals.loaded (literals : space.Literals)
    (sameConstants : executable.constants = space.constants)
    (loaded : Machine.load executable screen = .ok machine) :
    machine.memory.HoldsConstants space.constants := by
  obtain ⟨_, stored, rfl⟩ := Machine.load_ok loaded
  rw [sameConstants] at stored
  obtain ⟨kinded, unchanged, holds⟩ :=
    Memory.loadConstants_ok (fun _ => literals.houses) literals.distinct
    Memory.kinded_empty stored
  refine ⟨kinded, ?_, holds⟩
  intro region address elsewhere
  refine (unchanged region address elsewhere).trans ?_
  cases region <;> simp [Memory.empty, Memory.bank]

theorem Linked.loaded {program : Program} {entry : String} {image : Image}
    {functions : Table Routine} {globals : Table Variable}
    (linked : Linked program entry image functions globals)
    (sameConstants : image.constants = executable.constants)
    (loaded : Machine.load executable screen = .ok machine) :
    machine = .start executable.code machine.memory screen ∧
      machine.memory.HoldsConstants image.constants := by
  obtain ⟨_, literals, constants⟩ := linked.literals
  have holds := literals.loaded (sameConstants.symm.trans constants.symm) loaded
  obtain ⟨_, _, rfl⟩ := Machine.load_ok loaded
  exact ⟨rfl, constants ▸ holds⟩

end Easel
