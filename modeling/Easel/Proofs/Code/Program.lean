import Easel.Proofs.Code.Statement

/-!
# The layout of a program

A program that compiles has the code of each of its functions, behind code
that sets the global variables to zero and a jump to the function that the
program starts in.  Laying out its storage gives every variable an address.
Where the slots of all variables can be counted these are places, one behind
the other, and the parameters of a function come first among its variables.
-/

namespace Easel

variable {name : String}

/--
No declared list needs more slots than there are in a segment.  The bound is
on the exact number of slots.
-/
def Program.ListsFit (program : Program) : Prop :=
  ∀ declaration ∈ program.declarations,
    declaration.type.isList = true → declaration.type.slotCount ≤ segmentSize

instance (program : Program) : Decidable program.ListsFit :=
  inferInstanceAs (Decidable (∀ declaration ∈ program.declarations,
    declaration.type.isList = true → declaration.type.slotCount ≤ segmentSize))

/--
The slots of every variable that is declared can be counted.  The bound is on
the exact number of slots.
-/
def Program.Countable (program : Program) : Prop :=
  ∀ declaration ∈ program.declarations, declaration.type.slotCount ≤
    Space.greatestRequest

instance (program : Program) : Decidable program.Countable :=
  inferInstanceAs (Decidable (∀ declaration ∈ program.declarations,
    declaration.type.slotCount ≤ Space.greatestRequest))

/-- The names and types of declarations, in order. -/
def typedDeclarations (declarations : List Declaration) : List (String × Ty) :=
  declarations.map fun declaration => (declaration.name, declaration.type)

/-- The functions of a checked program, with the starts of their code. -/
def Checked.positions (checked : Checked) :
    Except CompileError (Table Routine) := do
  let (placed, space) ← checked.place.run .fresh
  let ((_, functions), _) ← placed.emit.run ⟨space, []⟩
  return functions

/-- The position at which the code of a function starts. -/
def Program.positionOf? (program : Program) (entry name : String) :
    Option Address := do
  let checked ← (program.check entry).toOption
  entryOf (← checked.positions.toOption) name

/-- Where the code of a function stands, and the temporaries for it. -/
structure Extent where
  first : Nat
  length : Nat
  temps : Element → Nat

/-- Generate the code of functions, and note the extent of each. -/
def functionExtents (functions : Table Routine)
    (globals : Table Variable)
    (start : Nat) : List Function → Gen (List (String × Extent))
  | [] => return []
  | function :: rest => do
    let code ← emitFunction functions globals start function
    let temps := (← get).temps
    let others ← functionExtents functions globals (start + code.length) rest
    return (function.name, ⟨start, code.length, temps⟩) :: others

/-- The extents of the functions of a program whose storage is laid out. -/
def Checked.extents (checked : Checked) : Gen (List (String × Extent)) := do
  let globalCode ← emitGlobals checked.globals.entries
  Gen.link globalCode.length .result checked.entry
  functionExtents checked.functions checked.globals (globalCode.length + 1)
    checked.program.functions

/-- The extent of a function of a program. -/
def Program.extentOf? (program : Program) (entry name : String) :
    Option Extent := do
  let checked ← (program.check entry).toOption
  let (placed, space) ← (checked.place.run .fresh).toOption
  let (extents, _) ← (placed.extents.run ⟨space, []⟩).toOption
  extents.lookup name

/-- The tables of a program, with the storage of its variables. -/
def Program.layout? (program : Program) (entry : String) : Option Checked := do
  let checked ← (program.check entry).toOption
  let (placed, _) ← (checked.place.run .fresh).toOption
  return placed

/-- A function, the storage of its variables and where its code is. -/
structure Function.Laid (function : Function)
    (routine : Routine)
    (image : Image)
    (functions : Table Routine)
    (globals : Table Variable)
    (start : Nat) : Prop where
  arranged : (routine.context functions globals).Arranged
  unique : routine.locals.names.Nodup
  returns : routine.returns = function.returns
  parameters : routine.parameters = function.parameters.map (·.type)
  locals : typed routine.locals.entries =
    typedDeclarations (function.parameters ++ declarationsOf function.body)
  located : image.entryOf function.name = some (start : Int)
  code : FunctionCode image (routine.context functions globals)
    function.body start

/-- The code and the tables of a program. -/
structure Linked (program : Program)
    (entry : String)
    (image : Image)
    (functions : Table Routine)
    (globals : Table Variable) : Prop where
  declaredGlobals : typed globals.entries = typedDeclarations program.globals
  uniqueGlobals : globals.names.Nodup
  starts : ∃ routine, functions.find? entry = some routine ∧
    routine.parameters = []
  zeroed : ∀ (index : Nat) (name : String) (found : Variable),
    globals.entries[index]? = some (name, found) →
      ∃ address, found.address = some address ∧
        image.Has index (initQuad address found.type)
  jump : ∃ start : Nat, image.entryOf entry = some (start : Int) ∧
    image.Has globals.entries.length (Context.jump start)
  literals : ∃ space : Space, space.Literals ∧ space.constants = image.constants
  routines : ∀ name routine, functions.find? name = some routine →
    ∃ function ∈ program.functions, function.name = name ∧
      ∃ start, function.Laid routine image functions globals start
  known : ∀ name position, image.entryOf name = some position →
    ∃ routine, functions.find? name = some routine
  apart : ∀ name other position, image.entryOf name = some position →
    image.entryOf other = some position → name = other

/-- The code of a function takes up an extent: its body and a return. -/
def Extent.Holds (extent : Extent)
    (image : Image)
    (context : Context)
    (body : List Stmt) : Prop :=
  ∃ stop zero,
    StmtCode image context (.block body) ⟨extent.first, fun _ => 0⟩ stop ∧
    image.Has stop.position ⟨.ret, .unused, .unused, zero⟩ ∧
    ZeroOf image context.returns zero ∧
    stop.position + 1 = extent.first + extent.length ∧ stop.temps = extent.temps

theorem Extent.Holds.code {extent : Extent} {image : Image} {context : Context}
    {body : List Stmt}
    (holds : extent.Holds image context body) :
    FunctionCode image context body extent.first := by
  obtain ⟨stop, zero, code, ret, zeroOf, _⟩ := holds
  exact ⟨stop, zero, code, ret, zeroOf⟩

/-! ## Tables before and after layout -/

theorem typesIn_eq (entries : List (String × Variable)) :
    typesIn entries = (typed entries).map Prod.snd := by
  simp [typesIn, typed]

theorem typed_entry (declarations : List Declaration) :
    typed (declarations.map Declaration.entry) =
      typedDeclarations declarations := by
  simp [typed, typedDeclarations, Declaration.entry]

theorem names_of_typed {first second : Table Variable}
    (same : typed first.entries = typed second.entries) :
    first.names = second.names := by
  have names : ∀ table : Table Variable, table.names = (typed table.entries).map
      Prod.fst := by
    intro table
    unfold Table.names typed
    rw [List.map_map]
    rfl
  rw [names, names, same]

theorem typesIn_of_typed {first second : List (String × Variable)}
    (same : typed first = typed second) : typesIn first = typesIn second := by
  rw [typesIn_eq, same, ← typesIn_eq]

theorem Table.exists_of_mem_names {α : Type} {table : Table α}
    (member : name ∈ table.names) :
    ∃ entry, table.find? name = some entry := by
  cases found : table.find? name with
  | none => exact absurd member (Table.find?_eq_none_iff.mp found)
  | some entry => exact ⟨entry, rfl⟩

section

variable {program : Program} {entry : String} {checked placed : Checked}
  {countable : Prop}

theorem typesIn_entry (declarations : List Declaration) :
    typesIn (declarations.map Declaration.entry) =
      declarations.map (·.type) := by
  rw [typesIn, List.map_map]
  rfl

/-- The types in the tables of a checked program are those that it declares. -/
theorem Program.Checks.declared (checks : program.Checks entry checked)
    (holds : Ty → Prop) :
    (∀ declaration ∈ program.declarations, holds declaration.type) ↔
      (∀ entry ∈ checked.functions.entries,
        ∀ type ∈ typesIn entry.2.locals.entries, holds type) ∧
        ∀ type ∈ typesIn checked.globals.entries, holds type := by
  constructor
  · intro all
    constructor
    · rintro ⟨_, routine⟩ member type inLocals
      obtain ⟨function, inProgram, _, declares⟩ := checks.functions.mem member
      dsimp only at inLocals
      rw [declares.locals, typesIn_entry] at inLocals
      obtain ⟨declaration, inFunction, rfl⟩ := List.mem_map.mp inLocals
      exact all declaration
        (List.mem_append_right _ (List.mem_flatMap.mpr ⟨function,
          inProgram, inFunction⟩))
    · intro type inGlobals
      rw [checks.globals, typesIn_entry] at inGlobals
      obtain ⟨declaration, isGlobal, rfl⟩ := List.mem_map.mp inGlobals
      exact all declaration (List.mem_append_left _ isGlobal)
  · rintro ⟨locals, globals⟩ declaration member
    rcases List.mem_append.mp member with isGlobal | inSome
    · apply globals
      rw [checks.globals, typesIn_entry]
      exact List.mem_map_of_mem isGlobal
    · obtain ⟨function, inProgram, inFunction⟩ := List.mem_flatMap.mp inSome
      obtain ⟨routine, found, declares⟩ :=
        checks.functions.find? checks.uniqueFunctions inProgram
      apply locals _ (Table.mem_of_find? found)
      dsimp only
      rw [declares.locals, typesIn_entry]
      exact List.mem_map_of_mem inFunction

theorem Routine.Places.signature {routine after : Routine}
    (places : routine.Places countable after) :
    after.signature = routine.signature := by
  unfold Routine.signature
  rw [places.returns, places.parameters]

namespace Checked.Places

theorem signatures (places : checked.Places countable placed) (name : String) :
    (placed.functions.find? name).map Routine.signature =
      (checked.functions.find? name).map Routine.signature :=
  Table.find?_map_eq _ _ (places.functions.map_eq Routine.signature
    fun _ _ => Routine.Places.signature) name

section

variable (places : checked.Places countable placed)
  (checks : program.Checks entry checked)
include places checks

theorem routine {plain : Routine}
    (known : checked.functions.find? name = some plain) :
    ∃ routine, placed.functions.find? name = some routine ∧
      plain.Places countable routine := by
  have same := places.signatures name
  rw [known, Option.map_some] at same
  obtain ⟨routine, found, _⟩ := Option.map_eq_some_iff.mp same
  obtain ⟨_, otherKnown, placesRoutine⟩ :=
    places.functions.find? checks.uniqueFunctions found
  rw [known] at otherKnown
  cases otherKnown
  exact ⟨routine, found, placesRoutine⟩

/-- Where a layout works, every countable variable fits a segment. -/
theorem fits (declarable : AllDeclarable program.declarations)
    (all : countable) :
    ∀ declaration ∈ program.declarations, declaration.type.Fits := by
  have small : ∀ declaration ∈ program.declarations,
      declaration.type.slotCount ≤ segmentSize := by
    refine (checks.declared fun type => type.slotCount ≤ segmentSize).mpr
      ⟨?_, places.small all⟩
    rintro ⟨name, routine⟩ member
    obtain ⟨index, listed⟩ := List.getElem?_of_mem member
    obtain ⟨_, _, placesRoutine⟩ := places.functions.2 index name routine listed
    exact placesRoutine.small all
  exact fun declaration member =>
    ⟨declarable declaration member, small declaration member⟩

theorem arrangedRoutine {routine : Routine}
    (declarable : AllDeclarable program.declarations)
    (all : countable)
    (found : placed.functions.find? name = some routine) :
    (routine.context placed.functions placed.globals).Arranged := by
  have fits := places.fits checks declarable all
  obtain ⟨fitLocals, fitGlobals⟩ := (checks.declared Ty.Fits).mp fits
  obtain ⟨_, plainFound, routinePlaces⟩ :=
    places.functions.find? checks.uniqueFunctions found
  refine ⟨routinePlaces.arranged all, places.arranged all, ?_, ?_, ?_⟩
  · change ∀ type ∈ typesIn routine.locals.entries, type.Fits
    rw [typesIn_of_typed routinePlaces.locals]
    exact fitLocals _ (Table.mem_of_find? plainFound)
  · change ∀ type ∈ typesIn placed.globals.entries, type.Fits
    rw [typesIn_of_typed places.globals]
    exact fitGlobals
  · intro otherName other otherFound
    obtain ⟨_, otherPlainFound, otherPlaces⟩ :=
      places.functions.find? checks.uniqueFunctions otherFound
    obtain ⟨function, member, _, declares⟩ :=
      checks.functions.mem (Table.mem_of_find? otherPlainFound)
    rw [otherPlaces.returns, otherPlaces.parameters, declares.returns,
      declares.parameters]
    refine ⟨declares.plain, fun type isParameter => ?_⟩
    obtain ⟨declaration, declared, rfl⟩ := List.mem_map.mp isParameter
    exact fits declaration (List.mem_append_right _ (List.mem_flatMap.mpr
      ⟨function, member, List.mem_append_left _ declared⟩))

end

end Checked.Places

/-- The tables before and after layout fit together, one by one. -/
def Checked.Ready (checked placed : Checked) : Prop :=
  ∀ name plain routine, checked.functions.find? name = some plain →
    placed.functions.find? name = some routine →
      (plain.context checked.functions checked.globals).Prepared
        (routine.context placed.functions placed.globals)

theorem StoredEntries.find? {table : Table Variable} {found : Variable}
    (stored : StoredEntries table.entries)
    (declarable : ∀ type ∈ typesIn table.entries, type.Declarable)
    (known : table.find? name = some found) :
    found.type.Declarable ∧ ∃ address, found.address = some address ∧
      Space.Roomy address :=
  have member := Table.mem_of_find? known
  ⟨declarable _ (List.mem_map.mpr ⟨_, member, rfl⟩), stored _ member⟩

theorem Checked.Places.ready (places : checked.Places countable placed)
    (checks : program.Checks entry checked)
    (declarable : AllDeclarable program.declarations) :
    checked.Ready placed := by
  obtain ⟨declarableLocals, declarableGlobals⟩ :=
    (checks.declared Ty.Declarable).mp declarable
  intro name plain routine plainFound found
  obtain ⟨_, otherFound, routinePlaces⟩ :=
    places.functions.find? checks.uniqueFunctions found
  rw [plainFound] at otherFound
  cases otherFound
  refine ⟨⟨?_, places.signatures, routinePlaces.returns⟩, ?_, ?_⟩
  · intro variableName
    have sameLocals := Table.find?_map_eq Variable.type Variable.type
      routinePlaces.locals variableName
    have sameGlobals := Table.find?_map_eq Variable.type Variable.type
      places.globals variableName
    simp only [Routine.context, Scope.find?]
    cases placedLocal : routine.locals.find? variableName <;>
      cases plainLocal : plain.locals.find? variableName <;>
      simp_all
  · intro variableName held inScope
    simp only [Routine.context, Scope.find?] at inScope
    cases inside : routine.locals.find? variableName with
    | some owner =>
      rw [inside] at inScope
      cases inScope
      refine routinePlaces.stored.find? ?_ inside
      rw [typesIn_of_typed routinePlaces.locals]
      exact declarableLocals _ (Table.mem_of_find? plainFound)
    | none =>
      rw [inside] at inScope
      refine places.stored.find? ?_ inScope
      rw [typesIn_of_typed places.globals]
      exact declarableGlobals
  · intro otherName routine otherFound
    obtain ⟨_, otherPlainFound, otherPlaces⟩ :=
      places.functions.find? checks.uniqueFunctions otherFound
    obtain ⟨_, _, _, declares⟩ :=
      checks.functions.mem (Table.mem_of_find? otherPlainFound)
    rw [otherPlaces.returns, declares.returns]
    exact declares.plain

/-- A layout that works leaves everything as generation needs it. -/
theorem Program.Checks.laid {space : Space}
    (checks : program.Checks entry checked)
    (ran : checked.place .fresh = .ok (placed, space)) :
    checked.Places program.Countable placed ∧
      (∀ links, Draft.Sound ⟨space, links⟩) ∧
      Space.fresh.constants <+: space.constants := by
  have counts := checks.declared fun type =>
    type.slotCount ≤ Space.greatestRequest
  obtain ⟨places, constants, others⟩ := Checked.place_ok
    (fun all => (counts.mp all).1) (fun all => (counts.mp all).2) ran
  obtain ⟨valid, literals, _⟩ := Space.fresh_valid
  have temps := others .temp (by decide) (by decide)
  have kept := others .constant (by decide) (by decide)
  refine ⟨places, fun _ =>
    ⟨(valid .temp).congr temps, (valid .constant).congr kept,
      literals.of_constants constants (Space.count_congr kept), ?_⟩,
    constants ▸ List.prefix_refl _⟩
  rw [constants]
  exact Space.fresh_solid

theorem Program.ListsFit.counts (listsFit : program.ListsFit)
    (declarable : AllDeclarable program.declarations) :
    program.Countable := fun declaration member =>
  Nat.le_trans
    ((declarable declaration member).fits (listsFit declaration member)).small
    (by decide)

/-- Laying out a checked program works or exhausts a segment. -/
theorem Program.Checks.place_exhausts (checks : program.Checks entry checked)
    (declarable : AllDeclarable program.declarations)
    (space : Space) :
    OnlyExhausts (checked.place space) := by
  have stored : ∀ declaration ∈ program.declarations,
      declaration.type.element ≠ .void :=
    fun declaration member => (declarable declaration member).stored
  obtain ⟨locals, globals⟩ :=
    (checks.declared fun type => type.element ≠ .void).mp stored
  exact Checked.place_exhausts locals globals

end

end Easel
