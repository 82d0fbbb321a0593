import Easel.Proofs.Meaning.Statement
import Easel.Proofs.Session.CallIndependence

/-!
# Compilation preserves meaning

A program that starts in a function without calls of other functions of the
program, and that compiles, stops exactly if its evaluation ends, with the same
lines and the same strokes, and with a fault exactly if the evaluation comes to
the corresponding mishap.
-/

namespace Easel

variable {fault : Option Fault} {executable : Executable}

/-- No variable and no temporary was written. -/
def Memory.Untouched (memory : Memory) : Prop :=
  ∀ slot location, locate? slot = some location →
    location.region.isVariable = true →
    (memory.bank location.region)[slot]? = none

namespace Memory.Untouched

variable {memory : Memory} {first : Address} {type : Ty} {location : Location}

theorem erase (untouched : memory.Untouched)
    (region : Region)
    (first : Address)
    (count : Nat) :
    (memory.erase region first count).Untouched := by
  intro slot location located varies
  rw [bank_erase]
  split
  · rfl
  · exact untouched slot location located varies

theorem block (untouched : memory.Untouched)
    (place : Place first type location)
    (varies : location.region.isVariable = true) :
    memory.block first type.slotCount = (Meaning.Holding.zero type).slots := by
  rw [Meaning.Holding.slots_zero]
  refine List.map_congr_left fun index member => ?_
  obtain ⟨found, located, region, kind⟩ := place.slot (List.mem_range.mp member)
  rw [contents_eq located, valueAt,
    untouched _ found located (by rw [region]; exact varies), kind]
  rfl

end Memory.Untouched

namespace Meaning

variable {memory : Memory} {program : Program} {entry : String} {image : Image}
variable {functions : Table Routine} {globals : Table Variable}

/-- The variables of a table hold the zeros of their declared types. -/
theorem TableHolds.of_untouched {table : Table Variable}
    {declarations : List Declaration} {region : Region}
    (untouched : memory.Untouched)
    (declared : typed table.entries = typedDeclarations declarations)
    (arranged : ArrangedFrom (fun _ => 0) region table.entries)
    (fits : ∀ type ∈ typesIn table.entries, type.Fits)
    (varies : region.isVariable = true) :
    TableHolds table memory (Store.zeros declarations) := by
  have zeros : ∀ name, ((Store.zeros declarations).find? name).map id =
      (table.find? name).map fun found => Holding.zero found.type := by
    intro name
    refine Table.find?_map_eq _ _ ?_ name
    have listed := congrArg (List.map fun (entry : String × Ty) =>
      (entry.1, Holding.zero entry.2)) declared
    simp only [typed, typedDeclarations, List.map_map] at listed
    simp only [Store.zeros, List.map_map]
    exact listed.symm
  simp only [Option.map_id_fun, id_eq] at zeros
  constructor
  · intro name missing
    rw [zeros, missing]
    rfl
  · intro name found known
    obtain ⟨foundFits, first, _, hasAddress, place, isRegion⟩ :=
      place_of_find? arranged fits known
    refine ⟨first, .zero found.type, hasAddress, by rw [zeros, known]; rfl,
      Holding.zero_typed foundFits.stored,
      untouched.block place (by rw [isRegion]; exact varies)⟩

end Meaning

namespace Session

variable {session : Session} {next : Machine} {steps : Nat}

/-- Without a limit and with an open window a session follows its machine. -/
theorem runFor_of_goes (goes : session.machine.Goes steps next)
    (unlimited : session.limit = none)
    (stays : session.machine.screen.closeAfter = none) :
    session.runFor steps =
      .running { session with
        machine := next
        executed := session.executed + steps } := by
  generalize isMachine : session.machine = machine at goes
  induction goes generalizing session with
  | refl =>
    subst isMachine
    rfl
  | @step steps machine between last continues closing rest induction =>
    subst isMachine
    have stepped := step_of_continues continues unlimited (closing.trans stays)
    rw [runFor, stepped]
    have onward := @induction (session.counted between) unlimited
      (closing.trans stays) rfl
    refine Eq.trans onward ?_
    simp only [counted, Nat.add_assoc, Nat.add_comm 1]

/-- A run stops in one way. -/
theorem runFor_unique {last other : Session} {otherFault : Option Fault}
    {fuel more : Nat}
    (ended : session.runFor fuel = .stopped last fault)
    (otherEnded : session.runFor more = .stopped other otherFault) :
    last = other ∧ fault = otherFault := by
  have both := runFor_add fuel more session
  rw [Nat.add_comm, runFor_add, ended, otherEnded] at both
  cases both
  exact ⟨rfl, rfl⟩

/-- A session ends, with or without a fault, having told its screen more. -/
def StopsTelling (session : Session)
    (fault : Option Fault)
    (lines : Array String)
    (strokes : Array Stroke) : Prop :=
  ∃ fuel last, session.runFor fuel = .stopped last fault ∧
    last.machine.screen.lines = session.machine.screen.lines ++ lines ∧
    last.machine.screen.strokes = session.machine.screen.strokes ++ strokes

/-- A session stops behind some steps of its machine. -/
theorem StopsTelling.of_goes {last : Session} {lines : Array String}
    {strokes : Array Stroke}
    (goes : session.machine.Goes steps next)
    (unlimited : session.limit = none)
    (stays : session.machine.screen.closeAfter = none)
    (stepped :
      ({ session with
        machine := next
        executed := session.executed + steps } : Session).step =
        .stopped last fault)
    (written : last.machine.screen.lines =
      session.machine.screen.lines ++ lines)
    (drawn : last.machine.screen.strokes =
      session.machine.screen.strokes ++ strokes) :
    session.StopsTelling fault lines strokes := by
  refine ⟨steps + 1, last, ?_, written, drawn⟩
  rw [runFor_add, runFor_of_goes goes unlimited stays]
  simp only [runFor, stepped]

end Session

namespace Meaning

/-! ## From the start to the first statement -/

variable {program : Program} {entry : String} {image : Image}
  {functions : Table Routine}
variable {globals : Table Variable} {function : Function}
  {routine : Routine} {start : Nat}

/-- The invocation with which a program starts. -/
def rootStage (linked : Linked program entry image functions globals)
    (found : functions.find? entry = some routine)
    (laid : function.Laid routine image functions globals start)
    (screen : Screen) : Stage where
  image := image
  context := routine.context functions globals
  arranged := laid.arranged
  single := (laid.arranged.signatures entry routine found).1
  literals := linked.literals
  activation := ⟨Machine.rootFrame image.code, [], [], rfl⟩
  origin := screen

section

variable {linked : Linked program entry image functions globals}
variable {found : functions.find? entry = some routine}
variable {laid : function.Laid routine image functions globals start}
  {screen : Screen}
variable {machine : Machine}

/-- Where nothing was written, the variables hold what they start with. -/
theorem scopeHolds_initial {memory : Memory}
    (linked : Linked program entry image functions globals)
    (laid : function.Laid routine image functions globals start)
    (untouched : memory.Untouched) :
    ScopeHolds (routine.context functions globals).scope memory
      (initial program function).store :=
  ⟨.of_untouched untouched laid.locals laid.arranged.locals
    laid.arranged.fitLocals rfl,
    .of_untouched untouched linked.declaredGlobals laid.arranged.globals
      laid.arranged.fitGlobals rfl⟩

/-- The global variables are set to zero, one after the other. -/
theorem goes_of_zeroed {index remaining : Nat}
    (stands : (rootStage linked found laid screen).Stands
      (initial program function) index machine)
    (untouched : machine.memory.Untouched)
    (counted : index + remaining = globals.entries.length) :
    ∃ steps next, machine.Goes steps next ∧
      (rootStage linked found laid screen).Stands (initial program function)
        globals.entries.length next := by
  induction remaining generalizing index machine with
  | zero =>
    rw [Nat.add_zero] at counted
    subst counted
    exact ⟨0, machine, .refl _, stands⟩
  | succ remaining induction =>
    have bound : index < globals.entries.length := by omega
    have listed := List.getElem?_eq_getElem bound
    obtain ⟨address, hasAddress, init⟩ := linked.zeroed index _ _ listed
    have fits : (globals.entries[index]).2.type.Fits :=
      laid.arranged.fitGlobals _
        (List.mem_map.mpr ⟨_, List.getElem_mem bound, rfl⟩)
    obtain ⟨_, otherHas, place⟩ := laid.arranged.globals.place listed
      fits.toDeclarable
    rw [hasAddress] at otherHas
    cases otherHas
    have erased := untouched.erase .global address
      (globals.entries[index]).2.type.slotCount
    have intact : (machine.memory.erase .global address
        (globals.entries[index]).2.type.slotCount).Intact image.constants :=
      stands.runs.intact.erase rfl _
    obtain ⟨next, goes, memory, standsNext⟩ := stands.executes init
      (Exec.execute_init place (by simp) fits)
      ⟨⟨stands.runs.code, stands.runs.frames, stands.runs.pending, intact⟩,
        scopeHolds_initial linked laid erased, stands.lines,
        stands.strokes, stands.held, stands.closing⟩
    obtain ⟨steps, last, more, standsLast⟩ :=
      induction standsNext (by rw [memory]; exact erased) (by omega)
    exact ⟨_, last, goes.trans more, standsLast⟩

end

/-- A loaded machine shows the world in which the program is started. -/
theorem stands_of_load {screen : Screen} {machine : Machine}
    (linked : Linked program entry image functions globals)
    (found : functions.find? entry = some routine)
    (laid : function.Laid routine image functions globals start)
    (sameCode : image.code = executable.code)
    (sameConstants : image.constants = executable.constants)
    (loaded : Machine.load executable screen = .ok machine) :
    (rootStage linked found laid screen).Stands (initial program function) 0
      machine ∧ machine.memory.Untouched := by
  obtain ⟨started, holds⟩ := linked.loaded sameConstants loaded
  obtain ⟨memory, stored, isStart⟩ := Machine.load_ok loaded
  have keeps : machine.memory.Keeps image.constants := by
    rw [isStart, sameConstants]
    exact ⟨memory, stored, rfl, rfl⟩
  have untouched : machine.memory.Untouched := by
    intro slot location located varies
    refine holds.empty location.region slot ?_
    rintro constant member rfl
    obtain ⟨_, literals, constants⟩ := linked.literals
    rw [← constants] at member
    obtain ⟨_, _, place⟩ := literals.place member
    rw [place.located] at located
    cases located
    cases varies
  have store := scopeHolds_initial linked laid untouched
  rw [started] at store keeps ⊢
  rw [started] at holds
  refine ⟨⟨⟨⟨sameCode.symm, ?_, rfl, holds.kinded, keeps⟩, store,
    by simp [Machine.start, initial, rootStage],
    by simp [Machine.start, initial, rootStage], rfl, rfl⟩, rfl⟩, ?_⟩
  · rw [← sameCode]
    rfl
  · rw [started] at untouched
    exact untouched

/-- A variable of a function has the type with which it is declared. -/
theorem declared_type {declaration : Declaration} {known : Variable}
    (laid : function.Laid routine image functions globals start)
    (member : declaration ∈ function.parameters ++ declarationsOf function.body)
    (isKnown : routine.locals.find? declaration.name = some known) :
    known.type = declaration.type := by
  obtain ⟨index, listed⟩ := List.getElem?_of_mem member
  have typedEntry : (typed routine.locals.entries)[index]? =
      some (declaration.name, declaration.type) := by
    rw [laid.locals, typedDeclarations, List.getElem?_map, listed]
    rfl
  rw [typed, List.getElem?_map, Option.map_eq_some_iff] at typedEntry
  obtain ⟨⟨_, _⟩, entry, same⟩ := typedEntry
  simp only [Prod.mk.injEq] at same
  obtain ⟨rfl, sameType⟩ := same
  rw [Table.find?_of_getElem? laid.unique entry] at isKnown
  cases isKnown
  exact sameType

/-- A loaded machine does what the body of its first function does. -/
theorem follows_of_load {screen : Screen} {machine : Machine}
    (linked : Linked program entry image functions globals)
    (found : functions.find? entry = some routine)
    (laid : function.Laid routine image functions globals start)
    (named : function.name = entry)
    (sameCode : image.code = executable.code)
    (sameConstants : image.constants = executable.constants)
    (loaded : Machine.load executable screen = .ok machine)
    (selfContained : selfContainedAll function.body = true) :
    ∃ stop zero, image.Has stop ⟨.ret, .unused, .unused, zero⟩ ∧
      ∀ rounds, (rootStage linked found laid screen).Follows rounds stop machine
        (executeAll screen.held rounds function.body
          (initial program function)) := by
  obtain ⟨stands, untouched⟩ := stands_of_load linked found laid sameCode
    sameConstants loaded
  obtain ⟨_, reached, goes, standsReached⟩ := goes_of_zeroed stands untouched
    (Nat.zero_add _)
  obtain ⟨_, located, jump⟩ := linked.jump
  have same := laid.located
  rw [named, located] at same
  cases same
  obtain ⟨next, further, _, standsNext⟩ :=
    standsReached.jumps jump (Exec.execute_jump reached start)
  obtain ⟨stop, zero, code, ret, _⟩ := laid.code
  have declares : (rootStage linked found laid screen).Declares
      (declarationsOf function.body) := by
    intro declaration member known isKnown
    exact declared_type laid (List.mem_append_right _ member) isKnown
  refine ⟨stop.position, zero, ret, fun rounds => ?_⟩
  have proceeds : (rootStage linked found laid screen).Proceeds rounds
      ⟨start, fun _ => 0⟩ stop (.block function.body) :=
    Stage.proceeds_of_code rounds code fun _ _ => rfl
  have follows := proceeds selfContained declares _ next standsNext
  exact (follows.behind further (Nat.le_add_left _ _)).behind goes
    (Nat.le_add_left _ _)

/-! ## Ends -/

/-- The fault with which a session stops that an evaluation ends with. -/
inductive Reports : Option Mishap → Option Fault → Prop where
  | normally : Reports none none
  | mishap {mishap : Mishap} {fault : Fault} (alike : mishap.Matches fault) :
      Reports (some mishap) (some fault)

/-- A session whose machine comes to an end stops. -/
theorem Stage.Follows.stops {stage : Stage} {least stop : Nat} {ending : Ending}
    {world : World} {session : Session} {zero : Address}
    (follows : stage.Follows least stop session.machine (some (ending, world)))
    (root : stage.activation.frames = [Machine.rootFrame stage.image.code])
    (ret : stage.image.Has stop ⟨.ret, .unused, .unused, zero⟩)
    (unlimited : session.limit = none)
    (stays : session.machine.screen.closeAfter = none)
    (origin : stage.origin = session.machine.screen) :
    ∃ fault, Reports ending.mishap? fault ∧
      session.StopsTelling fault world.lines world.strokes := by
  have returning : ∀ {steps next address}, session.machine.Goes steps next →
      stage.Shows world next →
      next.code[next.position]? = some ⟨.ret, .unused, .unused, address⟩ →
        session.StopsTelling none world.lines world.strokes := by
    intro steps next address goes shows fetched
    have frames : next.frames = [Machine.rootFrame next.code] := by
      rw [shows.runs.frames, root, shows.runs.code]
    have executes :
        ({ session with
          machine := next
          executed := session.executed + steps } : Session).Executes
          ⟨.ret, .unused, .unused, address⟩ .halt { next with frames := [] } :=
      ⟨fetched, by simp [Session.exhausted?, unlimited],
        Scene.execute_root_return frames⟩
    exact .of_goes goes unlimited stays (executes.step_eq.trans rfl)
      (origin ▸ shows.lines) (origin ▸ shows.strokes)
  cases follows with
  | next goes stands =>
    exact ⟨none, .normally, returning goes stands.toShows (stands.fetched ret)⟩
  | returned goes shows returns =>
    exact ⟨none, .normally, returning goes shows returns⟩
  | @failed _ mishap fault steps next goes shows fails alike =>
    exact ⟨some fault, .mishap alike, .of_goes goes unlimited stays
      (Session.step_of_fails fails unlimited) (origin ▸ shows.lines) (origin ▸
        shows.strokes)⟩

theorem Reports.unique {mishap other : Option Mishap}
    (reports : Reports mishap fault)
    (otherwise : Reports other fault) :
    mishap = other := by
  cases reports with
  | normally =>
    cases otherwise
    rfl
  | mishap alike =>
    cases otherwise with
    | mishap otherAlike => cases alike <;> cases otherAlike <;> rfl

/-- The functions of a program that compiles have different names. -/
theorem function_unique {other : Function}
    (compiled : program.compile entry = .ok executable)
    (member : function ∈ program.functions)
    (otherMember : other ∈ program.functions)
    (sameName : function.name = other.name) :
    function = other := by
  obtain ⟨_, passed, _⟩ := bind_eq_ok.mp compiled
  have checks := Program.checks_of_check passed
  have unique : (program.functions.map (·.name)).Nodup := by
    rw [← checks.functions.names]
    exact checks.uniqueFunctions
  obtain ⟨index, listed⟩ := List.getElem?_of_mem member
  obtain ⟨otherIndex, otherListed⟩ := List.getElem?_of_mem otherMember
  have bound := (List.getElem?_eq_some_iff.mp listed).1
  have sameIndex : index = otherIndex := by
    refine (List.getElem?_inj (by simpa using bound) unique).mp ?_
    rw [List.getElem?_map, List.getElem?_map, listed, otherListed,
      Option.map_some, Option.map_some, sameName]
  rw [sameIndex, otherListed] at listed
  cases listed
  rfl

/-- A session stops with a fault exactly if evaluation has that mishap. -/
theorem stopsTelling_iff_ends {source : String} {screen : Screen}
    {machine : Machine}
    (parsed : Program.parse source = .ok program)
    (listsFit : program.ListsFit)
    (compiled : compile source entry = .ok executable)
    (selfContained : ∀ function ∈ program.functions, function.name = entry →
      selfContainedAll function.body = true)
    (loaded : Machine.load executable screen = .ok machine)
    (stays : screen.closeAfter = none)
    (mishap : Option Mishap)
    (lines : Array String)
    (strokes : Array Stroke) :
    (∃ fault, Reports mishap fault ∧
      ({ machine } : Session).StopsTelling fault lines strokes) ↔
        Ends program entry screen.held mishap lines strokes := by
  have compiledProgram : program.compile entry = .ok executable := by
    rw [compile, parsed] at compiled
    exact compiled
  obtain ⟨_, _, _, sameCode, sameConstants, _, linked⟩ :=
    linked_of_compile (Program.declarable_of_parse parsed) listsFit
      compiledProgram
  obtain ⟨routine, found, _⟩ := linked.starts
  obtain ⟨function, member, named, _, laid⟩ :=
    linked.routines entry routine found
  obtain ⟨_, _, ret, follows⟩ := follows_of_load linked found laid
    named sameCode sameConstants loaded (selfContained function member named)
  have screenLoaded : machine.screen = screen := by
    rw [(linked.loaded sameConstants loaded).1]
    rfl
  have ends : ∀ {rounds ending world},
      executeAll screen.held rounds function.body (initial program function) =
        some (ending, world) → ∃ fault, Reports ending.mishap? fault ∧
          ({ machine } : Session).StopsTelling fault world.lines
          world.strokes := by
    intro rounds ending world executed
    have followed := follows rounds
    rw [executed] at followed
    exact Stage.Follows.stops followed rfl ret rfl
      (by rw [screenLoaded]; exact stays) screenLoaded.symm
  constructor
  · rintro ⟨fault, reports, fuel, _, ended, written, drawn⟩
    cases executed : executeAll screen.held fuel function.body
      (initial program function) with
    | none =>
      have followed := follows fuel
      rw [executed] at followed
      cases followed with
      | @unfinished steps next goes long =>
        have running : ({ machine } : Session).runFor steps =
            .running { machine := next, executed := 0 + steps } :=
          Session.runFor_of_goes goes rfl (by rw [screenLoaded]; exact stays)
        rw [← Nat.add_sub_cancel' long, Session.runFor_add, ended] at running
        cases running
    | some outcome =>
      obtain ⟨ending, world⟩ := outcome
      obtain ⟨other, otherReports, _, _, otherEnded, otherWritten,
          otherDrawn⟩ :=
        ends executed
      obtain ⟨rfl, rfl⟩ := Session.runFor_unique ended otherEnded
      refine ⟨function, member, named, fuel, ending, world, executed,
        otherReports.unique reports, ?_, ?_⟩
      · exact (Array.append_right_inj _).mp (otherWritten.symm.trans written)
      · exact (Array.append_right_inj _).mp (otherDrawn.symm.trans drawn)
  · rintro ⟨other, otherMember, otherNamed, rounds, ending, world, executed,
      rfl, rfl, rfl⟩
    obtain rfl := function_unique compiledProgram member otherMember
      (named.trans otherNamed.symm)
    exact ends executed

end Meaning

/--
Compilation preserves meaning.  A program that compiles and starts in a
function without calls of other functions of the program is executed with an
open window and no limit.  It comes to a normal end with certain lines and
strokes exactly if its evaluation does, and it divides by zero, or uses a
given index outside of the bounds of a list of a given size, after certain
lines and strokes exactly if its evaluation does.
-/
theorem Session.compiled_means
    {source entry : String} {program : Program} {executable : Executable}
      {screen : Screen}
    {machine : Machine}
    (parsed : Program.parse source = .ok program)
    (listsFit : program.ListsFit)
    (compiled : compile source entry = .ok executable)
    (selfContained : ∀ function ∈ program.functions, function.name = entry →
      selfContainedAll function.body = true)
    (loaded : Machine.load executable screen = .ok machine)
    (stays : screen.closeAfter = none)
    (lines : Array String) (strokes : Array Stroke) :
    let session : Session := { machine }
    (session.StopsTelling none lines strokes ↔
      Meaning.Ends program entry screen.held none lines strokes) ∧
    ((∃ position,
      session.StopsTelling (some (.divisionByZero position)) lines strokes) ↔
        Meaning.Ends program entry screen.held (some .divisionByZero)
        lines strokes) ∧
    ∀ index size,
      session.StopsTelling (some (.indexOutOfBounds index size)) lines strokes ↔
        Meaning.Ends program entry screen.held
        (some (.indexOutOfBounds index size)) lines strokes := by
  intro session
  have means := fun mishap => Meaning.stopsTelling_iff_ends parsed listsFit
    compiled selfContained loaded stays mishap lines strokes
  refine ⟨?_, ?_, fun index size => ?_⟩
  · rw [← means]
    constructor
    · exact fun stops => ⟨none, .normally, stops⟩
    · rintro ⟨fault, reports, stops⟩
      cases reports
      exact stops
  · rw [← means]
    constructor
    · rintro ⟨position, stops⟩
      exact ⟨_, .mishap (.divisionByZero position), stops⟩
    · rintro ⟨fault, reports, stops⟩
      cases reports with
      | mishap alike =>
        cases alike with
        | divisionByZero position => exact ⟨position, stops⟩
  · rw [← means]
    constructor
    · exact fun stops => ⟨_, .mishap (.indexOutOfBounds index size), stops⟩
    · rintro ⟨fault, reports, stops⟩
      cases reports with
      | mishap alike =>
        cases alike
        exact stops

/-- A program that fills a list, writes parts of it, and divides by zero. -/
def firstItemLess : String :=
  "program p;var int[2]a;func void main()\x7bvar int i;var square s;" ++
    "for(i=0;i<2;i=i+1)\x7ba[i]=i+1;\x7ds.color=\"blue\";write s.color;" ++
    "if(keyPressed(\"up\"))\x7bwrite 0;\x7delse\x7bwrite a[1];\x7dwrite 1/(a[0]-1);\x7d"

theorem Session.compiled_means_firstItemLess :
    ∃ (program : Program) (executable : Executable) (machine : Machine),
      Program.parse firstItemLess = .ok program ∧ program.ListsFit ∧
      compile firstItemLess "main" = .ok executable ∧
      (∀ function ∈ program.functions, function.name = "main" →
        selfContainedAll function.body = true) ∧
      Machine.load executable {} = .ok machine ∧
      ({ machine } : Session).StopsTelling (some (.divisionByZero 28)) #["blue",
        "2"] #[] ∧
      Meaning.Ends program "main" [] (some .divisionByZero) #["blue",
        "2"] #[] := by
  have evaluated : (do
      let program ← (Program.parse firstItemLess).toOption
      let executable ← (program.compile "main").toOption
      let machine ← (Machine.load executable {}).toOption
      let progress := ({ machine } : Session).runFor 100
      some (decide program.ListsFit, decide (∀ function ∈ program.functions,
        function.name = "main" → selfContainedAll function.body = true),
        progress.fault?, progress.session.machine.screen.lines,
        progress.session.machine.screen.strokes.size)) =
          some (true, true, some (.divisionByZero 28), #["blue", "2"], 0) := by
    decide +kernel
  simp only [bind, Option.bind_eq_some_iff, toOption_eq_some, Option.some.injEq,
    Prod.mk.injEq, decide_eq_true_eq] at evaluated
  obtain ⟨program, parsed, executable, generated, machine, loaded, listsFit,
    selfContained, faulted, lines, strokes⟩ := evaluated
  have compiled : compile firstItemLess "main" = .ok executable := by
    rw [compile, parsed]
    exact generated
  have fresh : machine.screen = {} := by
    obtain ⟨_, _, rfl⟩ := Machine.load_ok loaded
    rfl
  have stops : ({ machine } : Session).StopsTelling (some (.divisionByZero 28))
      #["blue", "2"] #[] := by
    refine ⟨100, _, Progress.eq_stopped faulted, ?_, ?_⟩
    · rw [lines, fresh]
      rfl
    · rw [Array.size_eq_zero_iff.mp strokes, fresh]
      rfl
  obtain ⟨_, divides, _⟩ := compiled_means parsed listsFit compiled
    selfContained loaded rfl #["blue", "2"] #[]
  exact ⟨program, executable, machine, parsed, listsFit, compiled,
    selfContained, loaded, stops, divides.mp ⟨28, stops⟩⟩

end Easel
