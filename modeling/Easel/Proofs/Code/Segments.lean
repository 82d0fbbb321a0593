import Easel.Proofs.Code.Linking
import Easel.Proofs.Code.Program

/-!
# The segments of a program

The code of a program consists of one instruction for each global variable, a
jump, and one segment for each function in the order of the text.  A segment
ends in a return, its jumps lead to positions of the same segment, and its
calls lead to the first positions of the segments of the functions that the
function calls.  Segments are generated one after the other, with calls that
wait for positions.
-/

namespace Easel

variable {functions : List Function} {piece : Piece} {routine : Routine}

/-! ## Segments -/

/-- The code of one function, from its first position on. -/
structure Segment where
  name : String
  first : Nat
  code : List Quad
deriving Repr, Inhabited

namespace Segment

def stop (segment : Segment) : Nat :=
  segment.first + segment.code.length

def Contains (segment : Segment) (position : Nat) : Prop :=
  segment.first ≤ position ∧ position < segment.stop

/-- Segments that stand one behind the other, from a position on. -/
def Follow : Nat → List Segment → Prop
  | _, [] => True
  | start, segment :: rest => segment.first = start ∧ Follow segment.stop rest

/--
A segment is the code of a function.  Its last instruction returns, its jumps
stay inside, and its calls are, one by one, those of the function's body, each
of which leads to the position of the function that it names.
-/
structure Encloses (segment : Segment)
    (function : Function)
    (positions : String → Address) : Prop where
  name : segment.name = function.name
  returns : ∃ quad, segment.code.getLast? = some quad ∧ quad.operation = .ret
  jumps : ∀ quad ∈ segment.code, quad.operation.isJump = true →
    ∃ target : Nat, quad.result = target ∧ segment.Contains target
  calls : (callQuads segment.code).map (·.left) =
    (callsIn function.body).map positions

/-- The functions of a program and segments belong together, one by one. -/
def EncloseAll (segments : List Segment)
    (functions : List Function)
    (positions : String → Address) : Prop :=
  segments.length = functions.length ∧
    ∀ (index : Nat) (segment : Segment) (function : Function),
      segments[index]? = some segment → functions[index]? = some function →
        segment.Encloses function positions

theorem EncloseAll.names {segments : List Segment}
    {positions : String → Address}
    (all : EncloseAll segments functions positions) :
    segments.map (·.name) = functions.map (·.name) := by
  apply List.ext_getElem?
  intro index
  rw [List.getElem?_map, List.getElem?_map]
  cases found : segments[index]? with
  | none =>
    have outside := List.getElem?_eq_none_iff.mp found
    rw [all.1] at outside
    rw [List.getElem?_eq_none outside]
    rfl
  | some segment =>
    have inside := (List.getElem?_eq_some_iff.mp found).1
    rw [all.1] at inside
    have enclosed := all.2 index segment functions[index] found
      (List.getElem?_eq_getElem inside)
    rw [List.getElem?_eq_getElem inside, Option.map_some, Option.map_some,
      enclosed.name]

end Segment

/-- The first position of the segment of a function. -/
def Segment.entryIn (segments : List Segment) (name : String) : Address :=
  ((segments.find? (·.name == name)).map fun segment =>
    (segment.first : Address)).getD .unused

/--
The code of a program: an instruction for each global variable, a jump to the
function in which the program starts, and the segments of the functions.
-/
structure Outline (program : Program)
    (entry : String)
    (code : Array Quad)
    (segments : List Segment) : Prop where
  text : ∃ zeroing start, code.toList = zeroing ++ Context.jump start ::
    segments.flatMap (·.code) ∧ zeroing.length = program.globals.length ∧
    (∀ (index : Nat) (declaration : Declaration),
      program.globals[index]? = some declaration →
      ∃ address, zeroing[index]? = some (initQuad address declaration.type)) ∧
    ∃ segment ∈ segments, segment.name = entry ∧ segment.first = start
  follow : Segment.Follow (program.globals.length + 1) segments
  functions : Segment.EncloseAll segments program.functions
    (Segment.entryIn segments)
  unique : (segments.map (·.name)).Nodup
  called : ∀ function ∈ program.functions, ∀ name ∈ callsIn function.body,
    ∃ segment ∈ segments, segment.name = name

theorem Segment.entryIn_of_mem {segments : List Segment} {segment : Segment}
    (unique : (segments.map (·.name)).Nodup)
    (member : segment ∈ segments) :
    entryIn segments segment.name = segment.first := by
  induction segments with
  | nil => cases member
  | cons first rest ih =>
    rw [List.map_cons, List.nodup_cons] at unique
    rw [entryIn, List.find?_cons]
    rcases List.mem_cons.mp member with rfl | later
    · simp
    · have different : (first.name == segment.name) = false := by
        rw [beq_eq_false_iff_ne]
        intro same
        rw [same] at unique
        exact unique.1 (List.mem_map_of_mem later)
      rw [different]
      exact ih unique.2 later

namespace Segment.Follow

variable {segments : List Segment} {segment other : Segment} {start : Nat}

theorem bounds (follow : Follow start segments) (member : segment ∈ segments) :
    start ≤ segment.first ∧
      segment.stop ≤ start + (segments.flatMap (·.code)).length := by
  induction segments generalizing start with
  | nil => cases member
  | cons first rest ih =>
    obtain ⟨rfl, later⟩ := follow
    rw [List.flatMap_cons, List.length_append]
    rcases List.mem_cons.mp member with rfl | inRest
    · exact ⟨Nat.le_refl _, by rw [stop]; omega⟩
    · have inside := ih later inRest
      rw [stop] at inside
      exact ⟨by omega, by omega⟩

/-- Segments that have code start at different positions. -/
theorem eq_of_first (follow : Follow start segments)
    (filled : ∀ segment ∈ segments, segment.code ≠ [])
    (member : segment ∈ segments)
    (otherMember : other ∈ segments)
    (same : segment.first = other.first) :
    segment = other := by
  induction segments generalizing start with
  | nil => cases member
  | cons first rest ih =>
    obtain ⟨rfl, later⟩ := follow
    obtain ⟨firstFilled, restFilled⟩ := List.forall_mem_cons.mp filled
    have room := List.length_pos_iff.mpr firstFilled
    have beyond {later : Segment} (member : later ∈ rest) :
        first.first + first.code.length ≤ later.first := (bounds ‹_› member).1
    rcases List.mem_cons.mp member with rfl | inRest <;>
      rcases List.mem_cons.mp otherMember with rfl | otherInRest
    · rfl
    · have := beyond otherInRest
      omega
    · have := beyond inRest
      omega
    · exact ih later restFilled inRest otherInRest

end Segment.Follow

/-! ## The code of functions -/

/-- The code generated for a function, and the temporaries it takes. -/
structure Piece where
  function : Function
  first : Nat
  code : List Quad
  temps : Element → Nat

namespace Piece

def entry (piece : Piece) : String × Nat :=
  (piece.function.name, piece.first)

def extent (piece : Piece) : Extent :=
  ⟨piece.first, piece.code.length, piece.temps⟩

/-- The segment of a function, whose calls lead to the given positions. -/
def segment (positions : String → Address) (piece : Piece) : Segment :=
  ⟨piece.function.name, piece.first,
    fillCalls piece.code ((callsIn piece.function.body).map positions)⟩

/-- Generating the code of a function worked as it should. -/
structure Generated (piece : Piece)
    (placed : Checked)
    (draft : Draft)
    (routine : Routine) : Prop where
  found : placed.functions.find? piece.function.name = some routine
  quads : ∀ quad ∈ piece.code, quad.Fits fun target =>
    piece.first ≤ target ∧ target < piece.first + piece.code.length
  results : List.Forall₂ (fun quad name => ∃ routine,
    placed.functions.find? name = some routine ∧
      Receives routine.returns quad.result) (callQuads piece.code)
      (callsIn piece.function.body)
  ends : ∃ body zero, piece.code = body ++ [⟨.ret, .unused, .unused, zero⟩] ∧
    ∀ image, draft.Within image → ZeroOf image routine.returns zero
  laid : (routine.context placed.functions placed.globals).Arranged →
    ∀ image, draft.Within image → Installed image piece.first piece.code →
      piece.extent.Holds image (routine.context placed.functions placed.globals)
        piece.function.body

theorem Generated.mono {placed : Checked} {draft left : Draft}
    (generated : piece.Generated placed draft routine)
    (further : ∀ image, left.Within image → draft.Within image) :
    piece.Generated placed left routine where
  found := generated.found
  quads := generated.quads
  results := generated.results
  ends :=
    have ⟨body, zero, ends, zeroOf⟩ := generated.ends
    ⟨body, zero, ends, fun image within => zeroOf image (further image within)⟩
  laid arranged image within :=
    generated.laid arranged image (further image within)

/-- The code of a function, once its calls are filled in. -/
theorem Generated.encloses {placed : Checked} {draft : Draft}
    (generated : piece.Generated placed draft routine)
    (positions : String → Address) :
    (piece.segment positions).Encloses piece.function positions := by
  refine ⟨rfl, ?_, ?_, ?_⟩
  · obtain ⟨body, zero, ends, _⟩ := generated.ends
    have count := generated.results.length_eq
    rw [ends, callQuads, List.filter_append, List.filter_singleton] at count
    have filled : fillCalls (body ++ [⟨.ret, .unused, .unused, zero⟩])
        ((callsIn piece.function.body).map positions ++ []) = _ :=
      fillCalls_append (by rw [List.length_map]; simpa [callQuads] using count)
    refine ⟨⟨.ret, .unused, .unused, zero⟩, ?_, rfl⟩
    rw [segment, ends, ← List.append_nil ((callsIn _).map _), filled]
    exact List.getLast?_concat
  · intro quad member isJump
    have notCall : quad.operation ≠ .call := by
      intro isCall
      rw [isCall] at isJump
      exact Bool.noConfusion isJump
    obtain ⟨_, inCode, rfl | ⟨isCall, _, _, rfl⟩⟩ := mem_fillCalls member
    case inr => exact absurd isCall notCall
    obtain ⟨target, leads, above, below⟩ :=
      (generated.quads quad inCode).jumps isJump
    refine ⟨target, leads, above, ?_⟩
    rw [Segment.stop, segment, length_fillCalls]
    exact below
  · have filled := callQuads_fillCalls positions generated.results
    rw [← List.forall₂_eq_eq_eq, List.forall₂_map_left_iff,
      List.forall₂_map_right_iff]
    refine filled.imp ?_
    rintro _ name ⟨_, _, rfl⟩
    rfl

end Piece

section

variable {checked placed : Checked} {start : Nat} {draft : Draft}

theorem zeroOf_zeroAddress {type : Ty} {space : Space} {image : Image}
    (literals : space.Literals)
    (grown : Space.fresh.constants <+: space.constants)
    (within : ∀ constant ∈ space.constants, constant ∈ image.constants)
    (single : type.isList = false) :
    ZeroOf image type (space.zeroAddress type) := by
  cases object : type.element.isObject with
  | true =>
    rw [Space.zeroAddress_unused (.inl object)]
    exact .absent (.inr (by simp [Ty.isObject, object, single]))
  | false =>
    by_cases isVoid : type.element = .void
    · rw [Space.zeroAddress_unused (.inr isVoid)]
      exact .absent (.inl (by simp [Ty.isVoid, isVoid, single]))
    · obtain ⟨constant, member, zero, element, address⟩ :=
        Space.zeroAddress_mem grown object isVoid single
      obtain ⟨_, _, place⟩ := literals.place member
      have known := within constant member
      rw [address]
      rw [element] at place zero
      refine .literal (place.of_shape rfl single.symm (by simp [single]))
        zero ?_
      rw [← element]
      exact known

/-- A function of the program is in the tables, with all its variables. -/
def Checked.Lists (checked placed : Checked) (function : Function) : Prop :=
  ∃ plain routine, checked.functions.find? function.name = some plain ∧
    placed.functions.find? function.name = some routine ∧
    (routine.context placed.functions placed.globals).Lists
    (declarationsOf function.body)

theorem emitFunction_yields {function : Function}
    (ready : checked.Ready placed)
    (lists : checked.Lists placed function)
    (sound : draft.Sound)
    (grown : Space.fresh.constants <+: draft.space.constants)
    (bodyChecked : checkFunction checked.functions checked.globals function =
      .ok ()) :
    Yields (emitFunction placed.functions placed.globals start function draft)
      fun code left => Emitted placed.functions (fun target => start ≤ target ∧
      target < start + code.length)
        start code (callsIn function.body) draft left ∧
      ∃ routine, Piece.Generated ⟨function, start, code, left.temps⟩ placed
        left routine := by
  obtain ⟨plain, routine, known, found, declared⟩ := lists
  simp only [checkFunction, known] at bodyChecked
  obtain ⟨_, checkedBody, _⟩ := bind_eq_ok.mp bodyChecked
  have prepared := ready function.name plain routine known found
  unfold emitFunction
  rw [found]
  refine .modify
    ((emitBlock_yields prepared function.body declared sound.reset.sound
      checkedBody).bind ?_)
  intro body left produced
  rw [Threaded.get_bind]
  refine .pure ?_
  have further := produced.emitted.sound.extends
  generalize isZero : left.space.zeroAddress routine.returns = zero
  have emitted : Emitted placed.functions
      (fun target => start ≤ target ∧
        target <
          start + (body ++ [(⟨.ret, .unused, .unused, zero⟩ : Quad)]).length)
      start (body ++ [⟨.ret, .unused, .unused, zero⟩]) (callsIn function.body)
        draft left := by
    refine ((Emitted.nothing sound.reset).append rfl
      (produced.emitted.mono ?_)).straight further rfl
      (Quad.narrow_mk Address.narrow_unused Address.narrow_unused
        (isZero ▸ further.sound.literals.narrow_zeroAddress _))
    intro target inside
    rw [List.length_append, List.length_singleton]
    omega
  have zeroOf : ∀ image, left.Within image →
      ZeroOf image routine.returns zero :=
    fun image within => isZero ▸ zeroOf_zeroAddress further.sound.literals
      (grown.trans emitted.constants) within.constants
      (prepared.single _ _ found)
  refine ⟨emitted, routine, found, emitted.quads, emitted.results,
    ⟨body, _, rfl, zeroOf⟩, ?_⟩
  intro arranged image within installed
  refine ⟨left.point (start + body.length), _, ?_,
    installed.right.head (by simp), zeroOf image within, ?_, rfl⟩
  · have laid := produced.laid arranged image within installed.left
    have begins : Draft.point { draft with space := draft.space.reset .temp }
        start = ⟨start, fun _ => 0⟩ := by
      unfold Draft.point Draft.temps
      rw [Space.reset_count, if_pos rfl]
    rwa [begins] at laid
  · simp only [Piece.extent, Draft.point, List.length_append,
      List.length_singleton]
    omega

/-- Generating the code of functions worked as it should, piece by piece. -/
structure Assembled (placed : Checked)
    (start : Nat)
    (functions : List Function)
    (draft left : Draft)
    (pieces : List Piece) : Prop where
  sources : pieces.map (·.function) = functions
  emitted : Emitted placed.functions
    (fun target => start ≤ target ∧
      target < start + (pieces.flatMap (·.code)).length)
    start (pieces.flatMap (·.code)) (functions.flatMap fun function =>
      callsIn function.body)
    draft left
  extents : functionExtents placed.functions placed.globals start
    functions draft = .ok (pieces.map fun piece =>
      (piece.function.name, piece.extent), left)
  follow : ∀ positions,
    Segment.Follow start (pieces.map (Piece.segment positions))
  generated : ∀ piece ∈ pieces, ∃ routine, piece.Generated placed left routine

theorem emitFunctions_yields (ready : checked.Ready placed)
    (lists : ∀ function ∈ functions, checked.Lists placed function)
    (sound : draft.Sound)
    (grown : Space.fresh.constants <+: draft.space.constants)
    (bodiesChecked : ∀ function ∈ functions,
      checkFunction checked.functions checked.globals function = .ok ()) :
    Yields (emitFunctions placed.functions placed.globals start functions draft)
      fun (code, entries) left => ∃ pieces,
        Assembled placed start functions draft left pieces ∧
        code = pieces.flatMap (·.code) ∧ entries = pieces.map Piece.entry := by
  induction functions generalizing start draft with
  | nil =>
    exact .pure ⟨[], ⟨rfl, .nothing sound.extends, rfl, fun _ =>
      trivial, by simp⟩, rfl, rfl⟩
  | cons function others ih =>
    obtain ⟨listsFirst, listsOthers⟩ := List.forall_mem_cons.mp lists
    obtain ⟨checkedFirst, checkedOthers⟩ :=
      List.forall_mem_cons.mp bodiesChecked
    unfold emitFunctions
    refine (emitFunction_yields ready listsFirst sound grown
      checkedFirst).ran.bind ?_
    rintro code between ⟨ranFirst, first, routine, generated⟩
    refine (ih listsOthers first.sound (grown.trans first.constants)
      checkedOthers).bind ?_
    rintro ⟨_, _⟩ left ⟨pieces, assembled, rfl, rfl⟩
    refine .pure ⟨⟨function, start, code, between.temps⟩ :: pieces,
      ⟨?_, ?_, ?_, fun positions => ⟨rfl, ?_⟩, ?_⟩, rfl, rfl⟩
    · rw [List.map_cons, assembled.sources]
    · rw [List.flatMap_cons, List.flatMap_cons, List.length_append]
      dsimp only
      exact (first.mono fun _ _ => by omega).append rfl
        (assembled.emitted.mono fun _ _ => by omega)
    · simp only [functionExtents, Threaded.bind_eq_ok, Threaded.get_bind,
        Threaded.pure_eq_ok]
      exact ⟨code, between, ranFirst, _, left, assembled.extents, rfl, rfl⟩
    · rw [Segment.stop, Piece.segment, length_fillCalls]
      exact assembled.follow positions
    · refine List.forall_mem_cons.mpr ⟨⟨routine, ?_⟩, assembled.generated⟩
      exact generated.mono fun image => assembled.emitted.within

end

section

variable {program : Program} {entry : String} {checked placed : Checked}
  {countable : Prop}

/-- The functions of a checked program are in both of its tables. -/
theorem Program.Checks.lists (checks : program.Checks entry checked)
    (places : checked.Places countable placed) :
    ∀ function ∈ program.functions, checked.Lists placed function := by
  intro function member
  obtain ⟨plain, known, declares⟩ :=
    checks.functions.find? checks.uniqueFunctions member
  obtain ⟨routine, found, placesRoutine⟩ := places.routine checks known
  refine ⟨plain, routine, known, found, ?_⟩
  intro declaration declared
  apply Table.exists_of_mem_names
  change declaration.name ∈ routine.locals.names
  rw [names_of_typed placesRoutine.locals, Table.names,
    declares.locals, List.map_map]
  exact List.mem_map.mpr ⟨declaration, List.mem_append_right _ declared, rfl⟩

end

end Easel
