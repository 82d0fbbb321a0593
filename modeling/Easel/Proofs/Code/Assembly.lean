import Easel.Proofs.Code.Segments

/-!
# Programs that are put together

Code is generated for every program that was checked, unless storage runs out
on the way, and it can always be linked: every function that is called has a
position.  What is put together this way is the code of the program, and its
segments are the extents of the program's functions.
-/

namespace Easel

variable {entries : List (String × Variable)}

theorem emitGlobals_ok {code : List Quad}
    (ran : emitGlobals entries = .ok code) :
    code.length = entries.length ∧
      ∀ (index : Nat) (name : String) (found : Variable),
        entries[index]? = some (name, found) →
          ∃ address, found.address = some address ∧
            code[index]? = some (initQuad address found.type) := by
  induction entries generalizing code with
  | nil =>
    cases ran
    exact ⟨rfl, by simp⟩
  | cons entry entries induction =>
    obtain ⟨name, found⟩ := entry
    rw [emitGlobals] at ran
    obtain ⟨address, known, ran⟩ := bind_eq_ok.mp ran
    obtain ⟨others, emitted, ran⟩ := bind_eq_ok.mp ran
    cases ran
    obtain ⟨length, rest⟩ := induction emitted
    have hasAddress : found.address = some address := by
      unfold addressOf at known
      split at known
      · rename_i other isOther
        cases known
        exact isOther
      · cases known
    refine ⟨by simp [length], ?_⟩
    intro index otherName other listed
    cases index with
    | zero =>
      simp only [List.getElem?_cons_zero, Option.some.injEq,
        Prod.mk.injEq] at listed
      obtain ⟨rfl, rfl⟩ := listed
      exact ⟨address, hasAddress, rfl⟩
    | succ index => exact rest index otherName other listed

theorem emitGlobals_works (stored : StoredEntries entries) :
    ∃ code, emitGlobals entries = .ok code := by
  induction entries with
  | nil => exact ⟨[], rfl⟩
  | cons entry entries ih =>
    obtain ⟨⟨address, here, _⟩, later⟩ := List.forall_mem_cons.mp stored
    obtain ⟨others, works⟩ := ih later
    obtain ⟨name, found⟩ := entry
    refine ⟨initQuad address found.type :: others, ?_⟩
    have placed : addressOf name found = .ok address := by
      unfold addressOf
      rw [here]
    exact bind_eq_ok.mpr ⟨address, placed, bind_eq_ok.mpr ⟨others, works, rfl⟩⟩

namespace Piece

variable {pieces : List Piece}

theorem fillCalls_flatMap (positions : String → Address)
    (counted : ∀ piece ∈ pieces, (callQuads piece.code).length =
      (callsIn piece.function.body).length) :
    fillCalls (pieces.flatMap (·.code))
        ((pieces.flatMap fun piece =>
          callsIn piece.function.body).map positions) =
      (pieces.map (segment positions)).flatMap (·.code) := by
  induction pieces with
  | nil => rfl
  | cons piece pieces ih =>
    obtain ⟨here, later⟩ := List.forall_mem_cons.mp counted
    rw [List.flatMap_cons, List.flatMap_cons, List.map_append, List.map_cons,
      List.flatMap_cons, fillCalls_append (by rw [here, List.length_map]),
      ih later]
    rfl

/-- Code that is installed has each piece at its position. -/
theorem installed {image : Image} {start : Nat} {positions : String → Address}
    (follow : Segment.Follow start (pieces.map (segment positions)))
    (installed : Installed image start (pieces.flatMap (·.code))) :
    ∀ piece ∈ pieces, Installed image piece.first piece.code := by
  induction pieces generalizing start with
  | nil => simp
  | cons piece pieces ih =>
    obtain ⟨rfl, later⟩ := follow
    rw [Segment.stop, segment, length_fillCalls] at later
    rw [List.flatMap_cons] at installed
    exact List.forall_mem_cons.mpr ⟨installed.left, ih later installed.right⟩

end Piece

/-! ## Assemblies -/

/-- How the code of a program is put together when its storage is laid out. -/
structure Assembly (program : Program)
    (entry : String)
    (placed : Checked)
    (space : Space)
    (left : Draft) where
  zeroing : List Quad
  pieces : List Piece
  sameProgram : placed.program = program
  sameEntry : placed.entry = entry
  names : placed.functions.names = program.functions.map (·.name)
  unique : placed.functions.names.Nodup
  starts : ∃ routine, placed.functions.find? entry = some routine ∧
    routine.parameters = []
  zeroes : emitGlobals placed.globals.entries = .ok zeroing
  assembled : Assembled placed (zeroing.length + 1) program.functions
    ⟨space, [⟨zeroing.length, .result, entry⟩]⟩ left pieces
  ran : placed.emit ⟨space, []⟩ =
    .ok ((zeroing ++ [⟨.goto, .unused, .unused, .unused⟩] ++
      pieces.flatMap (·.code),
      setEntries placed.functions (pieces.map Piece.entry)), left)

namespace Assembly

variable {program : Program} {entry : String} {checked placed : Checked}
  {space : Space}
variable {left : Draft} (assembly : Assembly program entry placed space left)

def positions : String → Address :=
  Segment.entryIn (assembly.pieces.map (Piece.segment fun _ => .unused))

def segments : List Segment :=
  assembly.pieces.map (Piece.segment assembly.positions)

def image : Image where
  code := (assembly.zeroing ++
    ⟨.goto, .unused, .unused, assembly.positions entry⟩ ::
      assembly.segments.flatMap (·.code)).toArray
  constants := left.space.constants
  links := left.links
  entryOf :=
    entryOf (setEntries placed.functions (assembly.pieces.map Piece.entry))

theorem map_name :
    assembly.pieces.map (·.function.name) = placed.functions.names := by
  rw [assembly.names, ← assembly.assembled.sources, List.map_map]
  rfl

theorem segments_names (positions : String → Address) :
    (assembly.pieces.map (Piece.segment positions)).map (·.name) =
      placed.functions.names := by
  rw [← assembly.map_name, List.map_map]
  rfl

theorem entryIn_segments :
    Segment.entryIn assembly.segments = assembly.positions := by
  funext name
  simp only [Segment.entryIn, positions, segments, List.find?_map,
    Option.map_map]
  rfl

theorem known {piece : Piece} (member : piece ∈ assembly.pieces) :
    ∃ routine, piece.Generated placed left routine ∧
      assembly.positions piece.function.name = piece.first ∧
      assembly.image.entryOf piece.function.name =
        some (piece.first : Int) := by
  obtain ⟨routine, generated⟩ := assembly.assembled.generated piece member
  refine ⟨routine, generated, ?_, ?_⟩
  · exact Segment.entryIn_of_mem
      (by rw [assembly.segments_names]; exact assembly.unique)
      (List.mem_map_of_mem member)
  · refine entryOf_setEntries ?_ (List.mem_map_of_mem member) generated.found
    rw [List.map_map, show (Prod.fst ∘ Piece.entry) =
      (·.function.name) from rfl, assembly.map_name]
    exact assembly.unique

variable {name : String} {routine : Routine}

theorem piece (found : placed.functions.find? name = some routine) :
    ∃ piece ∈ assembly.pieces, piece.function.name = name ∧
      piece.Generated placed left routine ∧
        assembly.positions name = piece.first ∧
      assembly.image.entryOf name = some (piece.first : Int) := by
  have listed : name ∈ assembly.pieces.map (·.function.name) := by
    rw [assembly.map_name]
    exact List.mem_map_of_mem (Table.mem_of_find? found)
  obtain ⟨piece, member, rfl⟩ := List.mem_map.mp listed
  obtain ⟨_, generated, position, located⟩ := assembly.known member
  cases found.symm.trans generated.found
  exact ⟨piece, member, rfl, generated, position, located⟩

theorem located (found : placed.functions.find? name = some routine) :
    assembly.image.entryOf name = some (assembly.positions name) := by
  obtain ⟨_, _, _, _, position, known⟩ := assembly.piece found
  rw [known, position]

/-- Only the functions of the program have positions. -/
theorem piece_of_entryOf {position : Address}
    (known : assembly.image.entryOf name = some position) :
    ∃ routine, placed.functions.find? name = some routine ∧
      ∃ piece ∈ assembly.pieces, piece.function.name = name ∧
        position = piece.first := by
  obtain ⟨routine, found⟩ :=
    Option.isSome_iff_exists.mp (isSome_of_entryOf_setEntries known)
  obtain ⟨piece, member, named, _, _, other⟩ := assembly.piece found
  rw [known] at other
  exact ⟨routine, found, piece, member, named, Option.some.inj other⟩

theorem resolves :
    ∃ added, left.links = ⟨assembly.zeroing.length, .result, entry⟩ :: added ∧
      added.map (·.index) =
        callSites (assembly.zeroing.length + 1)
          (assembly.pieces.flatMap (·.code)) ∧
      (∀ link ∈ added,
        assembly.image.entryOf link.target =
          some (assembly.positions link.target)) ∧
      assembly.segments.flatMap (·.code) =
        fillCalls (assembly.pieces.flatMap (·.code)) (added.map fun link =>
        assembly.positions link.target) ∧
      resolveLinks assembly.image.entryOf left.links
        (assembly.zeroing ++ [(⟨.goto, .unused, .unused, .unused⟩ : Quad)] ++
          assembly.pieces.flatMap (·.code)).toArray =
            .ok () assembly.image.code := by
  have emitted := assembly.assembled.emitted
  obtain ⟨added, links, sites, targets, fields⟩ := emitted.links
  obtain ⟨_, starts, _⟩ := assembly.starts
  have known : ∀ link ∈ added,
      assembly.image.entryOf link.target =
        some (assembly.positions link.target) := by
    intro link member
    obtain ⟨_, found⟩ := emitted.known (targets ▸ List.mem_map_of_mem member)
    exact assembly.located found
  have filled : assembly.segments.flatMap (·.code) =
      fillCalls (assembly.pieces.flatMap (·.code))
        (added.map fun link => assembly.positions link.target) := by
    have counted : ∀ piece ∈ assembly.pieces,
        (callQuads piece.code).length =
          (callsIn piece.function.body).length := by
      intro piece member
      obtain ⟨_, generated⟩ := assembly.assembled.generated piece member
      exact generated.results.length_eq
    rw [segments, ← Piece.fillCalls_flatMap _ counted]
    congr 1
    rw [show (added.map fun link => assembly.positions link.target) =
        (added.map (·.target)).map assembly.positions by rw [List.map_map]; rfl,
        targets,
      ← assembly.assembled.sources, List.flatMap_map]
  refine ⟨added, links, sites, known, filled, ?_⟩
  rw [links, image, filled]
  exact resolveLinks_program sites fields
    (fun quad member => (emitted.quads quad member).waits)
    (assembly.located starts) known

theorem within : left.Within assembly.image :=
  ⟨fun _ member => member, fun _ member => member⟩

theorem installed {piece : Piece} (member : piece ∈ assembly.pieces) :
    Installed assembly.image piece.first piece.code := by
  obtain ⟨_, links, sites, known, filled, _⟩ := assembly.resolves
  refine Piece.installed (assembly.assembled.follow assembly.positions)
    ?_ piece member
  exact installed_of_fillCalls sites known links
    (congrArg (assembly.zeroing ++ _ :: ·) filled)

/-- The code of a function ends in a return of the zero of its type. -/
theorem returns {piece : Piece} {position : Nat}
    (member : piece ∈ assembly.pieces)
    (generated : piece.Generated placed left routine)
    (last : position + 1 = piece.first + piece.code.length) :
    ∃ zero, assembly.image.Has position ⟨.ret, .unused, .unused, zero⟩ ∧
      ZeroOf assembly.image routine.returns zero := by
  obtain ⟨body, zero, ends, zeroOf⟩ := generated.ends
  have installed := assembly.installed member
  rw [ends] at last installed
  rw [List.length_append, List.length_singleton] at last
  have here : position = piece.first + body.length := by omega
  rw [here]
  exact ⟨zero, installed.right.head nofun, zeroOf _ assembly.within⟩

/-- A call has a temporary for what the called function returns. -/
theorem receives {segment : Segment} {site : Quad}
    (member : segment ∈ assembly.segments)
    (inCode : site ∈ segment.code)
    (isCall : site.operation = .call) :
    ∃ piece ∈ assembly.pieces, ∃ routine, site.left = piece.first ∧
      piece.Generated placed left routine ∧
        Receives routine.returns site.result := by
  obtain ⟨caller, inPieces, rfl⟩ := List.mem_map.mp member
  obtain ⟨_, callerGenerated⟩ := assembly.assembled.generated caller inPieces
  have isListed : site ∈ callQuads (caller.segment assembly.positions).code :=
    List.mem_filter.mpr ⟨inCode, decide_eq_true isCall⟩
  obtain ⟨_, _, _, ⟨routine, found, receives⟩, rfl⟩ := exists_of_forall₂
    (callQuads_fillCalls assembly.positions callerGenerated.results) isListed
  obtain ⟨piece, isPiece, _, generated, position, _⟩ := assembly.piece found
  exact ⟨piece, isPiece, routine, position, generated, receives⟩

theorem apart {piece other : Piece}
    (member : piece ∈ assembly.pieces)
    (inPieces : other ∈ assembly.pieces)
    (same : piece.first = other.first) :
    piece.function.name = other.function.name := by
  have filled : ∀ segment ∈ assembly.segments, segment.code ≠ [] := by
    intro segment isSegment
    obtain ⟨piece, inPieces, rfl⟩ := List.mem_map.mp isSegment
    obtain ⟨_, generated⟩ := assembly.assembled.generated piece inPieces
    obtain ⟨_, last, _⟩ := (generated.encloses assembly.positions).returns
    exact fun empty => by simp [empty] at last
  exact congrArg Segment.name
    ((assembly.assembled.follow assembly.positions).eq_of_first filled
      (List.mem_map_of_mem member) (List.mem_map_of_mem inPieces) same)

theorem extents :
    placed.extents ⟨space, []⟩ =
      .ok (assembly.pieces.map fun piece => (piece.function.name, piece.extent),
        left) := by
  simp only [Checked.extents, Gen.link, Threaded.bind_eq_ok,
    Threaded.lift_eq_ok, Threaded.modify_bind, and_assoc, exists_and_left,
    exists_eq_left, List.nil_append]
  refine ⟨assembly.zeroing, assembly.zeroes, ?_⟩
  rw [assembly.sameEntry, assembly.sameProgram]
  exact assembly.assembled.extents

variable {countable : Prop}

/-- The tables of the program belong to its code. -/
theorem linked (checks : program.Checks entry checked)
    (places : checked.Places countable placed)
    (arranged : ∀ name routine, placed.functions.find? name = some routine →
      (routine.context placed.functions placed.globals).Arranged) :
    Linked program entry assembly.image placed.functions placed.globals := by
  obtain ⟨length, quads⟩ := emitGlobals_ok assembly.zeroes
  refine ⟨?_, ?_, assembly.starts, ?_, ?_, ?_, ?_, ?_, ?_⟩
  · rw [places.globals, checks.globals, typed_entry]
  · rw [names_of_typed places.globals]
    exact checks.uniqueGlobals
  · intro index name found listed
    obtain ⟨address, hasAddress, quad⟩ := quads index name found listed
    refine ⟨address, hasAddress, ?_⟩
    rw [Image.Has, image, List.getElem?_toArray,
      List.getElem?_append_left (List.getElem?_eq_some_iff.mp quad).1, quad]
  · obtain ⟨routine, found, _⟩ := assembly.starts
    obtain ⟨piece, _, _, _, position, known⟩ := assembly.piece found
    refine ⟨piece.first, known, ?_⟩
    rw [Image.Has, image, List.getElem?_toArray, ← length,
      List.getElem?_append_right (Nat.le_refl _), Nat.sub_self, position]
    rfl
  · exact ⟨left.space, assembly.assembled.emitted.sound.literals, rfl⟩
  · intro name routine found
    obtain ⟨piece, inPieces, rfl, generated, _, known⟩ := assembly.piece found
    have member : piece.function ∈ program.functions := by
      rw [← assembly.assembled.sources]
      exact List.mem_map_of_mem inPieces
    obtain ⟨_, plainFound, declares⟩ :=
      checks.functions.find? checks.uniqueFunctions member
    obtain ⟨other, otherFound, routinePlaces⟩ :=
      places.routine checks plainFound
    cases found.symm.trans otherFound
    have isArranged := arranged _ routine found
    have holds := generated.laid isArranged assembly.image assembly.within
      (assembly.installed inPieces)
    refine ⟨piece.function, member, rfl, piece.first, isArranged, ?_,
      routinePlaces.returns.trans declares.returns,
      routinePlaces.parameters.trans declares.parameters, ?_, known, holds.code⟩
    · rw [names_of_typed routinePlaces.locals]
      exact declares.unique
    · rw [routinePlaces.locals, declares.locals, typed_entry]
  · intro name position known
    obtain ⟨routine, found, _⟩ := assembly.piece_of_entryOf known
    exact ⟨routine, found⟩
  · intro name other position known otherKnown
    obtain ⟨_, _, piece, member, rfl, rfl⟩ := assembly.piece_of_entryOf known
    obtain ⟨_, _, _, otherMember, rfl, same⟩ :=
      assembly.piece_of_entryOf otherKnown
    exact assembly.apart member otherMember (Int.ofNat.inj same)

theorem outline (checks : program.Checks entry checked)
    (places : checked.Places countable placed) :
    Outline program entry assembly.image.code assembly.segments := by
  obtain ⟨length, quads⟩ := emitGlobals_ok assembly.zeroes
  have typedGlobals : typed placed.globals.entries = typedDeclarations
      program.globals := by
    rw [places.globals, checks.globals, typed_entry]
  have declared : assembly.zeroing.length = program.globals.length := by
    have lengths := congrArg List.length typedGlobals
    rw [typed, typedDeclarations, List.length_map, List.length_map] at lengths
    rw [length, lengths]
  obtain ⟨_, starts, _⟩ := assembly.starts
  obtain ⟨first, isFirst, named, _, position, _⟩ := assembly.piece starts
  refine ⟨⟨assembly.zeroing, first.first, ?_, declared, ?_,
    first.segment assembly.positions, List.mem_map_of_mem isFirst, named, rfl⟩,
    ?_, ⟨?_, ?_⟩, ?_, ?_⟩
  · rw [image, position]
    rfl
  · intro index declaration found
    have entryTyped : (typed placed.globals.entries)[index]? =
        some (declaration.name, declaration.type) := by
      rw [typedGlobals, typedDeclarations, List.getElem?_map, found]
      rfl
    rw [typed, List.getElem?_map] at entryTyped
    obtain ⟨⟨name, holder⟩, listed, same⟩ :=
      Option.map_eq_some_iff.mp entryTyped
    obtain ⟨address, _, quad⟩ := quads index name holder listed
    have sameType : holder.type = declaration.type := congrArg Prod.snd same
    rw [sameType] at quad
    exact ⟨address, quad⟩
  · rw [← declared]
    exact assembly.assembled.follow _
  · rw [← assembly.assembled.sources, segments, List.length_map,
      List.length_map]
  · intro index segment function found foundFunction
    rw [← assembly.assembled.sources, List.getElem?_map] at foundFunction
    rw [segments, List.getElem?_map] at found
    obtain ⟨piece, listed, rfl⟩ := Option.map_eq_some_iff.mp found
    rw [listed, Option.map_some, Option.some.injEq] at foundFunction
    obtain ⟨_, generated⟩ := assembly.assembled.generated piece
      (List.mem_of_getElem? listed)
    rw [assembly.entryIn_segments, ← foundFunction]
    exact generated.encloses assembly.positions
  · rw [segments, assembly.segments_names]
    exact assembly.unique
  · intro function member name called
    obtain ⟨_, found⟩ := assembly.assembled.emitted.known
      (List.mem_flatMap.mpr ⟨function, member, called⟩)
    obtain ⟨piece, inPieces, rfl, _⟩ := assembly.piece found
    exact ⟨_, List.mem_map_of_mem inPieces, rfl⟩

end Assembly

/-! ## Compiled programs -/

section

variable {program : Program} {entry : String} {checked placed : Checked}
  {space : Space}

theorem Program.Checks.emit_yields (checks : program.Checks entry checked)
    (declarable : AllDeclarable program.declarations)
    (ran : checked.place .fresh = .ok (placed, space)) :
    Yields (placed.emit ⟨space, []⟩) fun (code, functions) left =>
      ∃ assembly : Assembly program entry placed space left,
        code = assembly.zeroing ++ [⟨.goto, .unused, .unused, .unused⟩] ++
          assembly.pieces.flatMap (·.code) ∧
        entryOf functions = assembly.image.entryOf := by
  obtain ⟨places, sound, grown⟩ := checks.laid ran
  obtain ⟨zeroing, zeroes⟩ := emitGlobals_works places.stored
  have sameProgram := places.sameProgram.trans checks.sameProgram
  have sameEntry := places.sameEntry.trans checks.sameEntry
  have yields : Yields (placed.emit ⟨space, []⟩) fun (code, functions) left =>
      ∃ pieces, Assembled placed (zeroing.length + 1) program.functions
          ⟨space, [⟨zeroing.length, .result, entry⟩]⟩ left pieces ∧
        code = zeroing ++ [⟨.goto, .unused, .unused, .unused⟩] ++
          pieces.flatMap (·.code) ∧
        functions = setEntries placed.functions (pieces.map Piece.entry) := by
    unfold Checked.emit Gen.link
    refine .lift zeroes (.modify ?_)
    rw [sameProgram, sameEntry]
    refine (emitFunctions_yields (places.ready checks declarable)
      (checks.lists places) (sound _) grown checks.bodies).bind ?_
    rintro ⟨_, _⟩ left ⟨pieces, assembled, rfl, rfl⟩
    exact .pure ⟨pieces, assembled, rfl, rfl⟩
  refine yields.ran.imp ?_
  rintro ⟨_, _⟩ left ⟨ran, pieces, assembled, rfl, rfl⟩
  have names : placed.functions.names = checked.functions.names := by
    have listed := congrArg (List.map Prod.fst)
      (places.functions.map_eq Routine.signature fun _ _ =>
        Routine.Places.signature)
    rwa [List.map_map, List.map_map] at listed
  obtain ⟨_, known, none⟩ := checks.start
  obtain ⟨routine, found, placesRoutine⟩ := places.routine checks known
  exact ⟨⟨zeroing, pieces, sameProgram, sameEntry,
    names.trans checks.functions.names, names ▸ checks.uniqueFunctions,
    ⟨routine, found, placesRoutine.parameters.trans none⟩, zeroes, assembled,
    ran⟩, rfl, rfl⟩

/-- Generating the code of a checked program works or exhausts a segment. -/
theorem Program.Checks.generate_exhausts (checks : program.Checks entry checked)
    (declarable : AllDeclarable program.declarations) :
    OnlyExhausts checked.generate := by
  rw [Checked.generate, Checked.generateIn_eq]
  refine .bind (checks.place_exhausts declarable .fresh) ?_
  rintro ⟨_, _⟩ ran
  have yields := checks.emit_yields declarable ran
  refine .bind yields.exhausts ?_
  rintro ⟨⟨_, _⟩, _⟩ emitted
  obtain ⟨assembly, rfl, known⟩ := yields.works _ _ emitted
  obtain ⟨_, _, _, _, _, resolved⟩ := assembly.resolves
  dsimp only
  rw [known, resolved]
  exact .ok _

variable {executable : Executable}

/-- A program that compiles is what was put together. -/
theorem Program.assembly_of_compile
    (declarable : AllDeclarable program.declarations)
    (compiled : program.compile entry = .ok executable) :
    ∃ checked placed space left,
      ∃ assembly : Assembly program entry placed space left,
      program.check entry = .ok checked ∧
      checked.place .fresh = .ok (placed, space) ∧
      program.Checks entry checked ∧ checked.Places program.Countable placed ∧
      executable = ⟨assembly.image.code, left.space.constants⟩ := by
  obtain ⟨checked, passed, generated⟩ := bind_eq_ok.mp compiled
  rw [Checked.generate, Checked.generateIn_eq] at generated
  obtain ⟨⟨placed, space⟩, ran, generated⟩ := bind_eq_ok.mp generated
  obtain ⟨⟨⟨_, _⟩, left⟩, emitted, generated⟩ := bind_eq_ok.mp generated
  have checks := Program.checks_of_check passed
  obtain ⟨assembly, rfl, known⟩ :=
    (checks.emit_yields declarable ran).works _ _ emitted
  obtain ⟨_, _, _, _, _, resolved⟩ := assembly.resolves
  dsimp only at generated
  rw [known, resolved] at generated
  cases generated
  exact ⟨checked, placed, space, left, assembly, passed, ran, checks,
    (checks.laid ran).1, rfl⟩

theorem outline_of_compile (declarable : AllDeclarable program.declarations)
    (compiled : program.compile entry = .ok executable) :
    ∃ segments, Outline program entry executable.code segments := by
  obtain ⟨_, _, _, _, assembly, _, _, checks, places, rfl⟩ :=
    Program.assembly_of_compile declarable compiled
  exact ⟨assembly.segments, assembly.outline checks places⟩

/-- Where all slots can be counted, the variables of what compiles fit. -/
theorem Program.listsFit_of_compile {source : String}
    (parsed : Program.parse source = .ok program)
    (countable : program.Countable)
    (compiled : program.compile entry = .ok executable) :
    program.ListsFit := by
  have declarable := Program.declarable_of_parse parsed
  obtain ⟨_, _, _, _, _, _, _, checks, places, _⟩ :=
    assembly_of_compile declarable compiled
  exact fun declaration member _ =>
    (places.fits checks declarable countable declaration member).small

theorem lookup_of_mem {entries : List (String × α)} {name : String} {item : α}
    (unique : (entries.map Prod.fst).Nodup)
    (member : (name, item) ∈ entries) :
    entries.lookup name = some item := by
  induction entries with
  | nil => cases member
  | cons first rest induction =>
    obtain ⟨firstName, _⟩ := first
    rw [List.map_cons, List.nodup_cons] at unique
    rcases List.mem_cons.mp member with same | later
    · cases same
      exact List.lookup_cons_self
    · have differs : (name == firstName) = false := by
        rw [beq_eq_false_iff_ne]
        rintro rfl
        exact unique.1 (List.mem_map.mpr ⟨_, later, rfl⟩)
      rw [List.lookup_cons, differs]
      exact induction unique.2 later

theorem Assembly.extentOf? {left : Draft} {piece : Piece}
    (assembly : Assembly program entry placed space left)
    (passed : program.check entry = .ok checked)
    (ran : checked.place .fresh = .ok (placed, space))
    (member : piece ∈ assembly.pieces) :
    program.extentOf? entry piece.function.name = some piece.extent := by
  have noted : placed.extents.run ⟨space, []⟩ =
      .ok (assembly.pieces.map fun piece => (piece.function.name, piece.extent),
        left) :=
    assembly.extents
  have placing : checked.place.run .fresh = .ok (placed, space) := ran
  simp only [Program.extentOf?, passed, placing, noted, bind,
    Except.toOption, Option.bind]
  refine lookup_of_mem ?_ (List.mem_map.mpr ⟨piece, member, rfl⟩)
  rw [List.map_map, show (Prod.fst ∘ fun piece : Piece =>
    (piece.function.name, piece.extent)) = (·.function.name) from rfl,
    assembly.map_name]
  exact assembly.unique

/-- A compiled program is laid out and linked, each function in its extent. -/
theorem extents_of_layout (declarable : AllDeclarable program.declarations)
    (listsFit : program.ListsFit)
    (compiled : program.compile entry = .ok executable) :
    ∃ image placed segments, program.layout? entry = some placed ∧
      image.code = executable.code ∧ image.constants = executable.constants ∧
      (∀ name, image.entryOf name = program.positionOf? entry name) ∧
      Linked program entry image placed.functions placed.globals ∧
      Outline program entry executable.code segments ∧
      (∀ function ∈ program.functions, ∃ extent routine,
        program.extentOf? entry function.name = some extent ∧
        placed.functions.find? function.name = some routine ∧
        image.entryOf function.name = some (extent.first : Int) ∧
        extent.Holds image (routine.context placed.functions placed.globals)
          function.body) ∧
      ∀ segment ∈ segments, ∃ extent,
        program.extentOf? entry segment.name = some extent ∧
        extent.first = segment.first ∧ extent.length = segment.code.length := by
  obtain ⟨checked, placed, space, _, assembly, passed, ran, checks,
      places, rfl⟩ :=
    Program.assembly_of_compile declarable compiled
  have arranged : ∀ name routine, placed.functions.find? name = some routine →
      (routine.context placed.functions placed.globals).Arranged :=
    fun name routine =>
    places.arrangedRoutine checks declarable (listsFit.counts declarable)
  have placing : checked.place.run .fresh = .ok (placed, space) := ran
  refine ⟨assembly.image, placed, assembly.segments, ?_, rfl, rfl, ?_,
    assembly.linked checks places arranged,
    assembly.outline checks places, ?_, ?_⟩
  · simp only [Program.layout?, passed, placing, bind, Except.toOption,
      Option.bind, pure]
  · intro name
    have emitted : placed.emit.run ⟨space, []⟩ = .ok _ := assembly.ran
    simp only [Program.positionOf?, Checked.positions, passed, placing,
      emitted, bind, Except.bind, pure, Except.pure,
      Except.toOption, Option.bind]
    rfl
  · intro function member
    rw [← assembly.assembled.sources] at member
    obtain ⟨piece, inPieces, rfl⟩ := List.mem_map.mp member
    obtain ⟨routine, generated, _, located⟩ := assembly.known inPieces
    exact ⟨piece.extent, routine, assembly.extentOf? passed ran inPieces,
      generated.found, located,
      generated.laid (arranged _ routine generated.found) assembly.image
        assembly.within (assembly.installed inPieces)⟩
  · intro segment member
    obtain ⟨piece, inPieces, rfl⟩ := List.mem_map.mp member
    exact ⟨piece.extent, assembly.extentOf? passed ran inPieces, rfl,
      length_fillCalls.symm⟩

end

section

variable {program : Program} {entry : String} {executable : Executable}
  (declarable : AllDeclarable program.declarations)
  (listsFit : program.ListsFit)
  (compiled : program.compile entry = .ok executable)
include declarable listsFit compiled

theorem linked_of_layout :
    ∃ image placed, program.layout? entry = some placed ∧
      image.code = executable.code ∧ image.constants = executable.constants ∧
      (∀ name, image.entryOf name = program.positionOf? entry name) ∧
      Linked program entry image placed.functions placed.globals := by
  obtain ⟨image, placed, _, layout, sameCode, sameConstants,
      entries, linked, _⟩ :=
    extents_of_layout declarable listsFit compiled
  exact ⟨image, placed, layout, sameCode, sameConstants, entries, linked⟩

theorem linked_of_compile :
    ∃ image functions globals, image.code = executable.code ∧
      image.constants = executable.constants ∧
      (∀ name, image.entryOf name = program.positionOf? entry name) ∧
      Linked program entry image functions globals := by
  obtain ⟨image, placed, _, sameCode, sameConstants, entries, linked⟩ :=
    linked_of_layout declarable listsFit compiled
  exact ⟨image, placed.functions, placed.globals, sameCode, sameConstants,
    entries, linked⟩

end

end Easel
