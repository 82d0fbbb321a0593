import Easel.Proofs.Machine.Reset
import Easel.Proofs.Session.Confinement

/-!
# Functions that come to their end

Behind the body of a function stands a return of the zero of its type.  There
is a literal of it for a type without attributes, so that the call which waits
has the zero for its result, whatever the temporary for it held before.  There
is none for the types of objects: such a function returns nothing, and the
temporary keeps what it held when the call was made.
-/

namespace Easel

/-- The literals of the zero values stand for the zero values. -/
theorem Space.ofLiteral?_zeros :
    ∀ zero ∈ zeros, Value.ofLiteral? zero.1 zero.2 =
      some (Value.zero zero.2) := by
  simp only [zeros, List.forall_mem_cons, List.not_mem_nil, false_implies,
    implies_true, and_true]
  exact ⟨rfl, rfl, rfl, rfl, rfl⟩

variable {address : Address} {image : Image} {type : Ty}

/-- A value is written to a slot of its kind, and read from it. -/
theorem Memory.writeBlock_typed {value : Value} {location : Location}
    (memory : Memory)
    (located : locate? address = some location)
    (writable : location.region ≠ .constant)
    (typed : value.Typed location.kind) :
    ∃ after, writeBlock address [value] memory = .ok () after ∧
      after.read address = .ok value := by
  refine ⟨memory.fill location.region address [value],
    writeBlock_eq_fill memory writable rfl ?_,
    by rw [read_eq located, contents_fill_single located]⟩
  intro index given kept isGiven isKept
  cases index with
  | zero =>
    cases isGiven
    cases isKept
    exact ⟨location, by rwa [Int.natCast_zero, Int.add_zero], rfl,
      typed.fit?_self⟩
  | succ index => cases isGiven

theorem ZeroOf.held {memory : Memory}
    (zeroOf : ZeroOf image type address)
    (holds : memory.HoldsConstants image.constants)
    (stored : type.isVoid = false)
    (scalar : type.isObject = false) :
    ∃ location, Place address type location ∧ location.region = .constant ∧
      memory.contents address = .zero type.element := by
  cases zeroOf with
  | absent unwritten => simp [stored, scalar] at unwritten
  | literal place zero known =>
    refine ⟨_, place, rfl, ?_⟩
    have denotes := holds.holds _ known
    rw [Space.ofLiteral?_zeros _ zero] at denotes
    exact (Option.some.inj denotes).symm

theorem ZeroOf.eq_unused (zeroOf : ZeroOf image type address)
    (unwritten : type.isVoid = true ∨ type.isObject = true) :
    address = .unused := by
  cases zeroOf with
  | absent => rfl
  | literal _ zero _ =>
    have scalars : ∀ other ∈ Space.zeros, other.2 ≠ .void ∧
      other.2.isObject = false := by decide
    obtain ⟨stored, scalar⟩ := scalars _ zero
    simp [Ty.isVoid, Ty.isObject, stored, scalar] at unwritten

theorem ZeroOf.handedBack {before machine : Machine}
    (zeroOf : ZeroOf image type address)
    (single : type.isList = false)
    (stored : type.isVoid = false)
    (scalar : type.isObject = false)
    (holds : before.memory.HoldsConstants image.constants)
    (same : before.SameProgram machine) :
    Exec.handedBack machine.memory address =
      .ok (some [.zero type.element]) := by
  obtain ⟨_, place, isConstant, isZero⟩ := zeroOf.held holds stored scalar
  have one : type.slotCount = 1 := by
    rw [Ty.slotCount_of_single single, Element.slotWidth, if_neg]
    simpa [Ty.isObject, single] using scalar
  rw [Exec.handedBack, if_neg place.used,
    Memory.readWhole_place place single, one]
  simp [Memory.block, same.contents place.located isConstant, isZero,
    Functor.map, Except.map]

/-- A call that has a temporary for its result finds the zero value in it. -/
theorem Receives.handOver_zero {result : Address}
    (receives : Receives type result)
    (single : type.isList = false)
    (stored : type.isVoid = false)
    (memory : Memory) :
    ∃ after, Exec.handOver result (some [.zero type.element]) memory =
      .ok () after ∧ after.read result = .ok (.zero type.element) := by
  obtain ⟨_, place, isTemp⟩ := receives.place stored
  rw [Exec.handOver, if_neg place.used]
  refine memory.writeBlock_typed place.located (by simp [isTemp]) ?_
  rw [place.kind]
  exact Value.typed_zero (by simpa [Ty.isVoid, single] using stored)

/-- The call that waits for a function has a temporary for its result. -/
theorem Assembly.receives_waiting {program : Program} {entry : String}
    {placed : Checked} {space : Space} {draft : Draft} {piece : Piece}
    {routine : Routine} {callee caller : Frame} {outer : List Frame}
    {owner : Segment} {owners : List Segment} {site : Quad}
    (assembly : Assembly program entry placed space draft)
    (outline : Outline program entry assembly.image.code assembly.segments)
    (owned : Owned assembly.image.code assembly.segments entry
      (callee :: caller :: outer) (owner :: owners))
    (called : assembly.image.code[callee.calledFrom]? = some site)
    (member : piece ∈ assembly.pieces)
    (generated : piece.Generated placed draft routine)
    (calls : site.left = piece.first) :
    Receives routine.returns site.result := by
  cases owned with
  | call callerOwned calledAt isCall inside =>
    cases called.symm.trans calledAt
    have inCode := List.mem_of_getElem?
      (outline.fetched callerOwned.member inside called)
    obtain ⟨_, inPieces, _, leads, otherGenerated, receives⟩ :=
      assembly.receives callerOwned.member inCode isCall
    have found := otherGenerated.found
    rw [assembly.apart inPieces member
      (Int.ofNat.inj (leads.symm.trans calls))] at found
    cases generated.found.symm.trans found
    exact receives

/--
A function that comes to its end returns the zero of its type, unless that is
a type of objects.  Let a session of a compiled program be in a call of a
function, at the return behind the function's body.  The return is carried out
and leads behind the call.  After it the temporary for the result of the call
holds the zero of the function's type.  Where the function returns an object
nothing is stored: all temporaries, that for the result too, are as they were
when the call was made.
-/
theorem Session.final_return {source entry : String} {program : Program}
    {executable : Executable} {screen : Screen} {machine : Machine}
    {limit : Option Nat} {moment : Nat} {session : Session}
    {function : Function} {extent : Extent} {callee : Frame} {site : Quad}
    (parsed : Program.parse source = .ok program)
    (compiled : program.compile entry = .ok executable)
    (loaded : Machine.load executable screen = .ok machine)
    (reached : Session.runFor moment { machine, limit } = .running session)
    (running : session.machine.frames.head? = some callee)
    (waited : 1 < session.machine.frames.length)
    (called : executable.code[callee.calledFrom]? = some site)
    (member : function ∈ program.functions)
    (measured : program.extentOf? entry function.name = some extent)
    (calls : site.left = extent.first)
    (atEnd : session.machine.position + 1 = extent.first + extent.length) :
    ∃ exit caller outer saved after,
      executable.code[session.machine.position]? = some exit ∧
      Exec.execute exit session.machine = .ok (.jump (callee.calledFrom + 1))
      after ∧ session.machine.frames = callee :: caller :: outer ∧
      caller.saved = some saved ∧ after.frames = Exec.resumed caller :: outer ∧
      (function.returns.isVoid = false → function.returns.isObject = false →
        after.memory.read site.result = .ok (.zero function.returns.element)) ∧
      (function.returns.isObject = true →
        after.memory = session.machine.memory.restore saved) := by
  obtain ⟨_, _, _, _, assembly, passed, ran, checks, places, rfl⟩ :=
    Program.assembly_of_compile (Program.declarable_of_parse parsed) compiled
  have outline := assembly.outline checks places
  have onTrack := (OnTrack.of_load limit loaded).runFor outline reached
  obtain ⟨_, known, declares⟩ :=
    checks.functions.find? checks.uniqueFunctions member
  obtain ⟨_, found, placesRoutine⟩ := places.routine checks known
  have returns := placesRoutine.returns.trans declares.returns
  have single := declares.plain
  obtain ⟨piece, inPieces, rfl⟩ :=
    List.mem_map.mp (assembly.assembled.sources ▸ member)
  cases measured.symm.trans (assembly.extentOf? passed ran inPieces)
  obtain ⟨_, generated⟩ := assembly.assembled.generated piece inPieces
  cases found.symm.trans generated.found
  obtain ⟨zero, ret, zeroOf⟩ := assembly.returns inPieces generated atEnd
  rw [returns] at zeroOf
  rcases onTrack.place with ⟨_, _, _, alone⟩ | ⟨_, _, _, owned, _⟩
  · simp [alone] at waited
  obtain ⟨caller, outer, frames⟩ : ∃ caller outer,
      session.machine.frames = callee :: caller :: outer := by
    match stack : session.machine.frames with
    | [] => simp [stack] at running
    | [_] => simp [stack] at waited
    | _ :: caller :: outer =>
      simp only [stack, List.head?_cons, Option.some.injEq] at running
      exact ⟨caller, outer, by rw [running]⟩
  rw [frames, onTrack.sameCode] at owned
  have receives := assembly.receives_waiting outline owned called inPieces
    generated calls
  rw [returns] at receives
  have unsaved := unsaved_of_runFor (Machine.unsaved_of_load loaded) reached
  obtain ⟨saved, kept⟩ := Option.isSome_iff_exists.mp
    (unsaved.waiting caller (by rw [frames]; exact List.mem_cons_self))
  rw [← onTrack.sameCode] at called
  by_cases unwritten : piece.function.returns.isVoid = true ∨
    piece.function.returns.isObject = true
  · -- there is no value, and the storage of the caller is only put back
    rw [zeroOf.eq_unused unwritten] at ret
    have handed : Exec.handedBack session.machine.memory .unused =
      .ok none := rfl
    have executed : Exec.execute ⟨.ret, .unused, .unused, .unused⟩
        session.machine = _ :=
      (congrFun (Exec.execute_ret rfl) _).trans
        (Exec.leave_handOver frames kept called handed rfl)
    refine ⟨_, caller, outer, saved, _, ret, executed, frames, kept, rfl,
      ?_, fun _ => rfl⟩
    intro stored scalar
    simp [stored, scalar] at unwritten
  · obtain ⟨stored, scalar⟩ : piece.function.returns.isVoid = false ∧
        piece.function.returns.isObject = false := by simpa using unwritten
    have holds := assembly.assembled.emitted.sound.literals.loaded rfl loaded
    have handed := zeroOf.handedBack single stored scalar holds
      (sameProgram_of_runFor reached)
    obtain ⟨_, handsOver, isZero⟩ :=
      receives.handOver_zero single stored
        (session.machine.memory.restore saved)
    have executed : Exec.execute ⟨.ret, .unused, .unused, zero⟩
        session.machine = _ :=
      (congrFun (Exec.execute_ret rfl) _).trans
        (Exec.leave_handOver frames kept called handed handsOver)
    refine ⟨_, caller, outer, saved, _, ret, executed, frames, kept,
      rfl, fun _ _ => isZero, ?_⟩
    intro isObject
    simp [scalar] at isObject

/-- A function that returns a number the first time and none the second. -/
def answersOnce : String :=
  "program p;func int f(bool b)\x7bif(b)\x7breturn 7;\x7d\x7d" ++
    "func void main()\x7bvar int i;i=0;while(i<2)\x7bwrite f(i<1);i=i+1;\x7d\x7d"

/-- The second call has zero for its result. -/
theorem Session.final_return_answersOnce :
    ∃ (program : Program) (executable : Executable) (machine : Machine)
      (session : Session) (function : Function) (extent : Extent)
      (callee : Frame) (site : Quad), Program.parse answersOnce = .ok program ∧
      program.compile "main" = .ok executable ∧
        Machine.load executable {} = .ok machine ∧
      Session.runFor 22 { machine } = .running session ∧
      session.machine.frames.head? = some callee ∧
        1 < session.machine.frames.length ∧
      executable.code[callee.calledFrom]? = some site ∧
        function ∈ program.functions ∧
      program.extentOf? "main" function.name = some extent ∧
        site.left = extent.first ∧
      session.machine.position + 1 = extent.first + extent.length ∧
      ∃ exit after,
        Exec.execute exit session.machine = .ok (.jump (callee.calledFrom + 1))
        after ∧ after.memory.read site.result = .ok (.int 0) := by
  have evaluated : (do
      let program ← (Program.parse answersOnce).toOption
      let executable ← (program.compile "main").toOption
      let machine ← (Machine.load executable {}).toOption
      let last := ({ machine } : Session).runFor 22
      let function ← program.functions.head?
      let extent ← program.extentOf? "main" function.name
      let callee ← last.session.machine.frames.head?
      let site ← executable.code[callee.calledFrom]?
      if last.goesOn ∧ 1 < last.session.machine.frames.length ∧
          site.left = extent.first ∧
          last.session.machine.position + 1 = extent.first + extent.length ∧
          function.returns = Ty.basic .int then
        some (program, executable, machine)
      else none).isSome = true := by
    decide +kernel
  simp only [Option.isSome_iff_exists, bind, Option.bind_eq_some_iff,
    toOption_eq_some, Option.ite_none_right_eq_some] at evaluated
  obtain ⟨_, program, parsed, executable, compiled, machine, loaded, function,
    first, extent, measured, callee, running, site, called,
    ⟨goesOn, waited, calls, atEnd, returns⟩, _⟩ := evaluated
  have reached := Progress.eq_running goesOn
  have member := List.mem_of_head? first
  obtain ⟨exit, _, _, _, after, _, executed, _, _, _, isZero, _⟩ :=
    final_return parsed compiled loaded reached running waited called member
    measured calls atEnd
  rw [returns] at isZero
  exact ⟨program, executable, machine, _, function, extent,
    callee, site, parsed, compiled, loaded, reached, running, waited, called,
    member, measured, calls, atEnd, exit, after, executed, isZero rfl rfl⟩

/-- A function that returns an object the first time and none the second. -/
def drawsOnce : String :=
  "program p;func square f(bool b)\x7bvar square s;s.x=5.0;if(b)\x7breturn s;\x7d\x7d" ++
    "func void main()\x7bvar int i;var square t;i=0;" ++
    "while(i<2)\x7bt=f(i<1);write t.x;i=i+1;\x7d\x7d"

/--
The second call comes to the return behind the function's body.  After it the
temporary for the result of the call does not hold a zero square: its first
coordinate is not zero.
-/
theorem Session.object_remains :
    ∃ (program : Program) (executable : Executable) (machine : Machine)
      (session next : Session) (function : Function) (extent : Extent)
      (callee : Frame) (site : Quad) (x : Value),
      Program.parse drawsOnce = .ok program ∧
      program.compile "main" = .ok executable ∧
      Machine.load executable {} = .ok machine ∧
      Session.runFor 28 { machine } = .running session ∧
      session.machine.frames.head? = some callee ∧
      1 < session.machine.frames.length ∧
      executable.code[callee.calledFrom]? = some site ∧
      function ∈ program.functions ∧ function.returns = .basic .square ∧
      program.extentOf? "main" function.name = some extent ∧
      site.left = extent.first ∧
      session.machine.position + 1 = extent.first + extent.length ∧
      session.runFor 1 = .running next ∧
      next.machine.position = callee.calledFrom + 1 ∧
      next.machine.memory.read (site.result + Attribute.x.offset) = .ok x ∧
      x ≠ .zero .float := by
  have evaluated : (do
      let program ← (Program.parse drawsOnce).toOption
      let executable ← (program.compile "main").toOption
      let machine ← (Machine.load executable {}).toOption
      let last := ({ machine } : Session).runFor 28
      let next := last.session.runFor 1
      let function ← program.functions.head?
      let extent ← program.extentOf? "main" function.name
      let callee ← last.session.machine.frames.head?
      let site ← executable.code[callee.calledFrom]?
      let x ← (next.session.machine.memory.read
        (site.result + Attribute.x.offset)).toOption
      if last.goesOn ∧ next.goesOn ∧ 1 < last.session.machine.frames.length ∧
          function.returns = Ty.basic .square ∧ site.left = extent.first ∧
          last.session.machine.position + 1 = extent.first + extent.length ∧
          next.session.machine.position = callee.calledFrom + 1 ∧
          x ≠ Value.zero .float then
        some ()
      else none).isSome = true := by
    decide +kernel
  simp only [Option.isSome_iff_exists, bind, Option.bind_eq_some_iff,
    toOption_eq_some, Option.ite_none_right_eq_some] at evaluated
  obtain ⟨_, program, parsed, executable, compiled, machine, loaded, function,
    first, extent, measured, callee, running, site, called, x, holds, ⟨goesOn,
    goesOnLater, waited, returns, calls, atEnd, leads, notZero⟩, _⟩ := evaluated
  exact ⟨program, executable, machine, _, _, function, extent, callee, site, x,
    parsed, compiled, loaded, Progress.eq_running goesOn, running, waited,
    called, List.mem_of_head? first, returns, measured, calls, atEnd,
    Progress.eq_running goesOnLater, leads, holds, notZero⟩

end Easel
