import Easel.Machine

/-!
# Jumps and calls

A call takes four kinds of instruction: one announces it, one passes each
argument, one enters the function, and the function's own return leaves it.
Caller and callee use the same local and temporary slots; the caller's are
saved when the call enters and brought back when it returns.
-/

namespace Easel.Exec

/-- A position in the code. -/
def jumpTarget (address : Address) : Exec Nat :=
  if address < 0 then throw (.invalidAddress address) else return address.toNat

/-- Execute a jump. -/
def branch (quad : Quad) : Exec Outcome := do
  let target ← jumpTarget quad.result
  let taken ← match quad.operation with
    | .goto => pure true
    | .gotoTrue => fetchTruth quad.left
    | _ => Bool.not <$> fetchTruth quad.left
  return if taken then .jump target else .next

/-- Announce a call of a function that needs the given number of slots. -/
def announce (footprint : Address) : Exec Outcome := do
  modify fun machine =>
    { machine with
      pending := { footprint := footprint.toNat } :: machine.pending }
  return .next

/-- Pass an argument of one value, or of `size` values if that is positive. -/
def pass (address size : Address) : Exec Outcome := do
  let location ← MonadExcept.ofExcept (locate address)
  let count := if size > 0 then size.toNat else 1
  let values ← MonadExcept.ofExcept
    ((← get).memory.readBlock address (location.width * count))
  match (← get).pending with
  | [] => throw (.invalidInstruction .paramWithoutEra)
  | frame :: outer =>
    let staged ← MonadExcept.ofExcept (frame.stage location.kind values)
    modify fun machine => { machine with pending := staged :: outer }
    return .next

/-- Take the innermost announced call. -/
def takePending : Exec Frame := do
  match (← get).pending with
  | [] => throw (.invalidInstruction .callWithoutEra)
  | frame :: outer =>
    modify fun machine => { machine with pending := outer }
    return frame

/-- Save the slots of the function that makes a call. -/
def suspendCaller : Exec Unit := do
  match (← get).frames with
  | [] => throw (.invalidInstruction .callWithoutFrame)
  | caller :: outer =>
    modify fun machine =>
      let suspended := { caller with saved := some machine.memory.snapshot }
      { machine with frames := suspended :: outer }

/-- Enter the announced function at `target`. -/
def enter (target : Address) : Exec Outcome := do
  let target ← jumpTarget target
  let callee ← takePending
  suspendCaller
  callee.staged.forM fun (address, values) =>
    storing (Memory.writeBlock address values)
  modify fun machine =>
    let entered := { callee with staged := [], calledFrom := machine.position }
    { machine with frames := entered :: machine.frames }
  return .jump target

/-- Leave the innermost frame. -/
def leaveFrame : Exec Frame := do
  match (← get).frames with
  | [] => throw (.invalidInstruction .returnWithoutFrame)
  | callee :: outer =>
    modify fun machine => { machine with frames := outer }
    return callee

/-- The slots of a returned value; nothing if no value is returned. -/
def returned (address : Address) : Exec (Option (List Value)) := do
  if address = .unused then return none
  else some <$> MonadExcept.ofExcept ((← get).memory.readWhole address)

/-- Bring back the slots of the function that made the call. -/
def resumeCaller (caller : Frame) (outer : List Frame) : Exec Unit :=
  match caller.saved with
  | none => throw (.invalidInstruction .frameNotSaved)
  | some saved =>
    modify fun machine => { machine with
      frames := { caller with saved := none } :: outer
      memory := machine.memory.restore saved }

/-- Return from the innermost function and hand a value to its caller. -/
def leave (address : Address) : Exec Outcome := do
  let callee ← leaveFrame
  match (← get).frames with
  | [] => return .halt
  | caller :: outer =>
    let values ← returned address
    resumeCaller caller outer
    match (← get).code[callee.calledFrom]? with
    | none => throw (.invalidAddress (Address.wrap callee.calledFrom))
    | some site =>
      match values with
      | some values =>
        if site.result = .unused then pure ()
        else storing (Memory.writeBlock site.result values)
      | none => pure ()
      return .jump (callee.calledFrom + 1)

end Easel.Exec
