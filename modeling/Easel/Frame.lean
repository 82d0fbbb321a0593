import Easel.Memory

/-!
# Frames

A frame is one invocation of a function.  It is created before its arguments
are computed, collects them, is entered by the call, and keeps the slots of
its function while that function waits for a call of its own.

Arguments fill the segments of the callee's local region in order, which is
where its parameters were placed.
-/

namespace Easel

/-- One invocation of a function. -/
structure Frame where
  /-- Slots that the function needs. -/
  footprint : Nat
  /-- Position of the call that entered the frame. -/
  calledFrom : Nat := 0
  /-- Arguments that wait for the call, in the order of their passing. -/
  staged : List (Address × List Value) := []
  /-- Slots taken by arguments in the segment of each element. -/
  passed : Element → Nat := fun _ => 0
  /-- The function's slots while it waits for a call to return. -/
  saved : Option Snapshot := none
deriving Inhabited

namespace Frame

/-- Add slots to the count of an element's segment. -/
def take (frame : Frame) (element : Element) (count : Nat) : Frame :=
  { frame with passed := fun other =>
      if other = element then frame.passed other + count
      else frame.passed other }

/-- Pass an argument: place it in the next free local slots of its kind. -/
def stage (frame : Frame) (kind : Element) (values : List Value) :
    Except Fault Frame :=
  match segmentBase? .local kind with
  | none => .error (.invalidInstruction (.notPassable kind))
  | some base =>
    let address := base + frame.passed kind
    if frame.passed kind + values.length > segmentSize then
      .error (.invalidAddress address)
    else
      let taken := frame.take kind values.length
      .ok { taken with staged := frame.staged ++ [(address, values)] }

end Frame

end Easel
