import Easel.Machine.Execute

/-!
# Faults of reading and computing

Reading memory and computing can fail in many ways, but never because the
allowed number of instructions was executed.  Only a session reports that.
-/

namespace Easel

variable {operation : Operation}

/-- Whether a fault reports that the limit of instructions was reached. -/
@[simp]
def Fault.isLimit : Fault → Bool
  | .stepLimit _ => true
  | _ => false

/-- A result that does not report the limit. -/
def Ordinary (result : Except Fault α) : Prop :=
  ∀ fault, result = .error fault → fault.isLimit = false

namespace Ordinary

variable {result : Except Fault α} {memory : Memory} {address : Address}
  {left right : Cell}

@[simp]
theorem ok (value : α) : Ordinary (.ok value) := by simp [Ordinary]

@[simp]
theorem error {fault : Fault} :
    Ordinary (.error fault : Except Fault α) ↔
      fault.isLimit = false := by simp [Ordinary]

theorem bind {next : α → Except Fault β}
    (before : Ordinary result)
    (after : ∀ value, Ordinary (next value)) :
    Ordinary (result >>= next) := by
  cases result with
  | error fault => exact error.mpr (before fault rfl)
  | ok value => exact after value

theorem map {change : α → β} (before : Ordinary result) :
    Ordinary (change <$> result) := by
  cases result with
  | error fault => exact error.mpr (before fault rfl)
  | ok value => exact ok (change value)

theorem mapM {action : α → Except Fault β}
    (each : ∀ item, Ordinary (action item))
    (items : List α) :
    Ordinary (items.mapM action) := by
  induction items with
  | nil => exact ok []
  | cons first rest induction =>
    rw [List.mapM_cons]
    exact (each first).bind fun _ => induction.bind fun _ => ok _

theorem foldlM {action : β → α → Except Fault β}
    (each : ∀ state item, Ordinary (action state item))
    (items : List α)
    (state : β) :
    Ordinary (items.foldlM action state) := by
  induction items generalizing state with
  | nil => exact ok state
  | cons first rest induction => exact (each state first).bind induction

theorem locate : Ordinary (locate address) := by
  unfold Easel.locate
  split <;> simp

theorem locateWritable : Ordinary (locateWritable address) := by
  refine locate.bind fun location => ?_
  split
  · exact error.mpr rfl
  · exact ok location

theorem read : Ordinary (memory.read address) :=
  locate.bind fun _ => ok _

theorem readBlock {count : Nat} : Ordinary (memory.readBlock address count) :=
  mapM (fun _ => read) _

theorem readWhole : Ordinary (memory.readWhole address) :=
  locate.bind fun _ => readBlock

theorem put {location : Location} {value : Value} :
    Ordinary (memory.put address location value) := by
  unfold Memory.put
  split <;> simp

theorem expect {cell : Cell} {expected : Element} (found : Option α) :
    Ordinary (cell.expect expected found) := by
  cases found <;> simp [Cell.expect]

theorem readDrawing : Ordinary (memory.readDrawing address) := by
  refine read.bind fun _ => bind ?_ fun _ =>
    foldlM (fun _ _ => read.bind fun _ => ok _) _ _
  unfold Cell.objectKind
  split <;> simp

theorem stage {frame : Frame} {kind : Element} {values : List Value} :
    Ordinary (frame.stage kind values) := by
  unfold Frame.stage
  split
  · exact error.mpr rfl
  · dsimp only
    split <;> simp

theorem combine {integers : Int64 → Int64 → Except Fault Int64}
    {numbers : Float → Float → Except Fault Float}
    (whole : ∀ first second, Ordinary (integers first second))
    (other : ∀ first second, Ordinary (numbers first second)) :
    Ordinary (Calculation.combine integers numbers left right) := by
  unfold Calculation.combine
  split
  · exact (whole _ _).map
  · exact (expect _).bind fun _ => (expect _).bind fun _ => (other _ _).map

theorem binary {position : Nat} :
    Ordinary (Calculation.binary position operation left right) := by
  unfold Calculation.binary
  split
  case h_1 | h_2 | h_3 => exact combine (fun _ _ => ok _) fun _ _ => ok _
  case h_4 =>
    refine combine (fun _ _ => ?_) fun _ _ => ?_
    all_goals
      split
      · exact error.mpr rfl
      · exact ok _
  case h_5 | h_9 | h_10 =>
    exact (expect _).bind fun _ => (expect _).bind fun _ => ok _
  case h_6 | h_7 =>
    refine map ?_
    first | unfold Calculation.less | unfold Calculation.greater
    split
    · exact ok _
    · exact (expect _).bind fun _ => (expect _).bind fun _ => ok _
  case h_8 => exact ok _
  case h_11 => exact error.mpr rfl

theorem unary {result : Except Fault Value}
    (isUnary : Calculation.unary? operation left = some result) :
    Ordinary result := by
  unfold Calculation.unary? at isUnary
  split at isUnary
  case h_3 => cases isUnary
  all_goals
    cases isUnary
    exact (expect _).bind fun _ => ok _

end Ordinary

end Easel
