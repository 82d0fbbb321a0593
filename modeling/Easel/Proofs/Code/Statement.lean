import Easel.Proofs.Code.Expression

/-!
# Generated code for statements

Code is generated for every statement that was checked, unless storage runs
out on the way.  Its jumps lead to positions in it or to the position behind
it.  Where variables have places it is code for the statement in the sense of
`StmtCode`, wherever it is installed: jumps are complete when a statement is
generated, so a loop or a branch is code for itself as soon as its parts are.
-/

namespace Easel

variable {assignment : Assignment} {target : Target} {type : Ty}
variable {between : Draft}

/-- Generating `code` for an assignment at `start` worked as it should. -/
structure ProducesAssignment (context : Context)
    (assignment : Assignment)
    (start : Nat)
    (code : List Quad)
    (draft left : Draft) : Prop where
  emitted : Emitted context.functions (fun _ => False) start code
    assignment.calls draft left
  laid : context.Arranged → ∀ image, left.Within image →
    Installed image start code →
    AssignCode image context assignment (draft.point start)
    (left.point (start + code.length))

/-- Generating `code` for a clause at `start` worked as it should. -/
structure ProducesClause (context : Context)
    (clause : Clause)
    (start : Nat)
    (code : List Quad)
    (draft left : Draft) : Prop where
  emitted : Emitted context.functions (fun target => start ≤ target ∧
    target ≤ start + code.length) start code clause.calls draft left
  laid : context.Arranged → ∀ image, left.Within image →
    Installed image start code →
    StmtCode image context clause (draft.point start)
    (left.point (start + code.length))

section

variable {plain context : Context} {declared : List String} {start : Nat}
variable {draft left : Draft}

theorem checkAssignment_ok
    (checked : plain.checkAssignment declared assignment = .ok ()) :
    ∃ target value, plain.targetType declared assignment.target = .ok target ∧
      plain.typeOf declared assignment.value = .ok value ∧
      target.isList = false ∧ target.accepts value = true := by
  unfold Context.checkAssignment at checked
  obtain ⟨target, checkedTarget, checked⟩ := bind_eq_ok.mp checked
  obtain ⟨value, checkedValue, checked⟩ := bind_eq_ok.mp checked
  split at checked
  · cases checked
  · rename_i fits
    simp only [Bool.or_eq_true, Bool.not_eq_true', not_or, Bool.not_eq_true,
      Bool.not_eq_false] at fits
    exact ⟨target, value, checkedTarget, checkedValue, fits.1, fits.2⟩

theorem targetType_whole (unindexed : target.index = none)
    (checked : plain.targetType declared target = .ok type) :
    plain.placeType declared target.name false target.field target.line =
      .ok type := by
  simpa only [Context.targetType, unindexed, Option.isSome_none] using checked

theorem targetType_item {index : Expr}
    (indexed : target.index = some index)
    (checked : plain.targetType declared target = .ok type) :
    ∃ indexType, plain.typeOf declared index = .ok indexType ∧
      indexType.agrees (.basic .int) = true ∧
      plain.placeType declared target.name true target.field target.line =
        .ok type := by
  simp only [Context.targetType, indexed, Option.isSome_some] at checked
  obtain ⟨indexType, checkedIndex, checked⟩ := bind_eq_ok.mp checked
  obtain ⟨_, whole, checked⟩ := bind_eq_ok.mp checked
  exact ⟨indexType, checkedIndex, checkIndex_ok whole, checked⟩

theorem emitAssignment_yields (prepared : plain.Prepared context)
    (sound : draft.Sound)
    (checked : plain.checkAssignment declared assignment = .ok ()) :
    Yields (context.emitAssignment start assignment draft) fun code left =>
      ProducesAssignment context assignment start code draft left := by
  obtain ⟨_, _, checkedTarget, checkedValue, single, accepts⟩ :=
    checkAssignment_ok checked
  unfold Context.emitAssignment
  refine (emitExpr_yields prepared assignment.value sound checkedValue).bind ?_
  rintro ⟨_, valueCode⟩ between ⟨rfl, valueNarrow, computed⟩
  cases index : assignment.target.index with
  | none =>
    refine (emitAccess_yields prepared
      (targetType_whole index checkedTarget)).bind ?_
    rintro place _ ⟨rfl, rfl, narrow, designates⟩
    refine .pure ⟨?_, fun arranged image within installed => ?_⟩
    · rw [Assignment.calls, index, Option.map_none, Option.getD_none,
        List.append_nil]
      exact computed.emitted.straight computed.emitted.sound.extends rfl
        ⟨valueNarrow, Address.narrow_unused, narrow⟩
    · obtain ⟨resolved, _, _, designated, rfl⟩ := designates arranged
      have valueLaid := computed.laid arranged image within installed.left
      have assign := installed.right.head (by simp)
      rw [List.length_append, List.length_singleton, ← Nat.add_assoc]
      exact .whole index valueLaid designated single accepts assign
  | some position =>
    obtain ⟨_, checkedIndex, whole, checkedPlace⟩ :=
      targetType_item index checkedTarget
    refine (emitExpr_yields prepared position computed.emitted.sound
      checkedIndex).bind ?_
    rintro ⟨place, indexCode⟩ afterIndex ⟨rfl, narrow, located⟩
    have stops : start + valueCode.length + indexCode.length =
        start + (valueCode ++ indexCode).length := by
      rw [List.length_append, Nat.add_assoc]
    refine (emitPointer_yields prepared located.emitted.sound
      checkedPlace whole narrow (start + (valueCode ++ indexCode).length)).bind
      ?_
    rintro ⟨⟨_, _⟩, pointerCode⟩ last ⟨resolved, rfl, rfl, _, points⟩
    refine .pure ⟨?_, fun arranged image within installed => ?_⟩
    · rw [Assignment.calls, index, Option.map_some, Option.getD_some]
      exact ((computed.emitted.append rfl located.emitted).more rfl
        points.emitted).straight points.emitted.sound.extends rfl ⟨valueNarrow,
        Address.narrow_unused, points.narrow⟩
    · have withinIndex := points.emitted.within within
      have withinValue := located.emitted.within withinIndex
      have valueLaid := computed.laid arranged image withinValue
        installed.left.left.left
      have indexLaid := located.laid arranged image withinIndex
        installed.left.left.right
      have pointerFound := points.laid arranged image installed.left.right
      have assign := installed.right.head (by simp)
      have ends : start + (valueCode ++ indexCode ++ pointerCode).length =
          start + (valueCode ++ indexCode).length + 2 := by
        rw [List.length_append, points.length, Nat.add_assoc]
      rw [ends] at assign
      rw [stops] at indexLaid
      rw [List.length_append, List.length_singleton, ← Nat.add_assoc, ends]
      exact .item index valueLaid indexLaid pointerFound single accepts assign

/-! ## Branches and loops -/

theorem checkGuard_ok {guard : Expr} {line : Nat}
    (checked : plain.checkGuard declared guard line = .ok ()) :
    ∃ type, plain.typeOf declared guard = .ok type ∧
      type.agrees (.basic .bool) = true := by
  unfold Context.checkGuard at checked
  obtain ⟨type, checkedType, checked⟩ := bind_eq_ok.mp checked
  split at checked
  · rename_i truth
    exact ⟨type, checkedType, truth⟩
  · cases checked

/-- Code that ends at a position, however that is computed. -/
theorem StmtCode.until {image : Image} {clause : Clause} {begin : Point}
    {position stop : Nat}
    (code : StmtCode image context clause begin (left.point position))
    (same : position = stop) :
    StmtCode image context clause begin (left.point stop) :=
  same ▸ code

section

variable {guard : Expr} {body : List Stmt} {line : Nat} {value : Operand}
variable {guardCode bodyCode : List Quad} {guarded : Draft}

section

variable (condition : Produces context (.value guard value) start guardCode
  draft guarded) (narrow : value.address.Narrow)
  (truth : value.type.agrees (.basic .bool) = true)
include condition narrow truth

theorem ProducesClause.branch
    (inside : ProducesClause context (.block body)
      (start + guardCode.length + 1) bodyCode guarded left) :
    ProducesClause context (.statement (.branch guard body line)) start
      (guardCode ++
        [Context.jumpUnless value (start + guardCode.length + 1 +
          bodyCode.length)] ++ bodyCode)
      draft left := by
  constructor
  · rw [Clause.calls, Stmt.calls]
    exact ((condition.emitted.mono nofun).jumpUnless narrow (by grind)).append
      (by grind) (inside.emitted.mono (by grind))
  · intro arranged image within installed
    have guardLaid := condition.laid arranged image
      (inside.emitted.within within) installed.left.left
    have skip := installed.left.right.head nofun
    have insideLaid := inside.laid arranged image within
      (installed.behind (by grind))
    refine StmtCode.until (.branch ⟨guardLaid, truth⟩ ?_ insideLaid)
      (by grind)
    exact skip

theorem ProducesClause.branchElse {otherwise : List Stmt}
    {otherwiseCode : List Quad}
    (inside : ProducesClause context (.block body)
      (start + guardCode.length + 1) bodyCode guarded between)
    (outside : ProducesClause context (.block otherwise)
      (start + guardCode.length + 1 + bodyCode.length + 1) otherwiseCode
      between left) :
    ProducesClause context (.statement (.branchElse guard body otherwise line))
      start (guardCode ++
        [Context.jumpUnless value (start + guardCode.length + 1 +
          bodyCode.length + 1)] ++
        bodyCode ++
        [Context.jump (start + guardCode.length + 1 + bodyCode.length + 1 +
          otherwiseCode.length)] ++ otherwiseCode)
      draft left := by
  constructor
  · rw [Clause.calls, Stmt.calls]
    exact ((((condition.emitted.mono nofun).jumpUnless narrow (by grind)).append
      (by grind) (inside.emitted.mono (by grind))).jump (by grind)).append
        (by grind) (outside.emitted.mono (by grind))
  · intro arranged image within installed
    have withinBetween := outside.emitted.within within
    have guardLaid := condition.laid arranged image
      (inside.emitted.within withinBetween) installed.left.left.left.left
    have skip := installed.left.left.left.right.head nofun
    have insideLaid := inside.laid arranged image withinBetween
      (installed.left.left.behind (by grind))
    have outsideLaid := outside.laid arranged image within
      (installed.behind (by grind))
    refine StmtCode.until (.branchElse ⟨guardLaid, truth⟩ ?_ insideLaid ?_
      outsideLaid) (by grind)
    · exact skip
    · exact (installed.left.behind (by grind)).head nofun

theorem ProducesClause.whileLoop
    (inside : ProducesClause context (.block body)
      (start + guardCode.length + 1) bodyCode guarded left) :
    ProducesClause context (.statement (.whileLoop guard body line)) start
      (guardCode ++
        [Context.jumpUnless value (start + guardCode.length + 1 +
          bodyCode.length + 1)] ++
        bodyCode ++ [Context.jump start])
      draft left := by
  constructor
  · rw [Clause.calls, Stmt.calls]
    exact (((condition.emitted.mono nofun).jumpUnless narrow (by grind)).append
      (by grind) (inside.emitted.mono (by grind))).jump (by grind)
  · intro arranged image within installed
    have guardLaid := condition.laid arranged image
      (inside.emitted.within within) installed.left.left.left
    have skip := installed.left.left.right.head nofun
    have insideLaid := inside.laid arranged image within
      (installed.left.behind (by grind))
    refine StmtCode.until (.whileLoop ⟨guardLaid, truth⟩ ?_ insideLaid ?_)
      (by grind)
    · exact skip
    · exact (installed.behind (by grind)).head nofun

end

theorem ProducesClause.forLoop {first step : Assignment}
    {firstCode stepCode : List Quad} {begun : Draft}
    (initially : ProducesAssignment context first start firstCode draft begun)
    (condition : Produces context (.value guard value)
      (start + firstCode.length) guardCode begun guarded)
    (narrow : value.address.Narrow)
    (truth : value.type.agrees (.basic .bool) = true)
    (inside : ProducesClause context (.block body)
      (start + firstCode.length + guardCode.length + 1) bodyCode
      guarded between)
    (advance : ProducesAssignment context step
      (start + firstCode.length + guardCode.length + 1 + bodyCode.length)
      stepCode between left) :
    ProducesClause context (.statement (.forLoop first guard step body line))
      start (firstCode ++ guardCode ++
        [Context.jumpUnless value
          (start + firstCode.length + guardCode.length + 1 + bodyCode.length +
            stepCode.length + 1)] ++
        bodyCode ++ stepCode ++ [Context.jump (start + firstCode.length)])
      draft left := by
  constructor
  · rw [Clause.calls, Stmt.calls]
    exact (((((initially.emitted.append rfl condition.emitted).mono
      nofun).jumpUnless narrow (by grind)).append (by grind)
      (inside.emitted.mono (by grind))).append (by grind)
        (advance.emitted.mono nofun)).jump (by grind)
  · intro arranged image within installed
    have withinBetween := advance.emitted.within within
    have withinGuarded := inside.emitted.within withinBetween
    have firstLaid := initially.laid arranged image
      (condition.emitted.within withinGuarded)
      installed.left.left.left.left.left
    have guardLaid := condition.laid arranged image withinGuarded
      installed.left.left.left.left.right
    have insideLaid := inside.laid arranged image withinBetween
      (installed.left.left.behind (by grind))
    have stepLaid := advance.laid arranged image within
      (installed.left.behind (by grind))
    refine StmtCode.until (.forLoop firstLaid ⟨guardLaid, truth⟩ ?_
      insideLaid stepLaid ?_) (by grind)
    · exact (installed.left.left.left.behind (by grind)).head nofun
    · exact (installed.behind (by grind)).head nofun

end

end

/-! ## Statements -/

section

variable {plain context : Context}

/-- The variables declared in some statements are in the local table. -/
def Context.Lists (context : Context) (declarations : List Declaration) :
    Prop :=
  ∀ declaration ∈ declarations, ∃ found,
    context.scope.locals.find? declaration.name = some found

theorem Context.Lists.left {first second : List Declaration}
    (lists : context.Lists (first ++ second)) :
    context.Lists first := fun declaration member =>
  lists declaration (List.mem_append_left _ member)

theorem Context.Lists.right {first second : List Declaration}
    (lists : context.Lists (first ++ second)) :
    context.Lists second := fun declaration member =>
  lists declaration (List.mem_append_right _ member)

mutual

/-- The code that is generated for a checked statement. -/
theorem emitStmt_yields (prepared : plain.Prepared context)
    {declared after : List String} {start : Nat} {draft : Draft} :
    (statement : Stmt) → context.Lists statement.declarations → draft.Sound →
      plain.checkStmt declared statement = .ok after →
      Yields (context.emitStmt start statement draft) fun code left =>
        ProducesClause context (.statement statement) start code draft left
  | .declare declaration, lists, sound, _ => by
    obtain ⟨found, known⟩ := lists declaration (by simp [Stmt.declarations])
    have inScope : context.scope.find? declaration.name = some found := by
      rw [Scope.find?, known]
      rfl
    obtain ⟨_, address, stored, roomy⟩ := prepared.stored _ found inScope
    have works : addressOf declaration.name found = .ok address := by
      rw [addressOf, stored]
    rw [Context.emitStmt, known]
    refine .lift works (.pure ⟨?_, fun arranged image within installed => ?_⟩)
    · rw [Clause.calls, Stmt.calls]
      exact (Emitted.nothing sound.extends).straight sound.extends rfl
        (narrow_initQuad roomy found.type)
    · obtain ⟨fits, other, location, hasAddress, place, region⟩ :=
        place_of_find? arranged.locals arranged.fitLocals known
      cases stored.symm.trans hasAddress
      exact .declare known stored place region fits
        (installed.head (by simp [initQuad]))
  | .assign assignment, _, sound, checked => by
    rw [Context.checkStmt] at checked
    obtain ⟨_, checkedAssignment, _⟩ := bind_eq_ok.mp checked
    rw [Context.emitStmt]
    refine (emitAssignment_yields prepared sound checkedAssignment).imp ?_
    intro code left produced
    refine ⟨?_, fun arranged image within installed =>
      .assign (produced.laid arranged image within installed)⟩
    rw [Clause.calls, Stmt.calls]
    exact produced.emitted.mono nofun
  | .branch guard body line, lists, sound, checked => by
    rw [Context.checkStmt] at checked
    obtain ⟨_, guarded, checkedBody⟩ := bind_eq_ok.mp checked
    obtain ⟨_, checkedGuard, truth⟩ := checkGuard_ok guarded
    rw [Stmt.declarations] at lists
    rw [Context.emitStmt]
    refine (emitExpr_yields prepared guard sound checkedGuard).bind ?_
    rintro ⟨value, guardCode⟩ between ⟨rfl, narrow, condition⟩
    refine (emitBlock_yields prepared body lists condition.emitted.sound
      checkedBody).bind ?_
    exact fun bodyCode left inside =>
      .pure (.branch condition narrow truth inside)
  | .branchElse guard body otherwise line, lists, sound, checked => by
    rw [Context.checkStmt] at checked
    obtain ⟨_, guarded, checked⟩ := bind_eq_ok.mp checked
    obtain ⟨_, checkedBody, checkedOtherwise⟩ := bind_eq_ok.mp checked
    obtain ⟨_, checkedGuard, truth⟩ := checkGuard_ok guarded
    rw [Stmt.declarations] at lists
    rw [Context.emitStmt]
    refine (emitExpr_yields prepared guard sound checkedGuard).bind ?_
    rintro ⟨value, guardCode⟩ between ⟨rfl, narrow, condition⟩
    refine (emitBlock_yields prepared body lists.left condition.emitted.sound
      checkedBody).bind ?_
    intro bodyCode middle inside
    refine (emitBlock_yields prepared otherwise lists.right inside.emitted.sound
      checkedOtherwise).bind ?_
    exact fun otherwiseCode left outside =>
      .pure (.branchElse condition narrow truth inside outside)
  | .whileLoop guard body line, lists, sound, checked => by
    rw [Context.checkStmt] at checked
    obtain ⟨_, guarded, checkedBody⟩ := bind_eq_ok.mp checked
    obtain ⟨_, checkedGuard, truth⟩ := checkGuard_ok guarded
    rw [Stmt.declarations] at lists
    rw [Context.emitStmt]
    refine (emitExpr_yields prepared guard sound checkedGuard).bind ?_
    rintro ⟨value, guardCode⟩ between ⟨rfl, narrow, condition⟩
    refine (emitBlock_yields prepared body lists condition.emitted.sound
      checkedBody).bind ?_
    exact fun bodyCode left inside =>
      .pure (.whileLoop condition narrow truth inside)
  | .forLoop first guard step body line, lists, sound, checked => by
    rw [Context.checkStmt] at checked
    obtain ⟨_, checkedFirst, checked⟩ := bind_eq_ok.mp checked
    obtain ⟨_, guarded, checked⟩ := bind_eq_ok.mp checked
    obtain ⟨_, checkedStep, checkedBody⟩ := bind_eq_ok.mp checked
    obtain ⟨_, checkedGuard, truth⟩ := checkGuard_ok guarded
    rw [Stmt.declarations] at lists
    rw [Context.emitStmt]
    refine (emitAssignment_yields prepared sound checkedFirst).bind ?_
    intro firstCode begun initially
    refine (emitExpr_yields prepared guard initially.emitted.sound
      checkedGuard).bind ?_
    rintro ⟨value, guardCode⟩ between ⟨rfl, narrow, condition⟩
    refine (emitBlock_yields prepared body lists condition.emitted.sound
      checkedBody).bind ?_
    intro bodyCode middle inside
    refine (emitAssignment_yields prepared inside.emitted.sound
      checkedStep).bind ?_
    exact fun stepCode left advance =>
      .pure (.forLoop initially condition narrow truth inside advance)
  | .write value line, _, sound, checked => by
    rw [Context.checkStmt] at checked
    obtain ⟨_, written, _⟩ := bind_eq_ok.mp checked
    unfold Context.checkWrite at written
    obtain ⟨_, checkedValue, written⟩ := bind_eq_ok.mp written
    split at written
    · cases written
    · rename_i printable
      rw [Context.emitStmt]
      refine (emitExpr_yields prepared value sound checkedValue).bind ?_
      rintro ⟨printed, valueCode⟩ left ⟨rfl, narrow, computed⟩
      refine .pure ⟨?_, fun arranged image within installed => ?_⟩
      · rw [Clause.calls, Stmt.calls]
        exact (computed.emitted.mono nofun).straight
          computed.emitted.sound.extends rfl ⟨Address.narrow_unused,
            Address.narrow_unused, narrow⟩
      · have valueLaid := computed.laid arranged image within installed.left
        have print := installed.right.head (by simp)
        rw [List.length_append, ← Nat.add_assoc]
        exact .write valueLaid (by simpa using printable) print
  | .ret none line, _, sound, checked => by
    rw [Context.checkStmt] at checked
    obtain ⟨_, returned, _⟩ := bind_eq_ok.mp checked
    simp only [Context.checkReturn] at returned
    split at returned
    · rename_i nothing
      rw [← prepared.returns] at nothing
      rw [Context.emitStmt]
      refine .pure ⟨?_, fun arranged image within installed =>
        .leave nothing (installed.head (by simp))⟩
      rw [Clause.calls, Stmt.calls, Option.map_none, Option.getD_none]
      exact (Emitted.nothing sound.extends).straight sound.extends rfl
        ⟨Address.narrow_unused, Address.narrow_unused, Address.narrow_unused⟩
    · cases returned
  | .ret (some value) line, _, sound, checked => by
    rw [Context.checkStmt] at checked
    obtain ⟨_, returned, _⟩ := bind_eq_ok.mp checked
    unfold Context.checkReturn at returned
    obtain ⟨_, checkedValue, returned⟩ := bind_eq_ok.mp returned
    split at returned
    · cases returned
    · rename_i fits
      simp only [Bool.or_eq_true, Bool.not_eq_true', not_or, Bool.not_eq_true,
        Bool.not_eq_false, ← prepared.returns] at fits
      rw [Context.emitStmt]
      refine (emitExpr_yields prepared value sound checkedValue).bind ?_
      rintro ⟨operand, valueCode⟩ left ⟨rfl, narrow, computed⟩
      refine .pure ⟨?_, fun arranged image within installed => ?_⟩
      · rw [Clause.calls, Stmt.calls, Option.map_some, Option.getD_some]
        exact (computed.emitted.mono nofun).straight
          computed.emitted.sound.extends rfl ⟨Address.narrow_unused,
            Address.narrow_unused, narrow⟩
      · have valueLaid := computed.laid arranged image within installed.left
        have ret := installed.right.head (by simp)
        rw [List.length_append, ← Nat.add_assoc]
        exact .ret valueLaid fits.1 fits.2 ret
  | .call name arguments line, _, sound, checked => by
    rw [Context.checkStmt] at checked
    obtain ⟨types, checkedTypes, checked⟩ := bind_eq_ok.mp checked
    obtain ⟨type, checkedCall, _⟩ := bind_eq_ok.mp checked
    have checkedExpr : plain.typeOf declared (.call name arguments line) =
        .ok type := by
      rw [Context.typeOf, checkedTypes]
      exact checkedCall
    rw [Context.emitStmt]
    refine (emitExpr_yields prepared (.call name arguments line) sound
      checkedExpr).bind ?_
    rintro ⟨operand, code⟩ left ⟨_, _, computed⟩
    refine .pure ⟨?_, fun arranged image within installed =>
      .call (computed.laid arranged image within installed)⟩
    rw [Clause.calls, Stmt.calls]
    exact computed.emitted.mono nofun

theorem emitBlock_yields (prepared : plain.Prepared context)
    {declared after : List String} {start : Nat} {draft : Draft} :
    (statements : List Stmt) → context.Lists (declarationsOf statements) →
      draft.Sound → plain.checkBlock declared statements = .ok after →
      Yields (context.emitBlock start statements draft) fun code left =>
        ProducesClause context (.block statements) start code draft left
  | [], _, sound, _ => by
    rw [Context.emitBlock]
    refine .pure ⟨?_, fun arranged image within installed => .nil⟩
    rw [Clause.calls, callsIn]
    exact .nothing sound.extends
  | statement :: rest, lists, sound, checked => by
    rw [Context.checkBlock] at checked
    obtain ⟨_, checkedFirst, checkedRest⟩ := bind_eq_ok.mp checked
    rw [declarationsOf] at lists
    rw [Context.emitBlock]
    refine (emitStmt_yields prepared statement lists.left sound
      checkedFirst).bind ?_
    intro firstCode between first
    refine (emitBlock_yields prepared rest lists.right first.emitted.sound
      checkedRest).bind ?_
    intro restCode left others
    refine .pure ⟨?_, fun arranged image within installed => ?_⟩
    · rw [Clause.calls, callsIn, List.length_append]
      exact (first.emitted.mono fun _ _ => by omega).append rfl
        (others.emitted.mono fun _ _ => by omega)
    · have firstLaid := first.laid arranged image (others.emitted.within within)
        installed.left
      have restLaid := others.laid arranged image within installed.right
      rw [List.length_append, ← Nat.add_assoc]
      exact .cons firstLaid restLaid

end

end

end Easel
