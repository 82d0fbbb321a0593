import Easel.Proofs.Success

/-!
# Code with its jumps in place

The generator writes the jumps of branches and loops with open targets, keeps
their positions on a stack and fills them in later.  Here a piece of code is
generated for the position at which it stands, with the targets of its jumps
computed at once, and the two ways are shown to be equal.  So a statement
leaves the stack as it was, the stack never runs empty, every jump is filled
in once, and no jump is open in the end.
-/

namespace Easel

variable {value : Address}

/-! ## Targets computed at once -/

namespace Context

/--
A jump to a position if a truth value is false.  The position is not cut to 32
bits, which changes nothing up to `2 ^ 31` quadruples.
-/
def jumpUnless (value : Operand) (target : Nat) : Quad :=
  ⟨.gotoFalse, value.address, .unused, target⟩

mutual

/-- The code for a statement that stands at position `start`. -/
def emitStmt (context : Context) (start : Nat) : Stmt → Gen (List Quad)
  | .declare declaration =>
    match context.scope.locals.find? declaration.name with
    | none => throw (.undeclared declaration.name declaration.line)
    | some found => do
      let address ← addressOf declaration.name found
      return [initQuad address found.type]
  | .assign assignment => context.emitAssignment start assignment
  | .branch guard body _ => do
    let (value, guardCode) ← context.emitExpr start guard
    let bodyStart := start + guardCode.length + 1
    let bodyCode ← context.emitBlock bodyStart body
    return guardCode ++
      [jumpUnless value (bodyStart + bodyCode.length)] ++ bodyCode
  | .branchElse guard body otherwise _ => do
    let (value, guardCode) ← context.emitExpr start guard
    let bodyStart := start + guardCode.length + 1
    let bodyCode ← context.emitBlock bodyStart body
    let otherwiseStart := bodyStart + bodyCode.length + 1
    let otherwiseCode ← context.emitBlock otherwiseStart otherwise
    return guardCode ++ [jumpUnless value otherwiseStart] ++ bodyCode ++
      [jump (otherwiseStart + otherwiseCode.length)] ++ otherwiseCode
  | .whileLoop guard body _ => do
    let (value, guardCode) ← context.emitExpr start guard
    let bodyStart := start + guardCode.length + 1
    let bodyCode ← context.emitBlock bodyStart body
    return guardCode ++
      [jumpUnless value (bodyStart + bodyCode.length + 1)] ++ bodyCode ++
      [jump start]
  | .forLoop first guard step body _ => do
    let firstCode ← context.emitAssignment start first
    let guardStart := start + firstCode.length
    let (value, guardCode) ← context.emitExpr guardStart guard
    let bodyStart := guardStart + guardCode.length + 1
    let bodyCode ← context.emitBlock bodyStart body
    let stepCode ← context.emitAssignment (bodyStart + bodyCode.length) step
    return firstCode ++ guardCode ++
      [jumpUnless value
        (bodyStart + bodyCode.length + stepCode.length + 1)] ++
      bodyCode ++ stepCode ++ [jump guardStart]
  | .write value _ => do
    let (printed, code) ← context.emitExpr start value
    return code ++ [⟨.print, .unused, .unused, printed.address⟩]
  | .ret none _ => return [⟨.ret, .unused, .unused, .unused⟩]
  | .ret (some value) _ => do
    let (returned, code) ← context.emitExpr start value
    return code ++ [⟨.ret, .unused, .unused, returned.address⟩]
  | .call name arguments line => do
    let (_, code) ← context.emitExpr start (.call name arguments line)
    return code

def emitBlock (context : Context) (start : Nat) : List Stmt → Gen (List Quad)
  | [] => return []
  | statement :: rest => do
    let code ← context.emitStmt start statement
    let others ← context.emitBlock (start + code.length) rest
    return code ++ others

end

end Context

/-- The code for a function that stands at position `start`. -/
def emitFunction (functions : Table Routine)
    (globals : Table Variable)
    (start : Nat)
    (function : Function) : Gen (List Quad) :=
  match functions.find? function.name with
  | none => throw (.generation (.missingFunction function.name))
  | some routine => do
    modify fun draft => { draft with space := draft.space.reset .temp }
    let context : Context :=
      ⟨functions, ⟨routine.locals, globals⟩, routine.returns⟩
    let code ← context.emitBlock start function.body
    let zero := (← get).space.zeroAddress routine.returns
    return code ++ [⟨.ret, .unused, .unused, zero⟩]

/-- The code for all functions from `start` on, and the position of each. -/
def emitFunctions (functions : Table Routine)
    (globals : Table Variable)
    (start : Nat) : List Function → Gen (List Quad × List (String × Nat))
  | [] => return ([], [])
  | function :: rest => do
    let code ← emitFunction functions globals start function
    let (others, entries) ←
      emitFunctions functions globals (start + code.length) rest
    return (code ++ others, (function.name, start) :: entries)

/-- The code of a program whose storage is laid out. -/
def Checked.emit (checked : Checked) : Gen (List Quad × Table Routine) := do
  let globalCode ← emitGlobals checked.globals.entries
  Gen.link globalCode.length .result checked.entry
  let (functionCode, entries) ←
    emitFunctions checked.functions checked.globals (globalCode.length + 1)
      checked.program.functions
  return (
    globalCode ++ [⟨.goto, .unused, .unused, .unused⟩] ++ functionCode,
    setEntries checked.functions entries)

/-! ## One step of the generator -/

/-- A sheet after more was generated, with the jumps that wait then. -/
def Sheet.grown (sheet : Sheet)
    (draft : Draft)
    (code : List Quad)
    (jumps : List Nat) : Sheet :=
  { toDraft := draft, code := sheet.code ++ code.toArray, jumps := jumps }

theorem Sheet.grown_size (sheet : Sheet)
    (draft : Draft)
    (code : List Quad)
    (jumps : List Nat) :
    (sheet.grown draft code jumps).code.size =
      sheet.code.size + code.length := by
  simp [grown]

/-- A field that is still unused is filled in. -/
theorem patch_of_unused {index : Nat} {field : Field} {quad : Quad}
    {code : Array Quad}
    (found : code[index]? = some quad)
    (waits : quad.get field = .unused) :
    patch index field value code =
      .ok () (code.setIfInBounds index (quad.set field value)) := by
  change (get >>= _ : Patching Unit) code = _
  simp only [bind, EStateM.bind, get_run, found, waits, if_true, set_run]

namespace Build

variable {α : Type} {sheet : Sheet} {draft : Draft} {code : List Quad}
variable {jumps : List Nat}

theorem piece_apply (generate : Nat → Gen (α × List Quad)) :
    piece generate (sheet.grown draft code jumps) =
      generate (sheet.code.size + code.length) draft >>= fun result =>
        pure (result.1.1,
          sheet.grown result.2 (code ++ result.1.2) jumps) := by
  unfold piece
  rw [Threaded.get_bind, Sheet.grown_size]
  change (liftM (generate _ draft) >>= _ : Build α) _ = _
  cases generate (sheet.code.size + code.length) draft with
  | error fault => rfl
  | ok result =>
    change Except.ok _ = Except.ok _
    simp [Sheet.grown]

theorem lay_apply (generate : Nat → Gen (List Quad)) :
    lay generate (sheet.grown draft code jumps) =
      generate (sheet.code.size + code.length) draft >>= fun result =>
        pure ((), sheet.grown result.2 (code ++ result.1) jumps) := by
  rw [lay, piece_apply, Threaded.bind_apply, bind_assoc]
  rfl

theorem append_apply (quad : Quad) :
    append quad (sheet.grown draft code jumps) =
      pure ((), sheet.grown draft (code ++ [quad]) jumps) := by
  change Except.ok _ = Except.ok _
  simp [Sheet.grown]

theorem push_apply (site : Nat) :
    push site (sheet.grown draft code jumps) =
      pure ((), sheet.grown draft code (site :: jumps)) :=
  rfl

theorem here_apply :
    here (sheet.grown draft code jumps) =
      pure (sheet.code.size + code.length,
        sheet.grown draft code jumps) := by
  rw [← Sheet.grown_size]
  rfl

theorem wait_apply (operation : Operation) (value : Address) :
    wait operation value (sheet.grown draft code jumps) =
      pure ((), sheet.grown draft (code ++ [openJump operation value])
        ((sheet.code.size + code.length) :: jumps)) := by
  simp only [wait, Threaded.bind_apply, here_apply, append_apply, push_apply,
    pure_bind]

theorem link_apply (field : Field) (target : String) :
    link field target (sheet.grown draft code jumps) =
      Gen.link (sheet.code.size + code.length) field target draft >>=
        fun result => pure ((), sheet.grown result.2 code jumps) := by
  rw [← Sheet.grown_size]
  rfl

theorem pop_apply (site : Nat) :
    pop (sheet.grown draft code (site :: jumps)) =
      pure (site, sheet.grown draft code jumps) :=
  rfl

theorem fill_apply {site : Nat} {before after : List Quad}
    {operation : Operation}
    (here : site = sheet.code.size + before.length)
    (split : code = before ++ [openJump operation value] ++ after) :
    fill site (sheet.grown draft code jumps) =
      pure ((), sheet.grown draft (before ++ [⟨operation, value, .unused,
        (sheet.code.size + code.length : Nat)⟩] ++ after) jumps) := by
  have found : (sheet.code ++ code.toArray)[site]? =
      some (openJump operation value) := by
    simp [split, here]
  unfold fill
  rw [Threaded.get_bind, Sheet.grown_size]
  dsimp only [Sheet.grown]
  rw [patch_of_unused found rfl]
  change Except.ok _ = Except.ok _
  simp [split, here, Array.setIfInBounds_append_right, Quad.set, openJump]

/-- What appends a piece of code and leaves the jumps as they were. -/
theorem eq_lay {action : Build Unit} {generate : Nat → Gen (List Quad)}
    (runs : ∀ sheet : Sheet,
      action (sheet.grown sheet.toDraft [] sheet.jumps) =
        generate sheet.code.size sheet.toDraft >>= fun result =>
          pure ((), sheet.grown result.2 result.1 sheet.jumps)) :
    action = lay generate := by
  funext sheet
  have same : sheet.grown sheet.toDraft [] sheet.jumps = sheet := by
    simp [Sheet.grown]
  have whole := @lay_apply sheet sheet.toDraft [] sheet.jumps generate
  rw [same] at whole
  exact (same ▸ runs sheet).trans whole.symm

theorem append_eq (quad : Quad) : append quad = lay fun _ => return [quad] :=
  eq_lay fun _ => append_apply quad

theorem lay_lay (first second : Nat → Gen (List Quad)) :
    (do lay first; lay second) = lay fun start => do
      let code ← first start
      let others ← second (start + code.length)
      return code ++ others := by
  refine eq_lay fun sheet => ?_
  simp only [Threaded.bind_apply, lay_apply, bind_assoc, pure_bind,
    List.nil_append, List.length_nil, Nat.add_zero]
  rfl

theorem piece_append (first : Nat → Gen (α × List Quad)) (quad : α → Quad) :
    (do append (quad (← piece first))) = lay fun start => do
      let (value, code) ← first start
      return code ++ [quad value] := by
  refine eq_lay fun sheet => ?_
  simp only [Threaded.bind_apply, piece_apply, append_apply, bind_assoc,
    pure_bind, List.nil_append, List.length_nil, Nat.add_zero]
  rfl

end Build

/-! ## Statements -/

section

variable {context : Context} {body otherwise : List Stmt}
variable (inner : context.buildBlock body =
  Build.lay (context.emitBlock · body))

include inner in
theorem buildStmt_branch (guard : Expr) (line : Nat) :
    context.buildStmt (.branch guard body line) =
      Build.lay (context.emitStmt · (.branch guard body line)) := by
  refine Build.eq_lay fun sheet => ?_
  simp only [Context.buildStmt, Context.emitStmt, Context.buildGuard, inner,
    Threaded.bind_apply, Build.piece_apply, Build.lay_apply,
    Build.wait_apply, Build.pop_apply, bind_assoc, pure_bind,
    List.nil_append, List.length_append, List.length_singleton,
    List.length_nil, Nat.add_zero, ← Nat.add_assoc]
  refine bind_congr fun ⟨⟨value, guardCode⟩, guarded⟩ =>
    bind_congr fun ⟨bodyCode, left⟩ => ?_
  dsimp only
  rw [Build.fill_apply rfl rfl]
  simp only [List.length_append, List.length_singleton, ← Nat.add_assoc]
  rfl

include inner in
/-- The first jump is filled in while the second waits above it. -/
theorem buildStmt_branchElse (guard : Expr)
    (line : Nat)
    (outer : context.buildBlock otherwise =
      Build.lay (context.emitBlock · otherwise)) :
    context.buildStmt (.branchElse guard body otherwise line) =
      Build.lay (context.emitStmt ·
        (.branchElse guard body otherwise line)) := by
  refine Build.eq_lay fun sheet => ?_
  simp only [Context.buildStmt, Context.emitStmt, Context.buildGuard, inner,
    outer, Threaded.bind_apply, Build.piece_apply, Build.lay_apply,
    Build.wait_apply, Build.pop_apply, bind_assoc, pure_bind,
    List.nil_append, List.length_append, List.length_singleton,
    List.length_nil, Nat.add_zero, ← Nat.add_assoc]
  refine bind_congr fun ⟨⟨value, guardCode⟩, guarded⟩ =>
    bind_congr fun ⟨bodyCode, between⟩ => ?_
  dsimp only
  rw [Build.fill_apply rfl (List.append_assoc _ _ _)]
  simp only [Build.lay_apply, Build.pop_apply, bind_assoc, pure_bind,
    List.length_append, List.length_singleton, ← Nat.add_assoc,
    ← List.append_assoc]
  refine bind_congr fun ⟨otherwiseCode, left⟩ => ?_
  dsimp only
  have here : sheet.code.size + guardCode.length + 1 + bodyCode.length =
      sheet.code.size + (guardCode ++ [Context.jumpUnless value
        (sheet.code.size + guardCode.length + 1 + bodyCode.length + 1)] ++
        bodyCode).length := by
    simp only [List.length_append, List.length_singleton, Nat.add_assoc]
  refine (Build.fill_apply here rfl).trans ?_
  simp only [List.length_append, List.length_singleton, ← Nat.add_assoc]
  rfl

theorem buildLoop_eq (guard : Expr) (inside : Nat → Gen (List Quad)) :
    context.buildLoop guard (Build.lay inside) = Build.lay fun start => do
      let (value, guardCode) ← context.emitExpr start guard
      let bodyStart := start + guardCode.length + 1
      let code ← inside bodyStart
      return guardCode ++
        [Context.jumpUnless value (bodyStart + code.length + 1)] ++ code ++
        [Context.jump start] := by
  refine Build.eq_lay fun sheet => ?_
  simp only [Context.buildLoop, Context.buildGuard, Threaded.bind_apply,
    Build.piece_apply, Build.lay_apply, Build.append_apply, Build.wait_apply,
    Build.push_apply, Build.pop_apply, Build.here_apply, bind_assoc,
    pure_bind, List.nil_append, List.length_append, List.length_singleton,
    List.length_nil, Nat.add_zero, ← Nat.add_assoc]
  refine bind_congr fun ⟨⟨value, guardCode⟩, guarded⟩ =>
    bind_congr fun ⟨code, left⟩ => ?_
  dsimp only
  rw [Build.fill_apply rfl (List.append_assoc _ _ _)]
  simp only [List.length_append, List.length_singleton, ← Nat.add_assoc,
    ← List.append_assoc]
  rfl

end

mutual

/-- Filling in jumps gives the code in which they are in place. -/
theorem buildStmt_eq (context : Context) : (statement : Stmt) →
    context.buildStmt statement = Build.lay (context.emitStmt · statement)
  | .declare declaration => by
    unfold Context.buildStmt Context.emitStmt
    cases context.scope.locals.find? declaration.name with
    | none => rfl
    | some found =>
      dsimp only
      cases addressOf declaration.name found with
      | error fault => rfl
      | ok address => exact Build.append_eq _
  | .assign assignment => by
    unfold Context.buildStmt Context.emitStmt
    rfl
  | .branch guard body line =>
    buildStmt_branch (buildBlock_eq context body) guard line
  | .branchElse guard body otherwise line =>
    buildStmt_branchElse (buildBlock_eq context body) guard line
      (buildBlock_eq context otherwise)
  | .whileLoop guard body line => by
    unfold Context.buildStmt Context.emitStmt
    rw [buildBlock_eq context body, buildLoop_eq]
  | .forLoop first guard step body line => by
    unfold Context.buildStmt Context.emitStmt Context.buildAssignment
    rw [buildBlock_eq context body, Build.lay_lay, buildLoop_eq,
      Build.lay_lay]
    simp only [bind_assoc, pure_bind, List.length_append,
      ← List.append_assoc, ← Nat.add_assoc]
  | .write value line => by
    unfold Context.buildStmt Context.emitStmt
    rw [Build.piece_append]
  | .ret none line => by
    unfold Context.buildStmt Context.emitStmt
    exact Build.append_eq _
  | .ret (some value) line => by
    unfold Context.buildStmt Context.emitStmt
    rw [Build.piece_append]
  | .call name arguments line => by
    unfold Context.buildStmt Context.emitStmt
    refine Build.eq_lay fun sheet => ?_
    simp only [bind_assoc, Threaded.bind_apply, Build.piece_apply,
      pure_bind]
    rfl

theorem buildBlock_eq (context : Context) : (statements : List Stmt) →
    context.buildBlock statements =
      Build.lay (context.emitBlock · statements)
  | [] => by
    unfold Context.buildBlock Context.emitBlock
    exact Build.eq_lay fun sheet => rfl
  | statement :: rest => by
    unfold Context.buildBlock Context.emitBlock
    rw [buildStmt_eq context statement, buildBlock_eq context rest,
      Build.lay_lay]

end

section

variable (functions : Table Routine) (globals : Table Variable)

theorem buildFunction_eq (function : Function) :
    buildFunction functions globals function =
      Build.lay (emitFunction functions globals · function) := by
  unfold buildFunction emitFunction
  cases functions.find? function.name with
  | none => rfl
  | some routine =>
    refine Build.eq_lay fun sheet => ?_
    dsimp only
    rw [Threaded.modify_bind, Threaded.modify_bind, buildBlock_eq]
    change (Build.lay _ >>= _ : Build Unit) (sheet.grown
      ⟨sheet.space.reset .temp, sheet.links⟩ [] sheet.jumps) = _
    simp only [Threaded.bind_apply, Build.lay_apply, bind_assoc, pure_bind,
      List.nil_append, List.length_nil, Nat.add_zero]
    refine bind_congr fun ⟨code, left⟩ => ?_
    exact Build.append_apply _

theorem buildFunctions_apply (all : List Function) {sheet : Sheet}
    {draft : Draft} {code : List Quad} {jumps : List Nat} :
    buildFunctions functions globals all (sheet.grown draft code jumps) =
      emitFunctions functions globals (sheet.code.size + code.length) all
          draft >>= fun result =>
        pure (result.1.2,
          sheet.grown result.2 (code ++ result.1.1) jumps) := by
  induction all generalizing draft code with
  | nil =>
    rw [buildFunctions, emitFunctions]
    simp [Threaded.pure_apply]
  | cons function rest ih =>
    rw [buildFunctions, emitFunctions]
    simp only [Threaded.bind_apply, Threaded.pure_apply, Build.here_apply,
      Build.lay_apply, buildFunction_eq, ih, bind_assoc, pure_bind,
      List.length_append, ← Nat.add_assoc, List.append_assoc]

end

theorem Checked.build_apply (checked : Checked) (space : Space) :
    checked.build (.blank space) =
      checked.emit ⟨space, []⟩ >>= fun result =>
        pure (result.1.2,
          (Sheet.blank space).grown result.2 result.1.1 []) := by
  have empty : (Sheet.blank space).code.size = 0 := rfl
  change checked.build ((Sheet.blank space).grown ⟨space, []⟩ [] []) = _
  unfold Checked.build Checked.emit
  simp only [Threaded.bind_apply, Threaded.pure_apply, Build.lay_apply,
    Build.link_apply, Build.append_apply, buildFunctions_apply, bind_assoc,
    pure_bind, List.nil_append, List.length_append, List.length_singleton,
    empty, Nat.zero_add]
  rfl

/-- Generation fills in every jump, and no jump waits in the end. -/
theorem Checked.generateIn_eq (checked : Checked) (space : Space) :
    checked.generateIn space = (do
      let (placed, space) ← checked.place.run space
      let ((code, functions), draft) ← placed.emit.run ⟨space, []⟩
      match resolveLinks (entryOf functions) draft.links code.toArray with
      | .ok _ linked => return ⟨linked, draft.space.constants⟩
      | .error fault _ => .error fault) := by
  unfold Checked.generateIn
  refine bind_congr fun ⟨placed, left⟩ => ?_
  dsimp only [StateT.run]
  rw [Checked.build_apply, bind_assoc]
  refine bind_congr fun ⟨⟨code, functions⟩, draft⟩ => ?_
  simp only [pure_bind, Sheet.grown, Sheet.blank, Array.empty_append]
  cases resolveLinks (entryOf functions) draft.links code.toArray with
  | ok _ linked => rfl
  | error fault _ => rfl

end Easel
