import Easel.Proofs.Code.Visits
import Easel.Proofs.Program.Declarable

/-!
# Checking and generation agree

A program that passes the checks is generated, unless a segment is exhausted.
Generation computes the type of every expression a second time, from the types
of the operands that it has generated; it finds the type that the checker
found, and the operand lies in a slot of that type.
-/

namespace Easel

variable {context : Context} {operand : Operand}

/-- Code in which no call waits for a position any more. -/
def Quad.settled (quad : Quad) : Quad :=
  if quad.operation = .call then { quad with left := .unused } else quad

/-- Some image has a piece of code at its position. -/
theorem exists_installed (left : Draft) (start : Nat) (code : List Quad) :
    ∃ image, left.Within image ∧ Installed image start code := by
  let image : Image :=
    ⟨(List.replicate start default ++ code.map Quad.settled).toArray,
      left.space.constants, left.links, fun _ => some .unused⟩
  have has : ∀ (index : Nat) (quad : Quad), code[index]? = some quad →
      image.Has (start + index) quad.settled := by
    intro index quad found
    change (List.replicate start default ++ code.map
      Quad.settled).toArray[start + index]? = some quad.settled
    rw [List.getElem?_toArray, List.getElem?_append_right (by simp),
      List.length_replicate, Nat.add_sub_cancel_left, List.getElem?_map, found,
      Option.map_some]
  refine ⟨image, ⟨fun _ => id, fun _ => id⟩, ?_, ?_⟩
  · intro index quad found plain
    have placed := has index quad found
    rwa [Quad.settled, if_neg plain] at placed
  · intro index quad found isCall link _ _
    have placed := has index quad found
    rw [Quad.settled, if_pos isCall] at placed
    exact ⟨.unused, rfl, placed⟩

theorem Space.Fresh.absent_of_isVoid {before after : Element → Nat} {type : Ty}
    {address : Address}
    (fresh : Space.Fresh before type address after)
    (isVoid : type.isVoid = true) :
    address = .unused := by
  cases fresh with
  | absent _ => rfl
  | slots stored _ =>
    rw [isVoid] at stored
    cases stored

/-- An expression without a value has no address. -/
theorem ExprCode.absent {image : Image} {expression : Expr} {start stop : Point}
    (code : ExprCode image context (.value expression operand) start stop)
    (isVoid : operand.type.isVoid = true) :
    operand.address = .unused := by
  generalize same : Phrase.value expression operand = phrase at code
  induction code generalizing expression with
  | literal known place =>
    cases same
    rw [place.stored] at isVoid
    cases isVoid
  | access designates =>
    cases same
    obtain ⟨_, place, _⟩ := designates.whole
    rw [place.stored] at isVoid
    cases isVoid
  | item _ _ fresh | builtin _ _ _ fresh | call _ _ _ _ _ fresh
  | not _ _ fresh | binary _ _ _ fresh =>
    cases same
    exact fresh.absent_of_isVoid isVoid
  | group computed induction =>
    cases same
    exact induction rfl
  | _ => cases same

/-- The value of an expression lies in a slot of its type, if anywhere. -/
theorem Produces.located {expression : Expr} {start : Nat} {code : List Quad}
    {draft left : Draft}
    (produces : Produces context (.value expression operand) start
      code draft left)
    (arranged : context.Arranged)
    (sound : draft.Sound)
    (present : operand.address ≠ .unused) :
    ∃ location, locate? operand.address = some location ∧
      location.kind = operand.type.element := by
  obtain ⟨image, within, installed⟩ := exists_installed left start code
  have laid := produces.laid arranged image within installed
  have aligned : (draft.point start).Aligned := sound.temps.aligned
  rcases (laid.placed arranged.singleReturns aligned).2 with isVoid
    | ⟨location, place⟩
  · exact absurd (laid.absent isVoid) present
  · exact ⟨location, place.located, place.kind⟩

/-! ## The expressions of functions -/

/--
An expression for which code is generated, with the tables of its function in
which it was checked and those in which its code is generated.
-/
structure Occurrence where
  checking : Context
  generating : Context
  visit : Visit

namespace Occurrence

def expression (occurrence : Occurrence) : Expr :=
  occurrence.visit.expression

def generated (occurrence : Occurrence) :
    Except CompileError ((Operand × List Quad) × Draft) :=
  occurrence.generating.emitExpr occurrence.visit.start occurrence.expression
    occurrence.visit.draft

/--
The checker found a type for the expression; if code is generated for it, its
operand has that type and lies in a slot of that type, if it has an address.
-/
def Agrees (occurrence : Occurrence) : Prop :=
  (∃ declared type,
    occurrence.checking.typeOf declared occurrence.expression = .ok type) ∧
    ∀ declared type operand code left,
      occurrence.checking.typeOf declared occurrence.expression = .ok type →
        occurrence.generated = .ok ((operand, code), left) →
          operand.type = type ∧
            (operand.address ≠ .unused → ∃ location,
              locate? operand.address = some location ∧
              location.kind = type.element)

def emission (occurrence : Occurrence) : Emission :=
  occurrence.visit.emission occurrence.generating

end Occurrence

/-- An occurrence of a checked expression, in tables that are in order. -/
structure Occurrence.Proper (countable : Prop) (occurrence : Occurrence) :
    Prop where
  visit : occurrence.visit.Proper occurrence.checking
  prepared : occurrence.checking.Prepared occurrence.generating
  arranged : countable → occurrence.generating.Arranged

theorem Occurrence.Proper.agrees {countable : Prop} {occurrence : Occurrence}
    (proper : occurrence.Proper countable)
    (all : countable) :
    occurrence.Agrees := by
  refine ⟨proper.visit.checked, ?_⟩
  intro declared type operand code left checked generated
  obtain ⟨rfl, _, produces⟩ :=
    (emitExpr_yields proper.prepared _ proper.visit.sound checked).works _ _
      generated
  exact ⟨rfl, produces.located (proper.arranged all) proper.visit.sound⟩

namespace Checked

/-- The expressions of a function with code at a position, in a draft. -/
def occurrencesIn (checked placed : Checked)
    (start : Nat)
    (draft : Draft)
    (function : Function) : List Occurrence :=
  match checked.functions.find? function.name, placed.functions.find?
    function.name with
  | some plain, some routine =>
    ((routine.context placed.functions placed.globals).visitsOfBlock start
      { draft with space := draft.space.reset .temp } function.body).map
      fun visit =>
        ⟨plain.context checked.functions checked.globals,
          routine.context placed.functions placed.globals, visit⟩
  | _, _ => []

/-- The expressions of functions for which code is generated. -/
def occurrencesFrom (checked placed : Checked) (start : Nat) (draft : Draft) :
    List Function → List Occurrence
  | [] => []
  | function :: rest =>
    checked.occurrencesIn placed start draft function ++
      following
      (emitFunction placed.functions placed.globals start function draft)
        fun code between =>
        checked.occurrencesFrom placed (start + code.length) between rest

/-- The expressions of a program for which code is generated, in order. -/
def occurrences (checked : Checked) : List Occurrence :=
  match checked.place.run .fresh with
  | .error _ => []
  | .ok (placed, space) =>
    match emitGlobals placed.globals.entries with
    | .error _ => []
    | .ok globalCode =>
      checked.occurrencesFrom placed (globalCode.length + 1)
        ⟨space, [⟨globalCode.length, .result, placed.entry⟩]⟩
        placed.program.functions

end Checked

section

variable {checked placed : Checked} {start : Nat} {draft : Draft}
  {countable : Prop}
variable (arranged : countable →
  ∀ name routine, placed.functions.find? name = some routine →
  (routine.context placed.functions placed.globals).Arranged)

/--
Expressions of functions occur in tables that are in order; they are all of
them if the functions were generated.
-/
structure Covers {α : Type}
    (countable : Prop)
    (draft : Draft)
    (generated : Except CompileError (α × Draft))
    (occurrences : List Occurrence)
    (parts : List Expr) : Prop where
  proper : ∀ occurrence ∈ occurrences, occurrence.Proper countable
  complete : ∀ value left, generated = .ok (value, left) →
    Completes draft left (occurrences.map Occurrence.emission) parts

include arranged

theorem occurrencesIn_cover {function : Function}
    (ready : checked.Ready placed)
    (lists : checked.Lists placed function)
    (sound : draft.Sound)
    (bodyChecked : checkFunction checked.functions checked.globals function =
      .ok ()) :
    Covers countable draft
      (emitFunction placed.functions placed.globals start function draft)
      (checked.occurrencesIn placed start draft function)
      (partsIn function.body) := by
  obtain ⟨plain, routine, known, found, declared⟩ := lists
  simp only [checkFunction, known] at bodyChecked
  obtain ⟨_, checkedBody, _⟩ := bind_eq_ok.mp bodyChecked
  have prepared := ready function.name plain routine known found
  have surveys (start : Nat) := @visitsOfBlock_survey _ _ prepared _ _ start _
    function.body declared sound.reset.sound checkedBody
  unfold Checked.occurrencesIn emitFunction
  rw [known, found]
  constructor
  · intro occurrence member
    obtain ⟨visit, visited, rfl⟩ := List.mem_map.mp member
    exact ⟨(surveys start).proper visit visited, prepared, fun all =>
      arranged all function.name routine found⟩
  · intro code left ran
    dsimp only at ran ⊢
    rw [Threaded.modify_bind] at ran
    obtain ⟨bodyCode, _, emitted, ran⟩ := Threaded.bind_eq_ok.mp ran
    cases ran
    have completes := (surveys start).complete bodyCode left emitted
    rw [List.map_map]
    exact ⟨completes.expressions, completes.kept, completes.grown,
      completes.stored⟩

theorem occurrencesFrom_cover {programFunctions : List Function}
    (ready : checked.Ready placed)
    (lists : ∀ function ∈ programFunctions, checked.Lists placed function)
    (sound : draft.Sound)
    (grown : Space.fresh.constants <+: draft.space.constants)
    (bodiesChecked : ∀ function ∈ programFunctions,
      checkFunction checked.functions checked.globals function = .ok ()) :
    Covers countable draft
      (emitFunctions placed.functions placed.globals start
        programFunctions draft)
      (checked.occurrencesFrom placed start draft programFunctions)
      (programFunctions.flatMap fun function => partsIn function.body) := by
  induction programFunctions generalizing start draft with
  | nil =>
    refine ⟨List.forall_mem_nil _, ?_⟩
    rintro _ left ⟨⟩
    exact .nothing rfl
  | cons function others ih =>
    obtain ⟨listsFirst, listsOthers⟩ := List.forall_mem_cons.mp lists
    obtain ⟨checkedFirst, checkedOthers⟩ :=
      List.forall_mem_cons.mp bodiesChecked
    have first : Covers countable draft _
        (checked.occurrencesIn placed start draft function) _ :=
      occurrencesIn_cover arranged ready listsFirst sound checkedFirst
    have rest {code : List Quad} {between : Draft}
        (ran : emitFunction placed.functions placed.globals start
          function draft = .ok (code, between)) :
        Covers countable between _
          (checked.occurrencesFrom placed (start + code.length) between others)
          _ :=
      have emitted :=
        ((emitFunction_yields ready listsFirst sound grown checkedFirst).works
          _ _ ran).1
      ih listsOthers emitted.sound (grown.trans emitted.constants) checkedOthers
    rw [Checked.occurrencesFrom, List.flatMap_cons]
    constructor
    · intro occurrence member
      rcases List.mem_append.mp member with here | after
      · exact first.proper occurrence here
      · unfold following at after
        split at after
        · rename_i ran
          exact (rest ran).proper occurrence after
        · cases after
    · intro result left ran
      rw [emitFunctions] at ran
      obtain ⟨code, between, ranFirst, ranOthers⟩ := Threaded.bind_eq_ok.mp ran
      obtain ⟨others, last, ranRest, same⟩ := Threaded.bind_eq_ok.mp ranOthers
      cases same
      rw [ranFirst, following, List.map_append]
      exact (first.complete code between ranFirst).append
        ((rest ranFirst).complete others left ranRest)

end

/-- All expressions of a checked program occur in tables that are in order. -/
theorem Program.Checks.occurrences_proper {program : Program} {entry : String}
    {checked : Checked}
    (checks : program.Checks entry checked)
    (declarable : AllDeclarable program.declarations) :
    (∀ occurrence ∈ checked.occurrences, occurrence.Proper program.Countable) ∧
    ∀ executable, checked.generate = .ok executable → ∃ draft left : Draft,
      draft.space.constants = Space.fresh.constants ∧ left.Sound ∧
      left.space.constants = executable.constants ∧
      Completes draft left (checked.occurrences.map Occurrence.emission)
        (program.functions.flatMap fun function => partsIn function.body) := by
  rw [Checked.generate, Checked.generateIn_eq]
  unfold Checked.occurrences
  cases ran : checked.place.run .fresh with
  | error fault =>
    refine ⟨List.forall_mem_nil _, ?_⟩
    rintro _ ⟨⟩
  | ok result =>
    obtain ⟨placed, _⟩ := result
    obtain ⟨places, sound, grown⟩ := checks.laid ran
    have sameProgram : placed.program = program :=
      places.sameProgram.trans checks.sameProgram
    obtain ⟨globalCode, emittedGlobals⟩ := emitGlobals_works places.stored
    dsimp only
    rw [emittedGlobals, sameProgram]
    dsimp only
    have cover (start : Nat) := @occurrencesFrom_cover checked placed start _
      program.Countable (fun countable _ _ =>
        places.arrangedRoutine checks declarable countable) _
      (places.ready checks declarable) (checks.lists places)
      (sound [⟨globalCode.length, .result, placed.entry⟩]) grown checks.bodies
    refine ⟨(cover _).proper, ?_⟩
    intro executable generated
    obtain ⟨_, same, generated⟩ := bind_eq_ok.mp generated
    cases same
    obtain ⟨⟨⟨_, _⟩, left⟩, emitted, generated⟩ := bind_eq_ok.mp generated
    obtain ⟨assembly, _⟩ :=
      (checks.emit_yields declarable ran).works _ _ emitted
    simp only [StateT.run, Checked.emit, Gen.link, Threaded.bind_eq_ok,
      Threaded.lift_eq_ok, Threaded.modify_bind, Threaded.pure_eq_ok, and_assoc,
      exists_and_left, exists_eq_left, List.nil_append] at emitted
    obtain ⟨_, otherEmitted, ⟨_, _⟩, _, emittedFunctions, _, rfl⟩ :=
      emitted
    rw [emittedGlobals] at otherEmitted
    cases otherEmitted
    rw [sameProgram] at emittedFunctions
    refine ⟨_, left,
      (@Checked.place_ok _ False _ _ False.elim False.elim ran).2.1,
      assembly.assembled.emitted.sound, ?_,
      (cover _).complete _ left emittedFunctions⟩
    dsimp only at generated
    split at generated
    · cases generated
      rfl
    · cases generated

/--
Checking and generation never disagree.  If a program that was parsed passes
the checks, and its variables are not too large to be counted, then generation
works or a segment is exhausted.  The type that generation finds for an
expression is the one that the checker found, and the value of the expression
lies in a slot of that type, if it has an address.  If generation works, that
concerns every expression of the program.
-/
theorem check_generate_agree {source entry : String} {program : Program}
    {checked : Checked}
    (parsed : Program.parse source = .ok program)
    (countable : program.Countable)
    (passed : program.check entry = .ok checked) :
    ((∃ executable, checked.generate = .ok executable) ∨
      ∃ region element, checked.generate = .error (.exhausted region element)) ∧
    (∀ occurrence ∈ checked.occurrences, occurrence.Agrees) ∧
    ((∃ executable, checked.generate = .ok executable) →
      checked.occurrences.map Occurrence.expression =
        program.functions.flatMap fun function => partsIn function.body) := by
  have checks := Program.checks_of_check passed
  have declarable := Program.declarable_of_parse parsed
  obtain ⟨proper, complete⟩ := checks.occurrences_proper declarable
  refine ⟨?_, fun occurrence member =>
    (proper occurrence member).agrees countable, ?_⟩
  case refine_2 =>
    rintro ⟨executable, generated⟩
    obtain ⟨_, _, _, _, _, completes⟩ := complete executable generated
    rw [← completes.expressions, List.map_map]
    rfl
  have exhausts := checks.generate_exhausts declarable
  cases result : checked.generate with
  | ok executable => exact .inl ⟨executable, rfl⟩
  | error problem =>
    obtain ⟨region, element, rfl⟩ := exhausts problem result
    exact .inr ⟨region, element, rfl⟩

/-- Objects, lists, calls inside arguments, and an expression of no value. -/
def gallery : String :=
  "program p;var circle[3]c;func void show(circle d,float[2]w)\x7bwrite d.x+w[1];\x7d" ++
    "func int twice(float n)\x7breturn 2;\x7dfunc void main()\x7bvar float[2]w;var int i;" ++
    "for(i=0;i<3;i=i+1)\x7bif(!(i==twice(i)))\x7bc[twice(i)].x=i*1.5;\x7d" ++
    "else\x7bshow(c[i],w);\x7d\x7d\x7d"

/-- A list as long as storage can count. -/
def crowded : String :=
  "program p;var int[2147482647]a;func void main()\x7bwrite a[0];\x7d"

theorem check_generate_agree_gallery :
    (∃ program checked executable, Program.parse gallery = .ok program ∧
      program.Countable ∧ program.check "main" = .ok checked ∧
      checked.generate = .ok executable ∧ checked.occurrences.length = 27 ∧
      (∀ occurrence ∈ checked.occurrences, occurrence.Agrees) ∧
      checked.occurrences.map Occurrence.expression =
        program.functions.flatMap fun function => partsIn function.body) ∧
    ∃ program checked region element, Program.parse crowded = .ok program ∧
      program.Countable ∧ program.check "main" = .ok checked ∧
      checked.generate = .error (.exhausted region element) := by
  have shown : (do
      let program ← (Program.parse gallery).toOption
      let checked ← (program.check "main").toOption
      let executable ← checked.generate.toOption
      if program.Countable ∧ checked.occurrences.length = 27 then
        some (program, checked, executable)
      else none).isSome = true := by
    decide +kernel
  have refused : (do
      let program ← (Program.parse crowded).toOption
      let checked ← (program.check "main").toOption
      if program.Countable ∧ checked.generate.toOption.isNone then
        some (program, checked)
      else none).isSome = true := by
    decide +kernel
  simp only [Option.isSome_iff_exists, bind, Option.bind_eq_some_iff,
    toOption_eq_some, Option.ite_none_right_eq_some] at shown refused
  obtain ⟨_, program, parsed, checked, passed, executable, works,
    ⟨countable, count⟩, _⟩ := shown
  obtain ⟨_, other, otherParsed, otherChecked, otherPassed,
    ⟨otherCountable, fails⟩, _⟩ := refused
  obtain ⟨_, agree, complete⟩ := check_generate_agree parsed countable passed
  obtain ⟨ends, _⟩ := check_generate_agree otherParsed
    otherCountable otherPassed
  refine ⟨⟨program, checked, executable, parsed, countable, passed,
    works, count, agree, complete ⟨executable, works⟩⟩, other, otherChecked, ?_⟩
  rcases ends with ⟨_, succeeded⟩ | ⟨region, element, exhausted⟩
  · rw [succeeded] at fails
    cases fails
  · exact ⟨region, element, otherParsed, otherCountable, otherPassed, exhausted⟩

end Easel
