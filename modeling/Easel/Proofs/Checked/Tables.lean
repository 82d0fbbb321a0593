import Easel.Checked
import Easel.Proofs.Success
import Easel.Proofs.Table

/-!
# The tables of a checked program

Checking builds one table of global variables, one table of functions and,
for every function, one table of its parameters and variables.  Each has one
entry for each declaration, in the order of the text, and no name twice.
-/

namespace Easel

variable {declarations : List Declaration} {table : Table Routine}
variable {function : Function} {functions : List Function}
variable {entries : List (String × Routine)}

/-- The entry of a declaration before storage is laid out. -/
def Declaration.entry (declaration : Declaration) : String × Variable :=
  (declaration.name, ⟨declaration.type, declaration.line, none⟩)

theorem declareIn_foldlM_ok {table result : Table Variable}
    (unique : table.names.Nodup)
    (declared : declarations.foldlM declareIn table = .ok result) :
    result.entries = table.entries ++ declarations.map Declaration.entry ∧
      result.names.Nodup := by
  induction declarations generalizing table with
  | nil =>
    cases declared
    simpa using unique
  | cons declaration declarations induction =>
    rw [List.foldlM_cons] at declared
    obtain ⟨extended, added, declared⟩ := bind_eq_ok.mp declared
    unfold declareIn at added
    split at added
    · cases added
    · split at added
      · rename_i grown
        cases added
        obtain ⟨entries, nodup⟩ :=
          induction (Table.names_nodup_append unique grown) declared
        refine ⟨?_, nodup⟩
        rw [entries, (Table.add?_ok grown).1, List.append_assoc]
        rfl
      · cases added

/-- The table of a list of declarations has one entry for each of them. -/
theorem declareAll_ok {table : Table Variable}
    (declared : declareAll declarations = .ok table) :
    table.entries = declarations.map Declaration.entry ∧ table.names.Nodup := by
  have built := declareIn_foldlM_ok Table.nodup_empty declared
  simpa [Table.empty] using built

/-- The entry of a function before storage is laid out. -/
structure Function.Declares (function : Function) (routine : Routine) :
    Prop where
  free : Builtin.find? function.name = none
  plain : function.returns.isList = false
  returns : routine.returns = function.returns
  parameters : routine.parameters = function.parameters.map (·.type)
  locals : routine.locals.entries =
    (function.parameters ++ declarationsOf function.body).map Declaration.entry
  unique : routine.locals.names.Nodup

theorem declareFunction_ok {result : Table Routine}
    (declared : declareFunction table function = .ok result) :
    ∃ routine, function.Declares routine ∧
      table.add? function.name routine = some result := by
  unfold declareFunction at declared
  split at declared
  · cases declared
  · rename_i free
    split at declared
    · cases declared
    · rename_i plain
      obtain ⟨locals, declaredLocals, declared⟩ := bind_eq_ok.mp declared
      obtain ⟨entries, unique⟩ := declareAll_ok declaredLocals
      dsimp only at declared
      split at declared
      · rename_i added
        cases declared
        refine ⟨_, ⟨?_, by simpa using plain, rfl, rfl, entries, unique⟩, added⟩
        simpa [Builtin.isReserved] using free
      · cases declared

/-- The functions of a program and the entries of a table correspond. -/
def Function.DeclareAll (functions : List Function)
    (entries : List (String × Routine)) : Prop :=
  entries.length = functions.length ∧
    ∀ (index : Nat) (function : Function), functions[index]? = some function →
      ∃ routine, entries[index]? = some (function.name, routine) ∧
      function.Declares routine

theorem declareFunction_foldlM_ok {result : Table Routine}
    (unique : table.names.Nodup)
    (declared : functions.foldlM declareFunction table = .ok result) :
    result.names.Nodup ∧
      ∃ added, result.entries = table.entries ++ added ∧
        Function.DeclareAll functions added := by
  induction functions generalizing table with
  | nil =>
    cases declared
    exact ⟨unique, [], by simp, rfl, by simp⟩
  | cons function functions induction =>
    rw [List.foldlM_cons] at declared
    obtain ⟨_, first, declared⟩ := bind_eq_ok.mp declared
    obtain ⟨routine, declares, grown⟩ := declareFunction_ok first
    obtain ⟨nodup, added, entries, length, rest⟩ :=
      induction (Table.names_nodup_append unique grown) declared
    refine ⟨nodup, (function.name, routine) :: added, ?_, by simp [length], ?_⟩
    · rw [entries, (Table.add?_ok grown).1, List.append_assoc]
      rfl
    · intro index other found
      cases index with
      | zero =>
        simp only [List.getElem?_cons_zero, Option.some.injEq] at found
        subst other
        exact ⟨routine, rfl, declares⟩
      | succ index =>
        simp only [List.getElem?_cons_succ] at found ⊢
        exact rest index other found

theorem Function.DeclareAll.names (declared : DeclareAll functions entries) :
    entries.map Prod.fst = functions.map (·.name) := by
  refine List.ext_getElem? fun index => ?_
  rw [List.getElem?_map, List.getElem?_map]
  cases listed : functions[index]? with
  | none =>
    have beyond : entries[index]? = none := by
      rw [List.getElem?_eq_none_iff, declared.1]
      exact List.getElem?_eq_none_iff.mp listed
    rw [beyond]
    rfl
  | some function =>
    obtain ⟨_, entry, _⟩ := declared.2 index function listed
    rw [entry]
    rfl

theorem Function.DeclareAll.find?
    (declared : DeclareAll functions table.entries)
    (unique : table.names.Nodup)
    (member : function ∈ functions) :
    ∃ routine, table.find? function.name = some routine ∧
      function.Declares routine := by
  obtain ⟨index, bound, found⟩ := List.getElem_of_mem member
  obtain ⟨routine, entry, declares⟩ :=
    declared.2 index function
      (by rw [← found]; exact List.getElem?_eq_getElem bound)
  exact ⟨routine, Table.find?_of_getElem? unique entry, declares⟩

theorem Function.DeclareAll.mem {name : String} {routine : Routine}
    (declared : DeclareAll functions entries)
    (member : (name, routine) ∈ entries) :
    ∃ function ∈ functions, function.name = name ∧
      function.Declares routine := by
  obtain ⟨index, entry⟩ := List.getElem?_of_mem member
  have bound : index < functions.length := by
    rw [← declared.1]
    exact (List.getElem?_eq_some_iff.mp entry).1
  obtain ⟨_, otherEntry, declares⟩ :=
    declared.2 index functions[index] (List.getElem?_eq_getElem bound)
  rw [entry] at otherEntry
  cases otherEntry
  exact ⟨functions[index], List.getElem_mem bound, rfl, declares⟩

/-- A program that passed its checks. -/
structure Program.Checks (program : Program)
    (entry : String)
    (checked : Checked) : Prop where
  sameProgram : checked.program = program
  sameEntry : checked.entry = entry
  globals : checked.globals.entries = program.globals.map Declaration.entry
  uniqueGlobals : checked.globals.names.Nodup
  functions : Function.DeclareAll program.functions checked.functions.entries
  uniqueFunctions : checked.functions.names.Nodup
  start : ∃ routine, checked.functions.find? entry = some routine ∧
    routine.parameters = []
  bodies : ∀ function ∈ program.functions,
    checkFunction checked.functions checked.globals function = .ok ()

theorem forM_eq_ok {action : α → Except ε PUnit} {inputs : List α}
    (ran : inputs.forM action = .ok ⟨⟩) :
    ∀ input ∈ inputs, action input = .ok ⟨⟩ := by
  induction inputs with
  | nil =>
    intro input member
    cases member
  | cons first inputs induction =>
    change (action first >>= fun _ => inputs.forM action) = .ok ⟨⟩ at ran
    obtain ⟨_, firstRan, rest⟩ := bind_eq_ok.mp ran
    intro input member
    rcases List.mem_cons.mp member with rfl | later
    · exact firstRan
    · exact induction rest input later

theorem Program.checks_of_check {program : Program} {entry : String}
    {checked : Checked}
    (passed : program.check entry = .ok checked) :
    program.Checks entry checked := by
  unfold Program.check at passed
  obtain ⟨globals, declaredGlobals, passed⟩ := bind_eq_ok.mp passed
  obtain ⟨functions, declaredFunctions, passed⟩ := bind_eq_ok.mp passed
  obtain ⟨_, entryChecked, passed⟩ := bind_eq_ok.mp passed
  obtain ⟨_, bodiesChecked, passed⟩ := bind_eq_ok.mp passed
  cases passed
  obtain ⟨globalEntries, uniqueGlobals⟩ := declareAll_ok declaredGlobals
  obtain ⟨uniqueFunctions, added, entries, declares⟩ :=
    declareFunction_foldlM_ok Table.nodup_empty declaredFunctions
  have sameEntries : functions.entries = added := by
    simpa [Table.empty] using entries
  refine ⟨rfl, rfl, globalEntries, uniqueGlobals, sameEntries ▸ declares,
    uniqueFunctions, ?_, forM_eq_ok bodiesChecked⟩
  unfold checkEntry at entryChecked
  split at entryChecked
  · cases entryChecked
  · rename_i routine found
    split at entryChecked
    · rename_i noParameters
      exact ⟨routine, found, by simpa using noParameters⟩
    · cases entryChecked

end Easel
