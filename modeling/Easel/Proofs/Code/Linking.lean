import Easel.Proofs.Code.Statement

/-!
# Linking

The links of a program stand in the order of the quadruples that wait for
them: first the jump in front of all functions, then the calls.  Where the
functions that they name have positions, filling them in puts each position
into its quadruple and changes nothing else.
-/

namespace Easel

variable {index : Nat} {link : Link} {entry : String} {globalCode : List Quad}

/-! ## Calls that are filled in -/

/-- Code whose calls lead, in order, to the given positions. -/
def fillCalls : List Quad → List Address → List Quad
  | [], _ => []
  | quad :: rest, positions =>
    if quad.operation = .call then
      { quad with left := positions.head?.getD .unused } ::
        fillCalls rest positions.tail
    else quad :: fillCalls rest positions

section

variable {code : List Quad} {positions : List Address}

theorem fillCalls_append {more : List Quad} {others : List Address}
    (all : (callQuads code).length = positions.length) :
    fillCalls (code ++ more) (positions ++ others) =
      fillCalls code positions ++ fillCalls more others := by
  induction code generalizing positions with
  | nil =>
    have none : positions = [] := List.eq_nil_of_length_eq_zero all.symm
    rw [none, List.nil_append, List.nil_append, fillCalls, List.nil_append]
  | cons quad rest ih =>
    rw [List.cons_append, fillCalls, fillCalls]
    by_cases isCall : quad.operation = .call
    · rw [callQuads, List.filter_cons_of_pos (by simpa),
        List.length_cons] at all
      rw [if_pos isCall, if_pos isCall, List.cons_append]
      cases positions with
      | nil => simp at all
      | cons position positions =>
        rw [List.cons_append, List.tail_cons, List.tail_cons, List.head?_cons,
          List.head?_cons, ih (Nat.succ.inj all)]
    · rw [callQuads, List.filter_cons_of_neg (by simpa)] at all
      rw [if_neg isCall, if_neg isCall, List.cons_append, ih all]

theorem length_fillCalls : (fillCalls code positions).length = code.length := by
  induction code generalizing positions with
  | nil => rfl
  | cons quad rest ih =>
    rw [fillCalls]
    split
    · rw [List.length_cons, List.length_cons, ih]
    · rw [List.length_cons, List.length_cons, ih]

variable {quad : Quad}

/-- Only the first fields of calls are filled in. -/
theorem mem_fillCalls (member : quad ∈ fillCalls code positions) :
    ∃ waiting ∈ code, quad = waiting ∨ waiting.operation = .call ∧
      ∃ position, (position ∈ positions ∨ position = .unused) ∧
        quad = { waiting with left := position } := by
  induction code generalizing positions with
  | nil => cases member
  | cons first rest ih =>
    rw [fillCalls] at member
    split at member
    · rename_i isCall
      rcases List.mem_cons.mp member with rfl | later
      · refine ⟨first, List.mem_cons_self, .inr ⟨isCall, _, ?_, rfl⟩⟩
        cases positions <;> simp
      · obtain ⟨waiting, inRest, same | ⟨isCall, position, known, same⟩⟩ :=
          ih later
        · exact ⟨waiting, List.mem_cons_of_mem _ inRest, .inl same⟩
        · exact ⟨waiting, List.mem_cons_of_mem _ inRest, .inr ⟨isCall, position,
            known.imp_left List.mem_of_mem_tail, same⟩⟩
    · rcases List.mem_cons.mp member with rfl | later
      · exact ⟨quad, List.mem_cons_self, .inl rfl⟩
      · obtain ⟨waiting, inRest, filled⟩ := ih later
        exact ⟨waiting, List.mem_cons_of_mem _ inRest, filled⟩

/-- The calls that were filled in are those that waited, one by one. -/
theorem callQuads_fillCalls {waits : Quad → String → Prop} {calls : List String}
    (place : String → Address)
    (related : List.Forall₂ waits (callQuads code) calls) :
    List.Forall₂ (fun quad name => ∃ waiting, waits waiting name ∧
      quad = { waiting with left := place name })
      (callQuads (fillCalls code (calls.map place))) calls := by
  induction code generalizing calls with
  | nil =>
    cases related
    exact .nil
  | cons quad rest ih =>
    rw [fillCalls]
    by_cases isCall : quad.operation = .call
    · rw [callQuads, List.filter_cons_of_pos (by simpa)] at related
      rw [if_pos isCall, callQuads, List.filter_cons_of_pos (by simpa)]
      cases related with
      | cons here later => exact .cons ⟨quad, here, rfl⟩ (ih later)
    · rw [callQuads, List.filter_cons_of_neg (by simpa)] at related
      rw [if_neg isCall, callQuads, List.filter_cons_of_neg (by simpa)]
      exact ih related

theorem fillCalls_plain (found : code[index]? = some quad)
    (notCall : quad.operation ≠ .call) :
    (fillCalls code positions)[index]? = some quad := by
  induction code generalizing positions index with
  | nil => cases found
  | cons first rest ih =>
    rw [fillCalls]
    cases index with
    | zero =>
      cases found
      rw [if_neg notCall, List.getElem?_cons_zero]
    | succ index =>
      rw [List.getElem?_cons_succ] at found
      split <;> exact ih found

variable {start : Nat} {links : List Link} {place : String → Address}

/-- A call has the position of the function that its link names. -/
theorem fillCalls_call (sites : links.map (·.index) = callSites start code)
    (found : code[index]? = some quad)
    (isCall : quad.operation = .call)
    (member : link ∈ links)
    (here : link.index = start + index) :
    (fillCalls code (links.map fun link => place link.target))[index]? =
      some { quad with left := place link.target } := by
  induction code generalizing start index links with
  | nil => cases found
  | cons first rest ih =>
    rw [fillCalls]
    rw [callSites] at sites
    by_cases firstCall : first.operation = .call
    · rw [if_pos firstCall] at sites ⊢
      obtain ⟨head, links, rfl⟩ : ∃ head tail, links = head :: tail := by
        cases links with
        | nil => cases sites
        | cons head tail => exact ⟨head, tail, rfl⟩
      obtain ⟨headHere, later⟩ := List.cons.inj sites
      -- Links stand at different positions, so the index decides whether this
      -- is the first.
      cases index with
      | zero =>
        cases found
        rcases List.mem_cons.mp member with rfl | inRest
        · rfl
        · have listed : link.index ∈ callSites (start + 1) rest :=
            later ▸ List.mem_map_of_mem inRest
          obtain ⟨_, _, _, _⟩ := mem_callSites listed
          omega
      | succ index =>
        rw [List.getElem?_cons_succ] at found ⊢
        rcases List.mem_cons.mp member with rfl | inRest
        · dsimp only at headHere
          omega
        · exact ih later found inRest (by omega)
    · rw [if_neg firstCall] at sites ⊢
      cases index with
      | zero =>
        cases found
        exact absurd isCall firstCall
      | succ index =>
        rw [List.getElem?_cons_succ] at found ⊢
        exact ih sites found member (by omega)

/-! ## Links that are filled in -/

variable {entryOf : String → Option Address}

theorem resolveLinks_cons {code : Array Quad} {entry : Address}
    (known : entryOf link.target = some entry)
    (found : code[link.index]? = some quad)
    (waits : quad.get link.field = .unused) :
    resolveLinks entryOf (link :: links) code =
      resolveLinks entryOf links
        (code.setIfInBounds link.index (quad.set link.field entry)) := by
  change (link.resolve entryOf >>= fun _ => resolveLinks entryOf links) code = _
  have patched : link.resolve entryOf code =
      .ok () (code.setIfInBounds link.index (quad.set link.field entry)) := by
    unfold Link.resolve
    rw [known]
    exact patch_of_unused found waits
  simp only [bind, EStateM.bind, patched]

/-- Links of calls that wait for known functions are filled in. -/
theorem resolveLinks_calls {before : List Quad}
    (sites : links.map (·.index) = callSites before.length code)
    (fields : ∀ link ∈ links, link.field = .left)
    (waiting : ∀ quad ∈ code, quad.operation = .call → quad.left = .unused)
    (known : ∀ link ∈ links, entryOf link.target = some (place link.target)) :
    resolveLinks entryOf links (before ++ code).toArray =
      .ok () (before ++ fillCalls code (links.map fun link =>
        place link.target)).toArray := by
  induction code generalizing links before with
  | nil =>
    have none : links = [] := List.map_eq_nil_iff.mp sites
    subst none
    rfl
  | cons quad rest ih =>
    obtain ⟨waits, waitingRest⟩ := List.forall_mem_cons.mp waiting
    have length (other : Quad) : (before ++ [other]).length =
        before.length + 1 := by
      rw [List.length_append, List.length_singleton]
    have moved (other : Quad) (more : List Quad) :
        before ++ other :: more = before ++ [other] ++ more := by
      rw [List.append_assoc, List.singleton_append]
    rw [callSites] at sites
    rw [fillCalls]
    by_cases isCall : quad.operation = .call
    · rw [if_pos isCall] at sites ⊢
      cases links with
      | nil => cases sites
      | cons link links =>
        obtain ⟨here, later⟩ := List.cons.inj sites
        dsimp only at here
        obtain ⟨knownHere, knownLater⟩ := List.forall_mem_cons.mp known
        obtain ⟨isLeft, fieldsLater⟩ := List.forall_mem_cons.mp fields
        have found : (before ++ quad :: rest).toArray[link.index]? =
            some quad := by
          rw [here]
          simp
        rw [resolveLinks_cons knownHere found
          (by rw [isLeft]; exact waits isCall), here, isLeft,
          List.setIfInBounds_toArray, List.set_append_right _ _ (Nat.le_refl _),
          Nat.sub_self, List.set_cons_zero, moved _ rest,
          ih (by rw [length]; exact later) fieldsLater waitingRest knownLater,
          ← moved]
        rfl
    · rw [if_neg isCall] at sites ⊢
      rw [moved _ rest, ih (by rw [length]; exact sites) fields waitingRest
        known, ← moved]

/-- The links of a program: the jump to its first function, and the calls. -/
theorem resolveLinks_program
    (sites : links.map (·.index) = callSites (globalCode.length + 1) code)
    (fields : ∀ link ∈ links, link.field = .left)
    (waiting : ∀ quad ∈ code, quad.operation = .call → quad.left = .unused)
    (starts : entryOf entry = some (place entry))
    (known : ∀ link ∈ links, entryOf link.target = some (place link.target)) :
    resolveLinks entryOf (⟨globalCode.length, .result, entry⟩ :: links)
      (globalCode ++ [(⟨.goto, .unused, .unused, .unused⟩ : Quad)] ++
        code).toArray =
        .ok () (globalCode ++ ⟨.goto, .unused, .unused, place entry⟩ ::
          fillCalls code (links.map fun link =>
            place link.target)).toArray := by
  have found : (globalCode ++ [(⟨.goto, .unused, .unused, .unused⟩ : Quad)] ++
      code).toArray[globalCode.length]? =
        some ⟨.goto, .unused, .unused, .unused⟩ := by
    simp
  have moved (jump : Quad) (rest : List Quad) :
      globalCode ++ jump :: rest = globalCode ++ [jump] ++ rest := by
    rw [List.append_assoc, List.singleton_append]
  have first : resolveLinks entryOf
      (⟨globalCode.length, .result, entry⟩ :: links) _ =
        resolveLinks entryOf links _ := resolveLinks_cons starts found rfl
  dsimp only at first
  rw [first, List.setIfInBounds_toArray, ← moved,
    List.set_append_right _ _ (Nat.le_refl _), Nat.sub_self,
    List.set_cons_zero, moved _ code,
    resolveLinks_calls (by rw [List.length_append]; exact sites) fields waiting
    known, ← moved]
  rfl

/-- Code whose calls were filled in is installed behind the first jump. -/
theorem installed_of_fillCalls {image : Image} {jump : Quad}
    (sites : links.map (·.index) = callSites (globalCode.length + 1) code)
    (known : ∀ link ∈ links, image.entryOf link.target =
      some (place link.target))
    (sameLinks : image.links = ⟨globalCode.length, .result, entry⟩ :: links)
    (text : image.code.toList = globalCode ++ jump ::
      fillCalls code (links.map fun link => place link.target)) :
    Installed image (globalCode.length + 1) code := by
  have reached (index : Nat) : image.code[globalCode.length + 1 + index]? =
      (fillCalls code (links.map fun link => place link.target))[index]? := by
    rw [← Array.getElem?_toList, text, List.getElem?_append_right (by omega),
      show globalCode.length + 1 + index - globalCode.length =
        index + 1 by omega,
      List.getElem?_cons_succ]
  constructor
  · intro index quad found notCall
    exact (reached index).trans (fillCalls_plain found notCall)
  · intro index quad found isCall link member here
    rw [sameLinks] at member
    rcases List.mem_cons.mp member with rfl | inCalls
    · dsimp only at here
      omega
    · exact ⟨place link.target, known link inCalls,
        (reached index).trans (fillCalls_call sites found isCall inCalls here)⟩

end

theorem Table.find?_modify {α : Type}
    (table : Table α)
    (name other : String)
    (change : α → α) :
    (table.modify name change).find? other =
      if other = name then
        (table.find? other).map change else table.find? other := by
  unfold Table.modify Table.find?
  induction table.entries with
  | nil => simp
  | cons entry entries induction =>
    obtain ⟨key, _⟩ := entry
    rw [List.map_cons]
    by_cases same : key = name
    · subst same
      simp only [if_true, List.lookup_cons]
      by_cases here : other = key
      · simp [here]
      · have different : (other == key) = false := by simpa using here
        simp only [different]
        exact induction
    · simp only [same, if_false, List.lookup_cons]
      by_cases here : other = key
      · subst here
        simp [same]
      · have different : (other == key) = false := by simpa using here
        simp only [different]
        exact induction

variable {entries : List (String × Nat)} {functions : Table Routine}
  {name : String}

theorem find?_setEntries_other (other : name ∉ entries.map Prod.fst) :
    (setEntries functions entries).find? name = functions.find? name := by
  induction entries generalizing functions with
  | nil => rfl
  | cons entry entries induction =>
    obtain ⟨first, _⟩ := entry
    rw [List.map_cons, List.mem_cons, not_or] at other
    change (setEntries (functions.modify first _) entries).find? name = _
    rw [induction other.2, Table.find?_modify, if_neg other.1]

theorem isSome_of_entryOf_setEntries {position : Address}
    (known : entryOf (setEntries functions entries) name = some position) :
    (functions.find? name).isSome = true := by
  induction entries generalizing functions with
  | nil =>
    obtain ⟨routine, found, _⟩ := Option.bind_eq_some_iff.mp known
    have listed : functions.find? name = some routine := found
    rw [listed]
    rfl
  | cons entry entries induction =>
    obtain ⟨first, _⟩ := entry
    have later := induction known
    change ((functions.modify first _).find? name).isSome = true at later
    rw [Table.find?_modify] at later
    split at later
    · rwa [Option.isSome_map] at later
    · exact later

/-- The position of a function is the one that was recorded for it. -/
theorem entryOf_setEntries {start : Nat} {routine : Routine}
    (unique : (entries.map Prod.fst).Nodup)
    (recorded : (name, start) ∈ entries)
    (known : functions.find? name = some routine) :
    entryOf (setEntries functions entries) name = some (start : Int) := by
  induction entries generalizing functions routine with
  | nil => cases recorded
  | cons entry entries induction =>
    obtain ⟨first, firstStart⟩ := entry
    rw [List.map_cons, List.nodup_cons] at unique
    change entryOf (setEntries (functions.modify first _) entries) name = _
    rcases List.mem_cons.mp recorded with same | later
    · cases same
      rw [entryOf, find?_setEntries_other unique.1, Table.find?_modify,
        if_pos rfl, known]
      rfl
    · have different : name ≠ first := by
        rintro rfl
        exact unique.1 (List.mem_map.mpr ⟨(name, start), later, rfl⟩)
      have stillKnown : (functions.modify first fun routine =>
          { routine with entry := some (firstStart : Int) }).find? name =
            some routine := by
        rw [Table.find?_modify, if_neg different, known]
      exact induction unique.2 later stillKnown

end Easel
