import Easel.Proofs.Code.Layout

/-!
# Names before and after layout

Checking works on tables without addresses, generation on the same tables
with them.  A name has the same type in both, and what it designates after
layout is a place of that type.
-/

namespace Easel

variable {first : Address} {location : Location}

variable {context : Context} {scope : Scope} {name : String}
  {field : Option String}
variable {indexed : Bool} {resolved : Resolved} {line : Nat}

/-- What a caller has to know of a function. -/
def Routine.signature (routine : Routine) : Ty × List Ty :=
  (routine.returns, routine.parameters)

/-- Two contexts give the same types to the same names. -/
structure Context.Alike (plain placed : Context) : Prop where
  scope : ∀ name, (placed.scope.find? name).map (·.type) =
    (plain.scope.find? name).map (·.type)
  functions : ∀ name, (placed.functions.find? name).map Routine.signature =
    (plain.functions.find? name).map Routine.signature
  returns : placed.returns = plain.returns

/-- A context in which every variable has a place. -/
structure Context.Arranged (context : Context) : Prop where
  locals : ArrangedFrom (fun _ => 0) .local context.scope.locals.entries
  globals : ArrangedFrom (fun _ => 0) .global context.scope.globals.entries
  fitLocals : ∀ type ∈ typesIn context.scope.locals.entries, type.Fits
  fitGlobals : ∀ type ∈ typesIn context.scope.globals.entries, type.Fits
  signatures : ∀ name routine, context.functions.find? name = some routine →
    routine.returns.isList = false ∧
      ∀ parameter ∈ routine.parameters, parameter.Fits

/-- A context that can generate code for what another one checked. -/
structure Context.Prepared (plain placed : Context) :
    Prop extends plain.Alike placed where
  stored : ∀ name found, placed.scope.find? name = some found →
    found.type.Declarable ∧ ∃ address, found.address = some address ∧
      Space.Roomy address
  single : ∀ name routine, placed.functions.find? name = some routine →
    routine.returns.isList = false

/-- The entry of a function has the same signature before and after layout. -/
theorem Context.Alike.routine {plain placed : Context} {routine : Routine}
    (alike : plain.Alike placed)
    (found : plain.functions.find? name = some routine) :
    ∃ after, placed.functions.find? name = some after ∧
      after.returns = routine.returns ∧
      after.parameters = routine.parameters := by
  have same := alike.functions name
  rw [found, Option.map_some] at same
  obtain ⟨after, known, signature⟩ := Option.map_eq_some_iff.mp same
  exact ⟨after, known, congrArg Prod.fst signature, congrArg Prod.snd signature⟩

theorem place_of_find? {region : Region} {table : Table Variable}
    {found : Variable}
    (arranged : ArrangedFrom (fun _ => 0) region table.entries)
    (fits : ∀ type ∈ typesIn table.entries, type.Fits)
    (known : table.find? name = some found) :
    found.type.Fits ∧ ∃ address location, found.address = some address ∧
      Place address found.type location ∧ location.region = region := by
  obtain ⟨_, entry⟩ := Table.find?_eq_some_getElem? known
  have typeFits : found.type.Fits :=
    fits found.type
      (List.mem_map.mpr ⟨(name, found), List.mem_of_getElem? entry, rfl⟩)
  obtain ⟨address, hasAddress, place⟩ :=
    arranged.place entry typeFits.toDeclarable
  exact ⟨typeFits, address, _, hasAddress, place, rfl⟩

theorem Context.Arranged.place {found : Variable}
    (arranged : context.Arranged)
    (known : context.scope.find? name = some found) :
    found.type.Fits ∧ ∃ address location, found.address = some address ∧
      Place address found.type location ∧
      (location.region = .local ∨ location.region = .global) := by
  unfold Scope.find? at known
  cases inside : context.scope.locals.find? name with
  | some owner =>
    rw [inside] at known
    cases known
    obtain ⟨fits, address, location, hasAddress, place, region⟩ :=
      place_of_find? arranged.locals arranged.fitLocals inside
    exact ⟨fits, address, location, hasAddress, place, .inl region⟩
  | none =>
    rw [inside] at known
    obtain ⟨fits, address, location, hasAddress, place, region⟩ :=
      place_of_find? arranged.globals arranged.fitGlobals known
    exact ⟨fits, address, location, hasAddress, place, .inr region⟩

/-! ## What a use of a name designates -/

/-- The storage that a use designates, apart from the choice of an item. -/
inductive Scope.Resolves (scope : Scope) (name : String) (indexed : Bool) :
    Option String → Resolved → Prop where
  | whole {owner : Variable} (found : scope.find? name = some owner)
      (list : indexed = true → owner.type.isList = true) :
      Resolves scope name indexed none
        ⟨owner, none, if indexed then owner.type.item else owner.type⟩
  | member {owner : Variable} {field : String} {member : Attribute}
      (found : scope.find? name = some owner)
      (list : indexed = true → owner.type.isList = true)
      (chosen :
        attribute? (if indexed then owner.type.item else owner.type) field =
          some member) :
      Resolves scope name indexed (some field)
        ⟨owner, some member, .basic member.element⟩

theorem Scope.resolves_of_resolve
    (ran : scope.resolve name indexed field line = .ok resolved) :
    scope.Resolves name indexed field resolved := by
  unfold Scope.resolve at ran
  split at ran
  · cases ran
  · rename_i owner found
    split at ran
    · cases ran
    · rename_i notMismatch
      have list : indexed = true → owner.type.isList = true := by
        intro isIndexed
        simpa [isIndexed] using notMismatch
      dsimp only at ran
      split at ran
      · cases ran
        exact .whole found list
      · split at ran
        · rename_i member chosen
          cases ran
          exact .member found list chosen
        · cases ran

theorem Scope.isObject_of_attribute? {type : Ty} {field : String}
    {member : Attribute}
    (chosen : Scope.attribute? type field = some member) :
    type.isObject = true := by
  unfold Scope.attribute? at chosen
  have accepted := (Option.filter_eq_some_iff.mp chosen).2
  simp only [Bool.and_eq_true] at accepted
  exact accepted.1

theorem Scope.Resolves.found
    (resolves : scope.Resolves name indexed field resolved) :
    scope.find? name = some resolved.owner := by
  cases resolves with
  | whole found => exact found
  | member found => exact found

theorem Scope.Resolves.list
    (resolves : scope.Resolves name true field resolved) :
    resolved.owner.type.isList = true := by
  cases resolves with
  | whole found list => exact list rfl
  | member found list => exact list rfl

/-- The designated storage has the same type before and after layout. -/
theorem Scope.Resolves.type_eq {other : Scope} {otherResolved : Resolved}
    (same : (other.find? name).map (·.type) = (scope.find? name).map (·.type))
    (resolves : scope.Resolves name indexed field resolved)
    (otherResolves : other.Resolves name indexed field otherResolved) :
    otherResolved.type = resolved.type := by
  have sameOwner : otherResolved.owner.type = resolved.owner.type := by
    rw [resolves.found, otherResolves.found] at same
    simpa using same
  cases resolves with
  | whole found =>
    cases otherResolves with
    | whole otherFound =>
      dsimp only at sameOwner ⊢
      rw [sameOwner]
  | member found list chosen =>
    cases otherResolves with
    | member otherFound otherList otherChosen =>
      dsimp only at sameOwner
      rw [sameOwner, chosen] at otherChosen
      cases otherChosen
      rfl

/-- What a name designates before layout it designates after it. -/
theorem Scope.resolve_of_alike {plain placed : Scope}
    (same : (placed.find? name).map (·.type) = (plain.find? name).map (·.type))
    (found : plain.resolve name indexed field line = .ok resolved) :
    ∃ other, placed.resolve name indexed field line = .ok other := by
  have resolves := resolves_of_resolve found
  rw [resolves.found, Option.map_some] at same
  obtain ⟨_, known, sameType⟩ := Option.map_eq_some_iff.mp same
  unfold Scope.resolve
  rw [known]
  dsimp only
  cases resolves with
  | whole _ list =>
    rw [if_neg]
    · exact ⟨_, rfl⟩
    · intro mismatch
      rw [Bool.and_eq_true, Bool.not_eq_true'] at mismatch
      rw [sameType, list mismatch.1] at mismatch
      cases mismatch.2
  | member _ list chosen =>
    rw [if_neg]
    · dsimp only at sameType ⊢
      rw [sameType, chosen]
      exact ⟨_, rfl⟩
    · intro mismatch
      rw [Bool.and_eq_true, Bool.not_eq_true'] at mismatch
      rw [sameType, list mismatch.1] at mismatch
      cases mismatch.2

/-- What a name designates after layout has a place. -/
theorem Context.Arranged.designates {base : Address}
    (arranged : context.Arranged)
    (ran : context.scope.resolve name indexed field line = .ok resolved)
    (based : resolved.base name = .ok base) :
    ∃ first location,
      context.Designates name indexed field resolved first location ∧
      base = first + resolved.offset := by
  have resolves := Scope.resolves_of_resolve ran
  obtain ⟨fits, first, location, hasAddress, place, region⟩ :=
    arranged.place resolves.found
  refine ⟨first, location, ⟨⟨line, ran⟩, hasAddress, place, fits, region⟩, ?_⟩
  simp only [Resolved.base, addressOf, hasAddress, bind, Except.bind,
    pure, Except.pure, Except.ok.injEq] at based
  exact based.symm

/-- A variable, or an attribute of one, has a place of its type. -/
theorem Context.Designates.whole
    (designates : context.Designates name false field resolved first location) :
    ∃ found, Place (first + resolved.offset) resolved.type found ∧
      found.region = location.region := by
  obtain ⟨_, ran⟩ := designates.named
  have place := designates.place
  cases Scope.resolves_of_resolve ran with
  | whole found =>
    refine ⟨location, ?_, rfl⟩
    simpa [Resolved.offset] using place
  | member found list chosen =>
    exact ⟨_, place.field (Scope.isObject_of_attribute? chosen) _, rfl⟩

/-- An item, or an attribute of one, has a place of its type. -/
theorem Context.Designates.item {index : Nat}
    (designates : context.Designates name true field resolved first location)
    (inside : index < resolved.owner.type.size) :
    ∃ found,
      Place (first + resolved.offset +
        (index * resolved.owner.type.element.slotWidth : Nat))
          resolved.type found ∧
      found.region = location.region := by
  obtain ⟨_, ran⟩ := designates.named
  have resolves := Scope.resolves_of_resolve ran
  have item := designates.place.item designates.fits.flat resolves.list inside
  cases resolves with
  | whole found =>
    rw [← Int.add_zero first] at item
    exact ⟨_, item, rfl⟩
  | @member _ _ member found list chosen =>
    have inItem := item.field (Scope.isObject_of_attribute? chosen) member
    rw [Int.add_right_comm] at inItem
    exact ⟨_, inItem, rfl⟩

end Easel
