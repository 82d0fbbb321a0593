import Easel.Proofs.Machine.Kinds
import Easel.Proofs.Machine.Writes

/-!
# Instructions that fail

An instruction other than a call or a return that fails leaves the machine as
it was: it reads what it needs before it changes anything.  Only a copy writes
several slots one by one.  A copy that can store the first slot of an object
can store them all, since slots hold values of their kinds and every block of a
segment has the same kinds of slots, so long as both blocks lie in their
segments with all of their slots.
-/

namespace Easel

variable {kind : Element} {location : Location}

/-- The last slot of a segment; an object there has attributes elsewhere. -/
def AtBorder (address : Address) : Prop :=
  ∃ location, locate? address = some location ∧
    location.element.isObject = true ∧ location.offset = 999

/-! ## Copies -/

/-- A value that a slot takes has the slot's kind or is a whole number. -/
theorem Value.element_of_fits {value fitted : Value}
    (fits : value.fit? kind = some fitted) :
    value.element = kind ∨ value.element = .int := by
  unfold fit? at fits
  split at fits
  · exact .inr rfl
  · rw [Option.ite_none_right_eq_some] at fits
    exact .inl fits.1

theorem Value.fit?_element (value : Value) :
    value.fit? value.element = some value := by
  cases value with
  | object kind => cases kind <;> rfl
  | _ => rfl

/-- An object that is not at its segment's border has its attributes there. -/
theorem Place.of_object {address : Address}
    (located : locate? address = some location)
    (isObject : location.kind.isObject = true)
    (inner : ¬ AtBorder address) :
    Place address (.basic location.kind) location where
  located := located
  kind := rfl
  room := by
    obtain ⟨owner, aligned⟩ := Location.block_of_kind isObject
    obtain ⟨_, _, _, inside⟩ := segmentBase?_of_locate? located
    have notLast : location.offset ≠ 999 := fun last =>
      inner ⟨location, located, owner ▸ isObject, last⟩
    rw [Ty.slotCount_basic, Element.slotWidth, if_pos isObject]
    simp only [Element.blockSize, segmentSize] at aligned inside ⊢
    omega
  items := nofun

namespace Memory

variable {memory left : Memory} {source target address : Address}
  {fault : Fault}

/-- Values that cannot be stored fail at the first slot, or behind it. -/
theorem writeBlock_cons_error {value : Value} {values : List Value}
    (ran : writeBlock address (value :: values) memory = .error fault left) :
    left = memory ∨ ∃ first, write address value memory = .ok () first ∧
      writeBlock (address + 1) values first = .error fault left := by
  simp only [writeBlock, bind, EStateM.bind] at ran
  cases wrote : write address value memory with
  | error reason first =>
    rw [wrote] at ran
    cases ran
    exact .inl (write_error wrote)
  | ok done first =>
    rw [wrote] at ran
    exact .inr ⟨first, rfl, ran⟩

/-- An object is copied as a whole between places for objects of one kind. -/
theorem Sorted.writeBlock_object {found : Location}
    (sorted : memory.Sorted)
    (stands : Place source (.basic kind) location)
    (free : Place target (.basic kind) found)
    (writable : found.region ≠ .constant) :
    ∃ after,
      writeBlock target (memory.block source (Ty.basic kind).slotCount) memory =
      .ok () after := by
  refine ⟨_, writeBlock_eq_fill memory writable rfl ?_⟩
  intro index value kept member keptMember
  rw [member] at keptMember
  cases keptMember
  have inside : index < (Ty.basic kind).slotCount := by
    have listed := (List.getElem?_eq_some_iff.mp member).1
    rwa [length_block] at listed
  rw [getElem?_block inside] at member
  cases member
  obtain ⟨_, slotLocated, _, slotKind⟩ := stands.slot inside
  obtain ⟨other, otherLocated, sameRegion, otherKind⟩ := free.slot inside
  obtain ⟨value, read, element⟩ := sorted.read slotLocated
  rw [read_eq slotLocated] at read
  cases read
  refine ⟨other, otherLocated, sameRegion, ?_⟩
  rw [otherKind, ← slotKind, ← element]
  exact Value.fit?_element _

/-- A copy that fails has stored nothing. -/
theorem Sorted.copy_error (sorted : memory.Sorted)
    (innerSource : ¬ AtBorder source)
    (innerTarget : ¬ AtBorder target)
    (ran : copy source target memory = .error fault left) :
    left = memory := by
  cases read : memory.readWhole source with
  | error reason =>
    rw [copy_of_unread read] at ran
    cases ran
    rfl
  | ok values =>
    rw [copy_of_read read] at ran
    obtain ⟨location, located, length⟩ := length_of_readWhole read
    cases isObject : location.kind.isObject with
    | false =>
      have single : values.length = 1 := by
        rw [length, location.width_eq, Element.slotWidth, isObject]
        rfl
      obtain ⟨value, rfl⟩ := List.length_eq_one_iff.mp single
      rcases writeBlock_cons_error ran with same | ⟨first, _, rest⟩
      · exact same
      · cases rest
    | true =>
      have stands := Place.of_object located isObject innerSource
      rw [readWhole_place stands rfl] at read
      cases read
      obtain ⟨_, whole⟩ :=
        memory.block_eq_cons source (Ty.isList_basic location.kind)
      have failed := ran
      rw [whole] at failed
      rcases writeBlock_cons_error failed with same | ⟨first, wrote, _⟩
      · exact same
      · -- the first slot takes the object, so a block of its kind starts there
        obtain ⟨found, _, foundLocated, writable, fits, _⟩ := write_ok wrote
        obtain ⟨value, readFirst, element⟩ := sorted.read located
        rw [read_eq located] at readFirst
        cases readFirst
        have sameKind : found.kind = location.kind := by
          rcases Value.element_of_fits fits with same | isInt
          · rw [← same, element]
          · rw [element] at isInt
            rw [isInt] at isObject
            cases isObject
        have free := Place.of_object foundLocated (sameKind ▸ isObject)
          innerTarget
        rw [sameKind] at free
        obtain ⟨_, stored⟩ := sorted.writeBlock_object stands free writable
        rw [stored] at ran
        cases ran

end Memory

/-! ## Computations that fail before they change anything -/

namespace Exec

/-- A computation that fails on a machine leaves it as it was. -/
def FailsUnchanged (machine : Machine) (action : Exec α) : Prop :=
  ∀ fault left, action machine = .error fault left → left = machine

namespace FailsUnchanged

variable {machine : Machine} {quad : Quad}

theorem storing {update : Storing α}
    (unchanged : ∀ fault left, update machine.memory = .error fault left →
      left = machine.memory) :
    FailsUnchanged machine (storing update) := by
  intro fault left ran
  unfold Exec.storing at ran
  cases updated : update machine.memory with
  | ok value memory =>
    rw [updated] at ran
    cases ran
  | error reason memory =>
    rw [updated] at ran
    obtain ⟨_, rfl⟩ := EStateM.Result.error.inj ran
    rw [unchanged reason memory updated]

/-- Copies are what an instruction can fail at halfway. -/
theorem of_acts {action : Exec α}
    (acts : Acts machine quad action)
    (sorted : machine.Sorted)
    (inner : ∀ source target, machine.Copies quad source target →
      ¬ AtBorder source ∧ ¬ AtBorder target) :
    FailsUnchanged machine action := by
  induction acts with
  | reads made =>
    intro fault left ran
    obtain ⟨value, read⟩ | ⟨reason, read⟩ := made.runs machine <;>
      cases read.symm.trans ran
    rfl
  | bind made _ after =>
    intro fault left ran
    simp only [Bind.bind, EStateM.bind] at ran
    obtain ⟨value, read⟩ | ⟨reason, read⟩ := made.runs machine
    · rw [read] at ran
      exact after value read fault left ran
    · rw [read] at ran
      cases ran
      rfl
  | @returns _ _ action _ value before =>
    intro fault left ran
    simp only [Bind.bind, EStateM.bind] at ran
    cases first : action machine with
    | error reason stopped =>
      rw [first] at ran
      cases ran
      exact before fault left first
    | ok done reached =>
      rw [first] at ran
      cases ran
  | store => exact storing fun _ _ failed => Memory.write_error failed
  | copy copies =>
    exact storing fun _ _ failed =>
      sorted.memory.copy_error (inner _ _ copies).1 (inner _ _ copies).2 failed
  | clear => exact storing fun _ _ failed => Memory.clear_error failed
  | modify =>
    intro fault left ran
    rw [modify_run] at ran
    cases ran

theorem execute (sorted : machine.Sorted)
    (notCall : quad.operation ≠ .call)
    (notReturn : quad.operation ≠ .ret)
    (inner : ∀ source target, machine.Copies quad source target →
      ¬ AtBorder source ∧ ¬ AtBorder target) :
    FailsUnchanged machine (execute quad) :=
  of_acts (.execute notCall notReturn) sorted inner

end FailsUnchanged

end Exec

/--
An instruction that fails changes nothing.  Let a machine be loaded with any
program and execute any instructions in any order, whether they succeed or
fail.  If any further instruction that is no call and no return fails, the
machine is left as it was: its memory, its position, its active and announced
calls with the arguments passed so far, and what was written and drawn.  A copy
is excepted only where its source or its target is the last slot of a segment
of objects.
-/
theorem Machine.unchanged_of_error {executable : Executable} {screen : Screen}
    {start machine after : Machine} {quad : Quad} {fault : Fault}
    (loaded : load executable screen = .ok start)
    (becomes : start.Becomes machine)
    (notCall : quad.operation ≠ .call)
    (notReturn : quad.operation ≠ .ret)
    (inner : ∀ source target, machine.Copies quad source target →
      ¬ AtBorder source ∧ ¬ AtBorder target)
    (failed : Exec.execute quad machine = .error fault after) :
    after = machine :=
  Exec.FailsUnchanged.execute (becomes.sorted loaded) notCall notReturn inner
    fault after failed

/-- Inside a call, a square is to be copied to the place of a circle. -/
theorem Machine.unchanged_of_error_copied :
    let inside := (nestedCalls.start.runFor 4).session.machine
    inside.frames.length = 2 ∧
      ∃ fault, Exec.execute ⟨.assign, 15000, -1, 16000⟩ inside =
        .error fault inside := by
  intro inside
  have loaded : Machine.load nestedCalls {} =
    .ok nestedCalls.start.machine := rfl
  have refused :
      ((Exec.execute ⟨.assign, 15000, -1, 16000⟩).yields? inside).isNone := by
    decide +kernel
  refine ⟨by decide +kernel, ?_⟩
  cases ran : Exec.execute ⟨.assign, 15000, -1, 16000⟩ inside with
  | ok outcome after => simp [Exec.yields?, ran] at refused
  | error fault after =>
    have inner : ∀ source target,
        inside.Copies ⟨.assign, 15000, -1, 16000⟩ source target →
          ¬ AtBorder source ∧ ¬ AtBorder target := by
      have first : locate? 15000 = some ⟨.local, .square, 0⟩ := by decide
      have second : locate? 16000 = some ⟨.local, .circle, 0⟩ := by decide
      rintro _ _ (_ | ⟨⟨⟩, _⟩ | ⟨⟨⟩, _⟩)
      simp [AtBorder, first, second]
    have same := unchanged_of_error loaded
      (nestedCalls.start.becomes_of_runFor 4) (by decide) (by decide) inner ran
    exact ⟨fault, by rw [same]⟩

end Easel
