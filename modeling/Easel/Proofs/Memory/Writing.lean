import Easel.Memory
import Easel.Proofs.Machine.Faults
import Easel.Proofs.Success

/-!
# What a write changes

A write that succeeds changes one slot of one region, and a block of writes
changes the slots of the block and nothing else.
-/

namespace Easel

variable {fault : Fault} {count : Nat}

namespace Memory

variable {memory left : Memory} {address : Address} {value : Value}
  {values : List Value}

/-- Memory in which one slot of a region holds a given value. -/
def assign (memory : Memory)
    (region : Region)
    (address : Address)
    (value : Value) : Memory :=
  memory.setBank region ((memory.bank region).insert address value)

theorem bank_assign (memory : Memory)
    (region other : Region)
    (address slot : Address)
    (value : Value) :
    ((memory.assign region address value).bank other)[slot]? =
      if other = region ∧ slot = address then some value
        else (memory.bank other)[slot]? := by
  rw [assign, bank_setBank]
  by_cases sameRegion : other = region
  · subst other
    by_cases sameSlot : slot = address
    · subst slot
      simp
    · have different : ¬ address = slot := fun equal => sameSlot equal.symm
      simp [Std.ExtTreeMap.getElem?_insert, sameSlot, different]
  · simp [sameRegion]

/-- A write on memory where it can be carried out. -/
theorem write_eq {fitted : Value} {location : Location}
    (memory : Memory)
    (located : locate? address = some location)
    (writable : location.region ≠ .constant)
    (fits : value.fit? location.kind = some fitted) :
    write address value memory =
      .ok () (memory.assign location.region address fitted) := by
  simp [write, locateWritable, locate, located, writable, put,
    fits, assign, bind, EStateM.bind, Except.bind, pure, Except.pure,
    MonadExcept.ofExcept, get_run, EStateM.pure, set_run]

/-- A write that fails changes nothing. -/
theorem write_failed (ran : write address value memory = .error fault left) :
    left = memory ∧ fault.isLimit = false := by
  unfold write at ran
  cases located : locateWritable address with
  | error reason =>
    rw [located] at ran
    cases ran
    exact ⟨rfl, Ordinary.locateWritable _ located⟩
  | ok location =>
    cases placed : memory.put address location value with
    | ok changed =>
      simp [located, placed, bind, EStateM.bind, MonadExcept.ofExcept,
        pure, EStateM.pure, get_run, set_run] at ran
    | error reason =>
      simp only [located, placed, bind, EStateM.bind,
        MonadExcept.ofExcept, pure, EStateM.pure, get_run] at ran
      cases ran
      exact ⟨rfl, Ordinary.put _ placed⟩

theorem write_error (ran : write address value memory = .error fault left) :
    left = memory :=
  (write_failed ran).1

/-- What a write that was carried out found, and what it left. -/
theorem write_ok (ran : write address value memory = .ok () left) :
    ∃ location fitted,
      locate? address = some location ∧ location.region ≠ .constant ∧
        value.fit? location.kind = some fitted ∧
        left = memory.assign location.region address fitted := by
  cases located : locate? address with
  | none =>
    simp [write, locateWritable, locate, located, bind,
      EStateM.bind, Except.bind, MonadExcept.ofExcept, throw_run] at ran
  | some location =>
    by_cases writable : location.region = .constant
    · simp [write, locateWritable, locate, located, writable,
        bind, EStateM.bind, Except.bind, MonadExcept.ofExcept, throw_eq_error,
        throw_run] at ran
    · cases fits : value.fit? location.kind with
      | none =>
        simp [write, locateWritable, locate, located, writable, put, fits, bind,
          EStateM.bind, Except.bind, pure, Except.pure, MonadExcept.ofExcept,
          get_run, EStateM.pure, throw_run] at ran
      | some fitted =>
        rw [write_eq memory located writable fits,
          EStateM.Result.ok.injEq] at ran
        exact ⟨location, fitted, rfl, writable, fits, ran.2.symm⟩

theorem writeBlock_cons_ok
    (ran : writeBlock address (value :: values) memory = .ok () left) :
    ∃ first, write address value memory = .ok () first ∧
      writeBlock (address + 1) values first = .ok () left := by
  simp only [writeBlock, bind, EStateM.bind] at ran
  cases wrote : write address value memory with
  | error fault first => simp [wrote] at ran
  | ok done first =>
    rw [wrote] at ran
    exact ⟨first, rfl, ran⟩

/-- A block of writes leaves the slots outside the block alone. -/
theorem bank_writeBlock_outside {slot : Address}
    (region : Region)
    (ran : writeBlock address values memory = .ok () left)
    (outside : slot < address ∨ address + values.length ≤ slot) :
    (left.bank region)[slot]? = (memory.bank region)[slot]? := by
  induction values generalizing address memory with
  | nil =>
    simp only [writeBlock, pure, EStateM.pure, EStateM.Result.ok.injEq] at ran
    rw [ran.2]
  | cons value values induction =>
    obtain ⟨_, wrote, rest⟩ := writeBlock_cons_ok ran
    obtain ⟨_, _, _, _, _, rfl⟩ := write_ok wrote
    simp only [List.length_cons] at outside
    rw [induction rest (by grind), bank_assign, if_neg]
    rintro ⟨_, rfl⟩
    grind

/-- A block of writes leaves a region alone that has none of its slots. -/
theorem bank_writeBlock_elsewhere {region : Region}
    (ran : writeBlock address values memory = .ok () left)
    (elsewhere : ∀ slot location, address ≤ slot →
      locate? slot = some location → region ≠ location.region) :
    left.bank region = memory.bank region := by
  induction values generalizing address memory with
  | nil =>
    simp only [writeBlock, pure, EStateM.pure, EStateM.Result.ok.injEq] at ran
    rw [ran.2]
  | cons value values induction =>
    obtain ⟨_, wrote, rest⟩ := writeBlock_cons_ok ran
    obtain ⟨location, _, located, _, _, rfl⟩ := write_ok wrote
    rw [induction rest fun slot found isLater =>
      elsewhere slot found (by grind), assign, bank_setBank,
      if_neg (elsewhere address location (Int.le_refl _) located)]

/-- A block of writes leaves in each of its slots what fits there. -/
theorem bank_writeBlock_inside {index : Nat}
    (ran : writeBlock address values memory = .ok () left)
    (member : values[index]? = some value) :
    ∃ location fitted,
      locate? (address + index) = some location ∧ location.region ≠ .constant ∧
        value.fit? location.kind = some fitted ∧
        ∀ region, (left.bank region)[address + index]? =
          if region = location.region then some fitted
          else (memory.bank region)[address + index]? := by
  induction values generalizing address memory index with
  | nil => simp at member
  | cons head values induction =>
    obtain ⟨_, wrote, rest⟩ := writeBlock_cons_ok ran
    obtain ⟨location, fitted, located, writable, fits, rfl⟩ := write_ok wrote
    cases index with
    | zero =>
      simp only [List.getElem?_cons_zero, Option.some.injEq] at member
      subst head
      refine ⟨location, fitted, by simpa using located, writable, fits, ?_⟩
      intro region
      rw [bank_writeBlock_outside region rest (by grind), bank_assign]
      simp
    | succ index =>
      have shifted : address + 1 + (index : Int) =
          address + ((index + 1 : Nat) : Int) := by
        grind
      obtain ⟨found, stored, foundLocated, foundWritable, foundFits, banks⟩ :=
        induction rest (by simpa using member)
      rw [shifted] at foundLocated
      refine ⟨found, stored, foundLocated, foundWritable, foundFits, ?_⟩
      intro region
      rw [← shifted, banks region, bank_assign]
      have different : ¬ (address + 1 + (index : Int) = address) := by grind
      simp [different]

theorem copy_of_read {source target : Address}
    (read : memory.readWhole source = .ok values) :
    copy source target memory = writeBlock target values memory := by
  simp only [copy, bind, EStateM.bind, get_run, read,
    MonadExcept.ofExcept, pure, EStateM.pure]

theorem copy_of_unread {source target : Address}
    (read : memory.readWhole source = .error fault) :
    copy source target memory = .error fault memory := by
  simp only [copy, bind, EStateM.bind, get_run, read,
    MonadExcept.ofExcept, throw_run]

theorem clear_failed (ran : clear address count memory = .error fault left) :
    left = memory ∧ fault.isLimit = false := by
  unfold clear at ran
  cases located : locateWritable address with
  | error reason =>
    rw [located] at ran
    cases ran
    exact ⟨rfl, Ordinary.locateWritable _ located⟩
  | ok location =>
    rw [located] at ran
    cases ran

theorem clear_error (ran : clear address count memory = .error fault left) :
    left = memory :=
  (clear_failed ran).1

end Memory

end Easel
