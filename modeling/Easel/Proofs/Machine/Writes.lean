import Easel.Proofs.Lockstep.Agreement
import Easel.Proofs.Session.CallerFrame

/-!
# The slots that an instruction writes

An instruction that is neither a call nor a return writes the slot of its
result, the slots that it copies a value to, or the slots of the variable that
it declares.  Every other slot holds afterwards what it held before, whether
the instruction succeeds or fails, and whatever the slots hold.
-/

namespace Easel

namespace Memory

/-- Two memories differ at most in a set of slots. -/
def ChangesOnly (slots : Slots) (before after : Memory) : Prop :=
  ∀ slot, ¬ slots slot →
    ∀ region, (after.bank region)[slot]? = (before.bank region)[slot]?

namespace ChangesOnly

variable {slots wider : Slots} {first second third : Memory}

theorem refl (slots : Slots) (memory : Memory) :
    ChangesOnly slots memory memory :=
  fun _ _ _ => rfl

theorem trans (before : ChangesOnly slots first second)
    (after : ChangesOnly slots second third) :
    ChangesOnly slots first third := fun slot outside region =>
  (after slot outside region).trans (before slot outside region)

theorem mono (changes : ChangesOnly slots first second)
    (within : slots.Within wider) :
    ChangesOnly wider first second := fun slot outside =>
  changes slot fun inside => outside (within slot inside)

theorem contents {slot : Address}
    (changes : ChangesOnly slots first second)
    (outside : ¬ slots slot) :
    second.contents slot = first.contents slot := by
  cases located : locate? slot with
  | none => simp only [Memory.contents, located]
  | some location =>
    exact contents_congr located (changes slot outside location.region)

end ChangesOnly

end Memory

/-- Slots outside of a range lie before or behind it. -/
theorem Slots.outside_range {address slot : Address} {count : Nat}
    (outside : ¬ Slots.range address count slot) :
    slot < address ∨ address + count ≤ slot := by
  by_cases below : slot < address
  · exact .inl below
  · by_cases behind : address + count ≤ slot
    · exact .inr behind
    · refine absurd ⟨(slot - address).toNat, ?_, ?_⟩ outside
      · unfold Address at *
        omega
      · unfold Address at *
        omega

theorem Memory.changesOnly_fill (memory : Memory)
    (region : Region)
    (address : Address)
    (values : List Value) :
    ChangesOnly (.range address values.length) memory
      (memory.fill region address values) :=
  fun _ outside _ =>
    Memory.bank_fill_outside (.inr (Slots.outside_range outside))

theorem Slots.range_one (address : Address) : Slots.range address 1 address :=
  ⟨0, Nat.one_pos, by simp⟩

/-- The number of slots of the value that starts at an address. -/
def widthAt (address : Address) : Nat :=
  ((locate? address).map Location.width).getD 0

/-- Whether an operation leaves a single value in the slot of its result. -/
def Operation.isResult : Operation → Bool
  | .add | .sub | .mult | .div | .less | .greater | .equal | .and | .or | .not
  | .pow | .sqrt
  | .addAddress | .keyPressed | .checkCollision => true
  | _ => false

/-- A slot of the machine names an address. -/
def Machine.Points (machine : Machine) (slot target : Address) : Prop :=
  Exec.fetchPointer slot machine = .ok target machine

/-- The number of slots that a declaration returns to zero. -/
def declaredLength (count code : Address) : Nat :=
  ((Element.ofCode? code).map fun element =>
    blockLength (max count.toNat 1 * element.slotWidth)).getD 0

/-- The slots that an instruction writes, if it is no call and no return. -/
def Machine.writes (machine : Machine) (quad : Quad) : Slots := fun slot =>
  (quad.operation.isResult = true ∧ slot = quad.result) ∨
  (quad.operation = .assign ∧
    Slots.range quad.result (widthAt quad.left) slot) ∨
  (quad.operation = .assignIndex ∧ ∃ target, machine.Points quad.result target ∧
    Slots.range target (widthAt quad.left) slot) ∨
  (quad.operation = .assignIndexInverse ∧
    ∃ source, machine.Points quad.left source ∧
    Slots.range quad.result (widthAt source) slot) ∨
  (quad.operation = .init ∧
    Slots.range quad.left (declaredLength quad.right quad.result) slot)

/-- The slots between which an instruction copies a value. -/
inductive Machine.Copies (machine : Machine) (quad : Quad) :
    Address → Address → Prop where
  | assign (isAssign : quad.operation = .assign) :
      Copies machine quad quad.left quad.result
  | assignIndex {target : Address} (isAssign : quad.operation = .assignIndex)
      (points : machine.Points quad.result target) :
        Copies machine quad quad.left target
  | assignIndexInverse {source : Address}
      (isAssign : quad.operation = .assignIndexInverse)
      (points : machine.Points quad.left source) :
      Copies machine quad source quad.result

theorem Machine.Copies.writes {machine : Machine} {quad : Quad}
    {source target : Address}
    (copies : machine.Copies quad source target) :
    (Slots.range target (widthAt source)).Within (machine.writes quad) := by
  intro slot member
  cases copies with
  | assign isAssign => exact .inr (.inl ⟨isAssign, member⟩)
  | assignIndex isAssign points =>
    exact .inr (.inr (.inl ⟨isAssign, target, points, member⟩))
  | assignIndexInverse isAssign points =>
    exact .inr (.inr (.inr (.inl ⟨isAssign, source, points, member⟩)))

namespace Exec

/-- A computation changes at most the given slots of a machine. -/
def KeepsAt (slots : Slots) (machine : Machine) (action : Exec α) : Prop :=
  Memory.ChangesOnly slots machine.memory (action.leaves machine).memory

/-- A computation that writes and calls nothing keeps every machine. -/
theorem Made.runs {action : Exec α}
    (made : Made false false action)
    (machine : Machine) :
    (∃ value, action machine = .ok value machine) ∨
      ∃ fault, action machine = .error fault machine := by
  induction made with
  | pure value => exact .inl ⟨value, rfl⟩
  | get => exact .inl ⟨machine, rfl⟩
  | throw => exact .inr ⟨_, rfl⟩
  | bind _ _ before after =>
    simp only [Bind.bind, EStateM.bind]
    obtain ⟨value, ran⟩ | ⟨fault, ran⟩ := before
    · rw [ran]
      exact after value
    · rw [ran]
      exact .inr ⟨fault, rfl⟩
  | store allowed | clear allowed | onScreen _ allowed | rearrange allowed =>
    cases allowed

/-! ## Storing -/

section

variable {slots : Slots} {machine : Machine} {address : Address}

theorem write_keeps (machine : Machine)
    (value : Value)
    (inside : slots address) :
    KeepsAt slots machine (storing (Memory.write address value)) := by
  unfold KeepsAt leaves storing
  cases ran : Memory.write address value machine.memory with
  | ok done memory =>
    obtain ⟨_, _, _, _, _, rfl⟩ := Memory.write_ok ran
    intro slot outside region
    dsimp only
    rw [Memory.bank_assign, if_neg]
    rintro ⟨_, rfl⟩
    exact outside inside
  | error fault memory =>
    rw [Memory.write_error ran]
    exact .refl slots machine.memory

theorem writeBlock_keeps {values : List Value}
    (machine : Machine)
    (inside : (Slots.range address values.length).Within slots) :
    KeepsAt slots machine (storing (Memory.writeBlock address values)) := by
  induction values generalizing machine address with
  | nil => exact .refl slots machine.memory
  | cons value values induction =>
    have first : slots address := inside address ⟨0, Nat.succ_pos _, by simp⟩
    have rest : (Slots.range (address + 1) values.length).Within slots := by
      have later := @Slots.range_within address 1 values.length
        (values.length + 1) (by omega)
      exact later.trans inside
    have wrote := write_keeps machine value first
    unfold KeepsAt at wrote
    rw [Memory.writeBlock, storing_bind]
    unfold KeepsAt
    simp only [leaves, bind, EStateM.bind] at wrote ⊢
    cases ran : storing (Memory.write address value) machine with
    | ok done left =>
      rw [ran] at wrote
      exact wrote.trans (induction left rest)
    | error fault left =>
      rw [ran] at wrote
      exact wrote

/-- As many slots are copied as the value has that starts at the source. -/
theorem copy_keeps {source : Address}
    (machine : Machine)
    (inside : (Slots.range address (widthAt source)).Within slots) :
    KeepsAt slots machine (storing (Memory.copy source address)) := by
  cases read : machine.memory.readWhole source with
  | ok values =>
    obtain ⟨_, located, length⟩ := Memory.length_of_readWhole read
    have width : widthAt source = values.length := by
      simp [widthAt, located, length]
    rw [width] at inside
    have copies : leaves (storing (Memory.copy source address)) machine =
        leaves (storing (Memory.writeBlock address values)) machine := by
      simp only [leaves, storing, Memory.copy_of_read read]
    unfold KeepsAt
    rw [copies]
    exact writeBlock_keeps machine inside
  | error fault =>
    unfold KeepsAt leaves storing
    rw [Memory.copy_of_unread read]
    exact .refl slots machine.memory

theorem clear_keeps {count : Nat}
    (machine : Machine)
    (inside : (Slots.range address (blockLength count)).Within slots) :
    KeepsAt slots machine (storing (Memory.clear address count)) := by
  unfold KeepsAt leaves storing
  cases ran : Memory.clear address count machine.memory with
  | error fault memory =>
    rw [Memory.clear_error ran]
    exact .refl slots machine.memory
  | ok done memory =>
    unfold Memory.clear at ran
    cases located : locateWritable address with
    | error fault =>
      simp [located, bind, EStateM.bind, MonadExcept.ofExcept, throw_run] at ran
    | ok location =>
      simp only [located, bind, EStateM.bind, MonadExcept.ofExcept,
        pure, EStateM.pure, modify_run, EStateM.Result.ok.injEq] at ran
      obtain ⟨_, rfl⟩ := ran
      intro slot outside region
      have kept := Memory.bank_erase machine.memory location.region
        region address slot (blockLength count)
      rw [if_neg] at kept
      · exact kept
      · rintro ⟨_, above, below⟩
        rcases Slots.outside_range fun member =>
            outside (inside slot member) with
          before | behind
        · exact absurd above (Int.not_le.mpr before)
        · exact absurd below (Int.not_lt.mpr behind)

end

/-! ## Instructions -/

/--
A computation that reads and then makes at most one change, which is one that
the instruction makes on the machine.
-/
inductive Acts (machine : Machine) (quad : Quad) :
    {α : Type} → Exec α → Prop where
  | reads {action : Exec α} (made : Made false false action) :
      Acts machine quad action
  | bind {action : Exec α} {next : α → Exec β} (made : Made false false action)
      (after : ∀ value, action machine = .ok value machine →
        Acts machine quad (next value)) :
      Acts machine quad (action >>= next)
  | returns {action : Exec α} (acts : Acts machine quad action) (value : β) :
      Acts machine quad (action >>= fun _ => pure value)
  | store {address : Address} {value : Value}
      (inside : machine.writes quad address) :
      Acts machine quad (store address value)
  | copy {source target : Address}
      (copies : machine.Copies quad source target) :
      Acts machine quad (storing (Memory.copy source target))
  | clear {address : Address} {count : Nat}
      (inside : (Slots.range address (blockLength count)).Within
        (machine.writes quad)) :
      Acts machine quad (storing (Memory.clear address count))
  | modify {change : Machine → Machine}
      (same : ∀ machine : Machine, (change machine).memory =
        machine.memory := by intros; rfl) :
      Acts machine quad (modify change)

namespace Acts

variable {machine : Machine} {quad : Quad}

theorem move : Acts machine quad (move quad) := by
  unfold Exec.move
  split
  case h_1 isAssign => exact .returns (.copy (.assign isAssign)) _
  case h_2 isAssign =>
    exact .bind .fetchPointer fun target points =>
      .returns (.copy (.assignIndex isAssign points)) _
  case h_3 isAssign =>
    exact .bind .fetchPointer fun source points =>
      .returns (.copy (.assignIndexInverse isAssign points)) _
  case h_4 isAdd =>
    refine .returns (.bind .fetchInteger fun _ _ => .bind (.ofExcept .locate)
      fun _ _ => ?_) _
    exact .store (.inl ⟨by rw [isAdd]; rfl, rfl⟩)
  case h_5 => exact .returns (.reads .checkIndex) _
  case h_6 isInit =>
    refine .returns ?_ _
    unfold declare
    split
    · exact .reads (.throw rfl)
    · rename_i element known
      refine .clear fun slot member => .inr (.inr (.inr (.inr ⟨isInit, ?_⟩)))
      rwa [declaredLength, known, Option.map_some, Option.getD_some]
  case h_7 => exact .returns (.reads (.throw rfl)) _

theorem interact : Acts machine quad (interact quad) := by
  unfold Exec.interact
  split
  case h_1 => exact .bind .printed fun _ _ => .returns .modify _
  case h_2 => exact .bind .fetchDrawing fun _ _ => .returns .modify _
  case h_3 | h_4 => exact .returns .modify _
  case h_5 isKey =>
    exact .bind .fetch fun _ _ => .bind (.ofExcept (.expect _)) fun _ _ =>
        .bind .get fun _ _ =>
      .returns (.store (.inl ⟨by rw [isKey]; rfl, rfl⟩)) _
  case h_6 isCheck =>
    exact .bind .fetchDrawing fun _ _ => .bind .fetchDrawing fun _ _ =>
      .returns (.store (.inl ⟨by rw [isCheck]; rfl, rfl⟩)) _
  case h_7 => exact .returns (.reads (.throw rfl)) _

theorem pass {address size : Address} :
    Acts machine quad (pass address size) := by
  refine .bind (.ofExcept .locate) fun location _ => .bind .get fun _ _ =>
    .bind (.ofExcept .readBlock) fun values _ => .bind .get fun _ _ => ?_
  split
  · exact .reads (.throw rfl)
  · exact .bind (.ofExcept .stage) fun _ _ => .returns .modify _

/-- An instruction that is no call or return changes the machine once. -/
theorem execute (notCall : quad.operation ≠ .call)
    (notReturn : quad.operation ≠ .ret) :
    Acts machine quad (execute quad) := by
  have calculate (isResult : quad.operation.isResult = true) : Acts machine quad
      (calculate quad) :=
    .bind .evaluate fun _ _ => .returns (.store (.inl ⟨isResult, rfl⟩)) _
  unfold Exec.execute
  split
  case h_1 | h_2 | h_3 => exact .reads .branch
  case h_22 => exact .returns .modify _
  case h_23 => exact pass
  case h_24 isCall => exact (notCall isCall).elim
  case h_25 isReturn => exact (notReturn isReturn).elim
  all_goals
    rename_i operation
    first
      | exact calculate (by rw [operation]; rfl)
      | exact move
      | exact interact

theorem keeps {action : Exec α} (acts : Acts machine quad action) :
    KeepsAt (machine.writes quad) machine action := by
  induction acts with
  | reads made =>
    unfold KeepsAt leaves
    obtain ⟨value, ran⟩ | ⟨fault, ran⟩ := made.runs machine <;> rw [ran] <;>
      exact .refl _ _
  | bind made _ after =>
    unfold KeepsAt leaves at *
    simp only [Bind.bind, EStateM.bind]
    obtain ⟨value, ran⟩ | ⟨fault, ran⟩ := made.runs machine
    · rw [ran]
      exact after value ran
    · rw [ran]
      exact .refl _ _
  | @returns _ _ action _ value keeps =>
    unfold KeepsAt leaves at *
    simp only [Bind.bind, EStateM.bind]
    cases ran : action machine with
    | ok | error =>
      rw [ran] at keeps
      exact keeps
  | store inside => exact write_keeps machine _ inside
  | copy copies => exact copy_keeps machine copies.writes
  | clear inside => exact clear_keeps machine inside
  | modify same =>
    unfold KeepsAt leaves
    simp only [modify_run, same]
    exact .refl _ _

end Acts

/-- An instruction that is no call or return changes what it writes. -/
theorem execute_keeps (machine : Machine) {quad : Quad}
    (notCall : quad.operation ≠ .call)
    (notReturn : quad.operation ≠ .ret) :
    KeepsAt (machine.writes quad) machine (execute quad) :=
  (Acts.execute notCall notReturn).keeps

end Exec

end Easel
