import Easel.Proofs.Code.Calls
import Easel.Proofs.Code.Fields
import Easel.Proofs.Code.Operands
import Mathlib.Data.List.Forall2

/-!
# Pieces of generated code

A piece of code is generated for a position, takes temporaries and literals,
and leaves one link for every call in it, in the order of the calls.  Its
fields fit an instruction, apart from the positions to which its jumps lead.
It is installed in an image if the image has its quadruples at that position,
with the fields of its calls filled in.  All of this follows the concatenation
of pieces, and none of it depends on where variables lie.
-/

namespace Easel

variable {type : Ty} {position target : Nat} {quad : Quad} {name : String}
variable {rest : List Quad}

namespace Draft

def temps (draft : Draft) : Element → Nat :=
  draft.space.count .temp

/-- The temporaries and literals that were handed out are in order. -/
structure Sound (draft : Draft) : Prop where
  temps : draft.space.ValidIn .temp
  constants : draft.space.ValidIn .constant
  literals : draft.space.Literals
  solid : ∀ constant ∈ draft.space.constants, Text.Solid constant.text.toList

/-- An image has the literals and the links of a draft. -/
structure Within (draft : Draft) (image : Image) : Prop where
  constants : ∀ constant ∈ draft.space.constants, constant ∈ image.constants
  links : ∀ link ∈ draft.links, link ∈ image.links

/-- The point at which a piece of code for a position starts. -/
def point (draft : Draft) (position : Nat) : Point :=
  ⟨position, draft.temps⟩

@[grind =]
theorem point_position (draft : Draft) (position : Nat) :
    (draft.point position).position = position :=
  rfl

/-- A draft before and after requests for storage. -/
structure Extends (draft left : Draft) : Prop where
  sound : left.Sound
  constants : draft.space.constants <+: left.space.constants
  links : left.links = draft.links

theorem Sound.extends {draft : Draft} (sound : draft.Sound) :
    draft.Extends draft :=
  ⟨sound, List.prefix_refl _, rfl⟩

theorem Extends.within {draft left : Draft} {image : Image}
    (further : draft.Extends left)
    (within : left.Within image) :
    draft.Within image :=
  ⟨fun constant member =>
    within.constants constant (further.constants.subset member),
    further.links ▸ within.links⟩

/-- No temporary is in use at the start of a function. -/
theorem Sound.reset {draft : Draft} (sound : draft.Sound) :
    draft.Extends { draft with space := draft.space.reset .temp } := by
  have kept : (draft.space.reset .temp).used .constant = draft.space.used
      .constant := by
    rw [Space.reset_used, if_neg (by decide)]
  exact ⟨⟨draft.space.validIn_reset .temp, sound.constants.congr kept,
    sound.literals.of_constants rfl (Space.count_congr kept), sound.solid⟩,
    List.prefix_refl _, rfl⟩

end Draft

/-! ## Pieces -/

/-- The fields of a quadruple: its jumps lead to `targets`, calls wait. -/
structure Quad.Fits (targets : Nat → Prop) (quad : Quad) : Prop where
  left : quad.left.Narrow
  right : quad.right.Narrow
  result : quad.operation.isJump = false → quad.result.Narrow
  jumps : quad.operation.isJump = true → ∃ target : Nat, quad.result = target ∧
    targets target
  waits : quad.operation = .call → quad.left = .unused

/--
What generating `code` for the position `start` does to a draft.  The jumps of
the code lead to `targets` and its calls are calls of `calls`, each of which is
one of `functions` and has a temporary for its result.
-/
structure Emitted (functions : Table Routine)
    (targets : Nat → Prop)
    (start : Nat)
    (code : List Quad)
    (calls : List String)
    (draft left : Draft) : Prop where
  sound : left.Sound
  constants : draft.space.constants <+: left.space.constants
  links : ∃ added, left.links = draft.links ++ added ∧
    added.map (·.index) = callSites start code ∧ added.map (·.target) = calls ∧
    ∀ link ∈ added, link.field = .left
  quads : ∀ quad ∈ code, quad.Fits targets
  results : List.Forall₂ (fun quad name => ∃ routine,
    functions.find? name = some routine ∧ Receives routine.returns quad.result)
    (callQuads code) calls

/-- What stands in the one list belongs to something in the other. -/
theorem exists_of_forall₂ {related : α → β → Prop} {first : List α}
    {second : List β} {item : α}
    (all : List.Forall₂ related first second)
    (member : item ∈ first) :
    ∃ other ∈ second, related item other := by
  induction all with
  | nil => cases member
  | cons here _ ih =>
    rcases List.mem_cons.mp member with rfl | later
    · exact ⟨_, List.mem_cons_self, here⟩
    · obtain ⟨other, inSecond, holds⟩ := ih later
      exact ⟨other, List.mem_cons_of_mem _ inSecond, holds⟩

theorem Receives.narrow {address : Address} (receives : Receives type address) :
    address.Narrow := by
  rcases receives with ⟨_, rfl⟩ | ⟨_, _, place, _⟩
  · exact Address.narrow_unused
  · exact Executable.narrow_of_locate? place.located

namespace Emitted

variable {functions : Table Routine} {targets : Nat → Prop} {start : Nat}
  {code : List Quad}
variable {calls : List String} {draft between left : Draft}

theorem nothing (further : draft.Extends left) :
    Emitted functions targets start [] [] draft left where
  sound := further.sound
  constants := further.constants
  links := ⟨[], by simp [further.links], rfl, rfl, by simp⟩
  quads := by simp
  results := .nil

section

variable (before : Emitted functions targets start code calls draft between)
  (joined : start + code.length = position)
include before joined

theorem append {second : List Quad} {others : List String}
    (after : Emitted functions targets position second others between left) :
    Emitted functions targets start (code ++ second) (calls ++ others)
      draft left := by
  obtain ⟨added, links, sites, names, fields⟩ := before.links
  obtain ⟨more, moreLinks, moreSites, moreNames, moreFields⟩ := after.links
  refine ⟨after.sound, before.constants.trans after.constants,
    ⟨added ++ more, ?_, ?_, ?_, ?_⟩,
    List.forall_mem_append.mpr ⟨before.quads, after.quads⟩, ?_⟩
  · rw [moreLinks, links, List.append_assoc]
  · rw [List.map_append, sites, moreSites, callSites_append, joined]
  · rw [List.map_append, names, moreNames]
  · exact List.forall_mem_append.mpr ⟨fields, moreFields⟩
  · rw [callQuads, List.filter_append]
    exact List.rel_append before.results after.results

theorem more {second : List Quad}
    (after : Emitted functions targets position second [] between left) :
    Emitted functions targets start (code ++ second) calls draft left := by
  have both := before.append joined after
  rwa [List.append_nil] at both

end

theorem mono {wider : Nat → Prop}
    (emitted : Emitted functions targets start code calls draft left)
    (imp : ∀ target, targets target → wider target) :
    Emitted functions wider start code calls draft left where
  sound := emitted.sound
  constants := emitted.constants
  links := emitted.links
  quads quad member :=
    have fits := emitted.quads quad member
    { fits with
      jumps := fun isJump =>
        have ⟨target, leads, inside⟩ := fits.jumps isJump
        ⟨target, leads, imp target inside⟩ }
  results := emitted.results

theorem snoc (before : Emitted functions targets start code calls draft between)
    (further : between.Extends left)
    (fits : quad.Fits targets)
    (notCall : quad.operation ≠ .call) :
    Emitted functions targets start (code ++ [quad]) calls draft left := by
  refine before.more rfl ⟨further.sound, further.constants,
    ⟨[], ?_, ?_, rfl, by simp⟩,
    by simpa, ?_⟩
  · simp [further.links]
  · simp [callSites, notCall]
  · simp [callQuads, notCall]

theorem straight
    (before : Emitted functions targets start code calls draft between)
    (further : between.Extends left)
    (isStraight : quad.operation.isStraight = true)
    (narrow : quad.Narrow) :
    Emitted functions targets start (code ++ [quad]) calls draft left := by
  have notCall := Operation.ne_call_of_straight isStraight
  refine before.snoc further ⟨narrow.left, narrow.right, fun _ => narrow.result,
    ?_, ?_⟩ notCall
  · intro isJump
    rw [Operation.not_jump_of_straight isStraight] at isJump
    cases isJump
  · exact fun isCall => absurd isCall notCall

theorem jump (before : Emitted functions targets start code calls draft left)
    (inside : targets target) :
    Emitted functions targets start (code ++ [Context.jump target])
      calls draft left :=
  before.snoc before.sound.extends ⟨Address.narrow_unused,
    Address.narrow_unused, nofun, fun _ => ⟨target, rfl, inside⟩, nofun⟩ nofun

theorem jumpUnless {value : Operand}
    (before : Emitted functions targets start code calls draft left)
    (narrow : value.address.Narrow)
    (inside : targets target) :
    Emitted functions targets start (code ++ [Context.jumpUnless value target])
      calls draft left :=
  before.snoc before.sound.extends ⟨narrow, Address.narrow_unused, nofun,
    fun _ => ⟨target, rfl, inside⟩, nofun⟩ nofun

/-- A call, which takes a link that waits for the position of its function. -/
theorem call {last : Draft} {routine : Routine} {result : Address}
    (before : Emitted functions targets start code calls draft between)
    (further : between.Extends last)
    (joined : start + code.length = position)
    (known : functions.find? name = some routine)
    (receives : Receives routine.returns result) :
    Emitted functions targets start
      (code ++ [⟨.call, .unused, .unused, result⟩]) (calls ++ [name]) draft
      { last with links := last.links ++ [⟨position, .left, name⟩] } := by
  have sound := further.sound
  refine before.append joined
    ⟨⟨sound.temps, sound.constants, sound.literals, sound.solid⟩,
      further.constants, ⟨[⟨position, .left, name⟩], ?_, rfl, rfl, by simp⟩,
      ?_, ?_⟩
  · rw [further.links]
  · simp only [List.mem_singleton, forall_eq]
    exact ⟨Address.narrow_unused, Address.narrow_unused, fun _ =>
      receives.narrow, nofun, fun _ => rfl⟩
  · exact .cons ⟨routine, known, receives⟩ .nil

/-- Whatever is called is one of the functions. -/
theorem known (emitted : Emitted functions targets start code calls draft left)
    (called : name ∈ calls) :
    ∃ routine, functions.find? name = some routine := by
  obtain ⟨_, _, routine, found, _⟩ :=
    exists_of_forall₂ emitted.results.flip called
  exact ⟨routine, found⟩

theorem within {image : Image}
    (emitted : Emitted functions targets start code calls draft left)
    (within : left.Within image) :
    draft.Within image := by
  obtain ⟨_, links, _⟩ := emitted.links
  constructor
  · intro constant member
    exact within.constants constant (emitted.constants.subset member)
  · intro link member
    refine within.links link ?_
    rw [links]
    exact List.mem_append_left _ member

end Emitted

/-- An image has a piece of code at a position, with its calls filled in. -/
structure Installed (image : Image) (start : Nat) (code : List Quad) :
    Prop where
  plain : ∀ (index : Nat) (quad : Quad), code[index]? = some quad →
    quad.operation ≠ .call → image.Has (start + index) quad
  calls : ∀ (index : Nat) (quad : Quad), code[index]? = some quad →
    quad.operation = .call → ∀ link ∈ image.links, link.index = start + index →
      ∃ entry, image.entryOf link.target = some entry ∧
        image.Has (start + index) { quad with left := entry }

namespace Installed

variable {image : Image} {start : Nat} {first second : List Quad}

section

variable (installed : Installed image start (first ++ second))
include installed

theorem left : Installed image start first := by
  constructor
  · intro index quad found
    refine installed.plain index quad ?_
    rw [List.getElem?_append_left (List.getElem?_eq_some_iff.mp found).1]
    exact found
  · intro index quad found
    refine installed.calls index quad ?_
    rw [List.getElem?_append_left (List.getElem?_eq_some_iff.mp found).1]
    exact found

theorem right : Installed image (start + first.length) second := by
  have shifted : ∀ (index : Nat), (first ++ second)[first.length + index]? =
      second[index]? := by
    intro index
    rw [List.getElem?_append_right (Nat.le_add_right _ _),
      Nat.add_sub_cancel_left]
  constructor
  · intro index quad found
    rw [Nat.add_assoc]
    exact installed.plain _ quad (by rw [shifted, found])
  · intro index quad found
    rw [Nat.add_assoc]
    exact installed.calls _ quad (by rw [shifted, found])

/-- The second piece of code stands where the first one ends. -/
theorem behind (joined : start + first.length = position) :
    Installed image position second :=
  joined ▸ installed.right

end

theorem head (installed : Installed image start (quad :: rest))
    (plain : quad.operation ≠ .call) :
    image.Has start quad :=
  installed.plain 0 quad rfl plain

theorem tail (installed : Installed image start (quad :: rest)) :
    Installed image (start + 1) rest := by
  have split : Installed image start ([quad] ++ rest) := installed
  exact split.right

end Installed

namespace Gen

theorem allocate_yields
    {request : Space → Except CompileError (Address × Space)} {draft : Draft}
    {post : Address → Draft → Prop}
    (exhausts : OnlyExhausts (request draft.space))
    (granted : ∀ address space, request draft.space = .ok (address, space) →
      post address { draft with space }) :
    Yields (allocate request draft) post := by
  constructor
  · unfold allocate
    exact .bindRun (.ok _) fun _ _ ran => by
      cases ran
      exact .bindRun (exhausts.bind fun _ _ => .ok _) fun _ _ _ => .ok _
  · intro address left ran
    simp only [allocate, Threaded.get_bind, Threaded.bind_eq_ok,
      Threaded.lift_eq_ok, Threaded.set_bind, Threaded.pure_eq_ok, and_assoc,
      exists_and_left, exists_eq_left] at ran
    obtain ⟨⟨_, space⟩, works, rfl, rfl⟩ := ran
    exact granted address space works

theorem temp_yields {draft : Draft}
    (sound : draft.Sound)
    (single : type.isList = false) :
    Yields (temp type draft) fun address left =>
      Space.Fresh draft.temps type address left.temps ∧ Receives type address ∧
        draft.Extends left := by
  refine allocate_yields (draft.space.nextTemp_exhausts single)
    fun address space granted => ?_
  have small : type.slotCount ≤ segmentSize := by
    rw [Ty.slotCount_of_single single]
    cases type.element <;> decide
  obtain ⟨fresh, valid, constants, others⟩ :=
    Space.nextTemp_ok sound.temps small granted
  have kept := others .constant (by decide)
  have aligned : (draft.point 0).Aligned := sound.temps.aligned
  refine ⟨fresh, fresh.receives aligned single,
    ⟨valid, sound.constants.congr kept, ?_, ?_⟩, ?_, rfl⟩
  · exact sound.literals.of_constants constants (Space.count_congr kept)
  · rw [constants]
    exact sound.solid
  · exact ⟨[], by rw [List.append_nil]; exact constants.symm⟩

theorem constant_yields {value : Literal} {draft : Draft}
    (sound : draft.Sound) :
    Yields (constant value draft) fun address left =>
      ⟨value.text, value.element, address⟩ ∈ left.space.constants ∧
        left.temps = draft.temps ∧ draft.Extends left ∧
        ∀ constant ∈ left.space.constants, constant ∈ draft.space.constants ∨
          (constant.text = value.text ∧ constant.element = value.element) := by
  have stored : value.element ≠ .void := by
    cases value <;> exact nofun
  have scalar : value.element.isObject = false := by
    cases value <;> rfl
  refine allocate_yields (draft.space.intern_exhausts value.text stored)
    fun address space granted => ?_
  obtain ⟨member, valid, literals, ⟨added, constants, texts⟩, others⟩ :=
    Space.intern_ok sound.constants sound.literals scalar granted
  have kept := others .temp (by decide)
  refine ⟨member, Space.count_congr kept,
    ⟨⟨sound.temps.congr kept, valid, literals, ?_⟩, ⟨added, constants.symm⟩,
      rfl⟩, ?_⟩
  · dsimp only
    rw [constants]
    refine List.forall_mem_append.mpr ⟨sound.solid, fun constant isAdded => ?_⟩
    rw [(texts constant isAdded).1]
    exact value.solid_text
  · dsimp only
    rw [constants]
    exact List.forall_mem_append.mpr ⟨fun _ => .inl, fun constant isAdded =>
      .inr (texts constant isAdded)⟩

end Gen

end Easel
