import Easel.Proofs.Code.Assembly

/-!
# Compiled programs survive in object files

Whatever the compiler produces is storable, provided that positions in its
code can be counted in a field, so writing it to an object file and reading
the file gives it back.  The same holds of whatever was read from an object
file before.
-/

namespace Easel

variable {program : Program} {entry : String}

/-- The fields of a program fit if a field can count its positions. -/
theorem Assembly.narrow {placed : Checked} {space : Space} {left : Draft}
    (assembly : Assembly program entry placed space left)
    (stored : StoredEntries placed.globals.entries)
    (short : assembly.image.code.size ≤ 2147483648) :
    ∀ quad ∈ assembly.image.code.toList, quad.Narrow := by
  obtain ⟨length, quads⟩ := emitGlobals_ok assembly.zeroes
  have size : assembly.image.code.size =
      assembly.zeroing.length + 1 +
      (assembly.segments.flatMap (·.code)).length := by
    rw [image, List.size_toArray, List.length_append, List.length_cons]
    omega
  have inside {piece : Piece} (member : piece ∈ assembly.pieces) {target : Nat}
      (below : target < piece.first + piece.code.length) : Address.Narrow
      (target : Int) := by
    have bounds : piece.first +
        (piece.segment assembly.positions).code.length ≤ _ :=
      ((assembly.assembled.follow assembly.positions).bounds
        (List.mem_map_of_mem member)).2
    rw [Piece.segment, length_fillCalls] at bounds
    change _ ≤ _ + (assembly.segments.flatMap (·.code)).length at bounds
    exact Address.narrow_natCast (by omega)
  have position {name : String} {routine : Routine}
      (found : placed.functions.find? name = some routine) :
      (assembly.positions name).Narrow := by
    obtain ⟨piece, member, _, generated, isFirst, _⟩ := assembly.piece found
    obtain ⟨_, _, ends, _⟩ := generated.ends
    rw [isFirst]
    exact inside member
      (by rw [ends, List.length_append, List.length_singleton]; omega)
  intro quad member
  change quad ∈ assembly.zeroing ++ _ :: assembly.segments.flatMap
    (·.code) at member
  rw [List.mem_append, List.mem_cons, List.mem_flatMap] at member
  rcases member with inZeroing | rfl | ⟨_, inSegments, inSegment⟩
  · obtain ⟨index, bound, rfl⟩ := List.mem_iff_getElem.mp inZeroing
    have listed : index < placed.globals.entries.length := length ▸ bound
    obtain ⟨_, hasAddress, isQuad⟩ :=
      quads index _ _ (List.getElem?_eq_getElem listed)
    obtain ⟨_, otherAddress, roomy⟩ := stored _ (List.getElem_mem listed)
    cases hasAddress.symm.trans otherAddress
    rw [List.getElem?_eq_getElem bound, Option.some.injEq] at isQuad
    rw [isQuad]
    exact narrow_initQuad roomy _
  · obtain ⟨_, starts, _⟩ := assembly.starts
    exact Quad.narrow_mk Address.narrow_unused Address.narrow_unused
      (position starts)
  · obtain ⟨piece, inPieces, rfl⟩ := List.mem_map.mp inSegments
    obtain ⟨_, generated⟩ := assembly.assembled.generated piece inPieces
    obtain ⟨waiting, inCode, filled⟩ := mem_fillCalls inSegment
    have fits := generated.quads waiting inCode
    have result : waiting.result.Narrow := by
      cases isJump : waiting.operation.isJump with
      | false => exact fits.result isJump
      | true =>
        obtain ⟨target, leads, _, below⟩ := fits.jumps isJump
        rw [leads]
        exact inside inPieces below
    rcases filled with rfl | ⟨_, _, known | rfl, rfl⟩
    · exact ⟨fits.left, fits.right, result⟩
    · obtain ⟨name, called, rfl⟩ := List.mem_map.mp known
      have inProgram : piece.function ∈ program.functions := by
        rw [← assembly.assembled.sources]
        exact List.mem_map_of_mem inPieces
      obtain ⟨_, found⟩ := assembly.assembled.emitted.known
        (List.mem_flatMap.mpr ⟨_, inProgram, called⟩)
      exact ⟨position found, fits.right, result⟩
    · exact ⟨Address.narrow_unused, fits.right, result⟩

/-- A compiled program is storable if a field can count its positions. -/
theorem storable_of_compile {executable : Executable}
    (declarable : AllDeclarable program.declarations)
    (compiled : program.compile entry = .ok executable)
    (short : executable.code.size ≤ 2147483648) :
    executable.Storable := by
  obtain ⟨_, _, _, _, assembly, _, _, _, places, rfl⟩ :=
    Program.assembly_of_compile declarable compiled
  have sound := assembly.assembled.emitted.sound
  exact ⟨assembly.narrow places.stored short, Nat.le_trans short (by decide),
    fun constant member =>
    sound.literals.storable member (sound.solid constant member),
    sound.literals.few⟩

/--
Writing an executable to an object file and reading the file gives it back,
if it was compiled or was read from an object file itself.  Compiled code is
to have no more than `2 ^ 31` quadruples.  The bound is there because positions
are not cut to 32 bits when code is generated, while a file holds 32 bits.
-/
theorem parse_write_of_origin :
    (∀ (source entry : String) (executable : Executable),
      compile source entry = .ok executable →
        executable.code.size ≤ 2147483648 →
        Executable.parse executable.write = .ok executable) ∧
    ∀ (text : String) (executable : Executable),
      Executable.parse text = .ok executable →
        Executable.parse executable.write = .ok executable := by
  constructor
  · intro source entry executable compiled short
    obtain ⟨_, parsed, compiled⟩ := bind_eq_ok.mp compiled
    exact (storable_of_compile (Program.declarable_of_parse parsed) compiled
      short).parse_write
  · intro text executable read
    exact (Executable.storable_of_parse read).parse_write

/-- Literals that hold quotes, backslashes, line breaks and blanks. -/
def blanks : String :=
  "program p;func void main()\x7bwrite(\" \\\"\\\\ \\n\r\u0085\u2028\u00a0 \");write('\u00a0');\x7d"

/-- An object file with empty lines, repeated blanks and signed numbers. -/
def looseFile : String :=
  "\r\n +1\n\n\tRet  -1   -1 +34000\u2003\n1\n  \" \u0085\" \u2028 34000 \n\n"

theorem parse_write_of_origin_blanks :
    (∃ executable, compile blanks "main" = .ok executable ∧
      executable.code.size ≤ 2147483648 ∧
      Executable.parse executable.write = .ok executable) ∧
    ∃ executable, Executable.parse looseFile = .ok executable ∧
      executable.write ≠ looseFile ∧
      Executable.parse executable.write = .ok executable := by
  have compiled : ((compile blanks "main").toOption.map fun executable =>
      decide (executable.code.size ≤ 2147483648)) = some true := by
    decide +kernel
  have loose : ((Executable.parse looseFile).toOption.map fun executable =>
      decide (executable.write ≠ looseFile)) = some true := by
    decide +kernel
  obtain ⟨executable, isCompiled, short⟩ := Option.map_eq_some_iff.mp compiled
  obtain ⟨other, isRead, different⟩ := Option.map_eq_some_iff.mp loose
  rw [toOption_eq_some] at isCompiled isRead
  exact ⟨⟨executable, isCompiled, of_decide_eq_true short,
    parse_write_of_origin.1 _ _ _ isCompiled (of_decide_eq_true short)⟩,
    ⟨other, isRead, of_decide_eq_true different,
      parse_write_of_origin.2 _ _ isRead⟩⟩

end Easel
