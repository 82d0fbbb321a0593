import Easel.ObjectFile
import Easel.Proofs.Decimal
import Easel.Proofs.Success

/-!
# Object files hold their executables

An executable is storable if its fields fit the numbers that object files can
hold, if its literals are solid texts and if the address of each literal tells
its element.  What is written for a storable executable reads back as the same
executable, and whatever reads as an executable is storable.

The numbers of lines serve diagnostics only, so the lemmas about reading are
stated for lines with any numbers.
-/

namespace Easel

variable {quad : Quad} {count : Nat} {numbered : List (Nat × List Char)}
variable {rest : List (List Char)} {part : ObjectPart}

def Address.Narrow (address : Address) : Prop :=
  (-2147483648 : Int) ≤ address ∧ (2147483647 : Int) ≥ address

structure Quad.Narrow (quad : Quad) : Prop where
  left : quad.left.Narrow
  right : quad.right.Narrow
  result : quad.result.Narrow

/-- A constant that its line determines. -/
structure Constant.Storable (constant : Constant) : Prop where
  solid : Text.Solid constant.text.toList
  located : ∃ location, locate? constant.address = some location ∧
    location.region = .constant ∧ location.element = constant.element

namespace Executable

/-- An executable that its object file determines. -/
structure Storable (executable : Executable) : Prop where
  narrow : ∀ quad ∈ executable.code.toList, quad.Narrow
  codeCount : executable.code.size ≤ greatestCount
  constants : ∀ constant ∈ executable.constants, constant.Storable
  constantCount : executable.constants.length ≤ greatestCount

variable {address : Address} {number : Nat} {field line text : List Char}
  {constant : Constant}

theorem readAddress_toString (narrow : address.Narrow) (number : Nat) :
    readAddress number (toString address).toList = .ok address := by
  rw [readAddress, Decimal.readInteger?_toString narrow.1 narrow.2]

theorem narrow_of_readAddress (read : readAddress number field = .ok address) :
    address.Narrow := by
  unfold readAddress at read
  split at read
  · rename_i found
    cases read
    exact Decimal.bounds_of_readInteger? found
  · cases read

theorem narrow_of_locate? {location : Location}
    (located : locate? address = some location) :
    address.Narrow := by
  have narrow (number : Int) (nonneg : ¬ number < 0)
      (within : number.toNat / 10000 < 5) : -2147483648 ≤ number ∧
      number ≤ 2147483647 := by omega
  unfold locate? at located
  split at located
  · cases located
  · rename_i isSlot
    obtain ⟨region, found, _⟩ := Option.bind_eq_some_iff.mp located
    exact narrow address isSlot (List.getElem?_eq_some_iff.mp found).1

theorem toList_quadText (quad : Quad) :
    quad.text.toList =
      quad.operation.name.toList ++ ' ' :: ((toString quad.left).toList ++
        ' ' :: ((toString quad.right).toList ++ ' ' ::
          (toString quad.result).toList)) := by
  have space : (toString " ").toList = [' '] := rfl
  have name : toString quad.operation.name = quad.operation.name := rfl
  simp only [Quad.text, String.toList_append, space, name, List.append_assoc,
    List.cons_append, List.nil_append]

theorem word_name (operation : Operation) :
    Text.Word operation.name.toList := by
  cases operation <;> exact ⟨by decide, .of_all (by decide)⟩

theorem solid_quadText (quad : Quad) : Text.Solid quad.text.toList := by
  rw [toList_quadText]
  exact (word_name _).solid.join ((Decimal.word_toString_int _).solid.join
    ((Decimal.word_toString_int _).solid.join
      (Decimal.word_toString_int _).solid))

theorem readQuad_text (narrow : quad.Narrow) (number : Nat) :
    readQuad number quad.text.toList = .ok quad := by
  have fields : Text.words quad.text.toList =
      [quad.operation.name.toList, (toString quad.left).toList,
        (toString quad.right).toList, (toString quad.result).toList] := by
    rw [toList_quadText, (word_name _).words_append,
      (Decimal.word_toString_int _).words_append,
      (Decimal.word_toString_int _).words_append,
      (Decimal.word_toString_int _).words_eq]
  rw [readQuad, fields]
  dsimp only
  rw [String.ofList_toList, Operation.ofName?_name]
  dsimp only
  rw [readAddress_toString narrow.left, readAddress_toString narrow.right,
    readAddress_toString narrow.result]
  rfl

theorem narrow_of_readQuad (read : readQuad number line = .ok quad) :
    quad.Narrow := by
  unfold readQuad at read
  split at read
  · split at read
    · cases read
    · obtain ⟨_, readLeft, read⟩ := bind_eq_ok.mp read
      obtain ⟨_, readRight, read⟩ := bind_eq_ok.mp read
      obtain ⟨_, readResult, read⟩ := bind_eq_ok.mp read
      cases pure_eq_ok.mp read
      exact ⟨narrow_of_readAddress readLeft, narrow_of_readAddress readRight,
        narrow_of_readAddress readResult⟩
  · cases read

/-! ## Lines of constants -/

/-- A cut at a blank with no blank after it. -/
theorem splitLast?_append {blank : Char}
    (isBlank : Text.isBlank blank = true)
    (unbroken : Text.Unbroken field) :
    splitLast? (text ++ blank :: field) = some (text, field) := by
  have reversed : (text ++ blank :: field).reverse =
      field.reverse ++ blank :: text.reverse := by
    rw [List.reverse_append, List.reverse_cons, List.append_assoc,
      List.singleton_append]
  have solid : ∀ character ∈ field.reverse,
      (!Text.isBlank character) = true := by
    intro character member
    rw [unbroken character (List.mem_reverse.mp member)]
    rfl
  have stop : (!Text.isBlank blank) = false := by rw [isBlank]; rfl
  rw [splitLast?, reversed, List.dropWhile_append_of_pos solid,
    List.takeWhile_append_of_pos solid, List.dropWhile_cons,
    List.takeWhile_cons, stop]
  simp only [Bool.false_eq_true, if_false, List.append_nil,
    List.reverse_reverse]

theorem eq_append_of_splitLast? (cut : splitLast? line = some (text, field)) :
    ∃ blank, Text.isBlank blank = true ∧ line = text ++ blank :: field := by
  unfold splitLast? at cut
  have parts : line.reverse.takeWhile (!Text.isBlank ·) ++
      line.reverse.dropWhile (!Text.isBlank ·) = line.reverse :=
    List.takeWhile_append_dropWhile
  cases tail : line.reverse.dropWhile (!Text.isBlank ·) with
  | nil =>
    rw [tail] at cut
    cases cut
  | cons blank front =>
    have stop := List.head?_dropWhile_not (!Text.isBlank ·) line.reverse
    rw [tail] at cut parts stop
    cases cut
    refine ⟨blank, by simpa using stop, ?_⟩
    have whole := congrArg List.reverse parts
    rw [List.reverse_reverse, List.reverse_append, List.reverse_cons,
      List.append_assoc, List.singleton_append] at whole
    exact whole.symm

theorem toList_constantText (constant : Constant) :
    (constantText constant).toList =
      constant.text.toList ++ ' ' :: (toString constant.address).toList := by
  have space : (toString " ").toList = [' '] := rfl
  have text : toString constant.text = constant.text := rfl
  simp only [constantText, String.toList_append, space, text, List.append_assoc,
    List.singleton_append]

theorem solid_constantText (storable : constant.Storable) :
    Text.Solid (constantText constant).toList := by
  rw [toList_constantText]
  exact storable.solid.join (Decimal.word_toString_int _).solid

theorem readConstant_text (storable : constant.Storable) (number : Nat) :
    readConstant number (constantText constant).toList = .ok constant := by
  obtain ⟨location, located, region, element⟩ := storable.located
  have cut : splitLast? (Text.trimStart (constantText constant).toList) =
      some (constant.text.toList, (toString constant.address).toList) := by
    rw [(solid_constantText storable).trimStart_eq, toList_constantText]
    exact splitLast?_append rfl (Decimal.word_toString_int _).unbroken
  have kept : (locate? constant.address).filter
      (fun location => location.region == .constant) = some location := by
    rw [located, Option.filter_some, region]
    rfl
  rw [readConstant, cut]
  refine bind_eq_ok.mpr ⟨_,
    readAddress_toString (narrow_of_locate? located) number, ?_⟩
  rw [kept]
  dsimp only
  rw [storable.solid.trimEnd_eq, String.ofList_toList, element]
  rfl

theorem storable_of_readConstant (single : '\n' ∉ line)
    (read : readConstant number line = .ok constant) :
    constant.Storable := by
  unfold readConstant at read
  split at read
  · cases read
  · rename_i text field cut
    obtain ⟨address, _, read⟩ := bind_eq_ok.mp read
    split at read
    · rename_i location found
      obtain ⟨located, region⟩ := Option.filter_eq_some_iff.mp found
      cases pure_eq_ok.mp read
      obtain ⟨blank, isBlank, whole⟩ := eq_append_of_splitLast? cut
      refine ⟨?_, location, located, eq_of_beq region, rfl⟩
      rw [String.toList_ofList]
      have inLine : '\n' ∉ text := by
        intro member
        refine single (Text.mem_of_mem_trimStart ?_)
        rw [whole]
        exact List.mem_append_left _ member
      -- The blank at which the line is cut is not its first character.
      cases text with
      | nil =>
        have first : (Text.trimStart line).head? = some blank := by
          rw [whole]; rfl
        rw [Text.head?_dropWhile first] at isBlank
        cases isBlank
      | cons character text =>
        have first : (Text.trimStart line).head? = some character := by
          rw [whole]; rfl
        exact Text.solid_trimEnd inLine rfl (Text.head?_dropWhile first)
    · cases read

/-! ## Whole files -/

/-- Lines that were written come apart again; their numbers do not matter. -/
theorem numberedLines_unlines {lines : List (List Char)}
    (solid : ∀ line ∈ lines, Text.Solid line) :
    (numberedLines (Text.unlines lines)).map Prod.snd = lines := by
  have apart := Text.splitLines_unlines fun line member =>
    (solid line member).single
  have trimmed : (lines.mapIdx fun index line =>
      (index + 1, Text.trimEnd line)) = lines.mapIdx fun index line =>
      (index + 1, line) :=
    List.mapIdx_eq_mapIdx_iff.mpr fun index inside =>
      congrArg (Prod.mk (index + 1))
        (solid _ (List.getElem_mem inside)).trimEnd_eq
  have nonempty : ∀ numbered ∈ lines.mapIdx fun index line => (index + 1, line),
      (!numbered.2.isEmpty) = true := by
    intro numbered member
    obtain ⟨index, inside, rfl⟩ := List.mem_mapIdx.mp member
    have filled := (solid _ (List.getElem_mem inside)).ne_nil
    simpa using filled
  have unnumbered : (lines.mapIdx fun index line => (index + 1, line)).map
      Prod.snd = lines :=
    List.ext_getElem (by simp) (by simp)
  unfold numberedLines
  dsimp only
  rw [apart, List.mapIdx_append, List.filter_append, trimmed,
    List.filter_eq_self.mpr nonempty, List.map_append, unnumbered]
  exact List.append_nil lines

theorem not_mem_of_mem_numberedLines
    (member : (number, line) ∈ numberedLines text) :
    '\n' ∉ line := by
  obtain ⟨_, _, same⟩ := List.mem_mapIdx.mp (List.mem_filter.mp member).1
  cases same
  exact fun inside =>
    Text.not_mem_splitLines (List.getElem_mem _)
      (Text.mem_of_mem_trimEnd inside)

theorem readCount_toString (part : ObjectPart)
    (small : count ≤ greatestCount)
    (shape : numbered.map Prod.snd = (toString count).toList :: rest) :
    ∃ left, readCount part numbered = .ok (count, left) ∧
      left.map Prod.snd = rest := by
  cases numbered with
  | nil => cases shape
  | cons first left =>
    obtain ⟨_, _⟩ := first
    obtain ⟨rfl, rfl⟩ := List.cons.inj shape
    refine ⟨left, ?_, rfl⟩
    rw [readCount, (Decimal.word_toString count).solid.trim_eq,
      Decimal.readNatural?_toString small]

theorem le_of_readCount {left : List (Nat × List Char)}
    (read : readCount part numbered = .ok (count, left)) :
    count ≤ greatestCount ∧ left ⊆ numbered := by
  cases numbered with
  | nil => cases read
  | cons first rest =>
    obtain ⟨number, line⟩ := first
    rw [readCount] at read
    split at read
    · rename_i found
      cases read
      exact ⟨Decimal.bound_of_readNatural? found, List.subset_cons_self _ _⟩
    · cases read

section Items

variable {α : Type} {read : Nat → List Char → Except CompileError α}

theorem readItems_of_text (part : ObjectPart) {items : List α}
    {text : α → List Char}
    (faithful : ∀ item ∈ items, ∀ number, read number (text item) = .ok item)
    (shape : numbered.map Prod.snd = items.map text ++ rest) :
    ∃ left, readItems part read items.length numbered = .ok (items, left) ∧
      left.map Prod.snd = rest := by
  induction items generalizing numbered with
  | nil => exact ⟨numbered, rfl, shape⟩
  | cons item items ih =>
    cases numbered with
    | nil => cases shape
    | cons first numbered =>
      obtain ⟨number, _⟩ := first
      obtain ⟨rfl, following⟩ := List.cons.inj shape
      obtain ⟨left, others, remaining⟩ :=
        ih (fun other member => faithful other (List.mem_cons_of_mem _ member))
          following
      refine ⟨left, ?_, remaining⟩
      rw [List.length_cons, readItems, faithful item List.mem_cons_self]
      change (readItems part read items.length numbered >>= _) = _
      rw [others]
      rfl

theorem of_readItems {items : List α} {left : List (Nat × List Char)}
    (done : readItems part read count numbered = .ok (items, left)) :
    items.length = count ∧ left ⊆ numbered ∧
      ∀ item ∈ items, ∃ number line, (number, line) ∈ numbered ∧
        read number line = .ok item := by
  induction count generalizing numbered items with
  | zero =>
    cases done
    exact ⟨rfl, List.Subset.refl _, fun _ member =>
      absurd member List.not_mem_nil⟩
  | succ count ih =>
    cases numbered with
    | nil => cases done
    | cons first numbered =>
      obtain ⟨number, line⟩ := first
      obtain ⟨item, readFirst, done⟩ := bind_eq_ok.mp done
      obtain ⟨⟨_, _⟩, readOthers, done⟩ := bind_eq_ok.mp done
      cases pure_eq_ok.mp done
      obtain ⟨length, within, each⟩ := ih readOthers
      refine ⟨congrArg Nat.succ length, List.subset_cons_of_subset _ within, ?_⟩
      intro other member
      rcases List.mem_cons.mp member with rfl | later
      · exact ⟨number, line, List.mem_cons_self, readFirst⟩
      · obtain ⟨otherNumber, otherLine, inside, readOther⟩ := each other later
        exact ⟨otherNumber, otherLine, List.mem_cons_of_mem _ inside, readOther⟩

end Items

theorem toList_write (executable : Executable) :
    executable.write.toList =
      Text.unlines (executable.lines.map String.toList) := by
  rw [write, String.toList_join, List.flatMap_map, Text.unlines,
    List.flatMap_map]
  congr 1
  funext line
  exact String.toList_append

theorem toList_lines (executable : Executable) :
    executable.lines.map String.toList =
      (toString executable.code.size).toList ::
        (executable.code.toList.map (fun quad => quad.text.toList) ++
          (toString executable.constants.length).toList ::
            (executable.constants.map (fun constant =>
              (constantText constant).toList) ++ [])) := by
  simp only [lines, List.map_append, List.map_cons, List.map_map,
    Function.comp_def, List.cons_append, List.nil_append, List.append_assoc,
    List.append_nil]

variable {executable : Executable}

theorem Storable.solid_lines (storable : executable.Storable) :
    ∀ line ∈ executable.lines.map String.toList, Text.Solid line := by
  intro line member
  rw [toList_lines, List.append_nil, List.mem_cons, List.mem_append,
    List.mem_cons, List.mem_map, List.mem_map] at member
  rcases member with rfl | ⟨quad, _, rfl⟩ | rfl | ⟨constant, inside, rfl⟩
  · exact (Decimal.word_toString _).solid
  · exact solid_quadText quad
  · exact (Decimal.word_toString _).solid
  · exact solid_constantText (storable.constants constant inside)

/-- The object file of a storable executable reads back. -/
theorem Storable.parse_write (storable : executable.Storable) :
    parse executable.write = .ok executable := by
  have shape : (numberedLines executable.write.toList).map Prod.snd =
      executable.lines.map String.toList := by
    rw [toList_write]
    exact numberedLines_unlines storable.solid_lines
  rw [toList_lines] at shape
  obtain ⟨_, codeCount, shape⟩ :=
    readCount_toString .codeCount storable.codeCount shape
  obtain ⟨_, code, shape⟩ :=
    readItems_of_text .quad
      (fun quad member => readQuad_text (storable.narrow quad member)) shape
  obtain ⟨_, constantCount, shape⟩ :=
    readCount_toString .constantCount storable.constantCount shape
  obtain ⟨afterConstants, constants, shape⟩ :=
    readItems_of_text .constant
      (fun constant member =>
        readConstant_text (storable.constants constant member)) shape
  have finished : afterConstants = [] := List.map_eq_nil_iff.mp shape
  unfold parse
  refine bind_eq_ok.mpr ⟨_, codeCount,
    bind_eq_ok.mpr ⟨_, code, bind_eq_ok.mpr ⟨_, constantCount,
      bind_eq_ok.mpr ⟨_, constants, ?_⟩⟩⟩⟩
  dsimp only
  rw [finished]
  rfl

/-- Object files hold storable executables only. -/
theorem storable_of_parse {text : String} (read : parse text = .ok executable) :
    executable.Storable := by
  unfold parse at read
  obtain ⟨⟨_, _⟩, readCodeCount, read⟩ := bind_eq_ok.mp read
  obtain ⟨⟨_, _⟩, readCode, read⟩ := bind_eq_ok.mp read
  obtain ⟨⟨_, _⟩, readConstantCount, read⟩ := bind_eq_ok.mp read
  obtain ⟨⟨_, _⟩, readConstants, read⟩ := bind_eq_ok.mp read
  obtain ⟨smallCode, withinCount⟩ := le_of_readCount readCodeCount
  obtain ⟨codeLength, withinCode, quads⟩ := of_readItems readCode
  obtain ⟨smallConstants, withinConstantCount⟩ :=
    le_of_readCount readConstantCount
  obtain ⟨constantLength, _, texts⟩ := of_readItems readConstants
  dsimp only at read
  split at read
  · cases pure_eq_ok.mp read
    refine ⟨?_, ?_, ?_, ?_⟩
    · intro quad member
      obtain ⟨number, line, _, readLine⟩ := quads quad member
      exact narrow_of_readQuad readLine
    · rw [List.size_toArray, codeLength]
      exact smallCode
    · intro constant member
      obtain ⟨number, line, inside, readLine⟩ := texts constant member
      have inFile := withinCount (withinCode (withinConstantCount inside))
      exact storable_of_readConstant (not_mem_of_mem_numberedLines inFile)
        readLine
    · exact constantLength ▸ smallConstants
  · cases read

end Executable

end Easel
