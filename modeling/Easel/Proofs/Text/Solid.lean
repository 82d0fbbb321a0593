import Easel.Text.Blank
import Easel.Text.Lines
import Easel.Text.Quoted

/-!
# Solid texts

A text is solid if it is a single line that neither starts nor ends with a
blank.  Solid texts are what can be written on lines and read back: dividing
lines that were written one after the other gives the lines back, trimming
leaves a solid text alone, and words that are joined by blanks come apart
again.
-/

namespace Easel.Text

variable {line second word : List Char} {quote : Char}

variable {text : List Char} {character : Char}

/-- Texts on lines of their own, each ended by a line feed. -/
def unlines (lines : List (List Char)) : List Char :=
  lines.flatMap (· ++ ['\n'])

theorem splitLines_append (single : '\n' ∉ line) (rest : List Char) :
    splitLines (line ++ rest) =
      (line ++ (splitLines rest).1, (splitLines rest).2) := by
  induction line with
  | nil => rfl
  | cons character line ih =>
    rw [List.mem_cons, not_or] at single
    have isOther : character ≠ '\n' := fun same => single.1 same.symm
    have inner := ih single.2
    unfold splitLines at inner ⊢
    rw [List.cons_append, List.foldr_cons, inner, consCharacter, if_neg isOther]
    rfl

/-- Lines that were written one by one come apart; an empty one is left. -/
theorem splitLines_unlines {lines : List (List Char)}
    (single : ∀ line ∈ lines, '\n' ∉ line) :
    (splitLines (unlines lines)).1 :: (splitLines (unlines lines)).2 =
      lines ++ [[]] := by
  induction lines with
  | nil => rfl
  | cons line lines ih =>
    have rest := ih fun other member =>
      single other (List.mem_cons_of_mem _ member)
    have feed : splitLines ('\n' :: unlines lines) = ([], lines ++ [[]]) := by
      rw [← rest]
      rfl
    have written : unlines (line :: lines) = line ++ '\n' :: unlines lines := by
      rw [unlines, List.flatMap_cons, List.append_assoc, List.singleton_append]
      rfl
    rw [written, splitLines_append (single line List.mem_cons_self), feed,
      List.append_nil, List.cons_append]

theorem not_mem_splitLines
    (member : line ∈ (splitLines text).1 :: (splitLines text).2) :
    '\n' ∉ line := by
  induction text generalizing line with
  | nil =>
    rw [List.mem_singleton.mp member]
    exact List.not_mem_nil
  | cons character text ih =>
    change line ∈ (consCharacter character (splitLines text)).1 ::
      (consCharacter character (splitLines text)).2 at member
    unfold consCharacter at member
    split at member
    · rcases List.mem_cons.mp member with rfl | later
      · exact List.not_mem_nil
      · exact ih later
    · rename_i isOther
      rcases List.mem_cons.mp member with rfl | later
      · intro isFeed
        rcases List.mem_cons.mp isFeed with same | inside
        · exact isOther same.symm
        · exact ih List.mem_cons_self inside
      · exact ih (List.mem_cons_of_mem _ later)

/-! ## Solid texts -/

/-- A single line that neither starts nor ends with a blank. -/
structure Solid (text : List Char) : Prop where
  single : '\n' ∉ text
  starts : ∃ character, text.head? = some character ∧ isBlank character = false
  ends : ∃ character, text.getLast? = some character ∧ isBlank character = false

theorem Solid.ne_nil (solid : Solid text) : text ≠ [] := by
  rintro rfl
  obtain ⟨_, missing, _⟩ := solid.starts
  cases missing

/-- A text without blanks. -/
def Unbroken (text : List Char) : Prop :=
  ∀ character ∈ text, isBlank character = false

namespace Unbroken

variable {text : List Char} {character : Char}

theorem of_all (all : (text.all fun character => !isBlank character) = true) :
    Unbroken text :=
  fun character member => by
    simpa using List.all_eq_true.mp all character member

theorem nil : Unbroken [] := fun _ member => absurd member List.not_mem_nil

theorem cons (solid : isBlank character = false) (rest : Unbroken text) :
    Unbroken (character :: text) :=
  List.forall_mem_cons.mpr ⟨solid, rest⟩

theorem append (before : Unbroken text) (after : Unbroken second) :
    Unbroken (text ++ second) := fun character member =>
  (List.mem_append.mp member).elim (before character) (after character)

theorem replicate (solid : isBlank character = false) (count : Nat) :
    Unbroken (List.replicate count character) := fun _ member =>
  (List.eq_of_mem_replicate member).symm ▸ solid

theorem take (unbroken : Unbroken text) (count : Nat) :
    Unbroken (text.take count) :=
  fun character member => unbroken character (List.mem_of_mem_take member)

theorem drop (unbroken : Unbroken text) (count : Nat) :
    Unbroken (text.drop count) :=
  fun character member => unbroken character (List.mem_of_mem_drop member)

end Unbroken

/-- A text without blanks that is not empty. -/
structure Word (text : List Char) : Prop where
  nonempty : text ≠ []
  unbroken : Unbroken text

theorem Word.solid (word : Word text) : Solid text := by
  refine ⟨?_, ?_, ?_⟩
  · intro member
    exact Bool.noConfusion (word.unbroken '\n' member)
  · exact ⟨text.head word.nonempty, List.head?_eq_some_head word.nonempty,
      word.unbroken _ (List.head_mem word.nonempty)⟩
  · exact ⟨text.getLast word.nonempty,
      List.getLast?_eq_some_getLast word.nonempty,
      word.unbroken _ (List.getLast_mem word.nonempty)⟩

/-- Two solid texts with a blank between them. -/
theorem Solid.join {first : List Char}
    (before : Solid first)
    (after : Solid second) :
    Solid (first ++ ' ' :: second) := by
  refine ⟨?_, ?_, ?_⟩
  · rw [List.mem_append, List.mem_cons, not_or, not_or]
    exact ⟨before.single, by decide, after.single⟩
  · obtain ⟨character, found, solid⟩ := before.starts
    exact ⟨character, by rw [List.head?_append, found]; rfl, solid⟩
  · obtain ⟨character, found, solid⟩ := after.ends
    refine ⟨character, ?_, solid⟩
    rw [List.getLast?_append, List.getLast?_cons, found]
    rfl

theorem dropWhile_of_head? (found : text.head? = some character)
    (solid : isBlank character = false) :
    text.dropWhile isBlank = text := by
  cases text with
  | nil => cases found
  | cons first rest =>
    cases found
    rw [List.dropWhile_cons, solid]
    rfl

theorem Solid.trimStart_eq (solid : Solid text) : trimStart text = text := by
  obtain ⟨_, found, isSolid⟩ := solid.starts
  exact dropWhile_of_head? found isSolid

theorem Solid.trimEnd_eq (solid : Solid text) : trimEnd text = text := by
  obtain ⟨_, found, isSolid⟩ := solid.ends
  rw [trimEnd,
    dropWhile_of_head? (by rw [List.head?_reverse]; exact found) isSolid,
    List.reverse_reverse]

theorem Solid.trim_eq (solid : Solid text) : trim text = text := by
  rw [trim, solid.trimStart_eq, solid.trimEnd_eq]

/-- A character is written behind a backslash or as itself. -/
theorem escape_cases (plain : unescape quote = quote) (character : Char) :
    (∃ mark, escape quote character = ['\\', mark] ∧
      unescape mark = character) ∨ escape quote character = [character] ∧
        character ≠ quote ∧ character ≠ '\\' ∧ character ≠ '\n' := by
  unfold escape
  split
  · next isQuote => exact .inl ⟨quote, rfl, plain.trans isQuote.symm⟩
  split
  · next isBackslash => exact .inl ⟨'\\', rfl, isBackslash.symm⟩
  split
  · next isBreak => exact .inl ⟨'n', rfl, isBreak.symm⟩
  split
  · next isTab => exact .inl ⟨'t', rfl, isTab.symm⟩
  · next noQuote noBackslash noBreak _ =>
      exact .inr ⟨rfl, noQuote, noBackslash, noBreak⟩

theorem not_mem_escape (visible : quote ≠ '\n') :
    '\n' ∉ escape quote character := by
  unfold escape
  intro member
  split at member
  · simp [visible.symm] at member
  · split at member
    · simp at member
    · split at member
      · simp at member
      · split at member
        · simp at member
        · rename_i isOther _
          exact isOther (List.mem_singleton.mp member).symm

/-- Between its quotes a literal can hold any character. -/
theorem solid_quoteWith (visible : isBlank quote = false) (text : List Char) :
    Solid (quoteWith quote text) := by
  have isOther : quote ≠ '\n' := by
    rintro rfl
    cases visible
  refine ⟨?_, ⟨quote, rfl, visible⟩, ⟨quote, ?_, visible⟩⟩
  · rw [quoteWith, List.mem_cons, List.mem_append, List.mem_singleton,
      not_or, not_or]
    refine ⟨isOther.symm, ?_, isOther.symm⟩
    intro member
    obtain ⟨_, _, inside⟩ := List.mem_flatMap.mp member
    exact not_mem_escape isOther inside
  · rw [quoteWith, ← List.cons_append, List.getLast?_append]
    rfl

theorem head?_dropWhile
    (found : (text.dropWhile isBlank).head? = some character) :
    isBlank character = false := by
  have solid := List.head?_dropWhile_not isBlank text
  rw [found] at solid
  exact solid

theorem mem_of_mem_trimStart (member : character ∈ trimStart text) :
    character ∈ text :=
  (List.dropWhile_sublist _).mem member

theorem mem_of_mem_trimEnd (member : character ∈ trimEnd text) :
    character ∈ text := by
  rw [trimEnd, List.mem_reverse] at member
  exact List.mem_reverse.mp ((List.dropWhile_sublist _).mem member)

/-- Trimming the end of a line with a solid start leaves a solid text. -/
theorem solid_trimEnd (single : '\n' ∉ text)
    (starts : text.head? = some character)
    (solid : isBlank character = false) :
    Solid (trimEnd text) := by
  have kept : (trimEnd text).head? = some character := by
    cases text with
    | nil => cases starts
    | cons first rest =>
      cases starts
      rw [trimEnd, List.reverse_cons, List.dropWhile_append]
      have stays : [character].dropWhile isBlank = [character] := by
        rw [List.dropWhile_cons, solid]
        rfl
      split
      · rw [stays]
        rfl
      · rw [List.reverse_append]
        rfl
  refine ⟨fun member => single (mem_of_mem_trimEnd member),
    ⟨character, kept, solid⟩, ?_⟩
  cases last : (trimEnd text).getLast? with
  | none =>
    rw [List.getLast?_eq_none_iff.mp last] at kept
    cases kept
  | some final =>
    refine ⟨final, rfl, ?_⟩
    rw [trimEnd, List.getLast?_reverse] at last
    exact head?_dropWhile last

theorem foldr_consLetter (unbroken : Unbroken word)
    (words : List Char × List (List Char)) :
    word.foldr consLetter words = (word ++ words.1, words.2) := by
  induction word with
  | nil => rfl
  | cons character word ih =>
    rw [List.foldr_cons,
      ih fun other member => unbroken other (List.mem_cons_of_mem _ member),
      consLetter, unbroken character List.mem_cons_self]
    rfl

theorem consWord_of_ne_nil (nonempty : word ≠ []) (rest : List (List Char)) :
    consWord word rest = word :: rest := by
  rw [consWord, if_neg (by simpa using nonempty)]

theorem Word.words_eq (isWord : Word word) : words word = [word] := by
  unfold words
  rw [foldr_consLetter isWord.unbroken, List.append_nil]
  exact consWord_of_ne_nil isWord.nonempty []

/-- A word in front of a blank. -/
theorem Word.words_append (isWord : Word word) (rest : List Char) :
    words (word ++ ' ' :: rest) = word :: words rest := by
  unfold words
  have blank : consLetter ' ' (rest.foldr consLetter ([], [])) =
      ([], consWord (rest.foldr consLetter ([], [])).1
        (rest.foldr consLetter ([], [])).2) := rfl
  rw [List.foldr_append, List.foldr_cons, foldr_consLetter isWord.unbroken,
    blank, List.append_nil]
  exact consWord_of_ne_nil isWord.nonempty _

end Easel.Text
