import Easel.Proofs.Token.Partition

/-!
# Reading back what was written

Tokens that are written with a blank and perhaps more blanks and comments
between them are read back, whatever their contents are.  A blank ends every
token: it belongs to no word and no number, and no symbol goes on with it.
-/

namespace Easel

/-- Blanks and comments, each comment closed by a line break. -/
inductive Filler : List Char → Prop where
  | nil : Filler []
  | blank {character : Char} {text : List Char}
      (isBlank : Text.isBlank character = true) (others : Filler text) :
      Filler (character :: text)
  | comment {line text : List Char} (single : '\n' ∉ line)
      (others : Filler text) : Filler ('/' :: '/' :: (line ++ '\n' :: text))

/-- A word starts with a letter or underscore; numerals may follow. -/
def isWord : List Char → Bool
  | [] => false
  | first :: rest => Text.isWordStart first && rest.all Text.isWordPart

/-- The number that is written with these digits before and behind the point. -/
def Decimal.ofParts (whole fraction : List Char) : Float :=
  Decimal.nearest (Decimal.valueOfDigits (whole ++ fraction)) (-fraction.length)

/-- A text that is written for a token of a kind. -/
inductive Spells : Kind → List Char → Prop where
  | integer {value : Nat} (within : value ≤ greatestInteger) :
      Spells (.integer value) (toString value).toList
  | float {whole fraction : List Char} (starts : whole ≠ [])
      (goesOn : fraction ≠ []) (digits : whole.all Decimal.isDigit = true)
      (more : fraction.all Decimal.isDigit = true) :
      Spells (.float (Decimal.ofParts whole fraction))
      (whole ++ '.' :: fraction)
  | char (value : Char) : Spells (.char value) (Text.quoteChar value).toList
  | string (value : String) :
      Spells (.string value) (Text.quoteString value).toList
  | name {word : String} (proper : isWord word.toList = true)
      (noKeyword : ∀ keyword : Keyword, keyword.spelling ≠ word)
      (noType : ∀ element : Element, element.keyword ≠ word) :
        Spells (.name word) word.toList
  | type (element : Element) : Spells (.type element) element.keyword.toList
  | keyword (keyword : Keyword) :
      Spells (.keyword keyword) keyword.spelling.toList
  | symbol (mark : Symbol) : Spells (.symbol mark) mark.spelling

/-- A text in which tokens of the kinds are written one after the other. -/
inductive Renders : List Kind → List Char → Prop where
  | nil : Renders [] []
  | single {kind : Kind} {text : List Char} (spells : Spells kind text) :
      Renders [kind] text
  | cons {kind next : Kind} {kinds : List Kind} {text filler rest : List Char}
      {blank : Char} (spells : Spells kind text)
      (isBlank : Text.isBlank blank = true) (between : Filler filler)
      (others : Renders (next :: kinds) rest) :
      Renders (kind :: next :: kinds) (text ++ blank :: (filler ++ rest))

variable {kind : Kind} {kinds : List Kind}
  {text rest whole fraction : List Char}
variable {first : Char} {test : Char → Bool}

/-- A finite check settles what holds of the characters of a range. -/
theorem of_range {low high : Nat}
    (test : Char → Bool)
    (checked : ((List.range' low (high + 1 - low)).all (test <| Char.ofNat ·)) =
      true)
    (least : low ≤ first.toNat)
    (greatest : first.toNat ≤ high) :
    test first = true := by
  have here := List.all_eq_true.mp checked first.toNat
    (List.mem_range'_1.mpr (by omega))
  rwa [Char.ofNat_toNat] at here

theorem isWordPart_of_isBlank (blank : Text.isBlank first = true) :
    Text.isWordPart first = false := by
  have separate : (Text.blankRanges.all fun range =>
      (List.range' range.1 (range.2 + 1 - range.1)).all fun point =>
        !Text.isWordPart (Char.ofNat point)) = true := by decide +kernel
  obtain ⟨range, member, inside⟩ := List.any_eq_true.mp blank
  obtain ⟨least, greatest⟩ := (Bool.and_eq_true _ _).mp inside
  simpa using of_range (!Text.isWordPart ·)
    (List.all_eq_true.mp separate range member) (of_decide_eq_true least)
    (of_decide_eq_true greatest)

theorem isWordPart_of_isDigit (digit : Decimal.isDigit first = true) :
    Text.isWordPart first = true ∧ Text.isWordStart first = false := by
  obtain ⟨least, greatest⟩ := Decimal.toNat_of_isDigit digit
  simpa using of_range (fun one => Text.isWordPart one && !Text.isWordStart one)
    (by decide +kernel) least greatest

/-- A text is empty or starts with a blank, so that no token goes on into it. -/
def Ends (rest : List Char) : Prop :=
  ∀ next ∈ rest.head?, Text.isBlank next = true

theorem Ends.stops (ends : Ends rest)
    (part : ∀ next, test next = true → Text.isWordPart next = true) :
    ∀ next ∈ rest.head?, test next = false := by
  refine fun next isNext => Bool.eq_false_iff.mpr fun passed => ?_
  exact Bool.eq_false_iff.mp (isWordPart_of_isBlank (ends next isNext))
    (part next passed)

/-- What passes a test is cut off in front of a character that does not. -/
theorem span_append (passes : text.all test = true)
    (stops : ∀ next ∈ rest.head?, test next = false) :
    (text ++ rest).takeWhile test = text ∧
      (text ++ rest).dropWhile test = rest := by
  have each := List.all_eq_true.mp passes
  rw [List.takeWhile_append_of_pos each, List.dropWhile_append_of_pos each]
  cases rest with
  | nil => simp
  | cons next rest => simp [stops next rfl]

/-! ## Words and numbers -/

/-- What words and numbers are made of starts no symbol, quote or comment. -/
theorem readLexeme_of_isWordPart (plain : Text.isWordPart first = true) :
    StartsToken first rest ∧ readLexeme first rest =
      if Decimal.isDigit first then readNumber first rest
      else if Text.isWordStart first then
        .ok (Lexeme.span first rest Text.isWordPart fun word =>
          Kind.ofWord (String.ofList word))
      else .error (.unexpectedCharacter first) := by
  have other {mark : Char} (reserved : Text.isWordPart mark = false) :
      first ≠ mark := by
    rintro rfl
    exact Bool.eq_false_iff.mp reserved plain
  have noSymbol : Symbol.ofCharacter? first = none := by
    have apart : (Symbol.singles.all (·.spelling.all (!Text.isWordPart ·))) =
        true := by
      decide +kernel
    refine List.find?_eq_none.mpr fun mark member same => ?_
    have here := List.all_eq_true.mp apart mark member
    rw [eq_of_beq same] at here
    simp [plain] at here
  have noSlash : first ≠ '/' := other (by decide +kernel)
  refine ⟨⟨?_, by simp [startsComment, noSlash]⟩, ?_⟩
  · exact Bool.eq_false_iff.mpr fun blank =>
      Bool.eq_false_iff.mp (isWordPart_of_isBlank blank) plain
  · unfold readLexeme
    rw [noSymbol]
    dsimp only
    rw [if_neg (other (by decide +kernel)), if_neg (other (by decide +kernel)),
      if_neg (other (by decide +kernel)), if_neg (other (by decide +kernel)),
      if_neg (other (by decide +kernel))]

theorem reads_word (proper : isWord text = true) (ends : Ends rest) :
    Reads (.ofWord (String.ofList text)) text rest := by
  cases text with
  | nil => cases proper
  | cons first more =>
    obtain ⟨starts, others⟩ := (Bool.and_eq_true _ _).mp proper
    have plain : Text.isWordPart first = true := by
      simp only [Text.isWordStart, Text.isWordPart, Bool.or_eq_true] at starts ⊢
      exact starts.imp_left .inl
    have noDigit : ¬ Decimal.isDigit first = true := fun digit =>
      Bool.eq_false_iff.mp (isWordPart_of_isDigit digit).2 starts
    obtain ⟨startsToken, read⟩ : StartsToken first (more ++ rest) ∧ _ :=
      readLexeme_of_isWordPart plain
    rw [if_neg noDigit, if_pos starts] at read
    obtain ⟨taken, left⟩ := span_append others (ends.stops fun _ => id)
    refine ⟨first, _, rfl, startsToken, _, read, ?_, left⟩
    simp only [Lexeme.span, taken]

theorem ofWord_spelling (keyword : Keyword) :
    isWord keyword.spelling.toList = true ∧
      Kind.ofWord keyword.spelling = .keyword keyword := by
  cases keyword <;> exact ⟨by decide +kernel, rfl⟩

theorem ofWord_keyword (element : Element) :
    isWord element.keyword.toList = true ∧
      Kind.ofWord element.keyword = .type element := by
  cases element <;> exact ⟨by decide +kernel, rfl⟩

theorem ofWord_name {word : String}
    (noKeyword : ∀ keyword : Keyword, keyword.spelling ≠ word)
    (noType : ∀ element : Element, element.keyword ≠ word) :
    Kind.ofWord word = .name word := by
  have plain : Keyword.ofSpelling? word = none :=
    List.find?_eq_none.mpr fun keyword _ => by simpa using noKeyword keyword
  have untyped : Element.ofKeyword? word = none :=
    List.find?_eq_none.mpr fun element _ => by simpa using noType element
  rw [Kind.ofWord, plain, untyped]

theorem reads_number (digit : Decimal.isDigit first = true)
    (found : Finds (readNumber first (text ++ rest)) kind rest) :
    Reads kind (first :: text) rest := by
  obtain ⟨starts, same⟩ :=
    readLexeme_of_isWordPart (isWordPart_of_isDigit digit).1
  rw [if_pos digit] at same
  exact ⟨first, _, rfl, starts, same ▸ found⟩

theorem reads_integer {value : Nat}
    (within : value ≤ greatestInteger)
    (ends : Ends rest) :
    Reads (.integer value) (toString value).toList rest := by
  have natural := Decimal.readNatural?_toString within
  have digits : (toString value).toList.all Decimal.isDigit = true :=
    List.all_eq_true.mpr fun _ => Decimal.isDigit_of_mem_toString
  obtain ⟨_, _, shown, isFirst⟩ := Decimal.exists_toString_eq_cons value
  rw [shown] at natural digits ⊢
  obtain ⟨taken, left⟩ := span_append ((Bool.and_eq_true _ _).mp digits).2
    (ends.stops fun _ digit => (isWordPart_of_isDigit digit).1)
  refine reads_number isFirst ?_
  unfold readNumber
  split
  · next afterWhole =>
      rw [left] at afterWhole
      subst afterWhole
      cases ends '.' rfl
  · simp only [readNumber.integer, taken, natural]
    exact ⟨_, rfl, rfl, left⟩

theorem readFloat?_point (starts : whole ≠ [])
    (digits : whole.all Decimal.isDigit = true)
    (more : fraction.all Decimal.isDigit = true) :
    Decimal.readFloat? (whole ++ '.' :: fraction) =
      some (Decimal.ofParts whole fraction) := by
  -- No word for a number that is not finite has a point in it.
  have noWord {word : String} (plain : '.' ∉ word.toList) :
      String.ofList ((whole ++ '.' :: fraction).map Char.toLower) ≠ word := by
    rintro rfl
    rw [String.toList_ofList] at plain
    exact plain (List.mem_map.mpr ⟨'.', by simp, rfl⟩)
  have noInfinity : ¬ (_ = "inf" ∨ _ = "infinity") :=
    not_or.mpr ⟨noWord (by decide), noWord (by decide)⟩
  have noNumber : _ ≠ "nan" := noWord (by decide)
  obtain ⟨taken, left⟩ : _ ∧ _ = '.' :: fraction :=
    span_append digits (by rintro _ ⟨⟩; rfl)
  obtain ⟨takenLast, leftLast⟩ : _ ∧ _ = [] := span_append more (by rintro _ ⟨⟩)
  rw [List.append_nil] at takenLast leftLast
  have unsigned : Decimal.splitSign (whole ++ '.' :: fraction) =
      (false, whole ++ '.' :: fraction) := by
    obtain ⟨_, _, rfl⟩ := List.exists_cons_of_ne_nil starts
    have isFirst := ((Bool.and_eq_true _ _).mp digits).1
    unfold Decimal.splitSign
    split
    · next same => cases same; cases isFirst
    · next same => cases same; cases isFirst
    · rfl
  simp only [Decimal.readFloat?, unsigned, Decimal.readMagnitude?,
    if_neg noInfinity, if_neg noNumber]
  simp [Decimal.readDecimal?, taken, left, takenLast, leftLast, starts,
    Decimal.readExponent?, Decimal.ofParts]

theorem reads_float (starts : whole ≠ [])
    (goesOn : fraction ≠ [])
    (digits : whole.all Decimal.isDigit = true)
    (more : fraction.all Decimal.isDigit = true)
    (ends : Ends rest) :
    Reads (.float (Decimal.ofParts whole fraction)) (whole ++ '.' :: fraction)
      rest := by
  have value := readFloat?_point starts digits more
  obtain ⟨_, _, rfl⟩ := List.exists_cons_of_ne_nil starts
  obtain ⟨second, last, rfl⟩ := List.exists_cons_of_ne_nil goesOn
  obtain ⟨isFirst, digits⟩ := (Bool.and_eq_true _ _).mp digits
  obtain ⟨isSecond, more⟩ := (Bool.and_eq_true _ _).mp more
  obtain ⟨taken, left⟩ : _ ∧ _ = '.' :: second :: (last ++ rest) :=
    span_append digits (by rintro _ ⟨⟩; rfl)
  obtain ⟨takenLast, leftLast⟩ := span_append more
    (ends.stops fun _ digit => (isWordPart_of_isDigit digit).1)
  refine reads_number isFirst ?_
  rw [List.append_eq, List.append_assoc, List.cons_append, List.cons_append]
  unfold readNumber
  split
  · next digit after afterWhole =>
      obtain ⟨rfl, rfl⟩ : second = digit ∧ last ++ rest = after := by
        simpa [left] using afterWhole
      simp only [isSecond, ↓reduceIte]
      split
      · next found =>
          rw [taken, takenLast] at found
          exact ⟨_, rfl, congrArg _ (Option.some.inj (found.symm.trans value)),
            leftLast⟩
      · next found =>
          rw [taken, takenLast] at found
          cases found.symm.trans value
  · next other => exact (other second (last ++ rest) left).elim

theorem reads_char (value : Char) :
    Reads (.char value) (Text.quoteChar value).toList rest := by
  have shown : (Text.quoteChar value).toList ++ rest =
      '\'' :: (Text.escape '\'' value ++ '\'' :: rest) := by
    simp [Text.quoteChar, Text.quoteWith]
  refine ⟨_, _, shown, ⟨rfl, rfl⟩, ?_⟩
  obtain ⟨_, shape, same⟩ | ⟨shape, noQuote, noSlash, noBreak⟩ :=
    @Text.escape_cases '\'' rfl value
  · rw [shape]
    exact ⟨_, rfl, congrArg _ same, rfl⟩
  · rw [shape]
    have read : readChar '\'' (value :: '\'' :: rest) =
        closeChar value ['\'', value] ('\'' :: rest) := by
      rw [readChar, if_neg noSlash, if_neg (not_or.mpr ⟨noQuote, noBreak⟩)]
    exact ⟨_, read, rfl, rfl⟩

theorem readString_escape {value input : List Char}
    (shown : input = value.flatMap (Text.escape '"') ++ '"' :: rest) :
    ∃ body, readString input = .ok body ∧ body.value = value ∧
      body.rest = rest := by
  induction value generalizing input with
  | nil =>
    rw [List.flatMap_nil, List.nil_append] at shown
    subst shown
    rw [readString.eq_def]
    exact ⟨_, dif_pos rfl, rfl, rfl⟩
  | cons character value ih =>
    obtain ⟨body, read, same, left⟩ := ih rfl
    rw [List.flatMap_cons, List.append_assoc] at shown
    obtain ⟨_, shape, isMark⟩ | ⟨shape, noQuote, noSlash, noBreak⟩ :=
      @Text.escape_cases '"' rfl character
    · rw [shape, List.cons_append, List.singleton_append] at shown
      subst shown
      rw [readString, dif_neg (by decide), if_pos rfl, read]
      exact ⟨_, rfl, isMark ▸ congrArg _ same, left⟩
    · rw [shape, List.singleton_append] at shown
      subst shown
      rw [readString.eq_def]
      simp only [noQuote, noSlash, noBreak, ↓reduceIte, ↓reduceDIte, read]
      exact ⟨_, rfl, congrArg _ same, left⟩

theorem reads_string (value : String) :
    Reads (.string value) (Text.quoteString value).toList rest := by
  obtain ⟨_, read, same, left⟩ :=
    readString_escape (@rfl _ (value.toList.flatMap _ ++ _))
  have shown : (Text.quoteString value).toList ++ rest =
      '"' :: (value.toList.flatMap (Text.escape '"') ++ '"' :: rest) := by
    simp [Text.quoteString, Text.quoteWith]
  refine ⟨_, _, shown, ⟨rfl, rfl⟩, ?_⟩
  unfold readLexeme
  rw [read]
  exact ⟨_, rfl, congrArg Kind.string (by rw [same, String.ofList_toList]),
    left⟩

theorem reads_symbol (mark : Symbol) (ends : Ends rest) :
    Reads (.symbol mark) mark.spelling rest := by
  cases rest with
  | nil => cases mark <;> exact ⟨_, _, rfl, ⟨rfl, rfl⟩, _, rfl, rfl, rfl⟩
  | cons next rest =>
    have other {mark : Char} (visible : Text.isBlank mark = false) :
        next ≠ mark := by
      rintro rfl
      exact Bool.eq_false_iff.mp visible (ends next rfl)
    cases mark
    case assign =>
      have noEquals : next ≠ '=' := other rfl
      have read : readEquals '=' (next :: rest) = single .assign '='
          (next :: rest) := by
        rw [readEquals, if_neg noEquals]
      exact ⟨_, _, rfl, ⟨rfl, rfl⟩, _, read, rfl, rfl⟩
    case slash =>
      have noSlash : next ≠ '/' := other rfl
      exact ⟨_, _, rfl, ⟨rfl, by simp [startsComment, noSlash]⟩, _,
        rfl, rfl, rfl⟩
    all_goals exact ⟨_, _, rfl, ⟨rfl, rfl⟩, _, rfl, rfl, rfl⟩

/-- A token is read back from its text wherever a blank or nothing follows. -/
theorem Spells.reads (spells : Spells kind text) (ends : Ends rest) :
    Reads kind text rest := by
  -- Keywords, types and names are words and differ in the kind of the word
  -- alone.
  have reads_ofWord {word : String} (proper : isWord word.toList = true) :
      Reads (.ofWord word) word.toList rest := by
    have reads := reads_word proper ends
    rwa [String.ofList_toList] at reads
  cases spells with
  | integer within => exact reads_integer within ends
  | float starts goesOn digits more =>
    exact reads_float starts goesOn digits more ends
  | char value => exact reads_char value
  | string value => exact reads_string value
  | name proper noKeyword noType =>
    exact ofWord_name noKeyword noType ▸ reads_ofWord proper
  | type element =>
    exact (ofWord_keyword element).2 ▸ reads_ofWord (ofWord_keyword element).1
  | keyword word =>
    exact (ofWord_spelling word).2 ▸ reads_ofWord (ofWord_spelling word).1
  | symbol mark => exact reads_symbol mark ends

/-- The kinds of the tokens that are read from a text, wherever it stands. -/
def Scans (text : List Char) (kinds : List Kind) : Prop :=
  ∀ position, ∃ tokens, tokensFrom position text = .ok tokens ∧
    tokens.map Token.kind = kinds

theorem Reads.scans (reads : Reads kind text rest) (others : Scans rest kinds) :
    Scans (text ++ rest) (kind :: kinds) := by
  obtain ⟨_, _, shown, ⟨visible, noComment⟩, lexeme, read, rfl, rfl⟩ := reads
  intro position
  obtain ⟨_, following, same⟩ := others (position.advance lexeme.text)
  rw [shown, tokensFrom, if_neg (by simp [visible]),
    if_neg (by simp [noComment]), read]
  dsimp only
  rw [following]
  exact ⟨_, rfl, congrArg _ same⟩

theorem scans_blank (isBlank : Text.isBlank first = true)
    (others : Scans rest kinds) :
    Scans (first :: rest) kinds := by
  intro position
  rw [tokensFrom, if_pos isBlank]
  exact others _

theorem Filler.scans (filler : Filler text) (others : Scans rest kinds) :
    Scans (text ++ rest) kinds := by
  induction filler with
  | nil => exact others
  | blank isBlank _ ih => exact scans_blank isBlank ih
  | @comment line text single _ ih =>
    intro position
    have inside : ('/' :: line).all inLine = true := by
      refine List.all_eq_true.mpr fun one member => bne_iff_ne.mpr ?_
      rintro rfl
      exact (List.mem_cons.mp member).elim (by simp) single
    obtain ⟨taken, left⟩ : _ ∧ _ = '\n' :: (text ++ rest) :=
      span_append inside (by rintro _ ⟨⟩; rfl)
    have shown : '/' :: '/' :: (line ++ '\n' :: text) ++ rest =
        '/' :: ('/' :: line ++ '\n' :: (text ++ rest)) := by simp
    rw [shown, tokensFrom, if_neg (by decide), if_pos (by rfl), taken, left]
    exact scans_blank rfl ih _

theorem Renders.scans (renders : Renders kinds text) :
    Scans text (kinds ++ [.finish]) := by
  have done : Scans [] [.finish] := fun position => ⟨_, by rw [tokensFrom], rfl⟩
  induction renders with
  | nil => exact done
  | @single kind text spells =>
    have read := (spells.reads (by rintro _ ⟨⟩)).scans done
    rwa [List.append_nil] at read
  | cons spells isBlank between _ ih =>
    refine (spells.reads ?_).scans (scans_blank isBlank (between.scans ih))
    rintro _ ⟨⟩
    exact isBlank

/-- Whatever tokens a text is written for, they are read back from it. -/
theorem tokenize_of_renders {kinds : List Kind} {source : String}
    (renders : Renders kinds source.toList) :
    ∃ tokens, tokenize source = .ok tokens ∧
      tokens.map Token.kind = kinds ++ [.finish] :=
  renders.scans .start

/-- An assignment is read past a comment in the middle of it. -/
theorem tokenize_of_renders_comment :
    ∃ tokens, tokenize "größe // so\n = 2.50 \"a\\n\"" = .ok tokens ∧
      tokens.map Token.kind = [.name "größe", .symbol .assign,
      .float (Decimal.ofParts ['2'] ['5', '0']), .string "a\n"] ++
        [.finish] := by
  have blank : Text.isBlank ' ' = true := rfl
  have filler : Filler ('/' :: '/' :: ([' ', 's', 'o'] ++ '\n' :: [' '])) :=
    .comment (by decide) (.blank blank .nil)
  have name : Spells (.name "größe") "größe".toList := by
    refine .name (by decide +kernel) (fun word => ?_) (fun element => ?_)
    · cases word <;> decide +kernel
    · cases element <;> decide +kernel
  have number : Spells (.float (Decimal.ofParts ['2'] ['5', '0']))
      (['2'] ++ '.' :: ['5', '0']) :=
    .float (by decide) (by decide) (by decide) (by decide)
  have renders := Renders.cons name blank filler
    (.cons (.symbol .assign) blank .nil
      (.cons number blank .nil (.single (.string "a\n"))))
  refine tokenize_of_renders (cast (congrArg (Renders _) ?_) renders)
  decide +kernel

end Easel
