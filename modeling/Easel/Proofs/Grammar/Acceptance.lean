import Easel.Proofs.Grammar.Statement
import Easel.Proofs.Token.Partition

/-!
# Reading accepts exactly the grammar

The tokens of a source text are read as a program exactly if they are a phrase
of the grammar; all of them belong to the phrase, in their order.  Any other
text whose tokens can be told apart is refused with a fault at a line.
-/

namespace Easel

variable {function : Function} {functions : List Function} {program : Program}

namespace Grammar

section

variable (finish : Token)
variable {tokens : List Token}

/-! ## Programs -/

theorem readParameters_parses (before : Token) (input : List Token) :
    Parses (readParameters finish before input) fun reading =>
      Takes input reading.rest fun tokens =>
        (∃ closed, tokens = [⟨.symbol .rightParen, closed⟩] ∧
          reading.value = []) ∨ ParametersPhrase tokens reading.value := by
  unfold readParameters
  split
  · rename_i closed rest
    exact ⟨[⟨.symbol .rightParen, closed⟩], rfl, .inl ⟨closed, rfl, rfl⟩⟩
  · refine (readParameterList_parses finish before input).mono ?_
    rintro reading ⟨tokens, split, phrase⟩
    exact ⟨tokens, split, .inr phrase⟩

theorem readFunction_parses (input : List Token) :
    Parses (readFunction finish input) fun reading =>
      Takes input reading.rest (FunctionPhrase · reading.value) := by
  unfold readFunction
  refine (takeKeyword_parses finish .func _ input).bind ?_
  rintro ⟨afterFunc, _⟩ ⟨position, splitInput⟩
  dsimp only at splitInput
  have line : (peek finish input).line = position.line := by
    rw [splitInput]
    rfl
  refine (readType_parses finish _ afterFunc).bind ?_
  rintro ⟨_, afterType, _⟩ ⟨front, splitFunc, typed⟩
  refine (takeName_parses finish _ afterType).bind ?_
  rintro ⟨name, afterName, _⟩ ⟨named, splitType⟩
  refine (takeSymbol_parses finish .leftParen _ afterName).bind ?_
  rintro ⟨inside, _⟩ ⟨opened, splitName⟩
  refine (readParameters_parses finish _ inside).bind ?_
  rintro ⟨_, afterParameters, _⟩ ⟨middle, splitInside, parametrised⟩
  refine (readBlock_parses finish afterParameters).bind ?_
  rintro ⟨_, last, _⟩ ⟨back, splitParameters, block⟩
  dsimp only at splitFunc splitType splitName splitInside splitParameters
  dsimp only at parametrised ⊢
  have split : input =
      (⟨.keyword .func, position⟩ :: front ++ ⟨.name name, named⟩ ::
        ⟨.symbol .leftParen, opened⟩ :: middle ++ back) ++ last := by
    simp [splitInput, splitFunc, splitType, splitName, splitInside,
      splitParameters]
  refine ⟨_, split, ?_⟩
  rw [line]
  rcases parametrised with ⟨_, rfl, rfl⟩ | phrase
  · rw [List.append_assoc]
    exact .bare typed block
  · exact .mk typed phrase block

theorem readGlobals_parses (input : List Token) :
    Parses (readGlobals finish input) fun reading =>
      Takes input reading.rest (GlobalsPhrase · reading.value) := by
  induction input using readGlobals.induct with
  | case1 position rest ih =>
    rw [readGlobals]
    refine (readDeclaration_parses finish _ rest).bind ?_
    rintro ⟨_, afterFirst, shorter⟩ ⟨front, splitRest, declaration⟩
    refine (ih afterFirst shorter).bind ?_
    rintro ⟨_, _, _⟩ ⟨back, splitFirst, globals⟩
    exact ⟨⟨.keyword .var, position⟩ :: front ++
      back, by simp [splitRest, splitFirst], .more declaration globals⟩
  | case2 other notVar =>
    rw [readGlobals.eq_2 finish other notVar]
    exact ⟨[], rfl, .none⟩

theorem readFunctions_parses (input : List Token) :
    Parses (readFunctions finish input) (FunctionsPhrase input) := by
  cases input with
  | nil =>
    rw [readFunctions]
    exact .none
  | cons token rest =>
    rw [readFunctions]
    refine (readFunction_parses finish (token :: rest)).bind ?_
    rintro ⟨_, afterFirst, shorter⟩ ⟨_, split, function⟩
    refine (readFunctions_parses afterFirst).bind ?_
    intro others functions
    dsimp only at split
    rw [split]
    exact .more function functions
termination_by input.length
decreasing_by exact shorter

theorem readProgram_parses (input : List Token) :
    Parses (readProgram finish input) (ProgramPhrase input) := by
  unfold readProgram
  refine (takeKeyword_parses finish .program _ input).bind ?_
  rintro ⟨afterWord, _⟩ ⟨_, splitInput⟩
  refine (takeName_parses finish _ afterWord).bind ?_
  rintro ⟨_, afterName, _⟩ ⟨_, splitWord⟩
  refine (takeSymbol_parses finish .semicolon _ afterName).bind ?_
  rintro ⟨afterHead, _⟩ ⟨_, splitName⟩
  refine (readGlobals_parses finish afterHead).bind ?_
  rintro ⟨_, afterGlobals, _⟩ ⟨_, splitHead, declared⟩
  refine (readFunctions_parses finish afterGlobals).bind ?_
  intro functions phrase
  dsimp only at splitInput splitWord splitName splitHead
  rw [splitInput, splitWord, splitName, splitHead]
  exact .mk declared phrase

theorem ParametersPhrase.reads_parameters {parameters : List Declaration}
    (phrase : ParametersPhrase tokens parameters)
    (before : Token)
    (rest : List Token) :
    Reads (readParameters finish before (tokens ++ rest)) parameters rest := by
  have reads := phrase.reads finish before rest
  unfold readParameters
  generalize tokens ++ rest = input at reads ⊢
  split
  · obtain ⟨_, read⟩ := reads
    rw [readParameterList] at read
    cases read
  · exact reads

theorem FunctionPhrase.reads (phrase : FunctionPhrase tokens function)
    (rest : List Token) :
    Reads (readFunction finish (tokens ++ rest)) function rest := by
  cases phrase with
  | bare typed block =>
    rw [List.append_assoc, List.cons_append]
    unfold readFunction
    rw [takeKeyword_self]
    refine (typed.reads finish _ _ _ _).bind fun _ => ?_
    dsimp only [takeName, bind, Except.bind, List.append_eq, List.cons_append]
    rw [takeSymbol_self]
    exact (block.complete finish rest).bind fun _ => ⟨_, rfl⟩
  | mk typed parameters block =>
    rw [List.append_assoc, List.append_assoc, List.cons_append,
      List.cons_append, List.cons_append]
    unfold readFunction
    rw [takeKeyword_self]
    refine (typed.reads finish _ _ _ _).bind fun _ => ?_
    dsimp only [takeName, bind, Except.bind]
    rw [takeSymbol_self]
    refine (parameters.reads_parameters finish _ _).bind fun _ => ?_
    exact (block.complete finish rest).bind fun _ => ⟨_, rfl⟩

theorem FunctionPhrase.exists_cons (phrase : FunctionPhrase tokens function) :
    ∃ position back, tokens = ⟨.keyword .func, position⟩ :: back := by
  cases phrase with
  | bare => exact ⟨_, _, rfl⟩
  | mk => exact ⟨_, _, rfl⟩

theorem FunctionsPhrase.reads (phrase : FunctionsPhrase tokens functions) :
    readFunctions finish tokens = .ok functions := by
  induction phrase with
  | none =>
    rw [readFunctions]
    rfl
  | @more front back first others function _ ih =>
    obtain ⟨_, read⟩ := function.reads finish back
    obtain ⟨position, later, rfl⟩ := function.exists_cons
    change readFunction finish (⟨.keyword .func, position⟩ :: (later ++ back)) =
      _ at read
    rw [List.cons_append, readFunctions, read]
    dsimp only [bind, Except.bind]
    rw [ih]
    rfl

/-- The declarations of global variables are read up to the functions. -/
theorem GlobalsPhrase.reads {rest : List Token} {globals : List Declaration}
    (phrase : GlobalsPhrase tokens globals)
    (following : FunctionsPhrase rest functions) :
    ReadsOptional (readGlobals finish (tokens ++ rest)) globals rest := by
  induction phrase with
  | none =>
    change ReadsOptional (readGlobals finish rest) [] rest
    cases following with
    | none =>
      rw [readGlobals]
      · exact ⟨_, rfl⟩
      · simp
    | more function _ =>
      obtain ⟨position, _, rfl⟩ := function.exists_cons
      rw [List.cons_append, readGlobals]
      · exact ⟨_, rfl⟩
      · simp
  | @more position _ back _ _ declaration _ ih =>
    obtain ⟨_, readFirst⟩ := declaration.reads finish ⟨.keyword .var, position⟩
      (back ++ rest)
    obtain ⟨_, readOthers⟩ := ih
    rw [List.append_assoc, List.cons_append, readGlobals, readFirst]
    dsimp only [bind, Except.bind]
    rw [readOthers]
    exact ⟨_, rfl⟩

theorem ProgramPhrase.reads (phrase : ProgramPhrase tokens program) :
    readProgram finish tokens = .ok program := by
  cases phrase with
  | mk declared functions =>
    obtain ⟨_, readDeclared⟩ := declared.reads finish functions
    unfold readProgram
    rw [List.cons_append, takeKeyword_self]
    dsimp only [takeName, bind, Except.bind, List.cons_append]
    rw [takeSymbol_self]
    dsimp only
    rw [readDeclared]
    dsimp only
    rw [functions.reads finish]
    rfl

end

/-! ## Acceptance -/

theorem ofTokens_append (body : List Token) (finish : Token) :
    Program.ofTokens (body ++ [finish]) = readProgram finish body := by
  rw [Program.ofTokens, List.getLastD_concat, List.dropLast_concat]

/-- The tokens of a text that is read are a phrase for the program. -/
theorem phrase_of_parse {source : String}
    (parsed : Program.parse source = .ok program) :
    ∃ body place, tokenize source = .ok (body ++ [⟨.finish, place⟩]) ∧
      (∀ token ∈ body, token.kind.Lexed) ∧ ProgramPhrase body program := by
  obtain ⟨_, lexed, read⟩ := bind_eq_ok.mp parsed
  obtain ⟨body, place, rfl, proper⟩ := tokensFrom_ends lexed
  have parses := readProgram_parses ⟨.finish, place⟩ body
  rw [ofTokens_append] at read
  rw [read] at parses
  exact ⟨body, place, lexed, proper, parses⟩

/--
The tokens in front of the end of a text are read as a program exactly if they
are a phrase that denotes it.  Where they are no phrase at all the text is
refused with a fault at a line.
-/
theorem accepts_iff_sentence {source : String} {tokens : List Token}
    (lexed : tokenize source = .ok tokens) :
    ∃ body position, tokens = body ++ [⟨.finish, position⟩] ∧
      (∀ token ∈ body, token.kind ≠ .finish) ∧
      (∀ program, Program.ofTokens tokens = .ok program ↔
        ProgramPhrase body program) ∧
      ((∃ program, Program.ofTokens tokens = .ok program) ↔ Sentence body) ∧
      (¬ Sentence body → ∃ fault line, Program.ofTokens tokens =
        .error (.parse fault line)) := by
  obtain ⟨body, position, rfl, proper⟩ := tokensFrom_ends lexed
  have parses := readProgram_parses ⟨.finish, position⟩ body
  rw [ofTokens_append]
  have agrees : ∀ program, readProgram ⟨.finish, position⟩ body = .ok program ↔
      ProgramPhrase body program := by
    intro program
    refine ⟨fun read => ?_, fun phrase => phrase.reads _⟩
    rwa [read] at parses
  have inside (token : Token) (member : token ∈ body) :
      token.kind ≠ .finish := by
    intro isFinish
    have lexed := proper token member
    rw [isFinish] at lexed
    exact lexed
  refine ⟨body, position, rfl, inside, agrees, exists_congr agrees,
    fun noSentence => ?_⟩
  cases read : readProgram ⟨.finish, position⟩ body with
  | ok program => exact absurd ⟨program, (agrees program).mp read⟩ noSentence
  | error problem =>
    rw [read] at parses
    obtain ⟨fault, line, rfl⟩ := parses
    exact ⟨fault, line, rfl⟩

/-- Two names in one declaration, comparisons under an operator, a sign. -/
def specimen : String :=
  "program p;var int[2]a,b;func void main()" ++
    "\x7bvar int n;for(n=0;n<2&&!(n==1);n=n+1)\x7ba[n]=-1+b[n];\x7d\x7d"

/-- A text in which an operand is missing. -/
def unfinished : String :=
  "program p;func void main()\x7bwrite 1+;\x7d"

theorem accepts_iff_sentence_specimen :
    (∃ tokens body position program, tokenize specimen = .ok tokens ∧
      tokens = body ++ [⟨.finish, position⟩] ∧
        Program.ofTokens tokens = .ok program ∧
      ProgramPhrase body program) ∧
    ∃ tokens body position fault line, tokenize unfinished = .ok tokens ∧
      tokens = body ++ [⟨.finish, position⟩] ∧ ¬ Sentence body ∧
      Program.ofTokens tokens = .error (.parse fault line) := by
  have shown : (do
      let tokens ← (tokenize specimen).toOption
      let program ← (Program.ofTokens tokens).toOption
      some (tokens, program)).isSome = true := by
    decide +kernel
  have refused : (do
      let tokens ← (tokenize unfinished).toOption
      if (Program.ofTokens tokens).toOption.isNone then some tokens
      else none).isSome = true := by
    decide +kernel
  simp only [Option.isSome_iff_exists, bind, Option.bind_eq_some_iff,
    toOption_eq_some, Option.ite_none_right_eq_some] at shown refused
  obtain ⟨_, tokens, lexed, program, read, _⟩ := shown
  obtain ⟨_, others, otherLexed, fails, _⟩ := refused
  obtain ⟨body, position, split, _, agrees, _⟩ := accepts_iff_sentence lexed
  obtain ⟨otherBody, place, otherSplit, _, _, accepted, refuses⟩ :=
    accepts_iff_sentence otherLexed
  have noSentence : ¬ Sentence otherBody := by
    intro sentence
    obtain ⟨_, succeeded⟩ := accepted.mpr sentence
    rw [succeeded] at fails
    cases fails
  obtain ⟨fault, line, refusal⟩ := refuses noSentence
  exact ⟨⟨tokens, body, position, program, lexed, split, read,
    (agrees program).mp read⟩, others, otherBody, place, fault, line,
    otherLexed, otherSplit, noSentence, refusal⟩

end Grammar

end Easel
