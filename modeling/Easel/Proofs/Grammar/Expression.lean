import Easel.Proofs.Grammar.Basic

/-!
# Reading expressions

What is read as an expression is a phrase of the grammar, and each phrase of
the grammar is read as the tree that it denotes.  The grammar has one chain of
comparisons and logical operators where reading has two levels, so the links
of such a chain are sorted into runs of comparisons.
-/

namespace Easel.Grammar

variable {rest input : List Token} {first whole : Expr} {value : Literal}
variable {field : Option String}

/-! ## Chains -/

/-- Links that all compare. -/
def Comparing (links : List Link) : Prop :=
  ∀ link ∈ links, link.1.level = .relation

/-- Links of which the first does not compare. -/
def Loose (links : List Link) : Prop :=
  ∀ link ∈ links.head?, link.1.level ≠ .relation

theorem compared_append (first : Expr) {run rest : List Link}
    (comparing : Comparing run)
    (loose : Loose rest) :
    compared first (run ++ rest) = (joined first run, rest) := by
  induction run generalizing first with
  | nil =>
    cases rest with
    | nil => rfl
    | cons link rest => simp [compared, joined, loose link rfl]
  | cons link run ih =>
    obtain ⟨here, later⟩ := List.forall_mem_cons.mp comparing
    rw [List.cons_append, compared, if_pos here, ih _ later]
    rfl

theorem Phrase.append_links {rank : Rank} {front back : List Token}
    {first second : List Link}
    (before : Phrase (.links rank) front first)
    (after : Phrase (.links rank) back second) :
    Phrase (.links rank) (front ++ back) (first ++ second) := by
  induction first generalizing front with
  | nil =>
    cases before
    exact after
  | cons link first ih =>
    cases before with
    | link known operand rest =>
      rw [List.append_assoc]
      exact .link known operand (ih rest)

/-- What a chain denotes; comparisons are operands of logical operators. -/
def LevelPhrase : Level → List Token → Expr → Prop
  | .logic, tokens, tree => Phrase .expression tokens tree
  | .relation, tokens, tree =>
    ∃ (front back : List Token) (first : Expr) (run : List Link),
      tokens = front ++ back ∧ Phrase (.operand .test) front first ∧
      Phrase (.links .test) back run ∧ Comparing run ∧ tree = joined first run
  | .sum, tokens, tree => Phrase (.chain .sum) tokens tree
  | .product, tokens, tree => Phrase (.chain .product) tokens tree

/-- What an operand of a level denotes. -/
def OperandPhrase : Level → List Token → Expr → Prop
  | .logic, tokens, tree => LevelPhrase .relation tokens tree
  | .relation, tokens, tree => Phrase (.operand .test) tokens tree
  | .sum, tokens, tree => Phrase (.operand .sum) tokens tree
  | .product, tokens, tree => Phrase (.operand .product) tokens tree

/-- What follows the operand `left` of a level, up to the whole chain. -/
def FollowingPhrase (left : Expr) : Level → List Token → Expr → Prop
  | .logic, tokens, whole => ∃ links : List Link,
      Phrase (.links .test) tokens links ∧ Loose links ∧
      whole = connected left links
  | .relation, tokens, whole => ∃ links : List Link,
      Phrase (.links .test) tokens links ∧ Comparing links ∧
      whole = joined left links
  | .sum, tokens, whole => ∃ links : List Link,
      Phrase (.links .sum) tokens links ∧ whole = joined left links
  | .product, tokens, whole => ∃ links : List Link,
      Phrase (.links .product) tokens links ∧ whole = joined left links

theorem LevelPhrase.chain {level : Level} {front back : List Token}
    (operand : OperandPhrase level front first)
    (following : FollowingPhrase first level back whole) :
    LevelPhrase level (front ++ back) whole := by
  cases level with
  | logic =>
    obtain ⟨links, phrase, loose, rfl⟩ := following
    obtain ⟨_, _, start, _, rfl, started, runs, comparing, rfl⟩ := operand
    have glued := Phrase.chain started (runs.append_links phrase)
    rw [Rank.join.eq_1, compared_append start comparing loose,
      ← List.append_assoc] at glued
    exact glued
  | relation =>
    obtain ⟨links, phrase, comparing, rfl⟩ := following
    exact ⟨front, back, first, links, rfl, operand, phrase, comparing, rfl⟩
  | sum | product =>
    obtain ⟨links, phrase, rfl⟩ := following
    exact Phrase.chain operand phrase

theorem FollowingPhrase.nothing (left : Expr) (level : Level) :
    FollowingPhrase left level [] left := by
  cases level with
  | logic => exact ⟨[], .noLink, by simp [Loose], by rw [connected]⟩
  | relation => exact ⟨[], .noLink, by simp [Comparing], rfl⟩
  | sum => exact ⟨[], .noLink, rfl⟩
  | product => exact ⟨[], .noLink, rfl⟩

/-- The kind of chain that the operators of a level belong to. -/
def rankOf : Level → Rank
  | .logic | .relation => .test
  | .sum => .sum
  | .product => .product

section

variable {level : Level} {symbol : Symbol} {operator : Operator}
  (known : level.operator? symbol = some operator)
include known

theorem operator?_of_level :
    operator.level = level ∧
      (rankOf level).operator? symbol = some operator := by
  cases level <;> cases symbol <;> cases known <;> exact ⟨rfl, rfl⟩

theorem FollowingPhrase.link {position : Position} {front back : List Token}
    {left right : Expr}
    (operand : OperandPhrase level front right)
    (following : FollowingPhrase (level.join operator left right)
      level back whole) :
    FollowingPhrase left level (⟨.symbol symbol, position⟩ :: front ++ back)
      whole := by
  obtain ⟨ofLevel, isOperator⟩ := operator?_of_level known
  cases level with
  | logic =>
    obtain ⟨links, phrase, loose, rfl⟩ := following
    obtain ⟨_, _, start, run, rfl, started, runs, comparing, rfl⟩ := operand
    refine ⟨(operator, start) :: (run ++ links), ?_, ?_, ?_⟩
    · rw [List.cons_append, List.append_assoc, ← List.cons_append]
      exact .link isOperator started (runs.append_links phrase)
    · rintro _ ⟨⟩
      simp [ofLevel]
    · rw [connected, compared_append start comparing loose]
  | relation =>
    obtain ⟨links, phrase, comparing, rfl⟩ := following
    exact ⟨_, .link isOperator operand phrase,
      List.forall_mem_cons.mpr ⟨ofLevel, comparing⟩, rfl⟩
  | sum | product =>
    obtain ⟨links, phrase, rfl⟩ := following
    exact ⟨_, .link isOperator operand phrase, rfl⟩

end

/-! ## Expressions -/

section

variable (finish : Token)

theorem takeOperator?_eq_some {level : Level} {operator : Operator}
    {after : Shorter input}
    (taken : level.takeOperator? input = some (operator, after)) :
    ∃ symbol position, level.operator? symbol = some operator ∧
      input = ⟨.symbol symbol, position⟩ :: after.val := by
  unfold Level.takeOperator? at taken
  split at taken
  · rename_i symbol position rest
    obtain ⟨found, known, same⟩ := Option.map_eq_some_iff.mp taken
    cases same
    exact ⟨symbol, position, known, rfl⟩
  · cases taken

mutual

theorem readLevel_parses (level : Level) (input : List Token) :
    Parses (readLevel finish level input) fun reading =>
      Takes input reading.rest (LevelPhrase level · reading.value) := by
  rw [readLevel]
  refine (readOperand_parses level input).bind ?_
  rintro ⟨first, rest, _⟩ ⟨front, split, operand⟩
  refine (readChain_parses level first rest).bind ?_
  rintro ⟨_, _, _⟩ ⟨back, splitRest, following⟩
  exact ⟨front ++ back, by simp [split, splitRest],
    LevelPhrase.chain operand following⟩
termination_by 11 * input.length + (2 * level.rank + 2)

theorem readChain_parses (level : Level) (left : Expr) (input : List Token) :
    Parses (readChain finish level left input) fun reading =>
      Takes input reading.rest
        (FollowingPhrase left level · reading.value) := by
  rw [readChain]
  split
  · exact ⟨[], rfl, .nothing left level⟩
  · rename_i operator after taken isTaken
    obtain ⟨symbol, position, known, split⟩ := takeOperator?_eq_some isTaken
    refine (readOperand_parses level after).bind ?_
    rintro ⟨right, rest, shorter⟩ ⟨front, splitAfter, operand⟩
    refine (readChain_parses level (level.join operator left right) rest).bind
      ?_
    rintro ⟨whole, last, notLonger⟩ ⟨back, splitRest, following⟩
    exact ⟨⟨.symbol symbol, position⟩ :: front ++
      back, by simp [split, splitAfter, splitRest],
      .link known operand following⟩
termination_by 11 * input.length
decreasing_by
  · have rankBound := level.rank_le
    omega
  · omega

theorem readOperand_parses (level : Level) (input : List Token) :
    Parses (readOperand finish level input) fun reading =>
      Takes input reading.rest (OperandPhrase level · reading.value) := by
  cases level with
  | logic =>
    rw [readOperand]
    exact readLevel_parses .relation input
  | relation =>
    rw [readOperand]
    refine (readLevel_parses .sum input).mono ?_
    rintro reading ⟨front, split, phrase⟩
    exact ⟨front, split, .exp phrase⟩
  | sum =>
    rw [readOperand]
    refine (readLevel_parses .product input).mono ?_
    rintro reading ⟨front, split, phrase⟩
    exact ⟨front, split, .term phrase⟩
  | product =>
    rw [readOperand]
    refine (readFactor_parses input).mono ?_
    rintro reading ⟨front, split, phrase⟩
    exact ⟨front, split, .factor phrase⟩
termination_by 11 * input.length + (2 * level.rank + 1)

theorem readFactor_parses (input : List Token) :
    Parses (readFactor finish input) fun reading =>
      Takes input reading.rest (Phrase .factor · reading.value) := by
  cases input with
  | nil =>
    rw [readFactor]
    exact .refused
  | cons token rest =>
    obtain ⟨kind, position⟩ := token
    rw [readFactor.eq_def]
    dsimp only
    split
    · -- a group
      refine (readLevel_parses .logic rest).bind ?_
      rintro ⟨inner, afterInner, shorter⟩ ⟨inside, split, phrase⟩
      refine (takeSymbol_parses finish .rightParen _ afterInner).bind ?_
      rintro ⟨last, closed⟩ ⟨place, splitAfter⟩
      exact ⟨⟨.symbol .leftParen, position⟩ :: inside ++
        [⟨.symbol .rightParen, place⟩],
        by simp [split, splitAfter], .group phrase⟩
    · -- a negation
      refine (readFactor_parses rest).bind ?_
      rintro ⟨operand, last, shorter⟩ ⟨front, split, phrase⟩
      exact ⟨⟨.symbol .not, position⟩ :: front, by simp [split], .not phrase⟩
    · -- a negative number
      split
      · exact .refused
      · rename_i number last
        split
        · rename_i value isNumber
          exact ⟨[⟨.symbol .minus, position⟩, number], rfl, .negative isNumber⟩
        · exact .refused
    · rename_i name
      split
      · rename_i opened afterParen
        refine (readArguments_parses afterParen).bind ?_
        rintro ⟨arguments, last, shorter⟩ ⟨inside, split, call⟩
        exact ⟨⟨.name name, position⟩ :: ⟨.symbol .leftParen, opened⟩ :: inside,
          by simp [split], .result (call name position opened)⟩
      · rename_i opened afterBracket
        refine (readIndex_parses afterBracket).bind ?_
        rintro ⟨index, afterIndex, shorter⟩ ⟨inside, split, closed,
          front, rfl, phrase⟩
        refine (readField_parses finish afterIndex).bind ?_
        rintro ⟨field, last, notLonger⟩ ⟨back, splitAfter, isField⟩
        exact ⟨⟨.name name, position⟩ :: ⟨.symbol .leftBracket, opened⟩ ::
            front ++ ⟨.symbol .rightBracket, closed⟩ :: back,
          by simp [split, splitAfter], .use (.item phrase isField)⟩
      · refine (readField_parses finish rest).bind ?_
        rintro ⟨field, last, notLonger⟩ ⟨back, split, isField⟩
        exact ⟨⟨.name name, position⟩ :: back, by simp [split],
          .use (.plain isField)⟩
    · split
      · rename_i value isLiteral
        exact ⟨[⟨kind, position⟩], rfl, .literal isLiteral⟩
      · exact .refused
termination_by 11 * input.length

/-- An index ends with its closing bracket. -/
theorem readIndex_parses (input : List Token) :
    Parses (readIndex finish input) fun reading =>
      Takes input reading.rest fun tokens => ∃ closed front,
        tokens = front ++ [⟨.symbol .rightBracket, closed⟩] ∧
          Phrase .expression front reading.value := by
  rw [readIndex]
  refine (readLevel_parses .logic input).bind ?_
  rintro ⟨_, rest, _⟩ ⟨front, split, phrase⟩
  refine (takeSymbol_parses finish .rightBracket _ rest).bind ?_
  rintro ⟨_, closed⟩ ⟨place, splitRest⟩
  exact ⟨front ++ [⟨.symbol .rightBracket, place⟩], by simp [split, splitRest],
    place, front, rfl, phrase⟩
termination_by 11 * input.length + 9

/-- The tokens behind an opening parenthesis complete any call. -/
theorem readArguments_parses (input : List Token) :
    Parses (readArguments finish input) fun reading =>
      Takes input reading.rest fun tokens => ∀ name position opened,
        Phrase .call
          (⟨.name name, position⟩ :: ⟨.symbol .leftParen, opened⟩ :: tokens)
          (.call name reading.value position.line) := by
  unfold readArguments
  split
  · rename_i closed rest
    exact ⟨[⟨.symbol .rightParen, closed⟩], rfl, fun _ _ _ => .bareCall⟩
  · refine (readArgumentList_parses input).mono ?_
    rintro reading ⟨tokens, split, closed, inside, rfl, phrase⟩
    exact ⟨_, split, fun _ _ _ => .call phrase⟩
termination_by 11 * input.length + 10

/-- One or more arguments end with a closing parenthesis. -/
theorem readArgumentList_parses (input : List Token) :
    Parses (readArgumentList finish input) fun reading =>
      Takes input reading.rest fun tokens => ∃ closed inside,
        tokens = inside ++ [⟨.symbol .rightParen, closed⟩] ∧
          Phrase .arguments inside reading.value := by
  rw [readArgumentList]
  refine (readLevel_parses .logic input).bind ?_
  rintro ⟨first, rest, shorter⟩ ⟨front, splitInput, phrase⟩
  dsimp only at splitInput ⊢
  split
  · rename_i comma afterComma _
    refine (readArgumentList_parses afterComma).bind ?_
    rintro ⟨others, last, shorterStill⟩ ⟨back, split, closed, inside,
      rfl, arguments⟩
    exact ⟨(front ++ ⟨.symbol .comma, comma⟩ :: inside) ++
      [⟨.symbol .rightParen, closed⟩],
      by simp [splitInput, split], closed, _, rfl, .argument phrase arguments⟩
  · refine (takeSymbol_parses finish .rightParen _ _).bind ?_
    rintro ⟨last, closed⟩ ⟨place, split⟩
    exact ⟨front ++ [⟨.symbol .rightParen, place⟩], by simp [splitInput, split],
      place, front, rfl, .lastArgument phrase⟩
termination_by 11 * input.length + 9

end

end

/-! ## Phrases are read -/

def Rank.bound : Rank → Nat
  | .test => 4
  | .sum => 2
  | .product => 1

def Rank.operandBound : Rank → Nat
  | .test => 2
  | .sum => 1
  | .product => 0

def Rank.level : Rank → Level
  | .test => .logic
  | .sum => .sum
  | .product => .product

/-- The level whose operands are those of a chain. -/
def Rank.operandLevel : Rank → Level
  | .test => .relation
  | .sum => .sum
  | .product => .product

theorem Phrase.ends_before_links {rank : Rank} {back : List Token}
    {links : List Link}
    (phrase : Phrase (.links rank) back links)
    (ends : Ends rank.bound rest) :
    Ends rank.operandBound (back ++ rest) := by
  cases phrase with
  | noLink => exact ends.mono (by cases rank <;> decide)
  | @link _ symbol _ _ _ _ _ _ known _ _ =>
    have separate : symbol ≠ .dot ∧ symbol ≠ .leftBracket ∧
        symbol ≠ .leftParen ∧ ∀ level : Level, level.rank < rank.operandBound →
        level.operator? symbol = none := by
      cases rank <;> cases symbol <;> cases known <;>
        exact ⟨nofun, nofun, nofun, fun level tight => by
          cases level <;> first | rfl | exact absurd tight (by decide)⟩
    exact separate

section

variable (finish : Token)

theorem readChain_stops {bound : Nat} {level : Level}
    (left : Expr)
    (ends : Ends bound rest)
    (tight : level.rank < bound) :
    ReadsOptional (readChain finish level left rest) left rest := by
  have nothing : level.takeOperator? rest = none := by
    unfold Level.takeOperator?
    split
    · rw [ends.2.2.2 level tight]
      rfl
    · rfl
  rw [readChain, nothing]
  exact ⟨Nat.le_refl _, rfl⟩

theorem readChain_goesOn {level : Level} {symbol : Symbol} {position : Position}
    {operator : Operator} {last : List Token} {left right : Expr}
    (known : level.operator? symbol = some operator)
    (operand : Reads (readOperand finish level input) right rest)
    (following :
      ReadsOptional (readChain finish level (level.join operator left right)
      rest) whole last) :
    ReadsOptional
      (readChain finish level left (⟨.symbol symbol, position⟩ :: input))
      whole last := by
  obtain ⟨_, readRight⟩ := operand
  obtain ⟨_, readRest⟩ := following
  have taken : level.takeOperator? (⟨.symbol symbol, position⟩ :: input) =
      some (operator, ⟨input, shorter_tail input⟩) := by
    simp [Level.takeOperator?, known]
  refine ⟨show last.length ≤ input.length + 1 by omega, ?_⟩
  rw [readChain, taken]
  dsimp only
  rw [readRight]
  dsimp only [bind, Except.bind]
  rw [readRest]
  rfl

theorem readLevel_reads {level : Level} {last : List Token}
    (operand : Reads (readOperand finish level input) first rest)
    (following : ReadsOptional (readChain finish level first rest) whole last) :
    Reads (readLevel finish level input) whole last := by
  rw [readLevel]
  exact operand.bind fun _ => following.bind fun _ => ⟨_, rfl⟩

theorem readLevel_refuses {problem : CompileError}
    (refused : readFactor finish input = .error problem)
    (level : Level) :
    readLevel finish level input = .error problem := by
  have product : readLevel finish .product input = .error problem := by
    rw [readLevel, readOperand, refused]
    rfl
  have sum : readLevel finish .sum input = .error problem := by
    rw [readLevel, readOperand, product]
    rfl
  have relation : readLevel finish .relation input = .error problem := by
    rw [readLevel, readOperand, sum]
    rfl
  cases level with
  | logic =>
    rw [readLevel, readOperand, relation]
    rfl
  | relation => exact relation
  | sum => exact sum
  | product => exact product

/-- No expression starts with a closing parenthesis or a semicolon. -/
theorem readLevel_closing (level : Level) {symbol : Symbol}
    (position : Position)
    (rest : List Token)
    (closing : symbol = .rightParen ∨ symbol = .semicolon) :
    readLevel finish level (⟨.symbol symbol, position⟩ :: rest) =
      .error (refuse "expression" ⟨.symbol symbol, position⟩) := by
  apply readLevel_refuses
  rcases closing with rfl | rfl
  all_goals
    rw [readFactor.eq_def]
    rfl

/--
What reading makes of a phrase when nothing behind it goes on with it.  The
links of a test are read in two stages: first the comparisons in front, then
everything from the first logical operator on.
-/
def Complete : (part : Part) → List Token → part.Tree → Prop
  | .chain rank, tokens, tree => ∀ rest, Ends rank.bound rest →
      Reads (readLevel finish rank.level (tokens ++ rest)) tree rest
  | .operand rank, tokens, tree => ∀ rest, Ends rank.operandBound rest →
      Reads (readOperand finish rank.operandLevel (tokens ++ rest)) tree rest
  | .links .test, tokens, links => ∀ left rest, Ends 4 rest → ∃ loose,
      ReadsOptional (readChain finish .relation left (tokens ++ rest))
      (compared left links).1
        (loose ++ rest) ∧
      ∀ whole, ReadsOptional (readChain finish .logic whole (loose ++ rest))
        (connected whole (compared left links).2) rest
  | .links .sum, tokens, links => ∀ left rest, Ends 2 rest →
      ReadsOptional (readChain finish .sum left (tokens ++ rest))
      (joined left links) rest
  | .links .product, tokens, links => ∀ left rest, Ends 1 rest →
      ReadsOptional (readChain finish .product left (tokens ++ rest))
      (joined left links) rest
  | .factor, tokens, tree => ∀ rest, Ends 0 rest →
      Reads (readFactor finish (tokens ++ rest)) tree rest
  | .call, tokens, tree => ∃ name position opened inside arguments,
      tokens = ⟨.name name, position⟩ :: ⟨.symbol .leftParen, opened⟩ ::
        inside ∧ tree = .call name arguments position.line ∧
        ∀ rest, Reads (readArguments finish (inside ++ rest)) arguments rest
  | .target, tokens, target => ∃ name position back,
      tokens = ⟨.name name, position⟩ :: back ∧ ∀ rest, Ends 0 rest →
        (∀ opened more, back ++ rest ≠ ⟨.symbol .leftParen, opened⟩ :: more) ∧
          Reads (readFactor finish (tokens ++ rest)) (used target) rest ∧
          Reads (readTarget finish (tokens ++ rest)) target rest
  | .arguments, tokens, arguments => ∀ closed rest,
      Reads (readArgumentList finish (tokens ++ ⟨.symbol .rightParen, closed⟩ ::
        rest)) arguments rest

theorem operator?_of_test {symbol : Symbol} {operator : Operator}
    (known : Rank.test.operator? symbol = some operator) :
    operator.level.operator? symbol = some operator ∧
      (operator.level = .relation ∨ operator.level = .logic) := by
  cases symbol <;> cases known <;> decide

namespace Complete

variable {finish}
variable {position opened closed : Position}
  {tokens front back inside : List Token}
variable {links : List Link} {name : String} {symbol : Symbol}
  {operator : Operator} {right : Expr}
variable {rank : Rank}

theorem chain (phrase : Phrase (.links rank) back links)
    (operand : Complete finish (.operand rank) front first)
    (following : Complete finish (.links rank) back links) :
    Complete finish (.chain rank) (front ++ back) (rank.join first links) := by
  intro rest ends
  have readFirst := operand (back ++ rest) (phrase.ends_before_links ends)
  rw [List.append_assoc]
  cases rank with
  | test =>
    obtain ⟨loose, comparisons, connections⟩ := following first rest ends
    have run : Reads (readOperand finish .logic (front ++ (back ++ rest)))
        (compared first links).1 (loose ++ rest) := by
      rw [readOperand]
      exact readLevel_reads finish readFirst comparisons
    exact readLevel_reads finish run (connections _)
  | sum | product =>
    exact readLevel_reads finish readFirst (following first rest ends)

theorem noLink : Complete finish (.links rank) [] [] := by
  cases rank with
  | test =>
    intro left rest ends
    refine ⟨[], readChain_stops finish left ends (by decide), fun whole => ?_⟩
    rw [compared, connected]
    exact readChain_stops finish whole ends (by decide)
  | sum | product =>
    exact fun left rest ends => readChain_stops finish left ends (by decide)

/-- A link of a test whose operator compares. -/
theorem comparison (known : Rank.test.operator? symbol = some operator)
    (compares : operator.level = .relation)
    (phrase : Phrase (.links .test) back links)
    (operand : Complete finish (.operand .test) front right)
    (following : Complete finish (.links .test) back links) :
    Complete finish (.links .test) (⟨.symbol symbol, position⟩ :: front ++ back)
      ((operator, right) :: links) := by
  intro left rest ends
  have readRight := operand (back ++ rest) (phrase.ends_before_links ends)
  have isOperator := (operator?_of_test known).1
  rw [compares] at isOperator
  obtain ⟨loose, comparisons, connections⟩ :=
    following (.binary operator left right) rest ends
  rw [compared, if_pos compares, List.cons_append, List.cons_append,
    List.append_assoc]
  exact ⟨loose, readChain_goesOn finish isOperator readRight comparisons,
    connections⟩

/-- A link with a logical operator; what follows it is a comparison. -/
theorem connection (known : Rank.test.operator? symbol = some operator)
    (connects : operator.level = .logic)
    (phrase : Phrase (.links .test) back links)
    (operand : Complete finish (.operand .test) front right)
    (following : Complete finish (.links .test) back links) :
    Complete finish (.links .test) (⟨.symbol symbol, position⟩ :: front ++ back)
      ((operator, right) :: links) := by
  intro left rest ends
  have readRight := operand (back ++ rest) (phrase.ends_before_links ends)
  have isOperator := (operator?_of_test known).1
  rw [connects] at isOperator
  have endsComparison : Ends 3
      (⟨.symbol symbol, position⟩ :: front ++ back ++ rest) := by
    cases symbol <;> cases isOperator <;>
      exact ⟨nofun, nofun, nofun, fun level tight => by
        cases level <;> first | rfl | exact absurd tight (by decide)⟩
  have loose : ¬ operator.level = .relation := by
    rw [connects]
    exact nofun
  rw [compared, if_neg loose]
  refine ⟨⟨.symbol symbol, position⟩ :: front ++ back,
    readChain_stops finish left endsComparison (by decide), fun whole => ?_⟩
  obtain ⟨remaining, comparisons, connections⟩ := following right rest ends
  have run : Reads (readOperand finish .logic (front ++ (back ++ rest)))
      (compared right links).1 (remaining ++ rest) := by
    rw [readOperand]
    exact readLevel_reads finish readRight comparisons
  rw [connected, List.cons_append, List.cons_append, List.append_assoc]
  exact readChain_goesOn finish isOperator run (connections _)

theorem link (known : rank.operator? symbol = some operator)
    (phrase : Phrase (.links rank) back links)
    (operand : Complete finish (.operand rank) front right)
    (following : Complete finish (.links rank) back links) :
    Complete finish (.links rank) (⟨.symbol symbol, position⟩ :: front ++ back)
      ((operator, right) :: links) := by
  cases rank with
  | test =>
    rcases (operator?_of_test known).2 with compares | connects
    · exact comparison known compares phrase operand following
    · exact connection known connects phrase operand following
  | sum =>
    intro left rest ends
    have isOperator : Level.sum.operator? symbol = some operator := by
      cases symbol <;> exact known
    have readRight := operand (back ++ rest) (phrase.ends_before_links ends)
    rw [List.cons_append, List.cons_append, List.append_assoc]
    exact readChain_goesOn finish isOperator readRight (following _ rest ends)
  | product =>
    intro left rest ends
    have isOperator : Level.product.operator? symbol = some operator := by
      cases symbol <;> exact known
    have readRight := operand (back ++ rest) (phrase.ends_before_links ends)
    rw [List.cons_append, List.cons_append, List.append_assoc]
    exact readChain_goesOn finish isOperator readRight (following _ rest ends)

theorem group {inner : Expr}
    (expression : Complete finish .expression inside inner) :
    Complete finish .factor
      (⟨.symbol .leftParen, opened⟩ :: inside ++
        [⟨.symbol .rightParen, closed⟩])
      (.group inner opened.line) := by
  intro rest _
  have readInner := expression (⟨.symbol .rightParen, closed⟩ :: rest)
    (.of_closing closed rest (by decide) 4)
  rw [List.cons_append, List.cons_append, List.append_assoc,
    List.singleton_append, readFactor.eq_def]
  refine readInner.bind fun _ => ?_
  dsimp only
  rw [takeSymbol_self]
  exact ⟨_, rfl⟩

theorem not {operand : Expr} (factor : Complete finish .factor tokens operand) :
    Complete finish .factor (⟨.symbol .not, position⟩ :: tokens)
      (.not operand position.line) := by
  intro rest ends
  rw [List.cons_append, readFactor.eq_def]
  exact (factor rest ends).bind fun _ => ⟨_, rfl⟩

theorem negative {number : Token}
    (isNumber : number.kind.negated? = some value) :
    Complete finish .factor [⟨.symbol .minus, position⟩, number]
      (.literal value position.line) := by
  intro rest _
  refine ⟨shorter_second rest, ?_⟩
  change readFactor finish (⟨.symbol .minus, position⟩ :: number :: rest) = _
  rw [readFactor.eq_def]
  dsimp only
  rw [isNumber]
  rfl

theorem literal {token : Token} (isLiteral : token.kind.literal? = some value) :
    Complete finish .factor [token] (.literal value token.line) := by
  intro rest _
  refine ⟨shorter_tail rest, ?_⟩
  obtain ⟨kind, position⟩ := token
  change readFactor finish (⟨kind, position⟩ :: rest) = _
  rw [readFactor.eq_def]
  dsimp only at isLiteral ⊢
  split
  · cases isLiteral
  · cases isLiteral
  · cases isLiteral
  · cases isLiteral
  · rw [isLiteral]
    rfl

theorem result {tree : Expr} (call : Complete finish .call tokens tree) :
    Complete finish .factor tokens tree := by
  intro rest _
  obtain ⟨_, _, _, _, _, rfl, rfl, reads⟩ := call
  rw [List.cons_append, List.cons_append, readFactor.eq_def]
  exact (reads rest).bind fun _ => ⟨_, rfl⟩

theorem use {target : Target} (place : Complete finish .target tokens target) :
    Complete finish .factor tokens (used target) := by
  intro rest ends
  obtain ⟨_, _, _, _, reads⟩ := place
  exact (reads rest ends).2.1

theorem plain (phrase : Field back field) :
    Complete finish .target (⟨.name name, position⟩ :: back)
      ⟨name, none, field, position.line⟩ := by
  refine ⟨name, position, back, rfl, fun rest ends => ?_⟩
  have readsField := readField_reads finish phrase ends
  have notOpened : ∀ symbol opened more,
      back ++ rest = ⟨.symbol symbol, opened⟩ :: more → symbol ≠ .leftParen ∧
      symbol ≠ .leftBracket := by
    intro symbol opened more opens
    cases phrase with
    | absent =>
      rw [List.nil_append] at opens
      subst opens
      exact ⟨ends.2.2.1, ends.2.1⟩
    | present =>
      cases opens
      exact ⟨nofun, nofun⟩
  rw [List.cons_append]
  generalize back ++ rest = following at readsField notOpened ⊢
  refine ⟨fun opened more opens => (notOpened _ _ _ opens).1 rfl, ?_, ?_⟩
  · rw [readFactor.eq_def]
    dsimp only
    split
    · exact absurd rfl (notOpened _ _ _ rfl).1
    · exact absurd rfl (notOpened _ _ _ rfl).2
    · exact readsField.bind fun _ => ⟨_, rfl⟩
  · rw [readTarget.eq_def]
    dsimp only [takeName, bind, Except.bind]
    split
    · exact absurd rfl (notOpened _ _ _ rfl).2
    · exact readsField.bind fun _ => ⟨_, rfl⟩

theorem item {index : Expr}
    (expression : Complete finish .expression inside index)
    (phrase : Field back field) :
    Complete finish .target
      (⟨.name name, position⟩ :: ⟨.symbol .leftBracket, opened⟩ :: inside ++
        ⟨.symbol .rightBracket, closed⟩ :: back)
      ⟨name, some index, field, position.line⟩ := by
  refine ⟨name, position, _, rfl, fun rest ends => ⟨nofun, ?_⟩⟩
  have readsField := readField_reads finish phrase ends
  have readsIndex : Reads
      (readIndex finish (inside ++ ⟨.symbol .rightBracket, closed⟩ ::
        (back ++ rest))) index
      (back ++ rest) := by
    rw [readIndex]
    refine (expression _ (.of_closing closed _ (by decide) 4)).bind fun _ => ?_
    dsimp only
    rw [takeSymbol_self]
    exact ⟨_, rfl⟩
  rw [List.cons_append, List.cons_append, List.cons_append, List.cons_append,
    List.append_assoc, List.cons_append]
  constructor
  · rw [readFactor.eq_def]
    exact readsIndex.bind fun _ => readsField.bind fun _ => ⟨_, rfl⟩
  · rw [readTarget.eq_def]
    exact readsIndex.bind fun _ => readsField.bind fun _ => ⟨_, rfl⟩

theorem bareCall :
    Complete finish .call
      [⟨.name name, position⟩, ⟨.symbol .leftParen, opened⟩,
        ⟨.symbol .rightParen, closed⟩]
      (.call name [] position.line) := by
  refine ⟨name, position, opened, [⟨.symbol .rightParen, closed⟩], [], rfl,
    rfl, fun rest => ?_⟩
  rw [List.singleton_append, readArguments]
  exact ⟨_, rfl⟩

theorem call {arguments : List Expr}
    (complete : Complete finish .arguments inside arguments) :
    Complete finish .call
      (⟨.name name, position⟩ :: ⟨.symbol .leftParen, opened⟩ :: inside ++
        [⟨.symbol .rightParen, closed⟩])
      (.call name arguments position.line) := by
  refine ⟨name, position, opened, inside ++ [⟨.symbol .rightParen, closed⟩],
    arguments, rfl, rfl, fun rest => ?_⟩
  have reads := complete closed rest
  rw [List.append_assoc, List.singleton_append, readArguments.eq_def]
  generalize inside ++ ⟨.symbol .rightParen, closed⟩ :: rest = input at reads ⊢
  split
  · rename_i early more
    obtain ⟨_, readFirst⟩ := reads
    rw [readArgumentList,
      readLevel_closing finish .logic early more (.inl rfl)] at readFirst
    cases readFirst
  · exact reads

theorem lastArgument {argument : Expr}
    (expression : Complete finish .expression tokens argument) :
    Complete finish .arguments tokens [argument] := by
  intro closed rest
  have readFirst := expression (⟨.symbol .rightParen, closed⟩ :: rest)
    (.of_closing closed rest (by decide) 4)
  rw [readArgumentList]
  refine readFirst.bind fun _ => ?_
  dsimp only
  rw [takeSymbol_self]
  exact ⟨_, rfl⟩

theorem argument {others : List Expr}
    (expression : Complete finish .expression front first)
    (arguments : Complete finish .arguments back others) :
    Complete finish .arguments (front ++ ⟨.symbol .comma, position⟩ :: back)
      (first :: others) := by
  intro closed rest
  rw [List.append_assoc, List.cons_append]
  have readFirst := expression
    (⟨.symbol .comma, position⟩ ::
      (back ++ ⟨.symbol .rightParen, closed⟩ :: rest))
    (.of_closing position _ (by decide) 4)
  rw [readArgumentList]
  refine readFirst.bind fun _ => ?_
  exact (arguments closed rest).bind fun _ => ⟨_, rfl⟩

end Complete

/-- Every phrase inside an expression is read as its tree. -/
theorem Phrase.complete {part : Part} {tokens : List Token} {tree : part.Tree}
    (phrase : Phrase part tokens tree) : Complete finish part tokens tree := by
  induction phrase with
  | chain _ links operand following => exact .chain links operand following
  | noLink => exact .noLink
  | link known _ links operand following =>
    exact .link known links operand following
  | exp _ ih | term _ ih | factor _ ih =>
    intro rest ends
    rw [Rank.operandLevel, readOperand]
    exact ih rest ends
  | group _ ih => exact .group ih
  | not _ ih => exact .not ih
  | negative isNumber => exact .negative isNumber
  | literal isLiteral => exact .literal isLiteral
  | result _ ih => exact .result ih
  | use _ ih => exact .use ih
  | plain field => exact .plain field
  | item _ field ih => exact .item ih field
  | bareCall => exact .bareCall
  | call _ ih => exact .call ih
  | lastArgument _ ih => exact .lastArgument ih
  | argument _ _ first others => exact .argument first others

end

end Easel.Grammar
