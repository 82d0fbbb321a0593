import Easel.Proofs.Grammar.Acceptance
import Easel.Proofs.Grammar.Printer
import Easel.Proofs.Number

/-!
# Printed programs are read back

What a well-formed program is printed as is a phrase of the grammar, and the
phrase denotes the same program up to the lines.  An expression is a phrase of
the level of its topmost operator, and a longer chain comes from a shorter one
by one more link at its end.  Where the parentheses of a comparison are left
out, joining it to a logical operator groups it again.
-/

namespace Easel

variable {symbol : Symbol} {position : Position} {target : Target}
variable {guard : Expr}

namespace Expr

@[simp]
theorem height_withoutLines (expression : Expr) :
    expression.withoutLines.height = expression.height := by
  cases expression <;> rfl

theorem compares_eq (expression : Expr) :
    expression.compares = decide (expression.height = 3) := by
  cases expression with
  | binary operator => cases operator <;> rfl
  | _ => rfl

end Expr

namespace Level

/-- What a comparison becomes as an operand of a logical operator. -/
theorem wrap_logic (expression : Expr) :
    logic.wrap expression =
      if expression.compares then .group expression expression.line
        else expression := by
  cases expression with
  | binary operator => simp [wrap, Expr.compares]
  | _ => rfl

end Level

namespace Grammar

variable {choice : Choice} {tokens : List Token}

theorem compared_append_loose (first : Expr)
    (links : List Link) {rest : List Link}
    (loose : Loose rest) :
    compared first (links ++ rest) =
      ((compared first links).1, (compared first links).2 ++ rest) := by
  induction links generalizing first with
  | nil => exact compared_append first (List.forall_mem_nil _) loose
  | cons link links ih =>
    obtain ⟨_, _⟩ := link
    rw [List.cons_append, compared, compared]
    split
    · exact ih _
    · rfl

variable {operator : Operator} {front back : List Token} {left right : Expr}

/-- A logical operator joins the whole chain to the comparison behind it. -/
theorem connected_append {run : List Link}
    (left operand : Expr)
    (links : List Link)
    (connects : operator.level = .logic)
    (comparing : Comparing run) :
    connected left (links ++ (operator, operand) :: run) =
      Level.logic.join operator (connected left links)
        (joined operand run) := by
  have loose : Loose ((operator, operand) :: run) := by
    rintro _ ⟨⟩
    simp [connects]
  induction left, links using connected.induct with
  | case1 left =>
    have whole : compared operand (run ++ []) = _ :=
      compared_append operand comparing nofun
    rw [List.append_nil] at whole
    rw [List.nil_append, connected, connected, whole, connected]
  | case2 left symbol first rest next ih =>
    rw [List.cons_append, connected, connected,
      compared_append_loose first rest loose]
    exact ih

theorem joined_concat (first : Expr)
    (links : List Link)
    (operator : Operator)
    (operand : Expr) :
    joined first (links ++ [(operator, operand)]) =
      .binary operator (joined first links) operand := by
  simp [joined]

/-- One more operand behind a chain of sums or products. -/
theorem Phrase.concat {rank : Rank}
    (chain : Phrase (.chain rank) front left)
    (known : rank.operator? symbol = some operator)
    (operand : Phrase (.operand rank) back right)
    (notTest : rank ≠ .test) :
    Phrase (.chain rank) (front ++ ⟨.symbol symbol, position⟩ :: back)
      (.binary operator left right) := by
  cases chain with
  | @chain _ early late first links start following =>
    have link : Phrase (.links rank) (⟨.symbol symbol, position⟩ :: back ++ [])
        [(operator, right)] := .link known operand .noLink
    have longer := Phrase.chain start (following.append_links link)
    rw [List.append_nil, ← List.append_assoc] at longer
    cases rank with
    | test => exact absurd rfl notTest
    | sum | product => simpa only [Rank.join, joined_concat] using longer

/-- One more operand behind a chain of any level. -/
theorem LevelPhrase.concat {level : Level}
    (chain : LevelPhrase level front left)
    (known : level.operator? symbol = some operator)
    (operand : OperandPhrase level back right) :
    LevelPhrase level (front ++ ⟨.symbol symbol, position⟩ :: back)
      (level.join operator left right) := by
  obtain ⟨ofLevel, isOperator⟩ := operator?_of_level known
  cases level with
  | logic =>
    obtain ⟨early, late, first, run, rfl, started, runs, comparing, rfl⟩ :=
      operand
    cases chain with
    | @chain _ front middle start links begun following =>
      have link : Phrase (.links .test)
          (⟨.symbol symbol, position⟩ :: early ++ late)
          ((operator, first) :: run) := .link isOperator started runs
      have longer := Phrase.chain begun (following.append_links link)
      have loose : Loose ((operator, first) :: run) := by
        rintro _ ⟨⟩
        simp [ofLevel]
      rw [Rank.join, compared_append_loose start links loose,
        connected_append _ _ _ ofLevel comparing, ← List.append_assoc] at longer
      exact longer
  | relation =>
    obtain ⟨early, late, first, run, rfl, started, runs, comparing, rfl⟩ :=
      chain
    have link : Phrase (.links .test) (⟨.symbol symbol, position⟩ :: back ++ [])
        [(operator, right)] := .link isOperator operand .noLink
    rw [List.append_nil] at link
    refine ⟨early, _, first, _, List.append_assoc .., started,
      runs.append_links link, ?_, ?_⟩
    · exact List.forall_mem_append.mpr
        ⟨comparing, List.forall_mem_singleton.mpr ofLevel⟩
    · exact (joined_concat ..).symm
  | sum | product =>
    exact Phrase.concat chain isOperator operand Rank.noConfusion

/-! ## Expressions -/

/-- The tokens are a phrase of the level of the tree's top operator. -/
def Derives (tokens : List Token) : Expr → Prop
  | tree@(.binary operator _ _) => LevelPhrase operator.level tokens tree
  | tree => Phrase .factor tokens tree

theorem OperandPhrase.level {level : Level} {tree : Expr}
    (phrase : OperandPhrase level tokens tree) :
    LevelPhrase level tokens tree := by
  have chain := LevelPhrase.chain phrase (.nothing tree level)
  rwa [List.append_nil] at chain

namespace Derives

variable {tree : Expr}

theorem factor (derives : Derives tokens tree) (single : tree.height = 0) :
    Phrase .factor tokens tree := by
  cases tree with
  | binary => cases single
  | _ => exact derives

mutual

/-- What binds tighter than a level is an operand of it. -/
theorem operand (derives : Derives tokens tree)
    (level : Level)
    (tight : tree.height ≤ level.rank) :
    OperandPhrase level tokens tree := by
  cases level with
  | logic => exact derives.level .relation tight
  | relation => exact .exp (derives.level .sum tight)
  | sum => exact .term (derives.level .product tight)
  | product => exact .factor (derives.factor (Nat.le_zero.mp tight))
termination_by 2 * level.rank

theorem level (derives : Derives tokens tree)
    (level : Level)
    (tight : tree.height ≤ level.rank + 1) :
    LevelPhrase level tokens tree := by
  rcases Nat.le_succ_iff.mp tight with tighter | same
  · exact (derives.operand level tighter).level
  · cases tree with
    | binary operator =>
      have ofLevel : operator.level = level := by
        cases operator <;> cases level <;> first | rfl | cases same
      exact ofLevel ▸ derives
    | _ => cases same
termination_by 2 * level.rank + 1

end

end Derives

/--
The tokens denote the expression up to the lines, once the expression has been
grouped if it is a comparison under a logical operator.
-/
def Renders (operand : Bool) (tokens : List Token) (expression : Expr) : Prop :=
  ∃ tree, Derives tokens tree ∧
    (if operand then Level.logic.wrap tree else tree).withoutLines =
      expression.withoutLines

theorem height_eq {tree expression : Expr}
    (same : tree.withoutLines = expression.withoutLines) :
    tree.height = expression.height := by
  rw [← tree.height_withoutLines, same, expression.height_withoutLines]

namespace Renders

variable {operand : Bool} {tree expression : Expr}

theorem of_derives (derives : Derives tokens tree)
    (same : tree.withoutLines = expression.withoutLines)
    (grouped : operand = true → expression.height ≠ 3) :
    Renders operand tokens expression := by
  refine ⟨tree, derives, ?_⟩
  cases operand with
  | false => exact same
  | true =>
    have bare : ¬ tree.compares = true := by
      simpa [Expr.compares_eq, height_eq same] using grouped rfl
    rwa [if_pos rfl, Level.wrap_logic, if_neg bare]

theorem exists_expression (renders : Renders false tokens expression) :
    ∃ tree, Phrase .expression tokens tree ∧
      tree.withoutLines = expression.withoutLines := by
  obtain ⟨tree, derives, same⟩ := renders
  have least : tree.height ≤ Level.logic.rank + 1 := by
    cases tree with
    | binary operator => exact Nat.succ_le_succ operator.level.rank_le
    | _ => exact Nat.zero_le _
  exact ⟨tree, derives.level .logic least, same⟩

end Renders

/-- The tokens are of the kinds. -/
def Shows (tokens : List Token) (kinds : List Kind) : Prop :=
  tokens.map Token.kind = kinds

section

variable {kind : Kind} {kinds others : List Kind}

@[simp]
theorem shows_nil : Shows tokens [] ↔ tokens = [] :=
  List.map_eq_nil_iff

@[simp]
theorem shows_cons :
    Shows tokens (kind :: kinds) ↔
      ∃ position back, tokens = ⟨kind, position⟩ :: back ∧
        Shows back kinds := by
  refine List.map_eq_cons_iff.trans ⟨?_, ?_⟩
  · rintro ⟨⟨_, position⟩, back, rfl, rfl, later⟩
    exact ⟨position, back, rfl, later⟩
  · rintro ⟨position, back, rfl, later⟩
    exact ⟨⟨kind, position⟩, back, rfl, rfl, later⟩

@[simp]
theorem shows_append :
    Shows tokens (kinds ++ others) ↔
      ∃ front back, tokens = front ++ back ∧ Shows front kinds ∧
        Shows back others :=
  List.map_eq_append_iff

end

theorem field_of_shows {field : Option String}
    (shown : Shows tokens (printField field)) :
    Field tokens field := by
  cases field with
  | none =>
    cases shows_nil.mp shown
    exact .absent
  | some name =>
    simp only [printField, shows_cons, shows_nil] at shown
    obtain ⟨_, _, rfl, _, _, rfl, rfl⟩ := shown
    exact .present

theorem literal_of_shows {value : Literal} (shown : Shows tokens value.print) :
    ∃ line, Phrase .factor tokens (.literal value line) := by
  have single : ∀ {kind}, kind.literal? = some value → Shows tokens [kind] →
      ∃ line, Phrase .factor tokens (.literal value line) := by
    intro kind isLiteral shown
    simp only [shows_cons, shows_nil] at shown
    obtain ⟨_, _, rfl, rfl⟩ := shown
    exact ⟨_, .literal isLiteral⟩
  have signed : ∀ {kind}, kind.negated? = some value →
      Shows tokens [.symbol .minus, kind] →
      ∃ line, Phrase .factor tokens (.literal value line) := by
    intro kind isNumber shown
    simp only [shows_cons, shows_nil] at shown
    obtain ⟨_, _, rfl, _, _, rfl, rfl⟩ := shown
    exact ⟨_, .negative isNumber⟩
  cases value with
  | integer negative magnitude =>
    cases negative with
    | true => exact signed rfl shown
    | false => exact single rfl shown
  | float value =>
    rw [Literal.print] at shown
    split at shown
    · refine signed ?_ shown
      rw [Kind.negated?, float_neg_neg]
    · exact single rfl shown
  | char value => exact single rfl shown
  | string value => exact single rfl shown
  | bool value =>
    cases value with
    | true => exact single rfl shown
    | false => exact single rfl shown

section

variable (shown : Shows tokens (target.print choice))
  (indexed : ∀ index ∈ target.index, ∀ tokens,
    Shows tokens (index.print choice false) → Renders false tokens index)
include shown indexed

theorem target_of_shows :
    ∃ place, Phrase .target tokens place ∧
      place.withoutLines = target.withoutLines := by
  obtain ⟨name, index, field, _⟩ := target
  cases index with
  | none =>
    simp only [Target.print, shows_cons] at shown
    obtain ⟨position, back, rfl, shownField⟩ := shown
    exact ⟨⟨name, none, field, position.line⟩,
      .plain (field_of_shows shownField), rfl⟩
  | some index =>
    simp only [Target.print, shows_append, shows_cons] at shown
    obtain ⟨_, _, rfl, ⟨position, _, rfl, _, inside, rfl, shownIndex⟩, _,
      back, rfl, shownField⟩ := shown
    obtain ⟨tree, phrase, same⟩ :=
      (indexed index rfl inside shownIndex).exists_expression
    refine ⟨⟨name, some tree, field, position.line⟩,
      .item phrase (field_of_shows shownField), ?_⟩
    simp [Target.withoutLines, same]

/-- The use of a place is printed as the place is. -/
theorem used_of_shows {operand : Bool} :
    Renders operand tokens (used target) := by
  obtain ⟨place, phrase, same⟩ := target_of_shows shown indexed
  have usedSame : ∀ target, (used target).withoutLines =
      used target.withoutLines := by
    rintro ⟨name, index, field, line⟩
    cases index <;> rfl
  have derives : Derives tokens (used place) ∧ (used place).height = 0 := by
    obtain ⟨name, index, field, line⟩ := place
    cases index <;> exact ⟨Phrase.use phrase, rfl⟩
  have usedAlike : (used place).withoutLines = (used target).withoutLines := by
    rw [usedSame, usedSame, same]
  refine .of_derives derives.1 usedAlike fun _ => ?_
  rw [← height_eq usedAlike, derives.2]
  decide

end

theorem call_of_shows {name : String} {arguments : List Expr}
    (shown :
      Shows tokens (.name name :: .symbol .leftParen ::
      Expr.printList choice arguments ++ [.symbol .rightParen]))
    (passed : arguments ≠ [] →
      ∀ tokens, Shows tokens (Expr.printList choice arguments) →
      ∃ trees, Phrase .arguments tokens trees ∧
      Expr.listWithoutLines trees = Expr.listWithoutLines arguments) :
    ∃ trees line, Phrase .call tokens (.call name trees line) ∧
      Expr.listWithoutLines trees = Expr.listWithoutLines arguments := by
  simp only [shows_append, shows_cons, shows_nil] at shown
  obtain ⟨_, _, rfl, ⟨position, _, rfl, _, inside, rfl, shownInside⟩, _, _,
    rfl, rfl⟩ := shown
  cases arguments with
  | nil =>
    rw [Expr.printList, shows_nil] at shownInside
    subst shownInside
    exact ⟨[], position.line, .bareCall, rfl⟩
  | cons first others =>
    obtain ⟨trees, phrase, same⟩ := passed nofun inside shownInside
    exact ⟨trees, position.line, .call phrase, same⟩

theorem operator?_mark (operator : Operator) :
    operator.level.operator? operator.mark = some operator := by
  cases operator <;> rfl

theorem height_of_wrap {level : Level} {tree expression : Expr}
    (same : (level.wrap tree).withoutLines = expression.withoutLines) :
    tree.height = expression.height ∨ level.rank = 3 ∧ tree.height = 3 := by
  cases level with
  | logic =>
    rw [Level.wrap_logic] at same
    split at same
    · rename_i compares
      rw [Expr.compares_eq, decide_eq_true_eq] at compares
      exact .inr ⟨rfl, compares⟩
    · exact .inl (height_eq same)
  | relation | sum | product => exact .inl (height_eq same)

/-- What a chain is printed as denotes it if its parts do. -/
theorem exists_derives_binary (position : Position)
    (leftRenders : Renders (operator.level = .logic) front left)
    (rightRenders : Renders (operator.level = .logic) back right)
    (leftTight : left.height ≤ operator.operandHeight ∨
      left.height = operator.level.rank + 1)
    (rightTight : right.height ≤ operator.operandHeight) :
    ∃ tree, Derives (front ++ ⟨.symbol operator.mark, position⟩ :: back) tree ∧
      tree.withoutLines = (Expr.binary operator left right).withoutLines := by
  obtain ⟨first, leftDerives, leftSame⟩ := leftRenders
  obtain ⟨second, rightDerives, rightSame⟩ := rightRenders
  have wraps : ∀ tree,
      (if decide (operator.level = .logic) then Level.logic.wrap tree
        else tree) = operator.level.wrap tree := by
    intro tree
    cases operator <;> rfl
  rw [wraps] at leftSame rightSame
  rw [Operator.operandHeight] at leftTight rightTight
  have firstTight : first.height ≤ operator.level.rank + 1 := by
    have height := height_of_wrap leftSame
    omega
  have secondTight : second.height ≤ operator.level.rank := by
    have height := height_of_wrap rightSame
    omega
  refine ⟨operator.level.join operator first second, ?_, ?_⟩
  · exact (leftDerives.level _ firstTight).concat (operator?_mark operator)
      (rightDerives.operand _ secondTight)
  · rw [Level.join, Expr.withoutLines, leftSame, rightSame, Expr.withoutLines]

mutual

/-- What an expression is printed as denotes it. -/
theorem renders_of_shows (expression : Expr)
    (wellFormed : expression.WellFormed)
    (choice : Choice)
    (operand : Bool) {tokens : List Token}
    (shown : Shows tokens (expression.print choice operand))
    (grouped : operand = true → expression.height ≠ 3) :
    Renders operand tokens expression := by
  match expression with
  | .literal value line =>
    rw [Expr.print] at shown
    obtain ⟨line, phrase⟩ := literal_of_shows shown
    exact .of_derives (show Derives tokens (.literal value line) from phrase)
      rfl grouped
  | .access name field line =>
    have asPlace : Shows tokens
        (Target.print choice ⟨name, none, field, line⟩) := by
      rwa [Expr.print] at shown
    exact used_of_shows asPlace nofun
  | .item name index field line =>
    have asPlace : Shows tokens
        (Target.print (choice.below 0) ⟨name, some index, field, line⟩) := by
      rwa [Expr.print] at shown
    rw [Expr.WellFormed] at wellFormed
    refine used_of_shows asPlace ?_
    rintro _ ⟨⟩ tokens shownIndex
    exact renders_of_shows index wellFormed _ false shownIndex nofun
  | .call name arguments line =>
    rw [Expr.print] at shown
    rw [Expr.WellFormed] at wellFormed
    obtain ⟨trees, line, phrase, same⟩ :=
        call_of_shows shown fun some tokens shownArguments =>
      arguments_of_shows arguments wellFormed choice shownArguments some
    refine .of_derives
      (show Derives tokens (.call name trees line) from .result phrase)
      ?_ grouped
    rw [Expr.withoutLines, same, Expr.withoutLines]
  | .not inner line =>
    simp only [Expr.print, shows_cons] at shown
    obtain ⟨position, back, rfl, shownInner⟩ := shown
    rw [Expr.WellFormed] at wellFormed
    obtain ⟨tree, derives, same⟩ := renders_of_shows inner wellFormed.2 _ false
      shownInner nofun
    rw [if_neg nofun] at same
    have phrase := derives.factor ((height_eq same).trans wellFormed.1)
    refine .of_derives
      (show Derives _ (.not tree position.line) from .not phrase) ?_ grouped
    rw [Expr.withoutLines, same, Expr.withoutLines]
  | .group inner line =>
    rw [Expr.print] at shown
    rw [Expr.WellFormed] at wellFormed
    split at shown
    · -- the parentheses are left out, and joining puts them back
      rename_i leftOut
      simp only [Bool.and_eq_true, Expr.compares_eq,
        decide_eq_true_eq] at leftOut
      obtain ⟨⟨rfl, compares⟩, _⟩ := leftOut
      obtain ⟨tree, derives, same⟩ := renders_of_shows inner wellFormed _
        false shown nofun
      rw [if_neg nofun] at same
      refine ⟨tree, derives, ?_⟩
      rw [if_pos rfl, Level.wrap_logic, Expr.compares_eq, height_eq same,
        if_pos (by simpa), Expr.withoutLines, same, Expr.withoutLines]
    · simp only [shows_append, shows_cons, shows_nil] at shown
      obtain ⟨_, _, rfl, ⟨opened, inside, rfl, shownInner⟩, _, _, rfl, rfl⟩ :=
        shown
      obtain ⟨tree, phrase, same⟩ :=
        (renders_of_shows inner wellFormed _ false shownInner
          nofun).exists_expression
      refine .of_derives
        (show Derives _ (.group tree opened.line) from .group phrase) ?_ grouped
      rw [Expr.withoutLines, same, Expr.withoutLines]
  | .binary operator left right =>
    simp only [Expr.print, shows_append, shows_cons] at shown
    obtain ⟨front, _, rfl, shownLeft, position, back, rfl, shownRight⟩ := shown
    rw [Expr.WellFormed] at wellFormed
    obtain ⟨leftTight, rightTight, leftFormed, rightFormed⟩ := wellFormed
    have bare : decide (operator.level = .logic) = true → left.height ≠ 3 ∧
        right.height ≠ 3 := by
      intro connects
      have rank : operator.level.rank = 3 := by
        rw [of_decide_eq_true connects]; rfl
      rw [Operator.operandHeight] at leftTight rightTight
      omega
    obtain ⟨tree, derives, same⟩ := exists_derives_binary position
      (renders_of_shows left leftFormed _ _ shownLeft fun connects =>
        (bare connects).1)
      (renders_of_shows right rightFormed _ _ shownRight fun connects =>
        (bare connects).2)
      leftTight rightTight
    exact .of_derives derives same grouped

theorem arguments_of_shows (arguments : List Expr)
    (wellFormed : Expr.ListWellFormed arguments)
    (choice : Choice) {tokens : List Token}
    (shown : Shows tokens (Expr.printList choice arguments))
    (some : arguments ≠ []) :
    ∃ trees, Phrase .arguments tokens trees ∧
      Expr.listWithoutLines trees = Expr.listWithoutLines arguments := by
  match arguments with
  | [] => exact absurd rfl some
  | [last] =>
    rw [Expr.printList] at shown
    rw [Expr.ListWellFormed] at wellFormed
    obtain ⟨tree, phrase, same⟩ :=
      (renders_of_shows last wellFormed.1 _ false shown nofun).exists_expression
    exact ⟨[tree], .lastArgument phrase, by simp [Expr.listWithoutLines, same]⟩
  | first :: second :: others =>
    simp only [Expr.printList, shows_append, shows_cons] at shown
    obtain ⟨_, _, rfl, shownFirst, _, _, rfl, shownOthers⟩ := shown
    rw [Expr.ListWellFormed] at wellFormed
    obtain ⟨tree, phrase, same⟩ :=
      (renders_of_shows first wellFormed.1 _ false shownFirst
        nofun).exists_expression
    obtain ⟨trees, phrases, sameOthers⟩ :=
      arguments_of_shows (second :: others) wellFormed.2 _ shownOthers nofun
    exact ⟨tree :: trees, .argument phrase phrases,
      congrArg₂ List.cons same sameOthers⟩

end

theorem exists_phrase_of_shows {expression : Expr}
    (wellFormed : expression.WellFormed)
    (shown : Shows tokens (expression.print choice false)) :
    ∃ tree, Phrase .expression tokens tree ∧
      tree.withoutLines = expression.withoutLines :=
  (renders_of_shows expression wellFormed choice false shown
    nofun).exists_expression

theorem type_of_shows {type : Ty}
    (wellFormed : type.WellFormed)
    (shown : Shows tokens type.print) :
    TypePhrase tokens type := by
  rcases wellFormed with basic | ⟨list, storable, positive⟩
  · rw [basic] at shown ⊢
    obtain ⟨_, _, rfl, rest⟩ := shows_cons.mp shown
    cases shows_nil.mp rest
    exact .basic
  · rw [list] at shown ⊢
    simp only [Ty.print, Ty.isList, Ty.list, Nat.zero_lt_one, decide_true,
      if_true, shows_cons, shows_nil] at shown
    obtain ⟨_, _, rfl, _, _, rfl, _, _, rfl, _, _, rfl, rfl⟩ := shown
    exact .list storable positive

theorem declaration_of_shows {declaration : Declaration}
    (wellFormed : declaration.WellFormed)
    (shown :
      Shows tokens (.keyword .var :: declaration.print ++
      [.symbol .semicolon])) :
    ∃ position back line, tokens = ⟨.keyword .var, position⟩ :: back ∧
      DeclarationPhrase back [⟨declaration.name, declaration.type, line⟩] := by
  simp only [Declaration.print, shows_append, shows_cons, shows_nil] at shown
  obtain ⟨_, _, rfl, ⟨position, _, rfl, _, _, rfl, shownType, named, _, rfl,
    rfl⟩, _, _, rfl, rfl⟩ := shown
  have typed := type_of_shows wellFormed.1 shownType
  refine ⟨position, _, named.line, List.cons_append, ?_⟩
  rw [List.append_assoc]
  exact .mk typed wellFormed.2 .last

theorem parameters_of_shows {parameters : List Declaration}
    (wellFormed : ∀ parameter ∈ parameters, parameter.WellFormed)
    (shown : Shows tokens (Declaration.printList parameters))
    (some : parameters ≠ [])
    (closed : Position) :
    ∃ others,
      ParametersPhrase (tokens ++ [⟨.symbol .rightParen, closed⟩]) others ∧
      others.map Declaration.withoutLines =
      parameters.map Declaration.withoutLines := by
  fun_induction Declaration.printList parameters generalizing tokens with
  | case1 => exact absurd rfl some
  | case2 last =>
    obtain ⟨⟨formed, notVoid⟩, _⟩ := List.forall_mem_cons.mp wellFormed
    simp only [Declaration.print, shows_append, shows_cons, shows_nil] at shown
    obtain ⟨_, _, rfl, shownType, named, _, rfl, rfl⟩ := shown
    have typed := type_of_shows formed shownType
    obtain ⟨first, front, rfl⟩ := typed.exists_cons
    refine ⟨[⟨last.name, last.type, first.line⟩], ?_, rfl⟩
    rw [List.append_assoc]
    exact .last typed notVoid
  | case3 parameter others another ih =>
    obtain ⟨⟨formed, notVoid⟩, formedOthers⟩ :=
      List.forall_mem_cons.mp wellFormed
    simp only [Declaration.print, shows_append, shows_cons, shows_nil] at shown
    obtain ⟨_, _, rfl, ⟨_, _, rfl, shownType, named, _, rfl, rfl⟩, _, _, rfl,
        shownOthers⟩ :=
      shown
    have typed := type_of_shows formed shownType
    obtain ⟨first, front, rfl⟩ := typed.exists_cons
    obtain ⟨trees, phrase, same⟩ :=
      ih formedOthers shownOthers (by simpa using another)
    refine ⟨⟨parameter.name, parameter.type, first.line⟩ :: trees, ?_, ?_⟩
    · rw [List.append_assoc, List.append_assoc]
      exact .more typed notVoid phrase
    · exact congrArg₂ List.cons rfl same

/-! ## Statements -/

theorem assignment_of_shows {assignment : Assignment}
    (wellFormed : assignment.WellFormed)
    (shown : Shows tokens (assignment.print choice)) :
    ∃ tree, AssignmentPhrase tokens tree ∧
      tree.withoutLines = assignment.withoutLines := by
  simp only [Assignment.print, shows_append, shows_cons] at shown
  obtain ⟨_, _, rfl, shownTarget, _, _, rfl, shownValue⟩ := shown
  obtain ⟨place, phrase, samePlace⟩ := target_of_shows shownTarget
      fun index member _ shownIndex =>
    renders_of_shows index (wellFormed.1 index member) _ false shownIndex nofun
  obtain ⟨value, valued, sameValue⟩ :=
    exists_phrase_of_shows wellFormed.2 shownValue
  refine ⟨⟨place, value, place.line⟩, .mk phrase valued, ?_⟩
  simp only [Assignment.withoutLines, samePlace, sameValue]

theorem guard_of_shows (wellFormed : guard.WellFormed)
    (shown : Shows tokens (Stmt.printGuard choice guard)) :
    ∃ tree, GuardPhrase tokens tree ∧
      tree.withoutLines = guard.withoutLines := by
  simp only [Stmt.printGuard, shows_append, shows_cons, shows_nil] at shown
  obtain ⟨_, _, rfl, ⟨_, _, rfl, shownGuard⟩, _, _, rfl, rfl⟩ := shown
  obtain ⟨tree, phrase, same⟩ := exists_phrase_of_shows wellFormed shownGuard
  exact ⟨tree, .mk phrase, same⟩

/-- The parts of the head of a loop stand between its four signs. -/
theorem shows_head {start step : Assignment}
    (shown : Shows tokens (Stmt.printHead choice start guard step)) :
    ∃ opened early first middle second late closed,
      tokens = ⟨.symbol .leftParen, opened⟩ :: early ++
        ⟨.symbol .semicolon, first⟩ :: middle ++
        ⟨.symbol .semicolon, second⟩ :: late ++
        [⟨.symbol .rightParen, closed⟩] ∧
      Shows early (start.print (choice.below 0)) ∧
      Shows middle (guard.print (choice.below 1) false) ∧
      Shows late (step.print (choice.below 2)) := by
  rw [Stmt.printHead] at shown
  obtain ⟨_, _, rfl, shown, ending⟩ := shows_append.mp shown
  obtain ⟨_, _, rfl, shown, stepping⟩ := shows_append.mp shown
  obtain ⟨_, _, rfl, starting, guarding⟩ := shows_append.mp shown
  obtain ⟨opened, early, rfl, shownStart⟩ := shows_cons.mp starting
  obtain ⟨first, middle, rfl, shownGuard⟩ := shows_cons.mp guarding
  obtain ⟨second, late, rfl, shownStep⟩ := shows_cons.mp stepping
  obtain ⟨closed, _, rfl, nothing⟩ := shows_cons.mp ending
  rw [shows_nil.mp nothing]
  exact ⟨opened, early, first, middle, second, late, closed, rfl, shownStart,
    shownGuard, shownStep⟩

theorem head_of_shows {start step : Assignment}
    (startFormed : start.WellFormed)
    (guardFormed : guard.WellFormed)
    (stepFormed : step.WellFormed)
    (shown : Shows tokens (Stmt.printHead choice start guard step)) :
    ∃ head, LoopHeadPhrase tokens head ∧
      head.start.withoutLines = start.withoutLines ∧
      head.guard.withoutLines = guard.withoutLines ∧
      head.step.withoutLines = step.withoutLines := by
  obtain ⟨_, _, _, _, _, _, _, rfl, shownStart, shownGuard, shownStep⟩ :=
    shows_head shown
  obtain ⟨first, starts, sameStart⟩ :=
    assignment_of_shows startFormed shownStart
  obtain ⟨test, tests, sameGuard⟩ :=
    exists_phrase_of_shows guardFormed shownGuard
  obtain ⟨second, steps, sameStep⟩ := assignment_of_shows stepFormed shownStep
  exact ⟨⟨first, test, second⟩, .mk starts tests steps, sameStart,
    sameGuard, sameStep⟩

mutual

/-- What a statement is printed as denotes it. -/
theorem statement_of_shows (statement : Stmt)
    (wellFormed : statement.WellFormed)
    (choice : Choice) {tokens : List Token}
    (shown : Shows tokens (statement.print choice)) :
    ∃ tree, CodePhrase .statement tokens [tree] ∧
      tree.withoutLines = statement.withoutLines := by
  match statement with
  | .declare declaration =>
    rw [Stmt.print] at shown
    rw [Stmt.WellFormed] at wellFormed
    obtain ⟨_, _, line, rfl, phrase⟩ := declaration_of_shows wellFormed shown
    exact ⟨_, .declare phrase, rfl⟩
  | .assign assignment =>
    rw [Stmt.WellFormed] at wellFormed
    simp only [Stmt.print, shows_append, shows_cons, shows_nil] at shown
    obtain ⟨_, _, rfl, shownAssignment, _, _, rfl, rfl⟩ := shown
    obtain ⟨tree, phrase, same⟩ := assignment_of_shows wellFormed
      shownAssignment
    exact ⟨.assign tree, .assign phrase, congrArg Stmt.assign same⟩
  | .branch guard body line =>
    rw [Stmt.WellFormed] at wellFormed
    simp only [Stmt.print, shows_append, shows_cons] at shown
    obtain ⟨_, _, rfl, ⟨position, front, rfl, shownGuard⟩, _, _, rfl,
      shownBody⟩ := shown
    obtain ⟨test, guards, sameGuard⟩ := guard_of_shows wellFormed.1 shownGuard
    obtain ⟨inside, blocks, sameBody⟩ :=
      body_of_shows body wellFormed.2 _ shownBody
    refine ⟨.branch test inside position.line,
      .branch guards (.block blocks), ?_⟩
    rw [Stmt.withoutLines, sameGuard, sameBody, Stmt.withoutLines]
  | .branchElse guard body otherwise line =>
    rw [Stmt.WellFormed] at wellFormed
    simp only [Stmt.print, shows_append, shows_cons] at shown
    obtain ⟨_, _, rfl, ⟨_, _, rfl, ⟨position, front, rfl, shownGuard⟩, _, _,
      rfl, shownBody⟩, _, _, rfl, _, _, rfl, shownOtherwise⟩ := shown
    obtain ⟨guardFormed, bodyFormed, otherwiseFormed⟩ := wellFormed
    obtain ⟨test, guards, sameGuard⟩ := guard_of_shows guardFormed shownGuard
    obtain ⟨inside, blocks, sameBody⟩ :=
      body_of_shows body bodyFormed _ shownBody
    obtain ⟨outside, others, sameOthers⟩ :=
      body_of_shows otherwise otherwiseFormed _ shownOtherwise
    refine ⟨.branchElse test inside outside position.line,
      .branchElse guards (.block blocks) (.block others), ?_⟩
    rw [Stmt.withoutLines, sameGuard, sameBody, sameOthers, Stmt.withoutLines]
  | .whileLoop guard body line =>
    rw [Stmt.WellFormed] at wellFormed
    simp only [Stmt.print, shows_append, shows_cons] at shown
    obtain ⟨_, _, rfl, ⟨position, front, rfl, shownGuard⟩, _, _, rfl,
      shownBody⟩ := shown
    obtain ⟨test, guards, sameGuard⟩ := guard_of_shows wellFormed.1 shownGuard
    obtain ⟨inside, blocks, sameBody⟩ :=
      body_of_shows body wellFormed.2 _ shownBody
    refine ⟨.whileLoop test inside position.line,
      .whileLoop guards (.block blocks), ?_⟩
    rw [Stmt.withoutLines, sameGuard, sameBody, Stmt.withoutLines]
  | .forLoop start guard step body line =>
    rw [Stmt.WellFormed] at wellFormed
    simp only [Stmt.print, shows_append, shows_cons] at shown
    obtain ⟨_, _, rfl, ⟨position, front, rfl, shownHead⟩, _, _, rfl,
      shownBody⟩ := shown
    obtain ⟨startFormed, guardFormed, stepFormed, bodyFormed⟩ := wellFormed
    obtain ⟨head, heads, sameStart, sameGuard, sameStep⟩ :=
      head_of_shows startFormed guardFormed stepFormed shownHead
    obtain ⟨inside, blocks, sameBody⟩ :=
      body_of_shows body bodyFormed _ shownBody
    refine ⟨.forLoop head.start head.guard head.step inside position.line,
      .forLoop heads (.block blocks), ?_⟩
    rw [Stmt.withoutLines, sameStart, sameGuard, sameStep, sameBody,
      Stmt.withoutLines]
  | .write value line =>
    rw [Stmt.WellFormed] at wellFormed
    simp only [Stmt.print, shows_append, shows_cons, shows_nil] at shown
    obtain ⟨_, _, rfl, ⟨position, _, rfl, shownValue⟩, _, _, rfl, rfl⟩ := shown
    obtain ⟨tree, phrase, same⟩ := exists_phrase_of_shows wellFormed shownValue
    refine ⟨.write tree position.line, .write phrase, ?_⟩
    rw [Stmt.withoutLines, same, Stmt.withoutLines]
  | .ret none line =>
    simp only [Stmt.print, shows_cons, shows_nil] at shown
    obtain ⟨_, _, rfl, _, _, rfl, rfl⟩ := shown
    exact ⟨_, .bareReturn, rfl⟩
  | .ret (some value) line =>
    rw [Stmt.WellFormed] at wellFormed
    simp only [Stmt.print, shows_append, shows_cons, shows_nil] at shown
    obtain ⟨_, _, rfl, ⟨position, _, rfl, shownValue⟩, _, _, rfl, rfl⟩ := shown
    obtain ⟨tree, phrase, same⟩ :=
      exists_phrase_of_shows (wellFormed value rfl) shownValue
    refine ⟨.ret (some tree) position.line, .return phrase, ?_⟩
    rw [Stmt.withoutLines, Option.map_some, same, Stmt.withoutLines,
      Option.map_some]
  | .call name arguments line =>
    rw [Stmt.WellFormed] at wellFormed
    rw [Stmt.print, shows_append, Expr.print] at shown
    simp only [shows_cons, shows_nil] at shown
    obtain ⟨_, _, rfl, shownCall, _, _, rfl, rfl⟩ := shown
    obtain ⟨trees, line, phrase, same⟩ :=
      call_of_shows shownCall fun some _ shownArguments =>
        arguments_of_shows arguments wellFormed choice shownArguments some
    refine ⟨.call name trees line, .call phrase, ?_⟩
    rw [Stmt.withoutLines, same, Stmt.withoutLines]

theorem body_of_shows (body : List Stmt)
    (wellFormed : Stmt.BodyWellFormed body)
    (choice : Choice) {tokens : List Token}
    (shown : Shows tokens (Stmt.printBody choice body)) :
    ∃ trees, CodePhrase .body tokens trees ∧
      Stmt.bodyWithoutLines trees = Stmt.bodyWithoutLines body := by
  match body with
  | [] =>
    simp only [Stmt.printBody, shows_cons, shows_nil] at shown
    obtain ⟨_, _, rfl, rfl⟩ := shown
    exact ⟨[], .done, rfl⟩
  | first :: others =>
    simp only [Stmt.printBody, shows_append] at shown
    obtain ⟨_, _, rfl, shownFirst, shownOthers⟩ := shown
    rw [Stmt.BodyWellFormed] at wellFormed
    obtain ⟨tree, phrase, same⟩ :=
      statement_of_shows first wellFormed.1 _ shownFirst
    obtain ⟨trees, phrases, sameOthers⟩ :=
      body_of_shows others wellFormed.2 _ shownOthers
    exact ⟨tree :: trees, .step phrase phrases,
      congrArg₂ List.cons same sameOthers⟩

end

/-! ## Programs -/

theorem function_of_shows {function : Function}
    (wellFormed : function.WellFormed)
    (shown : Shows tokens (function.print choice)) :
    ∃ tree, FunctionPhrase tokens tree ∧
      tree.withoutLines = function.withoutLines := by
  obtain ⟨name, parameters, returns, body, _⟩ := function
  obtain ⟨returnsFormed, parametersFormed, bodyFormed⟩ := wellFormed
  simp only [Function.print, shows_append, shows_cons, shows_nil] at shown
  obtain ⟨_, _, rfl, ⟨_, _, rfl, ⟨position, _, rfl, shownReturns⟩, _, _,
    rfl, _, _, rfl, _, _, rfl, shownParameters, closed, _, rfl, rfl⟩, _, _, rfl,
    shownBody⟩ := shown
  have typed := type_of_shows returnsFormed shownReturns
  obtain ⟨statements, blocks, sameBody⟩ :=
    body_of_shows body bodyFormed _ shownBody
  cases parameters with
  | nil =>
    cases shows_nil.mp shownParameters
    refine ⟨⟨name, [], returns, statements, position.line⟩, ?_, ?_⟩
    · rw [List.append_assoc]
      exact .bare typed (.block blocks)
    · simp only [Function.withoutLines, sameBody]
  | cons parameter parameters =>
    obtain ⟨trees, phrase, same⟩ :=
      parameters_of_shows parametersFormed shownParameters nofun closed
    refine ⟨⟨name, trees, returns, statements, position.line⟩,
      .mk typed phrase (.block blocks), ?_⟩
    simp only [Function.withoutLines, sameBody, same]

theorem functions_of_shows {functions : List Function}
    (wellFormed : ∀ function ∈ functions, function.WellFormed)
    (shown : Shows tokens (Function.printList choice functions)) :
    ∃ trees, FunctionsPhrase tokens trees ∧
      trees.map Function.withoutLines =
        functions.map Function.withoutLines := by
  induction functions generalizing choice tokens with
  | nil =>
    cases shows_nil.mp shown
    exact ⟨[], .none, rfl⟩
  | cons function functions ih =>
    obtain ⟨formed, othersFormed⟩ := List.forall_mem_cons.mp wellFormed
    obtain ⟨_, _, rfl, shownFirst, shownOthers⟩ := shows_append.mp shown
    obtain ⟨tree, phrase, same⟩ := function_of_shows formed shownFirst
    obtain ⟨trees, phrases, sameOthers⟩ := ih othersFormed shownOthers
    exact ⟨tree :: trees, .more phrase phrases,
      congrArg₂ List.cons same sameOthers⟩

theorem globals_of_shows {globals : List Declaration}
    (wellFormed : ∀ declaration ∈ globals, declaration.WellFormed)
    (shown : Shows tokens (globals.flatMap fun declaration =>
      .keyword .var :: declaration.print ++ [.symbol .semicolon])) :
    ∃ trees, GlobalsPhrase tokens trees ∧
      trees.map Declaration.withoutLines =
        globals.map Declaration.withoutLines := by
  induction globals generalizing tokens with
  | nil =>
    cases shows_nil.mp shown
    exact ⟨[], .none, rfl⟩
  | cons declaration globals ih =>
    obtain ⟨formed, othersFormed⟩ := List.forall_mem_cons.mp wellFormed
    rw [List.flatMap_cons] at shown
    obtain ⟨_, _, rfl, shownFirst, shownOthers⟩ := shows_append.mp shown
    obtain ⟨_, _, _, rfl, phrase⟩ := declaration_of_shows formed shownFirst
    obtain ⟨trees, phrases, sameOthers⟩ := ih othersFormed shownOthers
    exact ⟨_, .more phrase phrases, congrArg₂ List.cons rfl sameOthers⟩

/--
A well-formed program is read back from its printed tokens, wherever they stand
and whichever parentheses are left out, and only the lines can differ.
-/
theorem ofTokens_print {program : Program}
    (wellFormed : program.WellFormed)
    (choice : Choice) {tokens : List Token}
    (printed : tokens.map Token.kind = program.print choice)
    (position : Position) :
    ∃ reread, Program.ofTokens (tokens ++ [⟨.finish, position⟩]) = .ok reread ∧
      reread.withoutLines = program.withoutLines := by
  have shown : Shows tokens (program.print choice) := printed
  simp only [Program.print, shows_append, shows_cons] at shown
  obtain ⟨_, _, rfl, ⟨_, _, rfl, _, _, rfl, _, _, rfl, shownGlobals⟩,
      shownFunctions⟩ :=
    shown
  obtain ⟨globals, declared, sameGlobals⟩ :=
    globals_of_shows wellFormed.globals shownGlobals
  obtain ⟨functions, defined, sameFunctions⟩ :=
    functions_of_shows wellFormed.functions shownFunctions
  refine ⟨⟨program.name, globals, functions⟩, ?_, ?_⟩
  · rw [ofTokens_append]
    exact (ProgramPhrase.mk declared defined).reads _
  · simp only [Program.withoutLines, sameGlobals, sameFunctions]

/--
A program that writes `(1 < n[0]) && !(n[0] == 3) || (-1.5 < 2.0 == true)`.
-/
def comparisons : Program :=
  let item := Expr.item "n" (.literal (.integer false 0) 4) none 4
  let first := Expr.group (.binary .less (.literal (.integer false 1) 3) item) 3
  let second :=
    Expr.not (.group (.binary .equal item (.literal (.integer false 3) 5)) 5) 5
  let below := Expr.binary .less (.literal (.float (-1.5)) 6)
    (.literal (.float 2) 6)
  let third := Expr.group (.binary .equal below (.literal (.bool true) 7)) 6
  ⟨"p", [⟨"n", .list .int 2, 1⟩],
    [⟨"main", [⟨"k", .basic .int, 2⟩], .basic .void,
      [.write (.binary .or (.binary .and first second) third) 3], 2⟩]⟩

theorem ofTokens_print_comparisons :
    comparisons.WellFormed ∧
      (comparisons.print fun _ => true).length + 4 = (comparisons.print fun _ =>
        false).length ∧
      ∀ bare, ∃ tokens reread,
        tokens.map Token.kind = comparisons.print (fun _ => bare) ∧
        Program.ofTokens (tokens ++ [⟨.finish, .start⟩]) = .ok reread ∧
        reread.withoutLines = comparisons.withoutLines := by
  have formed : comparisons.WellFormed := by
    constructor
    · simp [comparisons, Declaration.WellFormed, Ty.WellFormed,
        Ty.list, Ty.isVoid]
    · refine List.forall_mem_singleton.mpr ⟨.inl rfl, ?_, ?_⟩
      · exact List.forall_mem_singleton.mpr ⟨.inl rfl, rfl⟩
      · simp [Stmt.BodyWellFormed, Stmt.WellFormed, Expr.WellFormed,
          Expr.height, Operator.level, Operator.operandHeight]
  refine ⟨formed, by decide +kernel, fun bare => ?_⟩
  have printed : ((comparisons.print fun _ => bare).map fun kind =>
      Token.mk kind .start).map Token.kind = comparisons.print fun _ =>
      bare := by
    simp [Function.comp_def]
  obtain ⟨reread, read, same⟩ := ofTokens_print formed (fun _ => bare)
    printed .start
  exact ⟨_, reread, printed, read, same⟩

end Grammar

end Easel
