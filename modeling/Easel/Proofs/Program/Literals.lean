import Easel.Proofs.Grammar.Acceptance

/-!
# The literals of a source text

Every literal of a program that was read from a text is the literal of a token
of the text, by itself or behind a minus sign.  Its magnitude is therefore in
range if it is a whole number.
-/

namespace Easel

mutual

/-- An expression and those in it, each before those that it contains. -/
def Expr.parts : Expr → List Expr
  | .literal value line => [.literal value line]
  | .access name field line => [.access name field line]
  | .item name index field line => .item name index field line :: index.parts
  | .call name arguments line => .call name arguments line :: partsOf arguments
  | .not operand line => .not operand line :: operand.parts
  | .group inner line => .group inner line :: inner.parts
  | .binary operator left right =>
    .binary operator left right :: (left.parts ++ right.parts)

def partsOf : List Expr → List Expr
  | [] => []
  | first :: rest => first.parts ++ partsOf rest

end

/-- The expressions of an assignment: of its value, then of its index. -/
def Assignment.parts (assignment : Assignment) : List Expr :=
  assignment.value.parts ++ (assignment.target.index.map Expr.parts).getD []

mutual

/-- The expressions of a statement, in the order of their code. -/
def Stmt.parts : Stmt → List Expr
  | .declare _ => []
  | .assign assignment => assignment.parts
  | .branch guard body _ | .whileLoop guard body _ =>
    guard.parts ++ partsIn body
  | .branchElse guard body otherwise _ =>
    guard.parts ++ (partsIn body ++ partsIn otherwise)
  | .forLoop first guard step body _ =>
    first.parts ++ (guard.parts ++ (partsIn body ++ step.parts))
  | .write value _ => value.parts
  | .ret value _ => (value.map Expr.parts).getD []
  | .call name arguments line => (Expr.call name arguments line).parts

def partsIn : List Stmt → List Expr
  | [] => []
  | statement :: rest => statement.parts ++ partsIn rest

end

theorem partsIn_append (first second : List Stmt) :
    partsIn (first ++ second) = partsIn first ++ partsIn second := by
  induction first with
  | nil => rfl
  | cons statement first induction =>
    rw [List.cons_append, partsIn, partsIn, induction, List.append_assoc]

theorem partsIn_map_declare (declarations : List Declaration) :
    partsIn (declarations.map .declare) = [] := by
  induction declarations with
  | nil => rfl
  | cons declaration declarations induction =>
    rw [List.map_cons, partsIn, induction]
    rfl

theorem partsIn_singleton (statement : Stmt) :
    partsIn [statement] = statement.parts := by
  rw [partsIn, partsIn, List.append_nil]

/-! ## Literals and tokens -/

/-- A literal whose text is written in tokens, maybe behind a minus sign. -/
def Literal.WrittenIn (literal : Literal) (tokens : List Token) : Prop :=
  ∃ token ∈ tokens, token.kind.literal? = some literal ∨
    token.kind.negated? = some literal

/-- A literal in the range of its type. -/
def Literal.Bounded : Literal → Prop
  | integer _ magnitude => magnitude ≤ greatestInteger
  | _ => True

@[grind =]
theorem Literal.writtenIn_append {literal : Literal} {front back : List Token} :
    literal.WrittenIn (front ++ back) ↔ literal.WrittenIn front ∨
      literal.WrittenIn back := by
  simp only [WrittenIn, List.mem_append, or_and_right, exists_or]

@[grind =]
theorem Literal.writtenIn_cons {literal : Literal} {token : Token}
    {tokens : List Token} :
    literal.WrittenIn (token :: tokens) ↔
      (token.kind.literal? = some literal ∨
        token.kind.negated? = some literal) ∨ literal.WrittenIn tokens := by
  simp only [WrittenIn, List.mem_cons, exists_eq_or_imp]

/-- The literal of a token that stands in a text is in range. -/
theorem Literal.WrittenIn.bounded {literal : Literal} {tokens : List Token}
    (written : literal.WrittenIn tokens)
    (lexed : ∀ token ∈ tokens, token.kind.Lexed) :
    literal.Bounded := by
  obtain ⟨⟨kind, _⟩, member, spelled⟩ := written
  have lexed : kind.Lexed := lexed _ member
  cases literal with
  | integer negative magnitude =>
    cases kind with
    | integer number =>
      rcases spelled with spelled | spelled
      · cases spelled
        exact lexed
      · cases spelled
        exact lexed
    | keyword keyword =>
      cases keyword <;> simp [Kind.literal?, Kind.negated?] at spelled
    | _ => simp [Kind.literal?, Kind.negated?] at spelled
  | _ => trivial

namespace Grammar

def Part.parts : (part : Part) → part.Tree → List Expr
  | chain _, tree | operand _, tree | factor, tree | call, tree =>
    Expr.parts tree
  | links _, chained => List.flatMap (fun link => Expr.parts link.2) chained
  | target, place => (place.index.map Expr.parts).getD []
  | arguments, expressions => partsOf expressions

section

variable {literal : Literal} {line : Nat}

theorem mem_parts_wrap {level : Level} {operand : Expr}
    (member : .literal literal line ∈ (level.wrap operand).parts) :
    .literal literal line ∈ operand.parts := by
  unfold Level.wrap at member
  split at member
  · split at member
    · simpa [Expr.parts] using member
    · exact member
  · exact member

theorem mem_parts_binary {operator : Operator} {left right : Expr} :
    .literal literal line ∈ (Expr.binary operator left right).parts ↔
      .literal literal line ∈ left.parts ∨
        .literal literal line ∈ right.parts := by
  simp [Expr.parts]

variable {first : Expr} {links : List Link} {tokens : List Token}

theorem mem_parts_joined
    (member : .literal literal line ∈ (joined first links).parts) :
    .literal literal line ∈ first.parts ∨
      .literal literal line ∈ links.flatMap fun link => link.2.parts := by
  induction links generalizing first with
  | nil => exact .inl member
  | cons link links ih =>
    have := ih member
    rw [List.flatMap_cons]
    grind [mem_parts_binary]

theorem mem_parts_compared
    (member : .literal literal line ∈ (compared first links).1.parts ∨
      .literal literal line ∈ (compared first links).2.flatMap fun link =>
      link.2.parts) :
    .literal literal line ∈ first.parts ∨
      .literal literal line ∈ links.flatMap fun link => link.2.parts := by
  induction links generalizing first with
  | nil => exact member
  | cons link links ih =>
    unfold compared at member
    split at member
    · have := ih member
      rw [List.flatMap_cons]
      grind [mem_parts_binary]
    · exact member

theorem mem_parts_connected {left : Expr}
    (member : .literal literal line ∈ (connected left links).parts) :
    .literal literal line ∈ left.parts ∨
      .literal literal line ∈ links.flatMap fun link => link.2.parts := by
  fun_induction connected left links with
  | case1 left => exact .inl member
  | case2 left operator operand rest next ih =>
    have := ih member
    rw [Level.join, mem_parts_binary] at this
    rw [List.flatMap_cons]
    grind [mem_parts_wrap, mem_parts_compared]

theorem mem_parts_join {rank : Rank}
    (member : .literal literal line ∈ (rank.join first links).parts) :
    .literal literal line ∈ first.parts ∨
      .literal literal line ∈ links.flatMap fun link => link.2.parts := by
  cases rank with
  | test => exact mem_parts_compared (mem_parts_connected member)
  | sum | product => exact mem_parts_joined member

/-- The literals in a part of an expression are those of its tokens. -/
theorem Phrase.literals {part : Part} {tree : part.Tree}
    (phrase : Phrase part tokens tree)
    (member : .literal literal line ∈ part.parts tree) :
    literal.WrittenIn tokens := by
  induction phrase with
  | chain _ _ first rest =>
    rw [Literal.writtenIn_append]
    exact (mem_parts_join member).imp first rest
  | noLink => cases member
  | link _ _ _ operand rest =>
    rw [Literal.writtenIn_append, Literal.writtenIn_cons, or_assoc]
    exact .inr ((List.mem_append.mp member).imp operand rest)
  | exp _ inner | term _ inner | factor _ inner | result _ inner =>
    exact inner member
  | group _ inner | not _ inner | call _ inner =>
    simp only [Part.parts, Expr.parts, List.mem_cons, reduceCtorEq,
      false_or] at member
    have written := inner member
    grind
  | negative spelled | literal spelled =>
    simp only [Part.parts, Expr.parts, List.mem_singleton,
      Expr.literal.injEq] at member
    obtain ⟨rfl, _⟩ := member
    grind
  | @use _ place _ inner =>
    refine inner ?_
    unfold used at member
    split at member
    · simp [Part.parts, Expr.parts] at member
    · rename_i index indexed
      simpa [Part.parts, Expr.parts, indexed] using member
  | plain _ => cases member
  | item _ _ index =>
    have written := index member
    grind
  | bareCall => simp [Part.parts, Expr.parts, partsOf] at member
  | lastArgument _ argument =>
    simp only [Part.parts, partsOf, List.append_nil] at member
    exact argument member
  | argument _ _ first others =>
    rw [Literal.writtenIn_append, Literal.writtenIn_cons]
    exact (List.mem_append.mp member).imp first fun later => .inr (others later)

theorem AssignmentPhrase.literals {assignment : Assignment}
    (phrase : AssignmentPhrase tokens assignment)
    (member : .literal literal line ∈ assignment.parts) :
    literal.WrittenIn tokens := by
  obtain ⟨target, value⟩ := phrase
  rw [Literal.writtenIn_append, Literal.writtenIn_cons]
  rcases List.mem_append.mp member with inValue | inTarget
  · exact .inr (.inr (value.literals inValue))
  · exact .inl (target.literals inTarget)

theorem GuardPhrase.literals {guard : Expr}
    (phrase : GuardPhrase tokens guard)
    (member : .literal literal line ∈ guard.parts) :
    literal.WrittenIn tokens := by
  obtain ⟨inner⟩ := phrase
  have written := inner.literals member
  grind

theorem LoopHeadPhrase.literals {head : LoopHead}
    (phrase : LoopHeadPhrase tokens head)
    (member : .literal literal line ∈ head.start.parts ++
      (head.guard.parts ++ head.step.parts)) :
    literal.WrittenIn tokens := by
  obtain ⟨start, guard, step⟩ := phrase
  rcases List.mem_append.mp member with inStart | later
  · have written := start.literals inStart
    grind
  · rcases List.mem_append.mp later with inGuard | inStep
    · have written := guard.literals inGuard
      grind
    · have written := step.literals inStep
      grind

/-- The literals in statements are those of their tokens. -/
theorem CodePhrase.literals {part : CodePart} {code : List Stmt}
    (phrase : CodePhrase part tokens code)
    (member : .literal literal line ∈ partsIn code) :
    literal.WrittenIn tokens := by
  induction phrase with
  | declare =>
    rw [partsIn_map_declare] at member
    cases member
  | assign assignment =>
    rw [partsIn_singleton, Stmt.parts] at member
    rw [Literal.writtenIn_append]
    exact .inl (assignment.literals member)
  | branch guard _ body | whileLoop guard _ body =>
    rw [partsIn_singleton, Stmt.parts] at member
    rw [Literal.writtenIn_append, Literal.writtenIn_cons, or_assoc]
    exact .inr ((List.mem_append.mp member).imp guard.literals body)
  | branchElse guard _ _ body otherwise =>
    rw [partsIn_singleton, Stmt.parts, ← List.append_assoc, List.mem_append,
      List.mem_append] at member
    have written := member.imp (Or.imp guard.literals body) otherwise
    grind
  | forLoop head _ body =>
    rw [partsIn_singleton, Stmt.parts] at member
    have written := @LoopHeadPhrase.literals literal line _ _ head
    grind
  | write value | «return» value =>
    rw [partsIn_singleton, Stmt.parts] at member
    have written := value.literals member
    grind
  | bareReturn | done => cases member
  | call arguments =>
    rw [partsIn_singleton, Stmt.parts] at member
    rw [Literal.writtenIn_append]
    exact .inl (arguments.literals member)
  | block _ body =>
    rw [Literal.writtenIn_cons]
    exact .inr (body member)
  | step _ _ first others =>
    rw [partsIn_append, List.mem_append] at member
    rw [Literal.writtenIn_append]
    exact member.imp first others

theorem FunctionPhrase.literals {function : Function}
    (phrase : FunctionPhrase tokens function)
    (member : .literal literal line ∈ partsIn function.body) :
    literal.WrittenIn tokens := by
  cases phrase with
  | bare _ block | mk _ _ block =>
    have written := block.literals member
    grind

theorem FunctionsPhrase.literals {functions : List Function}
    (phrase : FunctionsPhrase tokens functions)
    (member : .literal literal line ∈ functions.flatMap fun function =>
      partsIn function.body) :
    literal.WrittenIn tokens := by
  induction phrase with
  | none => cases member
  | more function _ others =>
    rw [List.flatMap_cons, List.mem_append] at member
    rw [Literal.writtenIn_append]
    exact member.imp function.literals others

end

end Grammar

end Easel
