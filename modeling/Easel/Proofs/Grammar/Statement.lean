import Easel.Proofs.Grammar.Expression

/-!
# Reading declarations and statements

What is read as a declaration, a statement or a block is a phrase of the
grammar, and each phrase of the grammar is read as what it denotes.  The one
place where a phrase could be longer is a condition with `else` behind it.
-/

namespace Easel.Grammar

variable {assignment : Assignment} {guard value : Expr} {statements : List Stmt}

section

variable (finish : Token)
variable {tokens : List Token}

/-! ## What is read is a phrase -/

theorem readType_parses (before : Token) (input : List Token) :
    Parses (readType finish before input) fun reading =>
      Takes input reading.rest (TypePhrase · reading.value) := by
  unfold readType
  split
  · exact .refused
  · rename_i token rest
    obtain ⟨kind, position⟩ := token
    dsimp only
    split
    · rename_i element
      split
      · rename_i opened sized
        split
        · rename_i size place afterSize
          split
          · exact .refused
          · rename_i nonzero
            refine (takeSymbol_parses finish .rightBracket _ afterSize).bind ?_
            rintro ⟨last, closed⟩ ⟨closing, split⟩
            dsimp only
            split
            · exact .refused
            · rename_i notVoid
              exact ⟨[⟨.type element, position⟩, ⟨.symbol .leftBracket, opened⟩,
                ⟨.integer size, place⟩,
                ⟨.symbol .rightBracket, closing⟩], by simp [split],
                .list notVoid (Nat.pos_of_ne_zero nonzero)⟩
        · exact .refused
        · exact .refused
      · exact ⟨[⟨.type element, position⟩], rfl, .basic⟩
    · exact .refused

theorem readNames_parses (type : Ty) (input : List Token) :
    Parses (readNames finish type input) fun reading =>
      Takes input reading.rest (NamesPhrase type · reading.value) := by
  rw [readNames]
  refine (takeName_parses finish _ input).bind ?_
  rintro ⟨name, rest, shorter⟩ ⟨position, splitInput⟩
  dsimp only at splitInput ⊢
  have line : (peek finish input).line = position.line := by
    rw [splitInput]
    rfl
  rw [line]
  split
  · rename_i comma afterComma _
    refine (readNames_parses type afterComma).bind ?_
    rintro ⟨others, last, shorterStill⟩ ⟨back, split, phrase⟩
    exact ⟨⟨.name name, position⟩ :: ⟨.symbol .comma, comma⟩ :: back,
      by simp [splitInput, split], .more phrase⟩
  · refine (takeSymbol_parses finish .semicolon _ _).bind ?_
    rintro ⟨last, closed⟩ ⟨closing, split⟩
    exact ⟨[⟨.name name, position⟩, ⟨.symbol .semicolon, closing⟩],
      by simp [splitInput, split], .last⟩
termination_by input.length

theorem readDeclaration_parses (before : Token) (input : List Token) :
    Parses (readDeclaration finish before input) fun reading =>
      Takes input reading.rest (DeclarationPhrase · reading.value) := by
  unfold readDeclaration
  refine (readType_parses finish before input).bind ?_
  rintro ⟨type, rest, shorter⟩ ⟨front, splitInput, typed⟩
  dsimp only
  split
  · exact .refused
  · rename_i notVoid
    refine (readNames_parses finish type rest).bind ?_
    rintro ⟨declarations, last, shorterStill⟩ ⟨back, split, phrase⟩
    exact ⟨front ++ back, by simp [splitInput, split],
      .mk typed (Bool.eq_false_iff.mpr notVoid) phrase⟩

variable {type : Ty} {declarations : List Declaration}

theorem TypePhrase.exists_cons (phrase : TypePhrase tokens type) :
    ∃ first front, tokens = first :: front := by
  cases phrase with
  | basic => exact ⟨_, _, rfl⟩
  | list => exact ⟨_, _, rfl⟩

theorem readParameterList_parses (before : Token) (input : List Token) :
    Parses (readParameterList finish before input) fun reading =>
      Takes input reading.rest (ParametersPhrase · reading.value) := by
  rw [readParameterList]
  refine (readType_parses finish before input).bind ?_
  rintro ⟨type, rest, shorter⟩ ⟨tokens, splitInput, typed⟩
  obtain ⟨first, front, rfl⟩ := typed.exists_cons
  dsimp only at splitInput typed ⊢
  have line : (peek finish input).line = first.line := by
    rw [splitInput]
    rfl
  rw [line]
  split
  · exact .refused
  · rename_i notVoid
    rw [Bool.not_eq_true] at notVoid
    refine (takeName_parses finish _ rest).bind ?_
    rintro ⟨name, afterName, named⟩ ⟨position, splitRest⟩
    dsimp only at splitRest ⊢
    split
    · rename_i comma afterComma behindName
      have behindComma : afterComma.length + 1 < rest.length := behindName
      refine (readParameterList_parses ⟨.symbol .comma, comma⟩ afterComma).bind
        ?_
      rintro ⟨others, last, shorterStill⟩ ⟨back, split, phrase⟩
      exact ⟨first :: front ++ ⟨.name name, position⟩ ::
        ⟨.symbol .comma, comma⟩ :: back,
        by simp [splitInput, splitRest, split], .more typed notVoid phrase⟩
    · refine (takeSymbol_parses finish .rightParen _ _).bind ?_
      rintro ⟨last, closed⟩ ⟨closing, split⟩
      exact ⟨first :: front ++ [⟨.name name, position⟩,
        ⟨.symbol .rightParen, closing⟩],
        by simp [splitInput, splitRest, split], .last typed notVoid⟩
termination_by input.length

theorem readTarget_parses (input : List Token) :
    Parses (readTarget finish input) fun reading =>
      Takes input reading.rest (Phrase .target · reading.value) := by
  unfold readTarget
  refine (takeName_parses finish _ input).bind ?_
  rintro ⟨name, rest, shorter⟩ ⟨position, splitInput⟩
  dsimp only at splitInput ⊢
  have line : (peek finish input).line = position.line := by
    rw [splitInput]
    rfl
  rw [line]
  split
  · rename_i opened afterBracket _
    refine (readIndex_parses finish afterBracket).bind ?_
    rintro ⟨index, afterIndex, indexed⟩ ⟨inside, split, closed,
      front, rfl, phrase⟩
    refine (readField_parses finish afterIndex).bind ?_
    rintro ⟨field, last, notLonger⟩ ⟨back, splitAfter, isField⟩
    exact ⟨⟨.name name, position⟩ :: ⟨.symbol .leftBracket, opened⟩ :: front ++
        ⟨.symbol .rightBracket, closed⟩ :: back,
      by simp [splitInput, split, splitAfter], .item phrase isField⟩
  · refine (readField_parses finish _).bind ?_
    rintro ⟨field, last, notLonger⟩ ⟨back, split, isField⟩
    exact ⟨⟨.name name, position⟩ :: back, by simp [splitInput, split],
      .plain isField⟩

theorem readAssignment_parses (input : List Token) :
    Parses (readAssignment finish input) fun reading =>
      Takes input reading.rest (AssignmentPhrase · reading.value) := by
  unfold readAssignment
  refine (readTarget_parses finish input).bind ?_
  rintro ⟨_, afterTarget, _⟩ ⟨front, splitInput, place⟩
  refine (takeSymbol_parses finish .assign _ afterTarget).bind ?_
  rintro ⟨afterSign, _⟩ ⟨position, splitTarget⟩
  refine (readLevel_parses finish .logic afterSign).bind ?_
  rintro ⟨_, _, _⟩ ⟨back, splitSign, phrase⟩
  exact ⟨front ++ ⟨.symbol .assign, position⟩ :: back,
    by simp [splitInput, splitTarget, splitSign], .mk place phrase⟩

theorem readGuard_parses (what : String) (input : List Token) :
    Parses (readGuard finish what input) fun reading =>
      Takes input reading.rest (GuardPhrase · reading.value) := by
  unfold readGuard
  refine (takeSymbol_parses finish .leftParen _ input).bind ?_
  rintro ⟨inside, _⟩ ⟨opened, splitInput⟩
  refine (readLevel_parses finish .logic inside).bind ?_
  rintro ⟨_, afterGuard, _⟩ ⟨front, splitInside, phrase⟩
  refine (takeSymbol_parses finish .rightParen _ afterGuard).bind ?_
  rintro ⟨_, _⟩ ⟨closed, splitGuard⟩
  exact ⟨⟨.symbol .leftParen, opened⟩ :: front ++
    [⟨.symbol .rightParen, closed⟩],
    by simp [splitInput, splitInside, splitGuard], .mk phrase⟩

theorem readLoopHead_parses (input : List Token) :
    Parses (readLoopHead finish input) fun reading =>
      Takes input reading.rest (LoopHeadPhrase · reading.value) := by
  unfold readLoopHead
  refine (takeSymbol_parses finish .leftParen _ input).bind ?_
  rintro ⟨inside, _⟩ ⟨opened, splitInput⟩
  refine (readAssignment_parses finish inside).bind ?_
  rintro ⟨_, afterStart, _⟩ ⟨early, splitInside, starts⟩
  refine (takeSymbol_parses finish .semicolon _ afterStart).bind ?_
  rintro ⟨beforeGuard, _⟩ ⟨first, splitStart⟩
  refine (readLevel_parses finish .logic beforeGuard).bind ?_
  rintro ⟨_, afterGuard, _⟩ ⟨middle, splitBefore, phrase⟩
  refine (takeSymbol_parses finish .semicolon _ afterGuard).bind ?_
  rintro ⟨beforeStep, _⟩ ⟨second, splitGuard⟩
  refine (readAssignment_parses finish beforeStep).bind ?_
  rintro ⟨_, afterStep, _⟩ ⟨late, splitStep, steps⟩
  refine (takeSymbol_parses finish .rightParen _ afterStep).bind ?_
  rintro ⟨_, _⟩ ⟨closed, splitLast⟩
  exact ⟨⟨.symbol .leftParen, opened⟩ :: early ++ ⟨.symbol .semicolon, first⟩ ::
      middle ++ ⟨.symbol .semicolon, second⟩ :: late ++
        [⟨.symbol .rightParen, closed⟩],
    by simp [splitInput, splitInside, splitStart, splitBefore, splitGuard,
      splitStep, splitLast],
    .mk starts phrase steps⟩

theorem readSimple_parses (input : List Token) :
    Parses (readSimple finish input) fun reading =>
      Takes input reading.rest (CodePhrase .statement · [reading.value]) := by
  unfold readSimple
  split
  · exact .refused
  · rename_i token rest
    obtain ⟨kind, position⟩ := token
    dsimp only
    split
    · -- writing
      refine (readLevel_parses finish .logic rest).bind ?_
      rintro ⟨value, afterValue, shorter⟩ ⟨front, split, phrase⟩
      refine (takeSymbol_parses finish .semicolon _ afterValue).bind ?_
      rintro ⟨last, _⟩ ⟨closed, splitAfter⟩
      exact ⟨⟨.keyword .write, position⟩ :: front ++
        [⟨.symbol .semicolon, closed⟩],
        by simp [split, splitAfter], .write phrase⟩
    · -- a return
      split
      · rename_i closed last
        exact ⟨[⟨.keyword .return, position⟩, ⟨.symbol .semicolon, closed⟩],
          rfl, .bareReturn⟩
      · refine (readLevel_parses finish .logic rest).bind ?_
        rintro ⟨value, afterValue, shorter⟩ ⟨front, split, phrase⟩
        refine (takeSymbol_parses finish .semicolon _ afterValue).bind ?_
        rintro ⟨last, _⟩ ⟨closed, splitAfter⟩
        exact ⟨⟨.keyword .return, position⟩ :: front ++
          [⟨.symbol .semicolon, closed⟩],
          by simp [split, splitAfter], .return phrase⟩
    · rename_i name
      split
      · -- a call
        rename_i opened afterParen
        refine (readArguments_parses finish afterParen).bind ?_
        rintro ⟨arguments, afterCall, shorter⟩ ⟨inside, split, call⟩
        refine (takeSymbol_parses finish .semicolon _ afterCall).bind ?_
        rintro ⟨last, _⟩ ⟨closed, splitAfter⟩
        exact ⟨(⟨.name name, position⟩ :: ⟨.symbol .leftParen, opened⟩ ::
            inside) ++ [⟨.symbol .semicolon, closed⟩],
          by simp [split, splitAfter], .call (call name position opened)⟩
      · -- an assignment
        refine (readAssignment_parses finish _).bind ?_
        rintro ⟨assignment, afterValue, shorter⟩ ⟨front, split, phrase⟩
        refine (takeSymbol_parses finish .semicolon _ afterValue).bind ?_
        rintro ⟨last, _⟩ ⟨closed, splitAfter⟩
        exact ⟨front ++
          [⟨.symbol .semicolon, closed⟩], by simp [split, splitAfter],
          .assign phrase⟩
    · exact .refused

mutual

theorem readStatement_parses (input : List Token) :
    Parses (readStatement finish input) fun reading =>
      Takes input reading.rest (CodePhrase .statement · reading.value) := by
  rw [readStatement.eq_def]
  cases input with
  | nil => exact .refused
  | cons token rest =>
    obtain ⟨kind, position⟩ := token
    dsimp only
    split
    · refine (readDeclaration_parses finish _ rest).bind ?_
      rintro ⟨declarations, last, shorter⟩ ⟨front, split, phrase⟩
      exact ⟨⟨.keyword .var, position⟩ :: front, by simp [split],
        .declare phrase⟩
    · refine (readGuard_parses finish _ rest).bind ?_
      rintro ⟨guard, afterGuard, guarded⟩ ⟨front, splitRest, guards⟩
      refine (readBlock_parses afterGuard).bind ?_
      rintro ⟨body, afterBody, blocked⟩ ⟨middle, splitGuard, block⟩
      dsimp only at splitRest splitGuard ⊢
      split
      · rename_i other afterElse behindBody
        have behindElse : afterElse.length + 1 < afterGuard.length := behindBody
        refine (readBlock_parses afterElse).bind ?_
        rintro ⟨otherwise, last, shorter⟩ ⟨back, split, otherBlock⟩
        exact ⟨⟨.keyword .if, position⟩ :: front ++ middle ++
          ⟨.keyword .else, other⟩ :: back,
          by simp [splitRest, splitGuard, split],
            .branchElse guards block otherBlock⟩
      · exact ⟨⟨.keyword .if, position⟩ :: front ++
          middle, by simp [splitRest, splitGuard], .branch guards block⟩
    · refine (readGuard_parses finish _ rest).bind ?_
      rintro ⟨guard, afterGuard, guarded⟩ ⟨front, splitRest, guards⟩
      refine (readBlock_parses afterGuard).bind ?_
      rintro ⟨body, last, blocked⟩ ⟨back, splitGuard, block⟩
      exact ⟨⟨.keyword .while, position⟩ :: front ++
        back, by simp [splitRest, splitGuard], .whileLoop guards block⟩
    · refine (readLoopHead_parses finish rest).bind ?_
      rintro ⟨head, afterHead, headed⟩ ⟨front, splitRest, heads⟩
      refine (readBlock_parses afterHead).bind ?_
      rintro ⟨body, last, blocked⟩ ⟨back, splitHead, block⟩
      exact ⟨⟨.keyword .for, position⟩ :: front ++
        back, by simp [splitRest, splitHead], .forLoop heads block⟩
    · refine (readSimple_parses finish _).bind ?_
      rintro ⟨statement, last, shorter⟩ taken
      exact taken
termination_by 2 * input.length

theorem readBlock_parses (input : List Token) :
    Parses (readBlock finish input) fun reading =>
      Takes input reading.rest (CodePhrase .block · reading.value) := by
  rw [readBlock]
  refine (takeSymbol_parses finish .leftBrace _ input).bind ?_
  rintro ⟨inside, _⟩ ⟨opened, splitInput⟩
  refine (readStatements_parses inside).bind ?_
  rintro ⟨_, _, _⟩ ⟨front, splitInside, phrase⟩
  exact ⟨⟨.symbol .leftBrace, opened⟩ ::
    front, by simp [splitInput, splitInside], .block phrase⟩
termination_by 2 * input.length

theorem readStatements_parses (input : List Token) :
    Parses (readStatements finish input) fun reading =>
      Takes input reading.rest (CodePhrase .body · reading.value) := by
  rw [readStatements.eq_def]
  split
  · exact .refused
  · rename_i closed rest
    exact ⟨[⟨.symbol .rightBrace, closed⟩], rfl, .done⟩
  · refine (readStatement_parses _).bind ?_
    rintro ⟨first, rest, shorter⟩ ⟨front, splitInput, statement⟩
    refine (readStatements_parses rest).bind ?_
    rintro ⟨others, last, shorterStill⟩ ⟨back, splitRest, body⟩
    exact ⟨front ++ back, by simp [splitInput, splitRest], .step statement body⟩
termination_by 2 * input.length + 1

end

/-! ## Phrases are read -/

/-- A type is read whole, since a name stands behind it. -/
theorem TypePhrase.reads (phrase : TypePhrase tokens type)
    (before : Token)
    (name : String)
    (named : Position)
    (rest : List Token) :
    Reads (readType finish before (tokens ++ ⟨.name name, named⟩ :: rest)) type
      (⟨.name name, named⟩ :: rest) := by
  cases phrase with
  | basic => exact ⟨_, rfl⟩
  | @list element size _ _ _ closed notVoid positive =>
    change Reads (readType finish before
      (_ :: _ :: _ :: ⟨.symbol .rightBracket, closed⟩ :: ⟨.name name, named⟩ ::
        rest)) _ _
    unfold readType
    dsimp only
    rw [if_neg (Nat.ne_of_gt positive), takeSymbol_self]
    dsimp only [bind, Except.bind]
    rw [if_neg notVoid]
    exact ⟨_, rfl⟩

theorem NamesPhrase.reads (phrase : NamesPhrase type tokens declarations)
    (rest : List Token) :
    Reads (readNames finish type (tokens ++ rest)) declarations rest := by
  induction phrase with
  | last =>
    rw [List.cons_append, List.cons_append, List.nil_append, readNames]
    dsimp only [takeName, bind, Except.bind]
    rw [takeSymbol_self]
    exact ⟨_, rfl⟩
  | more _ ih =>
    rw [List.cons_append, List.cons_append, readNames]
    exact ih.bind fun _ => ⟨_, rfl⟩

theorem NamesPhrase.exists_cons
    (phrase : NamesPhrase type tokens declarations) :
    ∃ name named back, tokens = ⟨.name name, named⟩ :: back := by
  cases phrase with
  | last => exact ⟨_, _, _, rfl⟩
  | more => exact ⟨_, _, _, rfl⟩

theorem DeclarationPhrase.reads (phrase : DeclarationPhrase tokens declarations)
    (before : Token)
    (rest : List Token) :
    Reads (readDeclaration finish before (tokens ++ rest))
      declarations rest := by
  cases phrase with
  | mk typed notVoid names =>
    have readsNames := names.reads finish rest
    obtain ⟨name, named, back, rfl⟩ := names.exists_cons
    rw [List.append_assoc]
    unfold readDeclaration
    refine (typed.reads finish before name named (back ++ rest)).bind
      fun _ => ?_
    dsimp only
    rw [if_neg (Bool.eq_false_iff.mp notVoid)]
    exact readsNames.bind fun _ => ⟨_, rfl⟩

theorem ParametersPhrase.reads {parameters : List Declaration}
    (phrase : ParametersPhrase tokens parameters)
    (before : Token)
    (rest : List Token) :
    Reads (readParameterList finish before (tokens ++ rest))
      parameters rest := by
  induction phrase generalizing before with
  | @last first front _ name position closed typed notVoid =>
    rw [List.append_assoc]
    change Reads (readParameterList finish before
      (first :: front ++ ⟨.name name, position⟩ ::
        ⟨.symbol .rightParen, closed⟩ :: rest)) _ _
    rw [readParameterList]
    refine (typed.reads finish before _ _ _).bind fun _ => ?_
    dsimp only
    rw [if_neg (Bool.eq_false_iff.mp notVoid)]
    dsimp only [takeName, bind, Except.bind]
    rw [takeSymbol_self]
    exact ⟨_, rfl⟩
  | more typed notVoid _ ih =>
    rw [List.append_assoc, readParameterList]
    refine (typed.reads finish before _ _ _).bind fun _ => ?_
    dsimp only
    rw [if_neg (Bool.eq_false_iff.mp notVoid)]
    exact (ih _).bind fun _ => ⟨_, rfl⟩

theorem AssignmentPhrase.reads {rest : List Token}
    (phrase : AssignmentPhrase tokens assignment)
    (ends : Ends 4 rest) :
    Reads (readAssignment finish (tokens ++ rest)) assignment rest := by
  cases phrase with
  | @mk front back position target value place expression =>
    obtain ⟨_, _, _, _, reads⟩ := place.complete finish
    have endsPlace : Ends 0 (⟨.symbol .assign, position⟩ :: (back ++ rest)) :=
      .of_closing position _ (by decide) 0
    rw [List.append_assoc, List.cons_append]
    unfold readAssignment
    refine (reads _ endsPlace).2.2.bind fun _ => ?_
    dsimp only
    rw [takeSymbol_self]
    exact (expression.complete finish rest ends).bind fun _ => ⟨_, rfl⟩

theorem GuardPhrase.reads (phrase : GuardPhrase tokens guard)
    (what : String)
    (rest : List Token) :
    Reads (readGuard finish what (tokens ++ rest)) guard rest := by
  cases phrase with
  | @mk opened closed inside _ expression =>
    rw [List.cons_append, List.cons_append, List.append_assoc,
      List.singleton_append]
    unfold readGuard
    rw [takeSymbol_self]
    refine (expression.complete finish _
      (.of_closing closed rest (by decide) 4)).bind fun _ => ?_
    dsimp only
    rw [takeSymbol_self]
    exact ⟨_, rfl⟩

theorem LoopHeadPhrase.reads {head : LoopHead}
    (phrase : LoopHeadPhrase tokens head)
    (rest : List Token) :
    Reads (readLoopHead finish (tokens ++ rest)) head rest := by
  cases phrase with
  | @mk opened first second closed early middle late _ _ _ starts
      expression steps =>
    have glued : ⟨.symbol .leftParen, opened⟩ :: early ++
        ⟨.symbol .semicolon, first⟩ :: middle ++ ⟨.symbol .semicolon, second⟩ ::
          late ++ [⟨.symbol .rightParen, closed⟩] ++
        rest = ⟨.symbol .leftParen, opened⟩ ::
          (early ++ ⟨.symbol .semicolon, first⟩ ::
        (middle ++ ⟨.symbol .semicolon, second⟩ ::
          (late ++ (⟨.symbol .rightParen, closed⟩ : Token) :: rest))) := by
      simp
    rw [glued]
    unfold readLoopHead
    rw [takeSymbol_self]
    refine (starts.reads finish (.of_closing first _ (by decide) 4)).bind
      fun _ => ?_
    dsimp only
    rw [takeSymbol_self]
    refine (expression.complete finish _
      (.of_closing second _ (by decide) 4)).bind fun _ => ?_
    dsimp only
    rw [takeSymbol_self]
    refine (steps.reads finish (.of_closing closed _ (by decide) 4)).bind
      fun _ => ?_
    dsimp only
    rw [takeSymbol_self]
    exact ⟨_, rfl⟩

/-- No `else` stands at the front. -/
def NoElse (rest : List Token) : Prop :=
  ∀ position more, rest ≠ ⟨.keyword .else, position⟩ :: more

/-- What reading makes of statements, with no `else` behind a statement. -/
def CompleteCode : CodePart → List Token → List Stmt → Prop
  | .statement, tokens, statements => ∀ rest, NoElse rest →
      Reads (readStatement finish (tokens ++ rest)) statements rest
  | .block, tokens, statements => ∀ rest,
      Reads (readBlock finish (tokens ++ rest)) statements rest
  | .body, tokens, statements => ∀ rest,
      Reads (readStatements finish (tokens ++ rest)) statements rest

/-- No statement starts with `else`. -/
theorem noElse_of_readStatements {input rest : List Token}
    (reads : Reads (readStatements finish input) statements rest) :
    NoElse input := by
  rintro position more rfl
  obtain ⟨_, read⟩ := reads
  rw [readStatements.eq_def] at read
  dsimp only at read
  rw [readStatement.eq_def] at read
  cases read

namespace CompleteCode

variable {finish}
variable {position closed : Position} {front back : List Token}

theorem assign (phrase : AssignmentPhrase tokens assignment) :
    CompleteCode finish .statement (tokens ++ [⟨.symbol .semicolon, closed⟩])
      [.assign assignment] := by
  intro rest _
  have ends : Ends 4 (⟨.symbol .semicolon, closed⟩ :: rest) :=
    .of_closing closed rest (by decide) 4
  have readsWhole := phrase.reads finish ends
  rw [List.append_assoc, List.singleton_append]
  cases phrase with
  | @mk front back position target value place expression =>
    obtain ⟨name, named, later, rfl, reads⟩ := place.complete finish
    have notCall := (reads (⟨.symbol .assign, position⟩ ::
      (back ++ ⟨.symbol .semicolon, closed⟩ :: rest))
      (.of_closing position _ (by decide) 0)).1
    rw [List.append_assoc, List.cons_append, List.cons_append] at readsWhole ⊢
    generalize later ++ ⟨.symbol .assign, position⟩ ::
      (back ++ ⟨.symbol .semicolon, closed⟩ :: rest) =
        following at readsWhole notCall ⊢
    rw [readStatement.eq_def]
    have simple : Reads (readSimple finish (⟨.name name, named⟩ :: following))
        (.assign ⟨target, value, target.line⟩) rest := by
      unfold readSimple
      dsimp only
      split
      · exact absurd rfl (notCall _ _)
      · refine readsWhole.bind fun _ => ?_
        dsimp only
        rw [takeSymbol_self]
        exact ⟨_, rfl⟩
    exact simple.bind fun _ => ⟨_, rfl⟩

theorem branch {body : List Stmt}
    (guards : GuardPhrase front guard)
    (block : CompleteCode finish .block back body) :
    CompleteCode finish .statement (⟨.keyword .if, position⟩ :: front ++ back)
      [.branch guard body position.line] := by
  intro rest noElse
  rw [List.append_assoc, List.cons_append, readStatement.eq_def]
  refine (guards.reads finish _ _).bind fun _ => ?_
  refine (block rest).bind fun _ => ?_
  dsimp only
  split
  · exact absurd rfl (noElse _ _)
  · exact ⟨_, rfl⟩

theorem branchElse {other : Position} {middle : List Token}
    {body otherwise : List Stmt}
    (guards : GuardPhrase front guard)
    (block : CompleteCode finish .block middle body)
    (otherBlock : CompleteCode finish .block back otherwise) :
    CompleteCode finish .statement
      (⟨.keyword .if, position⟩ :: front ++ middle ++
        ⟨.keyword .else, other⟩ :: back)
      [.branchElse guard body otherwise position.line] := by
  intro rest _
  rw [List.append_assoc, List.append_assoc, List.cons_append, List.cons_append,
    readStatement.eq_def]
  refine (guards.reads finish _ _).bind fun _ => ?_
  refine (block _).bind fun _ => ?_
  exact (otherBlock rest).bind fun _ => ⟨_, rfl⟩

theorem write (phrase : Phrase .expression tokens value) :
    CompleteCode finish .statement
      (⟨.keyword .write, position⟩ :: tokens ++ [⟨.symbol .semicolon, closed⟩])
      [.write value position.line] := by
  intro rest _
  have simple : Reads (readSimple finish
      (⟨.keyword .write, position⟩ ::
        (tokens ++ ⟨.symbol .semicolon, closed⟩ :: rest)))
      (.write value position.line) rest := by
    unfold readSimple
    refine (phrase.complete finish _
      (.of_closing closed rest (by decide) 4)).bind fun _ => ?_
    dsimp only
    rw [takeSymbol_self]
    exact ⟨_, rfl⟩
  rw [List.append_assoc, List.cons_append, List.singleton_append,
    readStatement.eq_def]
  exact simple.bind fun _ => ⟨_, rfl⟩

theorem «return» (phrase : Phrase .expression tokens value) :
    CompleteCode finish .statement
      (⟨.keyword .return, position⟩ :: tokens ++ [⟨.symbol .semicolon, closed⟩])
      [.ret (some value) position.line] := by
  intro rest _
  have ends : Ends 4 (⟨.symbol .semicolon, closed⟩ :: rest) :=
    .of_closing closed rest (by decide) 4
  have readsValue := phrase.complete finish _ ends
  have simple : Reads (readSimple finish
      (⟨.keyword .return, position⟩ ::
        (tokens ++ ⟨.symbol .semicolon, closed⟩ :: rest)))
      (.ret (some value) position.line) rest := by
    unfold readSimple
    dsimp only
    generalize tokens ++ ⟨.symbol .semicolon, closed⟩ :: rest =
      following at readsValue ⊢
    split
    · obtain ⟨_, read⟩ := readsValue
      rw [Rank.level, readLevel_closing finish .logic _ _ (.inr rfl)] at read
      cases read
    · refine readsValue.bind fun _ => ?_
      dsimp only
      rw [takeSymbol_self]
      exact ⟨_, rfl⟩
  rw [List.append_assoc, List.cons_append, List.singleton_append,
    readStatement.eq_def]
  exact simple.bind fun _ => ⟨_, rfl⟩

theorem call {name : String} {arguments : List Expr} {line : Nat}
    (phrase : Phrase .call tokens (.call name arguments line)) :
    CompleteCode finish .statement (tokens ++ [⟨.symbol .semicolon, closed⟩])
      [.call name arguments line] := by
  intro rest _
  obtain ⟨_, position, opened, inside, _, rfl, same, reads⟩ :=
    phrase.complete finish
  cases same
  have simple : Reads (readSimple finish (⟨.name name, position⟩ ::
      ⟨.symbol .leftParen, opened⟩ ::
        (inside ++ ⟨.symbol .semicolon, closed⟩ :: rest)))
      (.call name arguments position.line) rest := by
    unfold readSimple
    refine (reads _).bind fun _ => ?_
    dsimp only
    rw [takeSymbol_self]
    exact ⟨_, rfl⟩
  rw [List.append_assoc, List.cons_append, List.cons_append,
    List.singleton_append, readStatement.eq_def]
  exact simple.bind fun _ => ⟨_, rfl⟩

theorem step {first others : List Stmt}
    (statement : CompleteCode finish .statement front first)
    (body : CompleteCode finish .body back others) :
    CompleteCode finish .body (front ++ back) (first ++ others) := by
  intro rest
  have readsOthers := body rest
  have readsFirst := statement (back ++ rest)
    (noElse_of_readStatements finish readsOthers)
  rw [List.append_assoc, readStatements.eq_def]
  generalize front ++ (back ++ rest) = input at readsFirst ⊢
  split
  · obtain ⟨_, read⟩ := readsFirst
    rw [readStatement.eq_def] at read
    cases read
  · obtain ⟨_, read⟩ := readsFirst
    rw [readStatement.eq_def] at read
    cases read
  · exact readsFirst.bind fun _ => readsOthers.bind fun _ => ⟨_, rfl⟩

end CompleteCode

/-- Every phrase of statements is read as the statements that it denotes. -/
theorem CodePhrase.complete {part : CodePart}
    (phrase : CodePhrase part tokens statements) :
    CompleteCode finish part tokens statements := by
  induction phrase with
  | declare declaration =>
    intro rest _
    rw [List.cons_append, readStatement.eq_def]
    exact (declaration.reads finish _ rest).bind fun _ => ⟨_, rfl⟩
  | assign assignment => exact .assign assignment
  | branch guards _ block => exact .branch guards block
  | branchElse guards _ _ block otherBlock =>
    exact .branchElse guards block otherBlock
  | whileLoop guards _ block =>
    intro rest _
    rw [List.append_assoc, List.cons_append, readStatement.eq_def]
    exact (guards.reads finish _ _).bind fun _ => (block rest).bind
      fun _ => ⟨_, rfl⟩
  | forLoop heads _ block =>
    intro rest _
    rw [List.append_assoc, List.cons_append, readStatement.eq_def]
    exact (heads.reads finish _).bind fun _ => (block rest).bind
      fun _ => ⟨_, rfl⟩
  | write expression => exact .write expression
  | bareReturn =>
    intro rest _
    rw [List.cons_append, List.singleton_append, readStatement.eq_def]
    exact ⟨_, rfl⟩
  | «return» expression => exact .return expression
  | call invocation => exact .call invocation
  | block _ body =>
    intro rest
    rw [List.cons_append, readBlock, takeSymbol_self]
    exact (body rest).bind fun _ => ⟨_, rfl⟩
  | done =>
    intro rest
    rw [List.singleton_append, readStatements]
    exact ⟨_, rfl⟩
  | step _ _ statement body => exact .step statement body

end

end Easel.Grammar
