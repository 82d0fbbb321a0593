import Easel.Proofs.Grammar.Rules
import Easel.Proofs.Success

/-!
# Readings and phrases

Whatever reads from the front of a list of tokens takes a phrase from it and
leaves the tokens behind the phrase, or else it refuses the text with a fault
at a line.  In turn, a phrase is read from the front of any list of tokens in
which nothing behind the phrase could make it longer.
-/

namespace Easel.Grammar

/-- A reading gives something of the wanted kind, or refuses the text. -/
def Parses (result : Except CompileError α) (wanted : α → Prop) : Prop :=
  match result with
  | .ok value => wanted value
  | .error problem => ∃ fault line, problem = .parse fault line

namespace Parses

theorem refused {α : Type} {fault : ParseFault} {line : Nat}
    {wanted : α → Prop} :
    Parses (.error (.parse fault line)) wanted :=
  ⟨fault, line, rfl⟩

theorem bind {first : Except CompileError α} {next : α → Except CompileError β}
    {between : α → Prop} {wanted : β → Prop}
    (before : Parses first between)
    (after : ∀ value, between value → Parses (next value) wanted) :
    Parses (first >>= next) wanted := by
  cases first with
  | error problem => exact before
  | ok value => exact after value before

theorem mono {result : Except CompileError α} {wanted weaker : α → Prop}
    (parses : Parses result wanted)
    (weakens : ∀ value, wanted value → weaker value) :
    Parses result weaker := by
  cases result with
  | error problem => exact parses
  | ok value => exact weakens value parses

end Parses

/-- The tokens at the front of `input`, before `rest`, are a phrase. -/
def Takes (input rest : List Token) (phrase : List Token → Prop) : Prop :=
  ∃ front, input = front ++ rest ∧ phrase front

/-- A reading gives a value and leaves the tokens `rest`. -/
def Reads {input : List Token}
    (result : Except CompileError (Reading input α))
    (value : α)
    (rest : List Token) : Prop :=
  ∃ shorter, result = .ok ⟨value, rest, shorter⟩

/-- Reading what may be absent gives a value and leaves the tokens `rest`. -/
def ReadsOptional {input : List Token}
    (result : Except CompileError (OptionalReading input α))
    (value : α)
    (rest : List Token) : Prop :=
  ∃ notLonger, result = .ok ⟨value, rest, notLonger⟩

theorem Reads.bind {input other : List Token}
    {result : Except CompileError (Reading input α)}
    {next : Reading input α → Except CompileError (Reading other β)} {value : α}
    {found : β} {rest last : List Token}
    (reads : Reads result value rest)
    (goesOn : ∀ shorter, Reads (next ⟨value, rest, shorter⟩) found last) :
    Reads (result >>= next) found last := by
  obtain ⟨shorter, rfl⟩ := reads
  exact goesOn shorter

theorem ReadsOptional.bind {input other : List Token}
    {result : Except CompileError (OptionalReading input α)}
    {next : OptionalReading input α → Except CompileError (Reading other β)}
    {value : α} {found : β} {rest last : List Token}
    (reads : ReadsOptional result value rest)
    (goesOn : ∀ notLonger, Reads (next ⟨value, rest, notLonger⟩) found last) :
    Reads (result >>= next) found last := by
  obtain ⟨notLonger, rfl⟩ := reads
  exact goesOn notLonger

/--
Nothing at the front of the tokens goes on behind a name, and no operator of a
level that binds tighter than `bound` stands there.
-/
def Ends (bound : Nat) : List Token → Prop
  | ⟨.symbol symbol, _⟩ :: _ =>
    symbol ≠ .dot ∧ symbol ≠ .leftBracket ∧ symbol ≠ .leftParen ∧
      ∀ level : Level, level.rank < bound → level.operator? symbol = none
  | _ => True

theorem Ends.mono {bound other : Nat} {rest : List Token}
    (ends : Ends bound rest)
    (least : other ≤ bound) :
    Ends other rest := by
  unfold Ends at ends ⊢
  split
  · obtain ⟨noDot, noBracket, noParen, noOperator⟩ := ends
    exact ⟨noDot, noBracket, noParen,
      fun level tight => noOperator level (Nat.lt_of_lt_of_le tight least)⟩
  · trivial

/-- A symbol that closes something ends every expression in front of it. -/
theorem Ends.of_closing {symbol : Symbol}
    (position : Position)
    (rest : List Token)
    (closing : symbol ∈ [Symbol.rightParen, .rightBracket, .semicolon,
      .comma, .assign])
    (bound : Nat) :
    Ends bound (⟨.symbol symbol, position⟩ :: rest) := by
  simp only [List.mem_cons, List.not_mem_nil, or_false] at closing
  rcases closing with rfl | rfl | rfl | rfl | rfl
  all_goals exact ⟨nofun, nofun, nofun, fun level _ => by cases level <;> rfl⟩

section

variable (finish : Token)

theorem takeSymbol_parses (symbol : Symbol)
    (what : String)
    (input : List Token) :
    Parses (takeSymbol finish symbol what input) fun rest =>
      ∃ position, input = ⟨.symbol symbol, position⟩ :: rest.val := by
  unfold takeSymbol
  split
  · split
    · rename_i position rest isSymbol
      subst isSymbol
      exact ⟨position, rfl⟩
    · exact .refused
  · exact .refused

theorem takeKeyword_parses (keyword : Keyword)
    (what : String)
    (input : List Token) :
    Parses (takeKeyword finish keyword what input) fun rest =>
      ∃ position, input = ⟨.keyword keyword, position⟩ :: rest.val := by
  unfold takeKeyword
  split
  · split
    · rename_i position rest isKeyword
      subst isKeyword
      exact ⟨position, rfl⟩
    · exact .refused
  · exact .refused

theorem takeName_parses (what : String) (input : List Token) :
    Parses (takeName finish what input) fun reading =>
      ∃ position, input = ⟨.name reading.value, position⟩ :: reading.rest := by
  unfold takeName
  split
  · rename_i position rest
    exact ⟨position, rfl⟩
  · exact .refused

theorem readField_parses (input : List Token) :
    Parses (readField finish input) fun reading =>
      Takes input reading.rest (Field · reading.value) := by
  unfold readField
  split
  · rename_i dot rest
    refine (takeName_parses finish _ rest).bind ?_
    rintro ⟨field, last, shorter⟩ ⟨named, split⟩
    exact ⟨[⟨.symbol .dot, dot⟩, ⟨.name field, named⟩], by simp [split],
      .present⟩
  · exact ⟨[], rfl, .absent⟩

@[simp]
theorem takeSymbol_self (symbol : Symbol)
    (what : String)
    (position : Position)
    (rest : List Token) :
    takeSymbol finish symbol what (⟨.symbol symbol, position⟩ :: rest) =
      .ok ⟨rest, shorter_tail rest⟩ := by
  simp [takeSymbol]

@[simp]
theorem takeKeyword_self (keyword : Keyword)
    (what : String)
    (position : Position)
    (rest : List Token) :
    takeKeyword finish keyword what (⟨.keyword keyword, position⟩ :: rest) =
      .ok ⟨rest, shorter_tail rest⟩ := by
  simp [takeKeyword]

theorem readField_reads {tokens rest : List Token} {field : Option String}
    (phrase : Field tokens field)
    (ends : Ends 0 rest) :
    ReadsOptional (readField finish (tokens ++ rest)) field rest := by
  cases phrase with
  | present => exact ⟨Nat.le_add_right _ 2, rfl⟩
  | absent =>
    change ReadsOptional (readField finish rest) none rest
    unfold readField
    split
    · exact absurd rfl ends.1
    · exact ⟨Nat.le_refl _, rfl⟩

end

end Easel.Grammar
