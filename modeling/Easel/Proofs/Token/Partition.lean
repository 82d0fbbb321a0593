import Easel.Proofs.Decimal
import Easel.Proofs.Success
import Easel.Token.Lexer

/-!
# Tokens partition the text

A text is cut into the characters of its tokens and what stands between them,
which is blanks and comments.  Nothing is lost, and every token carries the
place of its first character.  Where no token can be read, the fault names the
line on which the offending one starts.
-/

namespace Easel

variable {tokens : List Token}

/-! ## Lexemes -/

/-- A token that stands in a text: not the end, and no number too great. -/
def Kind.Lexed : Kind → Prop
  | finish => False
  | integer number => number ≤ greatestInteger
  | _ => True

section

variable {symbol : Symbol} {first value : Char} {text rest whole : List Char}
variable {lexeme : Lexeme (first :: rest)}

theorem lexed_of_single (read : single symbol first rest = .ok lexeme) :
    lexeme.kind.Lexed := by
  cases read
  trivial

theorem lexed_of_double (read : double symbol first rest = .ok lexeme) :
    lexeme.kind.Lexed := by
  unfold double at read
  split at read
  · cases read
  · split at read
    · cases read
      trivial
    · cases read

theorem lexed_of_readEquals (read : readEquals first rest = .ok lexeme) :
    lexeme.kind.Lexed := by
  unfold readEquals at read
  split at read
  · exact lexed_of_single read
  · split at read
    · cases read
      trivial
    · exact lexed_of_single read

theorem lexed_of_closeChar {lexeme : Lexeme (text ++ rest)}
    (read : closeChar value text rest = .ok lexeme) : lexeme.kind.Lexed := by
  unfold closeChar at read
  split at read
  · cases read
  · split at read
    · cases read
      trivial
    · cases read

theorem lexed_of_readChar (read : readChar first rest = .ok lexeme) :
    lexeme.kind.Lexed := by
  unfold readChar at read
  split at read
  · cases read
  · split at read
    · split at read
      · cases read
      · exact lexed_of_closeChar read
    · split at read
      · cases read
      · exact lexed_of_closeChar read

theorem lexed_of_integer
    (read : readNumber.integer first rest whole = .ok lexeme) :
    lexeme.kind.Lexed := by
  unfold readNumber.integer at read
  split at read
  · rename_i number within
    cases read
    exact Decimal.bound_of_readNatural? within
  · cases read

theorem lexed_of_readNumber (read : readNumber first rest = .ok lexeme) :
    lexeme.kind.Lexed := by
  unfold readNumber at read
  dsimp only at read
  split at read
  · split at read
    · split at read
      · cases read
        trivial
      · cases read
    · exact lexed_of_integer read
  · exact lexed_of_integer read

theorem lexed_ofWord (word : String) : (Kind.ofWord word).Lexed := by
  unfold Kind.ofWord
  split
  · trivial
  · split <;> trivial

/-- Every lexeme is a token that stands in a text. -/
theorem lexed_of_readLexeme (read : readLexeme first rest = .ok lexeme) :
    lexeme.kind.Lexed := by
  unfold readLexeme at read
  split at read
  · exact lexed_of_single read
  split at read
  · exact lexed_of_readEquals read
  split at read
  · exact lexed_of_double read
  split at read
  · exact lexed_of_double read
  split at read
  · obtain ⟨_, _, read⟩ := bind_eq_ok.mp read
    cases read
    trivial
  split at read
  · exact lexed_of_readChar read
  split at read
  · exact lexed_of_readNumber read
  split at read
  · cases read
    exact lexed_ofWord _
  · cases read

end

/-- The place behind a text, by its line breaks and what follows them. -/
def Position.after (text : List Char) : Position :=
  ⟨1 + text.count '\n', 1 + (text.reverse.takeWhile inLine).length⟩

theorem Position.advance_after (before text : List Char) :
    (after before).advance text = after (before ++ text) := by
  induction text generalizing before with
  | nil => rw [List.append_nil]; rfl
  | cons character text induction =>
    have stepped : (after before).step character =
        after (before ++ [character]) := by
      by_cases isBreak : character = '\n' <;>
        simp [step, after, inLine, isBreak, List.takeWhile_cons, Nat.add_assoc]
    rw [advance, List.foldl_cons, ← advance, stepped, induction,
      List.append_assoc]
    rfl

/-! ## Texts -/

/--
Blanks and comments in front of `rest`.  A comment takes up the line on which
it stands, up to a line break or the end of the text.
-/
inductive Gap (rest : List Char) : List Char → Prop where
  | nil : Gap rest []
  | blank {character : Char} {gap : List Char}
      (isBlank : Text.isBlank character = true) (others : Gap rest gap) :
      Gap rest (character :: gap)
  | comment {line gap : List Char} (single : '\n' ∉ line)
      (ended : ∀ next ∈ (gap ++ rest).head?, next = '\n')
      (others : Gap rest gap) : Gap rest ('/' :: '/' :: (line ++ gap))

/-- A text starts with neither a blank nor a comment. -/
def StartsToken (first : Char) (rest : List Char) : Prop :=
  Text.isBlank first = false ∧ startsComment first rest = false

/-- Reading finds a token of the kind and leaves `rest`. -/
def Finds {input : List Char}
    (result : Except ParseFault (Lexeme input))
    (kind : Kind)
    (rest : List Char) : Prop :=
  ∃ lexeme, result = .ok lexeme ∧ lexeme.kind = kind ∧ lexeme.rest = rest

/-- If `rest` follows it, `text` is read as a token of the kind. -/
def Reads (kind : Kind) (text rest : List Char) : Prop :=
  ∃ first tail, text ++ rest = first :: tail ∧ StartsToken first tail ∧
    Finds (readLexeme first tail) kind rest

/--
What reading the `input` behind `before` has to give.  The input is cut into
the spans of tokens, none of which is empty, and gaps.  A token carries the
place of its first character.  The last one stands for the end and has no
characters.  An error names the line of the first character of the token that
cannot be read.
-/
inductive Partition :
    (before input : List Char) → Except CompileError (List Token) → Prop where
  | finish {before gap : List Char} (between : Gap [] gap) :
      Partition before gap (.ok [⟨.finish, .after (before ++ gap)⟩])
  | offends {before gap rest : List Char} {first : Char} {fault : ParseFault}
      (between : Gap (first :: rest) gap) (starts : StartsToken first rest)
      (refused : readLexeme first rest = .error fault) :
      Partition before (gap ++ first :: rest)
        (.error (.parse fault (Position.after (before ++ gap)).line))
  | token {before gap text rest : List Char} {kind : Kind}
      {result : Except CompileError (List Token)}
      (between : Gap (text ++ rest) gap) (nonempty : text ≠ [])
      (proper : kind.Lexed) (reads : Reads kind text rest)
      (others : Partition (before ++ gap ++ text) rest result) :
      Partition before (gap ++ (text ++ rest))
        (result.map (⟨kind, .after (before ++ gap)⟩ :: ·))

variable {before input : List Char} {result : Except CompileError (List Token)}

/-- What joins the gaps in front of an input may stand before it. -/
theorem Partition.skip {piece : List Char}
    (joins : ∀ gap rest, gap ++ rest = input → Gap rest gap →
      Gap rest (piece ++ gap))
    (parts : Partition (before ++ piece) input result) :
    Partition before (piece ++ input) result := by
  cases parts with
  | finish between =>
    rw [List.append_assoc]
    exact .finish (joins input [] (List.append_nil _) between)
  | offends between starts refused =>
    rw [← List.append_assoc, List.append_assoc before]
    exact .offends (joins _ _ rfl between) starts refused
  | token between nonempty proper reads others =>
    rw [← List.append_assoc, List.append_assoc before]
    rw [List.append_assoc before] at others
    exact .token (joins _ _ rfl between) nonempty proper reads others

theorem partition_tokensFrom {position : Position}
    (before : List Char)
    (here : position = .after before) :
    Partition before input (tokensFrom position input) := by
  induction position, input using tokensFrom.induct generalizing before with
  | case1 position =>
    have parts : Partition before [] _ := .finish .nil
    rwa [List.append_nil, ← here, ← tokensFrom] at parts
  | case2 position first rest blank ih =>
    rw [tokensFrom, if_pos blank]
    exact .skip (fun _ _ _ others => .blank blank others)
      (ih (before ++ [first]) (here ▸ Position.advance_after before [first]))
  | case3 position first rest notBlank comment ih =>
    rw [tokensFrom, if_neg notBlank, if_pos comment]
    have parts := ih (before ++ first :: rest.takeWhile inLine)
      (here ▸ Position.advance_after before _)
    have whole : first :: rest =
        (first :: rest.takeWhile inLine) ++ rest.dropWhile inLine := by simp
    rw [whole]
    refine parts.skip fun gap others joined between => ?_
    obtain ⟨rfl, second⟩ : first = '/' ∧ rest.head? = some '/' := by
      simpa [startsComment] using comment
    obtain ⟨more, rfl⟩ := List.head?_eq_some_iff.mp second
    refine .comment (fun member => ?_) (fun next isNext => ?_) between
    · have inside := List.all_eq_true.mp List.all_takeWhile _ member
      simp [inLine] at inside
    · have ended := List.head?_dropWhile_not inLine ('/' :: more)
      rw [← joined, Option.mem_def.mp isNext] at ended
      simpa [inLine] using ended
  | case4 position first rest notBlank noComment fault refused =>
    rw [tokensFrom, if_neg notBlank, if_neg noComment, refused, here]
    have starts : StartsToken first rest :=
      ⟨by simpa using notBlank, by simpa using noComment⟩
    have parts : Partition before ([] ++ first :: rest) _ :=
      .offends .nil starts refused
    rwa [List.append_nil] at parts
  | case5 position first rest notBlank noComment lexeme read ih =>
    rw [tokensFrom, if_neg notBlank, if_neg noComment, read]
    have starts : StartsToken first rest :=
      ⟨by simpa using notBlank, by simpa using noComment⟩
    have reads : Reads lexeme.kind lexeme.text lexeme.rest :=
      ⟨first, rest, lexeme.append_rest, starts, lexeme, read, rfl, rfl⟩
    have others := ih (before ++ lexeme.text)
      (here ▸ Position.advance_after before _)
    rw [← List.append_nil before] at others
    have parts := Partition.token .nil lexeme.text_ne_nil
      (lexed_of_readLexeme read) reads others
    rw [List.append_nil, ← here, List.nil_append, lexeme.append_rest] at parts
    dsimp only
    cases following : tokensFrom (position.advance lexeme.text) lexeme.rest <;>
      rwa [following] at parts

/-- The token that ends a text stands behind all others, and nowhere else. -/
theorem Partition.ends (parts : Partition before input result)
    (read : result = .ok tokens) :
    ∃ body place, tokens = body ++ [⟨.finish, place⟩] ∧
      ∀ token ∈ body, token.kind.Lexed := by
  induction parts generalizing tokens with
  | finish =>
    cases read
    exact ⟨[], _, rfl, by simp⟩
  | offends => cases read
  | @token _ _ _ _ _ result _ _ proper _ _ ih =>
    cases result with
    | error => cases read
    | ok following =>
      cases read
      obtain ⟨body, place, rfl, others⟩ := ih rfl
      exact ⟨_ :: body, place, rfl, List.forall_mem_cons.mpr ⟨proper, others⟩⟩

theorem tokensFrom_ends (lexed : tokensFrom .start input = .ok tokens) :
    ∃ body place, tokens = body ++ [⟨.finish, place⟩] ∧
      ∀ token ∈ body, token.kind.Lexed :=
  (partition_tokensFrom [] rfl).ends lexed

/-- Reading cuts a text into tokens and gaps, up to what cannot be read. -/
theorem partition_of_tokenize (source : String) :
    Partition [] source.toList (tokenize source) :=
  partition_tokensFrom [] rfl

end Easel
