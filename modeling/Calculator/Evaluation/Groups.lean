import Calculator.Token.Basic

/-!
# Groups

What is open at a place of a statement, told from its tokens alone.

A parenthesis is open from its beginning to its end. An assignment is open from its equals
sign on, as long as its right-hand side lasts: to the end of the parenthesis that it stands in,
or to the end of the statement. So the end of a parenthesis ends all assignments that were
begun in it, and then the parenthesis.

This account knows nothing of evaluation, of a limit or of a counter. It is what the depth of
an evaluation is compared with.

## Main definitions

* `Group`: A parenthesis or an assignment.
* `openAfter`: What is open behind one more token.
* `openGroups`: What is open behind the tokens of a statement so far.
* `openBetween`: What is open at a place in the tokens of a text.
* `AssignsOutside`: No equals sign stands in a parenthesis.

## Theorems

* `openAfter_closeParen`: The end of a parenthesis leaves open what encloses it.
* `openBetween_succ`: What is open behind the next token.
-/

namespace Calculator

/-- What can be open in a statement. -/
inductive Group where
  | parenthesis
  | assignment
  deriving DecidableEq, Repr

/-- What is open behind one more token, innermost first. -/
def openAfter (groups : List Group) : Token → List Group
  | .openParen => .parenthesis :: groups
  | .equals => .assignment :: groups
  | .closeParen => (groups.dropWhile (· = .assignment)).tail
  | _ => groups

/-- What is open behind the tokens of a statement so far. -/
def openGroups (taken : List Token) : List Group :=
  taken.foldl openAfter []

/-- What is open in front of the token with an index, in a statement that begins with the
    token of another index. -/
def openBetween (tokens : List Token) (start index : Nat) : List Group :=
  openGroups ((tokens.take index).drop start)

/-- Between two places in the tokens of a statement no equals sign stands in a parenthesis. -/
def AssignsOutside (tokens : List Token) (start stop : Nat) : Prop :=
  ∀ index, start ≤ index → index < stop → tokens[index]? = some .equals →
    .parenthesis ∉ openBetween tokens start index

/-- The end of a parenthesis ends the assignments in it and leaves open what encloses it. -/
theorem openAfter_closeParen (count : Nat) (groups : List Group) :
    openAfter (List.replicate count .assignment ++ .parenthesis :: groups) .closeParen =
      groups := by
  rw [openAfter, List.dropWhile_append_of_pos]
  · rfl
  · intro group hgroup
    rw [List.eq_of_mem_replicate hgroup]
    rfl

-- The parenthesis in the middle is closed again, and the two assignments last.
example :
    openGroups [.name "x", .equals, .openParen, .name "y", .closeParen, .plus, .openParen,
      .name "z", .equals] = [.assignment, .parenthesis, .assignment] :=
  rfl

theorem openBetween_self (tokens : List Token) (start : Nat) :
    openBetween tokens start start = [] := by
  rw [openBetween, List.drop_eq_nil_of_le (List.length_take_le start tokens)]
  rfl

/-- What is open behind the next token. -/
theorem openBetween_succ {tokens : List Token} {start index : Nat} {token : Token}
    (hle : start ≤ index) (htoken : tokens[index]? = some token) :
    openBetween tokens start (index + 1) =
      openAfter (openBetween tokens start index) token := by
  rcases List.getElem?_eq_some_iff.mp htoken with ⟨hlt, -⟩
  have hlength : start ≤ (tokens.take index).length := by
    rw [List.length_take]
    omega
  rw [openBetween, openBetween, List.take_add_one, htoken, Option.toList_some,
    List.drop_append_of_le_length hlength, openGroups, openGroups, List.foldl_append]
  rfl

end Calculator
