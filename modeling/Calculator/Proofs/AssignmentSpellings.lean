import Calculator.Proofs.Exchange
import Calculator.Proofs.Lexemes

/-!
# The Two Spellings of an Assignment

An assignment is the same with the word for it and without.

Where a statement begins, a name before an equals sign is the target of an assignment. The word
for assignment there leads to the same target, one token later, and in both cases the machine
goes on at the equals sign, with nothing changed that came before. So the word can be left out
wherever a statement is due, at any depth, whatever is wrong before it or behind it.

## Main definitions

* `IsIdentifier`: A text that is scanned as a name.

## Theorems

* `exchangeable_letWord`: The word for assignment can be left out where a statement begins.
* `Session.eval_letWord`: So it can in a text.
-/

namespace Calculator

/-- A text that is scanned as a name: alphabetic characters, one at least, that are not the word
    for assignment in any case. -/
structure IsIdentifier (name : String) : Prop where
  ne_nil : name.toList ≠ []
  alphabetic : ∀ c ∈ name.toList, isAlphabetic c = true
  ne_let : name.toList.map Char.toLower ≠ ['l', 'e', 't']

/-- Where a statement begins, the word for assignment before a name and an equals sign can be
    left out. -/
theorem exchangeable_letWord (name : String) (rest : List Token) :
    Exchangeable .statement (.letWord :: .name name :: .equals :: rest)
      (.name name :: .equals :: rest) where
  isDue := .inl rfl
  starts := ⟨_, rfl, rfl⟩
  starts' := ⟨_, rfl, rfl⟩
  run m hm := by
    rcases m with ⟨memory, enclosing, phase⟩
    obtain rfl : phase = .operand .start := hm
    exact congrArg StatementEnd.outcome
      ((Machine.run_target true).trans (Machine.run_target false).symm)

/-- The tokens of a name and an equals sign, with blanks around them. -/
theorem Scanner.tokensOf_assignment {name : String} (hname : IsIdentifier name)
    (after : List Char) :
    tokensOf false (' ' :: (name.toList ++ ' ' :: '=' :: ' ' :: after)) =
      .name name :: .equals :: tokensOf false after := by
  have hlexeme : Lexeme none (' ' :: '=' :: ' ' :: after) name.toList
      (.name (String.ofList name.toList)) :=
    .name ⟨hname.ne_nil, hname.alphabetic, fun c hc => by cases hc; decide⟩ hname.ne_let
  have hscan : tokensOf false (name.toList ++ ' ' :: '=' :: ' ' :: after) = _ := hlexeme.tokensOf
  rw [tokensOf_cons_separator rfl, hscan, String.ofList_toList, tokensOf_cons_separator rfl,
    tokensOf_punctuation rfl rfl, tokensOf_cons_separator rfl]
  rfl

/-- The tokens of the word for assignment between blanks. -/
theorem Scanner.tokensOf_letWord (after : List Char) :
    tokensOf false (' ' :: 'l' :: 'e' :: 't' :: ' ' :: after) =
      .letWord :: tokensOf false (' ' :: after) := by
  have hlexeme : Lexeme none (' ' :: after) ['l', 'e', 't'] .letWord :=
    .letWord ⟨List.cons_ne_nil _ _, List.all_eq_true.mp (by decide),
      fun c hc => by cases hc; decide⟩ (by decide)
  rw [tokensOf_cons_separator rfl]
  exact hlexeme.tokensOf

/-- The two spellings of an assignment are one: where a statement is due in a text, the word for
    assignment before a name and an equals sign can be left out. The result is the same, be it a
    value or a failure, and so are the reports behind that of the number of tokens, and the
    store. -/
theorem Session.eval_letWord (s : Session) {before name : String}
    (hdue : StatementDue (Scanner.ofText before).tokens) (hname : IsIdentifier name)
    (after : String) :
    (s.eval (before ++ " let " ++ name ++ " = " ++ after)).result =
        (s.eval (before ++ " " ++ name ++ " = " ++ after)).result ∧
      (s.eval (before ++ " let " ++ name ++ " = " ++ after)).events.tail =
        (s.eval (before ++ " " ++ name ++ " = " ++ after)).events.tail ∧
      (s.eval (before ++ " let " ++ name ++ " = " ++ after)).session.store =
        (s.eval (before ++ " " ++ name ++ " = " ++ after)).session.store := by
  have htext : (before ++ " let " ++ name ++ " = " ++ after).toList = before.toList ++
      ' ' :: ('l' :: 'e' :: 't' :: ' ' :: (name.toList ++ ' ' :: '=' :: ' ' :: after.toList)) := by
    simp only [String.toList_append, List.append_assoc]
    rfl
  have htext' : (before ++ " " ++ name ++ " = " ++ after).toList = before.toList ++
      ' ' :: (name.toList ++ ' ' :: '=' :: ' ' :: after.toList) := by
    simp only [String.toList_append, List.append_assoc]
    rfl
  have htokens := tokenize_of_operandDue htext (by decide) (by decide) hdue.operandDue
  have htokens' := tokenize_of_operandDue htext' (by decide) (by decide) hdue.operandDue
  -- Behind the common front, one spelling has the tokens of the other and a `let` before them.
  rw [Scanner.tokensOf_letWord, Scanner.tokensOf_assignment hname] at htokens
  rw [Scanner.tokensOf_assignment hname] at htokens'
  refine s.eval_exchange ?_ htokens htokens'
  rw [hdue.placeBehind]
  exact exchangeable_letWord name _

/-- An assignment inside another one and a parenthesis, in both spellings. -/
theorem Session.eval_letWord_sample :
    StatementDue (Scanner.ofText "z = (y =").tokens ∧ IsIdentifier "x" ∧
      (new.eval ("z = (y =" ++ " " ++ "x" ++ " = " ++ "2) * 3")).result =
        .ok (some (.ofBits 0x4018000000000000)) ∧
      (new.eval ("z = (y =" ++ " let " ++ "x" ++ " = " ++ "2) * 3")).result =
        .ok (some (.ofBits 0x4018000000000000)) ∧
      (new.eval ("z = (y =" ++ " let " ++ "x" ++ " = " ++ "2) * 3")).events.tail =
        (new.eval ("z = (y =" ++ " " ++ "x" ++ " = " ++ "2) * 3")).events.tail ∧
      (new.eval ("z = (y =" ++ " let " ++ "x" ++ " = " ++ "2) * 3")).session.store =
        (new.eval ("z = (y =" ++ " " ++ "x" ++ " = " ++ "2) * 3")).session.store := by
  have hdue : StatementDue (Scanner.ofText "z = (y =").tokens := by decide +kernel
  have hname : IsIdentifier "x" := ⟨by decide, List.all_eq_true.mp (by decide +kernel), by decide⟩
  have hresult : (new.eval ("z = (y =" ++ " " ++ "x" ++ " = " ++ "2) * 3")).result =
      .ok (some (.ofBits 0x4018000000000000)) := by decide +kernel
  rcases new.eval_letWord hdue hname "2) * 3" with ⟨hsame, hevents, hstore⟩
  exact ⟨hdue, hname, hresult, hsame.trans hresult, hevents, hstore⟩

end Calculator
