import Calculator.Proofs.Exchange
import Calculator.Proofs.Lexemes
import Calculator.Proofs.Numerals

/-!
# Numerals behind a Minus Sign

A minus sign in front of a numeral means the same whether it touches the numeral or not.

Where an operand is due, a minus sign that touches a numeral is scanned with it as one token,
the number of the other sign. With a blank between them there are two tokens, and the machine
changes the sign when it comes to the second. The two texts have different numbers of tokens,
but in front of the rest of them the machine has been given the same operand, because a numeral
is read with a minus sign as the number of the other sign, zero included.

## Theorems

* `exchangeable_negated`: A number of the other sign can be exchanged for a minus sign and a
  number where an operand is due.
* `Session.eval_minus_blank`: In a text, a blank behind the minus sign of a numeral changes
  nothing.
-/

namespace Calculator

/-- Where an operand is due, a number of the other sign can be exchanged for a minus sign and the
    number. -/
theorem exchangeable_negated {place : Place} (hdue : place.IsDue) (value : Binary64)
    (rest : List Token) :
    Exchangeable place (.number value.neg :: rest) (.minus :: .number value :: rest) where
  isDue := hdue
  starts := ⟨_, rfl, rfl⟩
  starts' := ⟨_, rfl, rfl⟩
  run m hm := by
    rcases hm.exists_left hdue with ⟨left, hphase⟩
    rcases m with ⟨memory, enclosing, phase⟩
    obtain rfl : phase = .operand left := hphase
    have hsign : Machine.step { memory, enclosing, phase := .operand left } .minus
        (.number value) = .advance { memory, enclosing, phase := .negated left } := rfl
    -- Both ways the same operand is supplied, from two phases that it does not ask for.
    have hfolded : (Machine.run { memory, enclosing, phase := .operand left }
        (.number value.neg :: rest)).outcome = resume left enclosing rest value.neg memory :=
      Machine.outcome_run_of_supply { memory, enclosing, phase := .operand left } rfl
    have hnegated : (Machine.run { memory, enclosing, phase := .negated left }
        (.number value :: rest)).outcome = resume left enclosing rest value.neg memory :=
      Machine.outcome_run_of_supply { memory, enclosing, phase := .negated left } rfl
    rw [hfolded, Machine.run_of_advance hsign, hnegated]

/-- A minus sign that touches a numeral is scanned with it as the number of the other sign. -/
theorem Scanner.tokensOf_minus_numeral {digits after : List Char} {value : Binary64}
    (hrun : MaximalRun isNumeralChar digits after)
    (hvalue : Binary64.ofNumeral (String.ofList digits) = .ok value) :
    tokensOf false ('-' :: (digits ++ after)) = .number value.neg :: tokensOf true after := by
  rw [tokensOf_signedNumeral hrun, Token.ofNumeral, Binary64.ofNumeral_minus hrun.all hvalue]
  rfl

/-- A minus sign before a blank and a numeral is scanned by itself. -/
theorem Scanner.tokensOf_minus_blank_numeral {digits after : List Char} {value : Binary64}
    (hrun : MaximalRun isNumeralChar digits after)
    (hvalue : Binary64.ofNumeral (String.ofList digits) = .ok value) :
    tokensOf false ('-' :: ' ' :: (digits ++ after)) =
      .minus :: .number value :: tokensOf true after := by
  rw [tokensOf_punctuation rfl rfl, tokensOf_cons_separator rfl, tokensOf_numeral hrun,
    Token.ofNumeral, hvalue]
  rfl

/-- Where an operand is due in a text, a blank between a minus sign and a numeral changes neither
    the result, be it a value or a failure, nor the reports behind that of the number of tokens,
    nor the store. The numeral is any run of digits and points that is read as a number, and
    what follows it does not go on with it. -/
theorem Session.eval_minus_blank (s : Session) {before digits after : String} {value : Binary64}
    (hdue : OperandDue (Scanner.ofText before).tokens)
    (hrun : MaximalRun isNumeralChar digits.toList after.toList)
    (hvalue : Binary64.ofNumeral digits = .ok value) :
    (s.eval (before ++ "-" ++ digits ++ after)).result =
        (s.eval (before ++ "- " ++ digits ++ after)).result ∧
      (s.eval (before ++ "-" ++ digits ++ after)).events.tail =
        (s.eval (before ++ "- " ++ digits ++ after)).events.tail ∧
      (s.eval (before ++ "-" ++ digits ++ after)).session.store =
        (s.eval (before ++ "- " ++ digits ++ after)).session.store := by
  have htext : (before ++ "-" ++ digits ++ after).toList =
      before.toList ++ '-' :: (digits.toList ++ after.toList) := by
    simp only [String.toList_append, List.append_assoc]
    rfl
  have htext' : (before ++ "- " ++ digits ++ after).toList =
      before.toList ++ '-' :: ' ' :: (digits.toList ++ after.toList) := by
    simp only [String.toList_append, List.append_assoc]
    rfl
  have htokens := tokenize_of_operandDue htext (by decide) (by decide) hdue
  have htokens' := tokenize_of_operandDue htext' (by decide) (by decide) hdue
  rw [← String.ofList_toList (s := digits)] at hvalue
  rw [Scanner.tokensOf_minus_numeral hrun hvalue] at htokens
  rw [Scanner.tokensOf_minus_blank_numeral hrun hvalue] at htokens'
  exact s.eval_exchange (exchangeable_negated hdue.placeBehind value _) htokens htokens'

/-- A negative numeral that is subtracted, with a blank behind its sign and without. -/
theorem Session.eval_minus_blank_sample :
    OperandDue (Scanner.ofText "y = 1 -").tokens ∧
      MaximalRun isNumeralChar "0.5".toList " * 2".toList ∧
      Binary64.ofNumeral "0.5" = .ok (.ofBits 0x3fe0000000000000) ∧
      (new.eval ("y = 1 -" ++ "- " ++ "0.5" ++ " * 2")).result =
        .ok (some (.ofBits 0x4000000000000000)) ∧
      (new.eval ("y = 1 -" ++ "-" ++ "0.5" ++ " * 2")).result =
        .ok (some (.ofBits 0x4000000000000000)) ∧
      (new.eval ("y = 1 -" ++ "-" ++ "0.5" ++ " * 2")).events.tail =
        (new.eval ("y = 1 -" ++ "- " ++ "0.5" ++ " * 2")).events.tail ∧
      (new.eval ("y = 1 -" ++ "-" ++ "0.5" ++ " * 2")).session.store =
        (new.eval ("y = 1 -" ++ "- " ++ "0.5" ++ " * 2")).session.store := by
  have hdue : OperandDue (Scanner.ofText "y = 1 -").tokens := by decide +kernel
  have hrun : MaximalRun isNumeralChar "0.5".toList " * 2".toList :=
    ⟨by decide, List.all_eq_true.mp (by decide), fun c hc => Option.some.inj hc ▸ rfl⟩
  have hvalue : Binary64.ofNumeral "0.5" = .ok (.ofBits 0x3fe0000000000000) := by decide +kernel
  have hresult : (new.eval ("y = 1 -" ++ "- " ++ "0.5" ++ " * 2")).result =
      .ok (some (.ofBits 0x4000000000000000)) := by decide +kernel
  rcases new.eval_minus_blank hdue hrun hvalue with ⟨hsame, hevents, hstore⟩
  exact ⟨hdue, hrun, hvalue, hresult, hsame.trans hresult, hevents, hstore⟩

end Calculator
