import Calculator.Token.Basic

/-!
# Failures of Evaluation

Why a statement cannot be evaluated, and how that is said.

## Main definitions

* `nestingLimit`: How many parentheses and assignments may be open at once.
* `EvalError`: The cause of a failure.
* `EvalError.message`: Its wording.
-/

namespace Calculator

/-- How many parentheses and assignments may be open at once. -/
def nestingLimit : Nat := 128

/-- Why a statement cannot be evaluated. -/
inductive EvalError where
  /-- A malformed piece of text was reached. -/
  | malformed (message : String)
  /-- A name without a number was read. -/
  | undefinedVariable (name : String)
  /-- A divisor is a zero of either sign. -/
  | divisionByZero (dividend divisor : Binary64)
  /-- A word that starts an assignment stands where a number is needed. -/
  | notANumber (word : String)
  /-- The word for assignment is followed by something other than a name. -/
  | notAnIdentifier (found : Token)
  /-- The name of an assignment is not followed by an equals sign. -/
  | notAnAssignment (name : String) (found : Token)
  /-- A statement inside parentheses is followed by something other than their end. -/
  | unclosedParenthesis (found : Token)
  /-- A token stands where an operand is due, or a number after a minus sign. -/
  | unexpectedToken (found : Token)
  /-- The text ends where an operand is due. -/
  | unexpectedEnd
  /-- A parenthesis or an assignment is opened inside too many others. -/
  | nestedTooDeeply
  deriving DecidableEq

/-- The wording of a failure. -/
def EvalError.message : EvalError → String
  | .malformed message => message
  | .undefinedVariable name => "undefined variable: " ++ name
  | .divisionByZero dividend divisor =>
      "Attempted division by zero: " ++ dividend.text ++ "/" ++ divisor.text
  | .notANumber word => word ++ " is not a number"
  | .notAnIdentifier found => found.text ++ " is not an identifier"
  | .notAnAssignment name found =>
      name ++ " is not an assignment statement: found " ++ found.text
  | .unclosedParenthesis found => "expected ')' after expression found " ++ found.text
  | .unexpectedToken found => "Unexpected token inside factor: " ++ found.text
  | .unexpectedEnd => "unexpected EOF in factor"
  | .nestedTooDeeply =>
      "expression nested too deeply (limit " ++ toString nestingLimit ++ ")"

end Calculator
