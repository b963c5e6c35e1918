import Calculator.Evaluation.Machine
import Calculator.Tree.Basic

/-!
# The Value of a Tree

Evaluating a statement that has been read, by recursion on its tree.

The parts of a tree are evaluated from left to right, and the first failure ends the
evaluation with the memory as it is then. An assignment is written after its
right-hand side has a value.

## Main definitions

* `Evaluated`: A value or a failure, and the memory after it.
* `Statement.evaluate`: The value of a statement.
* `evaluateTrees`: The value of a list of statements, which is that of the last.
-/

namespace Calculator

/-- What an evaluation leaves behind: a value or a failure, and the memory. -/
abbrev Evaluated (α : Type) := Except EvalError α × Memory

/-- Go on after a value, with the memory it left behind. -/
def Evaluated.andThen {α β : Type} (x : Evaluated α) (f : α → Memory → Evaluated β) :
    Evaluated β :=
  match x with
  | (.ok value, memory) => f value memory
  | (.error e, memory) => (.error e, memory)

mutual

/-- The value of a statement in a memory. -/
def Statement.evaluate (memory : Memory) : Statement → Evaluated Binary64
  | .assign _ name value =>
      (value.evaluate memory).andThen fun x memory => (.ok x, memory.assign name x)
  | .sum s => s.evaluate memory

/-- The value of a sum in a memory. -/
def SumTree.evaluate (memory : Memory) : SumTree → Evaluated Binary64
  | .single p => p.evaluate memory
  | .join s op p =>
      (s.evaluate memory).andThen fun x memory =>
        (p.evaluate memory).andThen fun y memory => (.ok (op.apply x y), memory)

/-- The value of a product in a memory. -/
def ProductTree.evaluate (memory : Memory) : ProductTree → Evaluated Binary64
  | .single f => f.evaluate memory
  | .join p op f =>
      (p.evaluate memory).andThen fun x memory =>
        (f.evaluate memory).andThen fun y memory => (op.apply x y, memory)

/-- The value of a factor in a memory. -/
def Factor.evaluate (memory : Memory) : Factor → Evaluated Binary64
  | .number value => (.ok value, memory)
  | .negated value => (.ok value.neg, memory)
  | .name name =>
      match memory.store.get? name with
      | some value => (.ok value, memory)
      | none => (.error (.undefinedVariable name), memory)
  | .group s => s.evaluate memory

end

/-- The value of the last of some statements, or `last` if there are none, after all
    of them have been evaluated in order. -/
def evaluateTrees (memory : Memory) (last : Option Binary64) :
    List Statement → Evaluated (Option Binary64)
  | [] => (.ok last, memory)
  | s :: rest =>
      (s.evaluate memory).andThen fun value memory => evaluateTrees memory (some value) rest

end Calculator
