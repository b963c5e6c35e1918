import Calculator.Tree.Basic

/-!
# The Grammar

Which lists of tokens are programs, as a context-free grammar.

The grammar says nothing about how far a statement reaches, so one list of tokens may
be derived in several ways: `1 - 2` is one statement, and it is also the two statements
`1` and `- 2`. Nor does it know a limit of nesting. What it derives is exactly what
trees write.

## Main definitions

* `Category`: The symbols of the grammar.
* `Derives`: The tokens that a symbol derives.

## Theorems

* `writtenBy_of_derives`: A symbol derives nothing but the written forms of its trees.
* `derives_flatMap`: The written forms of statements are a program.
-/

namespace Calculator

/-- The symbols of the grammar. -/
inductive Category where
  | program
  | statement
  | sum
  | product
  | factor

/-- The tokens that a symbol derives. -/
inductive Derives : Category → List Token → Prop where
  | noStatement : Derives .program []
  | statements {first rest : List Token} :
      Derives .statement first → Derives .program rest → Derives .program (first ++ rest)
  | spelledAssignment (name : String) {value : List Token} :
      Derives .statement value →
      Derives .statement (.letWord :: .name name :: .equals :: value)
  | assignment (name : String) {value : List Token} :
      Derives .statement value → Derives .statement (.name name :: .equals :: value)
  | sum {ts : List Token} : Derives .sum ts → Derives .statement ts
  | product {ts : List Token} : Derives .product ts → Derives .sum ts
  | sums {left right : List Token} (op : SumOp) :
      Derives .sum left → Derives .product right → Derives .sum (left ++ op.token :: right)
  | factor {ts : List Token} : Derives .factor ts → Derives .product ts
  | products {left right : List Token} (op : ProductOp) :
      Derives .product left → Derives .factor right →
      Derives .product (left ++ op.token :: right)
  | number (value : Binary64) : Derives .factor [.number value]
  | negated (value : Binary64) : Derives .factor [.minus, .number value]
  | name (name : String) : Derives .factor [.name name]
  | group {inner : List Token} :
      Derives .statement inner → Derives .factor (.openParen :: (inner ++ [.closeParen]))

/-- The written forms of the trees of a symbol. -/
def WrittenBy : Category → List Token → Prop
  | .program, ts => ∃ trees : List Statement, trees.flatMap Statement.tokens = ts
  | .statement, ts => ∃ s : Statement, s.tokens = ts
  | .sum, ts => ∃ s : SumTree, s.tokens = ts
  | .product, ts => ∃ p : ProductTree, p.tokens = ts
  | .factor, ts => ∃ f : Factor, f.tokens = ts

/-- What a symbol derives is written by a tree. -/
theorem writtenBy_of_derives {category : Category} {ts : List Token}
    (h : Derives category ts) : WrittenBy category ts := by
  -- Every rule of the grammar is a constructor of the trees.
  induction h with
  | noStatement => exact ⟨[], rfl⟩
  | statements _ _ first rest =>
      obtain ⟨s, rfl⟩ := first
      obtain ⟨trees, rfl⟩ := rest
      exact ⟨s :: trees, List.flatMap_cons⟩
  | spelledAssignment name _ value =>
      obtain ⟨s, rfl⟩ := value
      exact ⟨.assign true name s, rfl⟩
  | assignment name _ value =>
      obtain ⟨s, rfl⟩ := value
      exact ⟨.assign false name s, rfl⟩
  | sum _ ih =>
      obtain ⟨s, rfl⟩ := ih
      exact ⟨.sum s, rfl⟩
  | product _ ih =>
      obtain ⟨p, rfl⟩ := ih
      exact ⟨.single p, rfl⟩
  | sums op _ _ left right =>
      obtain ⟨s, rfl⟩ := left
      obtain ⟨p, rfl⟩ := right
      exact ⟨.join s op p, rfl⟩
  | factor _ ih =>
      obtain ⟨f, rfl⟩ := ih
      exact ⟨.single f, rfl⟩
  | products op _ _ left right =>
      obtain ⟨p, rfl⟩ := left
      obtain ⟨f, rfl⟩ := right
      exact ⟨.join p op f, rfl⟩
  | number value => exact ⟨.number value, rfl⟩
  | negated value => exact ⟨.negated value, rfl⟩
  | name name => exact ⟨.name name, rfl⟩
  | group _ ih =>
      obtain ⟨s, rfl⟩ := ih
      exact ⟨.group s, rfl⟩

mutual

theorem Statement.derives (s : Statement) : Derives .statement s.tokens :=
  match s with
  | .assign true name value => .spelledAssignment name value.derives
  | .assign false name value => .assignment name value.derives
  | .sum s => .sum s.derives

theorem SumTree.derives (s : SumTree) : Derives .sum s.tokens :=
  match s with
  | .single p => .product p.derives
  | .join s op p => .sums op s.derives p.derives

theorem ProductTree.derives (p : ProductTree) : Derives .product p.tokens :=
  match p with
  | .single f => .factor f.derives
  | .join p op f => .products op p.derives f.derives

theorem Factor.derives (f : Factor) : Derives .factor f.tokens :=
  match f with
  | .number value => .number value
  | .negated value => .negated value
  | .name name => .name name
  | .group s => .group s.derives

end

/-- The written form of statements, one after the other, is derived. -/
theorem derives_flatMap (trees : List Statement) :
    Derives .program (trees.flatMap Statement.tokens) := by
  induction trees with
  | nil => exact .noStatement
  | cons s rest ih =>
      rw [List.flatMap_cons]
      exact .statements s.derives ih

end Calculator
