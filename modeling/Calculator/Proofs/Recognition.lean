import Calculator.Proofs.Concatenation
import Calculator.Tree.Grammar
import Mathlib.Data.List.Basic

/-!
# What the Grammar Derives

A text fails for its grammar exactly if the grammar does not derive its tokens.

The grammar leaves open where a statement ends, and the machine does not: it goes on with a
statement for as long as it can. So the derivation that is given need not be the one that
the machine follows. Two derivations differ only in whether a minus sign subtracts or
begins a statement, since no statement begins with another operation, with an equals sign
or with a closing parenthesis. A statement that begins with a minus sign is a sum, and the
sum at the end of the statement before it can take it in. Once every such statement has
been taken in, each statement ends where the machine ends it.

The grammar does not know the limit either. Up to the limit a statement is evaluated as its
tree is, and beyond it the evaluation ends with the failure about the limit.

## Main definitions

* `Parted`: Statements none of which could go on with the one before it.
* `Evaluated.SameUpToLimit`: An evaluation that is another one or runs into the limit.

## Theorems

* `exists_parted`: All tokens of statements are those of statements that are parted.
* `Statement.evaluateWithin_sameUpToLimit`: The limit is felt only as its own failure.
* `outcome_evaluateFrom_of_parted`: Parted statements are evaluated as their trees are, up
  to the limit.
* `malformed_notMem_of_derives`: Nothing malformed is derived.
* `run_load_of_derives`: What is derived fails only on names, divisors and the limit, and
  what is not derived fails.
-/

namespace Calculator

/-- A product that begins with a minus sign is a product behind a minus sign. -/
theorem ProductTree.exists_of_minus (p : ProductTree) {rest : List Token}
    (h : p.tokens = .minus :: rest) : ∃ p' : ProductTree, p'.tokens = rest := by
  match p with
  | .single f =>
      cases f with
      | negated value =>
          cases h
          exact ⟨.single (.number value), rfl⟩
      | _ => cases h
  | .join p op f =>
      -- The sign is in front of the first factor, so the longer product keeps the others.
      cases hfirst : p.tokens with
      | nil => exact absurd hfirst p.tokens_ne_nil
      | cons token front =>
          rw [ProductTree.tokens, hfirst, List.cons_append] at h
          rcases List.cons.inj h with ⟨rfl, hrest⟩
          rcases p.exists_of_minus hfirst with ⟨p', hp'⟩
          refine ⟨.join p' op f, ?_⟩
          rw [ProductTree.tokens, hp', hrest]

/-- A sum takes in a sum that begins with a minus sign. -/
theorem SumTree.exists_append (left s : SumTree) (h : s.tokens.head? = some .minus) :
    ∃ whole : SumTree, whole.tokens = left.tokens ++ s.tokens := by
  -- A sum joins to the left, so the induction goes down to its first product, that of the minus,
  -- which becomes the operator between the two parts.
  match s with
  | .single p =>
      rcases List.head?_eq_some_iff.mp h with ⟨rest, hrest⟩
      rcases p.exists_of_minus hrest with ⟨p', rfl⟩
      refine ⟨.join left .minus p', ?_⟩
      rw [hrest]
      rfl
  | .join s op p =>
      have hfirst : s.tokens.head? = some .minus := by
        rw [SumTree.tokens, List.head?_append_of_ne_nil _ s.tokens_ne_nil] at h
        exact h
      rcases left.exists_append s hfirst with ⟨whole, hwhole⟩
      refine ⟨.join whole op p, ?_⟩
      rw [SumTree.tokens, SumTree.tokens, hwhole, List.append_assoc]

/-- A statement takes in a sum that begins with a minus sign: the sum at its end does. -/
theorem Statement.exists_append (s : Statement) (t : SumTree)
    (h : t.tokens.head? = some .minus) :
    ∃ whole : Statement, whole.tokens = s.tokens ++ t.tokens := by
  cases s with
  | assign spelled name value =>
      rcases value.exists_append t h with ⟨whole, hwhole⟩
      refine ⟨.assign spelled name whole, ?_⟩
      rw [Statement.tokens, Statement.tokens, hwhole, List.append_assoc, List.cons_append,
        List.cons_append]
  | sum s =>
      rcases s.exists_append t h with ⟨whole, hwhole⟩
      exact ⟨.sum whole, hwhole⟩

/-- A statement that begins with a minus sign is no assignment. -/
theorem Statement.exists_sum_of_minus (s : Statement) (h : s.tokens.head? = some .minus) :
    ∃ t : SumTree, s = .sum t := by
  match s with
  | .assign true _ _ => cases h
  | .assign false _ _ => cases h
  | .sum t => exact ⟨t, rfl⟩

theorem Factor.begins (f : Factor) (back : List Token) (h : f.tokens.head? ≠ some .minus) :
    Begins (f.tokens ++ back) := by
  match f, h with
  | .number _, _ => exact ⟨⟨rfl, rfl⟩, nofun⟩
  | .negated _, h => exact absurd rfl h
  | .name _, _ => exact ⟨⟨rfl, rfl⟩, nofun⟩
  | .group _, _ => exact ⟨⟨rfl, rfl⟩, nofun⟩

theorem ProductTree.begins (p : ProductTree) (back : List Token)
    (h : p.tokens.head? ≠ some .minus) : Begins (p.tokens ++ back) := by
  match p with
  | .single f => exact f.begins back h
  | .join p op f =>
      rw [ProductTree.tokens, List.head?_append_of_ne_nil _ p.tokens_ne_nil] at h
      rw [ProductTree.tokens, List.append_assoc]
      exact p.begins _ h

theorem SumTree.begins (s : SumTree) (back : List Token) (h : s.tokens.head? ≠ some .minus) :
    Begins (s.tokens ++ back) := by
  match s with
  | .single p => exact p.begins back h
  | .join s op p =>
      rw [SumTree.tokens, List.head?_append_of_ne_nil _ s.tokens_ne_nil] at h
      rw [SumTree.tokens, List.append_assoc]
      exact s.begins _ h

/-- A statement that does not begin with a minus sign begins with no token that could go on
    with another. -/
theorem Statement.begins (s : Statement) (back : List Token)
    (h : s.tokens.head? ≠ some .minus) : Begins (s.tokens ++ back) := by
  match s with
  | .assign true _ _ => exact ⟨⟨rfl, rfl⟩, nofun⟩
  | .assign false _ _ => exact ⟨⟨rfl, rfl⟩, nofun⟩
  | .sum s => exact s.begins back h

/-- Statements of which only the first may begin with a minus sign. -/
def Parted (trees : List Statement) : Prop :=
  ∀ s ∈ trees.tail, s.tokens.head? ≠ some .minus

/-- All tokens of statements are the tokens of statements that are parted. -/
theorem exists_parted (trees : List Statement) :
    ∃ trees', trees'.flatMap Statement.tokens = trees.flatMap Statement.tokens ∧
      Parted trees' := by
  induction trees with
  | nil => exact ⟨[], rfl, nofun⟩
  | cons s trees ih =>
      rcases ih with ⟨trees', htokens, hparted⟩
      rw [List.flatMap_cons, ← htokens]
      cases trees' with
      | nil => exact ⟨[s], rfl, nofun⟩
      | cons s' rest =>
          by_cases hminus : s'.tokens.head? = some .minus
          · -- The next statement is a sum, and the new one takes it in.
            rcases s'.exists_sum_of_minus hminus with ⟨t, rfl⟩
            rcases s.exists_append t hminus with ⟨whole, hwhole⟩
            refine ⟨whole :: rest, ?_, hparted⟩
            rw [List.flatMap_cons, List.flatMap_cons, hwhole, List.append_assoc]
            rfl
          · refine ⟨s :: s' :: rest, List.flatMap_cons, ?_⟩
            rw [Parted, List.tail_cons, List.forall_mem_cons]
            exact ⟨hminus, hparted⟩

/-- What follows the first of some parted statements does not go on with it. -/
theorem Parted.begins {s : Statement} {trees : List Statement} (h : Parted (s :: trees))
    {back : List Token} (hback : Begins back) :
    Begins (trees.flatMap Statement.tokens ++ back) := by
  cases trees with
  | nil => exact hback
  | cons s' rest =>
      rw [List.flatMap_cons, List.append_assoc]
      exact s'.begins _ (h s' List.mem_cons_self)

/-- An evaluation that is another one, unless it runs into the limit of nesting. -/
def Evaluated.SameUpToLimit {α : Type} (x y : Evaluated α) : Prop :=
  x.1 = .error .nestedTooDeeply ∨ x = y

/-- Evaluations that are the same up to the limit stay so where they go on so. -/
theorem Evaluated.SameUpToLimit.andThen {α β : Type} {x y : Evaluated α}
    {f g : α → Memory → Evaluated β} (hxy : x.SameUpToLimit y)
    (hfg : ∀ a memory, (f a memory).SameUpToLimit (g a memory)) :
    (x.andThen f).SameUpToLimit (y.andThen g) := by
  rcases hxy with hlimit | rfl
  · rcases x with ⟨e | a, memory⟩
    · cases hlimit
      exact .inl rfl
    · cases hlimit
  · rcases x with ⟨e | a, memory⟩
    · exact .inr rfl
    · exact hfg a memory

mutual

/-- The limit is felt by a statement only as its own failure. -/
theorem Statement.evaluateWithin_sameUpToLimit (room : Nat) (s : Statement) (memory : Memory) :
    (s.evaluateWithin room memory).SameUpToLimit (s.evaluate memory) := by
  match s with
  | .assign _ name value =>
      rw [Statement.evaluateWithin, Statement.evaluate]
      split
      · exact .inl rfl
      · exact (value.evaluateWithin_sameUpToLimit _ memory).andThen fun _ _ => .inr rfl
  | .sum s => exact s.evaluateWithin_sameUpToLimit room memory

/-- The limit is felt by a sum only as its own failure. -/
theorem SumTree.evaluateWithin_sameUpToLimit (room : Nat) (s : SumTree) (memory : Memory) :
    (s.evaluateWithin room memory).SameUpToLimit (s.evaluate memory) := by
  match s with
  | .single p => exact p.evaluateWithin_sameUpToLimit room memory
  | .join s op p =>
      refine (s.evaluateWithin_sameUpToLimit room memory).andThen fun x memory' => ?_
      exact (p.evaluateWithin_sameUpToLimit room memory').andThen fun _ _ => .inr rfl

/-- The limit is felt by a product only as its own failure. -/
theorem ProductTree.evaluateWithin_sameUpToLimit (room : Nat) (p : ProductTree)
    (memory : Memory) : (p.evaluateWithin room memory).SameUpToLimit (p.evaluate memory) := by
  match p with
  | .single f => exact f.evaluateWithin_sameUpToLimit room memory
  | .join p op f =>
      refine (p.evaluateWithin_sameUpToLimit room memory).andThen fun x memory' => ?_
      exact (f.evaluateWithin_sameUpToLimit room memory').andThen fun _ _ => .inr rfl

/-- The limit is felt by a factor only as its own failure. -/
theorem Factor.evaluateWithin_sameUpToLimit (room : Nat) (f : Factor) (memory : Memory) :
    (f.evaluateWithin room memory).SameUpToLimit (f.evaluate memory) := by
  match f with
  | .number _ => exact .inr rfl
  | .negated _ => exact .inr rfl
  | .name _ => exact .inr rfl
  | .group s =>
      rw [Factor.evaluateWithin, Factor.evaluate]
      split
      · exact .inl rfl
      · exact s.evaluateWithin_sameUpToLimit _ memory

end

/-- Parted statements before the end of the text are evaluated as their trees are, up to the
    limit. -/
theorem outcome_evaluateFrom_of_parted {trees : List Statement} (h : Parted trees)
    (memory : Memory) (last : Option Binary64) :
    (evaluateFrom memory last
      (trees.flatMap Statement.tokens ++ [.endOfText, .endOfText])).outcome.SameUpToLimit
        (evaluateTrees memory last trees) := by
  induction trees generalizing memory last with
  | nil =>
      rw [List.flatMap_nil, List.nil_append, evaluateFrom_of_isEnd rfl]
      exact .inr rfl
  | cons s trees ih =>
      have hmarks : Begins [.endOfText, .endOfText] := ⟨⟨rfl, rfl⟩, nofun⟩
      have hnext := h.begins hmarks
      have hrest : Parted trees := fun s' hs' => h s' (List.mem_of_mem_tail hs')
      -- The first statement ends where the next one begins, and so does its tree.
      rw [List.flatMap_cons, List.append_assoc,
        outcome_evaluateFrom_of_tokens_within hnext.endsStatement fun _ _ => hnext.ne_equals]
      exact (s.evaluateWithin_sameUpToLimit nestingLimit memory).andThen
        fun value memory' => ih hrest memory' (some value)

/-- Nothing malformed is derived. -/
theorem malformed_notMem_of_derives {category : Category} {tokens : List Token}
    (h : Derives category tokens) (message : String) : .malformed message ∉ tokens := by
  -- No rule mentions a malformed token, so it could only come from a part.
  induction h with
  | noStatement => exact List.not_mem_nil
  | statements _ _ first rest =>
      simp only [List.mem_append, first, rest, or_self, not_false_eq_true]
  | spelledAssignment name _ value =>
      simp only [List.mem_cons, reduceCtorEq, value, or_self, not_false_eq_true]
  | assignment name _ value =>
      simp only [List.mem_cons, reduceCtorEq, value, or_self, not_false_eq_true]
  | sum _ ih => exact ih
  | product _ ih => exact ih
  | sums op _ _ left right =>
      cases op <;>
        simp only [SumOp.token, List.mem_append, List.mem_cons, reduceCtorEq, left, right,
          or_self, not_false_eq_true]
  | factor _ ih => exact ih
  | products op _ _ left right =>
      cases op <;>
        simp only [ProductOp.token, List.mem_append, List.mem_cons, reduceCtorEq, left, right,
          or_self, not_false_eq_true]
  | number value => simp only [List.mem_singleton, reduceCtorEq, not_false_eq_true]
  | negated value =>
      simp only [List.mem_cons, reduceCtorEq, List.not_mem_nil, or_self, not_false_eq_true]
  | name name => simp only [List.mem_singleton, reduceCtorEq, not_false_eq_true]
  | group _ ih =>
      simp only [List.mem_cons, List.mem_append, List.not_mem_nil, reduceCtorEq, ih, or_self,
        not_false_eq_true]

/-- What the parser reads is derived. -/
theorem derives_of_parseProgram {tokens : List Token} {trees : List Statement}
    (hmark : .endOfText ∉ tokens)
    (h : parseProgram (tokens ++ [.endOfText, .endOfText]) = some trees) :
    Derives .program tokens := by
  have hend : Token.endOfText ∈ tokens ++ [.endOfText, .endOfText] :=
    List.mem_append_right _ List.mem_cons_self
  rcases parseProgram_inARow hend h with ⟨rest, htokens, -⟩
  have hfront : Token.endOfText ∉ trees.flatMap Statement.tokens := by
    rw [List.mem_flatMap]
    rintro ⟨s, -, hs⟩
    exact s.endOfText_notMem hs
  rw [← (append_cons_inj_of_notMem hfront hmark htokens).1]
  exact derives_flatMap trees

/-- What is derived has a value or nothing to evaluate, or fails as a tree can or on the
    limit. -/
theorem evaluateFrom_of_derives {tokens : List Token} (h : Derives .program tokens)
    (memory : Memory) (last : Option Binary64) :
    (∃ value, (evaluateFrom memory last (tokens ++ [.endOfText, .endOfText])).result =
        .ok value) ∨
      ∃ e, (evaluateFrom memory last (tokens ++ [.endOfText, .endOfText])).result = .error e ∧
        (e.IsOfTree ∨ e = .nestedTooDeeply) := by
  rcases writtenBy_of_derives h with ⟨trees, rfl⟩
  -- The trees of a derivation may be cut where the evaluation does not cut, for example before a
  -- minus. Other trees with the same tokens are cut where it does.
  rcases exists_parted trees with ⟨trees', htokens, hparted⟩
  rw [← htokens]
  rcases outcome_evaluateFrom_of_parted hparted memory last with hlimit | hsame
  · exact .inr ⟨_, hlimit, .inr rfl⟩
  · have hfails := evaluateTrees_failsAsTree trees' memory last
    have hresult := congrArg Prod.fst hsame
    cases hvalue : (evaluateTrees memory last trees').1 with
    | ok value => exact .inl ⟨value, hresult.trans hvalue⟩
    | error e => exact .inr ⟨e, hresult.trans hvalue, .inl (hfails e hvalue)⟩

/-- A run tells the grammar: if the tokens of the text are derived, it has a value or nothing
    to evaluate, or it fails on a name without a number, on a zero divisor or on the limit
    of nesting; and if they are not derived, it fails. Nothing malformed is derived. -/
theorem run_load_of_derives (s : Session) (text : String) :
    (Derives .program (Scanner.ofText text).tokens →
      (∃ value, (s.load text).run.result = .ok value) ∨
        ∃ e, (s.load text).run.result = .error e ∧
          ((∃ name, e = .undefinedVariable name ∧
              e.message = "undefined variable: " ++ name) ∨
            (∃ x y, e = .divisionByZero x y ∧ y.isZero = true ∧
              e.message = "Attempted division by zero: " ++ x.text ++ "/" ++ y.text) ∨
            (e = .nestedTooDeeply ∧
              e.message = "expression nested too deeply (limit 128)"))) ∧
      (¬ Derives .program (Scanner.ofText text).tokens →
        ∃ e, (s.load text).run.result = .error e) ∧
      ∀ message, .malformed message ∈ (Scanner.ofText text).tokens →
        ¬ Derives .program (Scanner.ofText text).tokens := by
  refine ⟨fun h => ?_, fun h => ?_, fun message hmem h => ?_⟩
  · rcases evaluateFrom_of_derives h (.ofStore s.store) none with hvalue | ⟨e, he, hform⟩
    · exact .inl hvalue
    · refine .inr ⟨e, he, ?_⟩
      rcases hform with htree | rfl
      · cases e with
        | undefinedVariable name => exact .inl ⟨name, rfl, rfl⟩
        | divisionByZero x y => exact .inr (.inl ⟨x, y, rfl, htree, rfl⟩)
        | _ => exact htree.elim
      · exact .inr (.inr ⟨rfl, rfl⟩)
  · -- The tree parser fails on what is not derived, and the evaluation fails where it does.
    have hmark := Scanner.endOfText_notMem_tokensOf false text.toList
    have hparse : parseProgram (tokenize text) = none :=
      Option.eq_none_iff_forall_ne_some.mpr
        fun trees htrees => h (derives_of_parseProgram hmark htrees)
    exact evaluateFrom_failed_of_parseProgram (endOfText_mem_tokenize text) hparse
      (.ofStore s.store) none
  · exact malformed_notMem_of_derives h message hmem

end Calculator
