import Calculator.Tree.Basic

/-!
# Parsing

The trees of a list of tokens, read without evaluating anything.

Every function reads as much as it can and says what it leaves over. What it leaves
over is shorter than what it was given, and that is what the recursion rests on. The
room is the number of parentheses and assignments that may still be opened.

A name before an equals sign is never read as a factor, so an assignment is found only
where a statement begins.

## Main definitions

* `parseStatement`: The longest statement at the beginning of some tokens.
* `parseProgram`: The statements of all tokens up to the end of the text.

## Theorems

* `parseStatement_tokens`: A statement that is read, written again, is what was
  taken.
-/

namespace Calculator

/-- Tokens that are left over after at least one has been taken. -/
abbrev Rest (tokens : List Token) :=
  { rest : List Token // rest.length < tokens.length }

/-- Tokens that are left over after any number of them has been taken. -/
abbrev RestOrAll (tokens : List Token) :=
  { rest : List Token // rest.length ≤ tokens.length }

mutual

/-- The longest statement at the beginning of some tokens. -/
def parseStatement (room : Nat) (tokens : List Token) : Option (Statement × Rest tokens) :=
  match tokens with
  | .letWord :: .name name :: .equals :: rest =>
      if room = 0 then
        none
      else
        match parseStatement (room - 1) rest with
        | none => none
        | some (value, ⟨rest', h⟩) =>
            some (.assign true name value, ⟨rest', by simp only [List.length_cons]; omega⟩)
  | .name name :: .equals :: rest =>
      if room = 0 then
        none
      else
        match parseStatement (room - 1) rest with
        | none => none
        | some (value, ⟨rest', h⟩) =>
            some (.assign false name value, ⟨rest', by simp only [List.length_cons]; omega⟩)
  | tokens =>
      match parseProduct room tokens with
      | none => none
      | some (p, ⟨rest, h⟩) =>
          match parseSumTail room (.single p) rest with
          | none => none
          | some (s, ⟨rest', h'⟩) => some (.sum s, ⟨rest', by omega⟩)
termination_by (tokens.length, 4)

/-- The longest sum that begins with a sum already read. -/
def parseSumTail (room : Nat) (left : SumTree) (tokens : List Token) :
    Option (SumTree × RestOrAll tokens) :=
  match tokens with
  | [] => some (left, ⟨[], Nat.le_refl _⟩)
  | token :: rest =>
      match token.sumOp? with
      | none => some (left, ⟨token :: rest, Nat.le_refl _⟩)
      | some op =>
          match parseProduct room rest with
          | none => none
          | some (p, ⟨rest', h⟩) =>
              match parseSumTail room (.join left op p) rest' with
              | none => none
              | some (s, ⟨rest'', h'⟩) =>
                  some (s, ⟨rest'', Nat.le_succ_of_le (Nat.le_trans h' (Nat.le_of_lt h))⟩)
termination_by (tokens.length, 0)

/-- The longest product at the beginning of some tokens. -/
def parseProduct (room : Nat) (tokens : List Token) :
    Option (ProductTree × Rest tokens) :=
  match parseFactor room tokens with
  | none => none
  | some (f, ⟨rest, h⟩) =>
      match parseProductTail room (.single f) rest with
      | none => none
      | some (p, ⟨rest', h'⟩) => some (p, ⟨rest', by omega⟩)
termination_by (tokens.length, 2)

/-- The longest product that begins with a product already read. -/
def parseProductTail (room : Nat) (left : ProductTree) (tokens : List Token) :
    Option (ProductTree × RestOrAll tokens) :=
  match tokens with
  | [] => some (left, ⟨[], Nat.le_refl _⟩)
  | token :: rest =>
      match token.productOp? with
      | none => some (left, ⟨token :: rest, Nat.le_refl _⟩)
      | some op =>
          match parseFactor room rest with
          | none => none
          | some (f, ⟨rest', h⟩) =>
              match parseProductTail room (.join left op f) rest' with
              | none => none
              | some (p, ⟨rest'', h'⟩) =>
                  some (p, ⟨rest'', Nat.le_succ_of_le (Nat.le_trans h' (Nat.le_of_lt h))⟩)
termination_by (tokens.length, 0)

/-- The factor at the beginning of some tokens. -/
def parseFactor (room : Nat) (tokens : List Token) : Option (Factor × Rest tokens) :=
  match tokens with
  | .number value :: rest => some (.number value, ⟨rest, Nat.lt_succ_self _⟩)
  | .minus :: .number value :: rest =>
      some (.negated value, ⟨rest, by simp only [List.length_cons]; omega⟩)
  | .name name :: rest =>
      if rest.head? = some .equals then none
      else some (.name name, ⟨rest, Nat.lt_succ_self _⟩)
  | .openParen :: rest =>
      if room = 0 then
        none
      else
        match parseStatement (room - 1) rest with
        | some (s, ⟨.closeParen :: rest', h⟩) =>
            some (.group s, ⟨rest', by simp only [List.length_cons] at h ⊢; omega⟩)
        | _ => none
  | _ => none
termination_by (tokens.length, 1)

end

/-- The statements of all tokens up to the end of the text. -/
def parseProgram (tokens : List Token) : Option (List Statement) :=
  match tokens with
  | [] => some []
  | token :: rest =>
      if token.isEnd then
        some []
      else
        match parseStatement nestingLimit (token :: rest) with
        | none => none
        | some (s, ⟨rest', h⟩) =>
            have : rest'.length < (token :: rest).length := h
            (parseProgram rest').map (s :: ·)
termination_by tokens.length
decreasing_by exact this

mutual

/-- A statement that is read, written again, is what was taken. -/
theorem parseStatement_tokens (room : Nat) (tokens : List Token) {s : Statement}
    {rest : Rest tokens} (h : parseStatement room tokens = some (s, rest)) :
    s.tokens ++ rest.1 = tokens := by
  unfold parseStatement at h
  split at h
  · split at h
    · exact nomatch h
    · split at h
      · exact nomatch h
      · next hvalue =>
          cases h
          -- The tokens of the assignment are put back in front of its right-hand side.
          have ih := parseStatement_tokens _ _ hvalue
          simp only [Statement.tokens, if_true, List.cons_append, List.nil_append]
          rw [ih]
  · split at h
    · exact nomatch h
    · split at h
      · exact nomatch h
      · next hvalue =>
          cases h
          have ih := parseStatement_tokens _ _ hvalue
          simp only [Statement.tokens, if_false, List.cons_append, List.nil_append,
            Bool.false_eq_true]
          rw [ih]
  · split at h
    · exact nomatch h
    · next hfirst =>
        split at h
        · exact nomatch h
        · next htail =>
            cases h
            -- The first product and the rest of the sum are put back in turn.
            have ih := parseProduct_tokens _ _ hfirst
            have ih' := parseSumTail_tokens _ _ _ htail
            rw [Statement.tokens, ih', SumTree.tokens, ih]
termination_by (tokens.length, 4)

/-- What is read behind a sum is what was taken behind it. -/
theorem parseSumTail_tokens (room : Nat) (left : SumTree) (tokens : List Token) {s : SumTree}
    {rest : RestOrAll tokens} (h : parseSumTail room left tokens = some (s, rest)) :
    s.tokens ++ rest.1 = left.tokens ++ tokens := by
  match tokens, rest, h with
  | [], _, h =>
      unfold parseSumTail at h
      cases h
      rfl
  | token :: tokens', _, h =>
      unfold parseSumTail at h
      split at h
      · cases h
        rfl
      · next hop =>
          split at h
          · exact nomatch h
          · next hnext =>
              split at h
              · exact nomatch h
              · next htail =>
                  cases h
                  -- The operator and the product behind it become part of the left side, and the
                  -- tokens stay in their order.
                  have ih := parseProduct_tokens _ _ hnext
                  have ih' := parseSumTail_tokens _ _ _ htail
                  rw [ih', SumTree.tokens, Token.eq_token_of_sumOp? hop, List.append_assoc,
                    List.cons_append, ih]
termination_by (tokens.length, 0)

/-- A product that is read, written again, is what was taken. -/
theorem parseProduct_tokens (room : Nat) (tokens : List Token) {p : ProductTree}
    {rest : Rest tokens} (h : parseProduct room tokens = some (p, rest)) :
    p.tokens ++ rest.1 = tokens := by
  unfold parseProduct at h
  split at h
  · exact nomatch h
  · next hfirst =>
      split at h
      · exact nomatch h
      · next htail =>
          cases h
          have ih := parseFactor_tokens _ _ hfirst
          have ih' := parseProductTail_tokens _ _ _ htail
          rw [ih', ProductTree.tokens, ih]
termination_by (tokens.length, 2)

/-- What is read behind a product is what was taken behind it. -/
theorem parseProductTail_tokens (room : Nat) (left : ProductTree) (tokens : List Token)
    {p : ProductTree} {rest : RestOrAll tokens}
    (h : parseProductTail room left tokens = some (p, rest)) :
    p.tokens ++ rest.1 = left.tokens ++ tokens := by
  match tokens, rest, h with
  | [], _, h =>
      unfold parseProductTail at h
      cases h
      rfl
  | token :: tokens', _, h =>
      unfold parseProductTail at h
      split at h
      · cases h
        rfl
      · next hop =>
          split at h
          · exact nomatch h
          · next hnext =>
              split at h
              · exact nomatch h
              · next htail =>
                  cases h
                  have ih := parseFactor_tokens _ _ hnext
                  have ih' := parseProductTail_tokens _ _ _ htail
                  rw [ih', ProductTree.tokens, Token.eq_token_of_productOp? hop,
                    List.append_assoc, List.cons_append, ih]
termination_by (tokens.length, 0)

/-- A factor that is read, written again, is what was taken. -/
theorem parseFactor_tokens (room : Nat) (tokens : List Token) {f : Factor}
    {rest : Rest tokens} (h : parseFactor room tokens = some (f, rest)) :
    f.tokens ++ rest.1 = tokens := by
  unfold parseFactor at h
  split at h
  · cases h
    rfl
  · cases h
    rfl
  · split at h
    · exact nomatch h
    · cases h
      rfl
  · split at h
    · exact nomatch h
    · split at h
      · next hinner =>
          cases h
          have ih := parseStatement_tokens _ _ hinner
          rw [Factor.tokens, List.cons_append, List.append_assoc, List.singleton_append, ih]
      · exact nomatch h
  · exact nomatch h
termination_by (tokens.length, 1)

end

end Calculator
