import Calculator.Proofs.Simulation
import Calculator.Tree.Parser

/-!
# What the Parser Takes

The trees that are read fit the machine.

The machine evaluates the written form of a tree where three things hold: the tree is
nested within the limit, what follows does not go on with it, and what follows does not
turn its last name into a target. The parser makes sure of all three without looking
back. It opens only as many parentheses and assignments as it has room for, it goes on
as long as an operation follows, and it refuses a name before an equals sign.

The last condition has to be carried through the tails. A tail extends a tree that has
been read already, and if it extends it by nothing, the condition on the whole is the
condition on what was there before.

## Main definitions

* `Fits`: The conditions on a tree, its room and the tokens behind it.
* `EndsSum`: Tokens that do not go on with the sum before them.

## Theorems

* `parseStatement_fits`: A statement that is read fits, and ends where no operation
  follows.
* `Statement.endOfText_notMem`: A statement is written without the end of the text.
-/

namespace Calculator

/-- Tokens that do not go on with the sum before them. -/
def EndsSum (rest : List Token) : Prop :=
  ∀ token ∈ rest.head?, token.sumOp? = none

theorem endsSum_nil : EndsSum [] :=
  fun _ h => nomatch h

theorem endsProduct_nil : EndsProduct [] :=
  fun _ h => nomatch h

/-- A tree with the written form `front` and the given nesting is nested within the
    room, and its last name is no target before `back`. -/
structure Fits (room nesting : Nat) (front back : List Token) : Prop where
  nesting_le : nesting ≤ room
  detached : Detached front back

/-- A written form before no tokens, or before one that is no equals sign, has no
    target. -/
theorem detached_of_getLast? {front back : List Token} (token : Token)
    (hlast : front.getLast? = some token) (hname : ∀ name, token ≠ .name name) :
    Detached front back := by
  intro name hfront
  rw [hlast] at hfront
  exact absurd (Option.some.inj hfront) (hname name)

/-- A written form that ends with tokens of a tree that fits is detached as they are. -/
theorem detached_append_cons {front middle back : List Token} (token : Token)
    (hne : middle ≠ []) (h : Detached middle back) : Detached (front ++ token :: middle) back := by
  rw [← List.singleton_append, ← List.append_assoc]
  exact (detached_append _ hne).mpr h

theorem Fits.joinSum {room : Nat} {s : SumTree} {op : SumOp} {p : ProductTree}
    {tokens rest : List Token} (hs : Fits room s.nesting s.tokens tokens)
    (hp : Fits room p.nesting p.tokens rest) :
    Fits room (SumTree.join s op p).nesting (SumTree.join s op p).tokens rest :=
  ⟨Nat.max_le.mpr ⟨hs.nesting_le, hp.nesting_le⟩,
    detached_append_cons _ p.tokens_ne_nil hp.detached⟩

theorem Fits.joinProduct {room : Nat} {p : ProductTree} {op : ProductOp} {f : Factor}
    {tokens rest : List Token} (hp : Fits room p.nesting p.tokens tokens)
    (hf : Fits room f.nesting f.tokens rest) :
    Fits room (ProductTree.join p op f).nesting (ProductTree.join p op f).tokens rest :=
  ⟨Nat.max_le.mpr ⟨hp.nesting_le, hf.nesting_le⟩,
    detached_append_cons _ f.tokens_ne_nil hf.detached⟩

/-- An assignment of a statement that fits fits where there is room for one more. -/
theorem Fits.assign {room : Nat} {spelled : Bool} {name : String} {value : Statement}
    {rest : List Token} (hroom : room ≠ 0)
    (hvalue : Fits (room - 1) value.nesting value.tokens rest) :
    Fits room (Statement.assign spelled name value).nesting
      (Statement.assign spelled name value).tokens rest := by
  have hnesting := hvalue.nesting_le
  refine ⟨?_, ?_⟩
  · rw [Statement.nesting]
    omega
  · have hequals : Detached ([.name name] ++ .equals :: value.tokens) rest :=
      detached_append_cons _ value.tokens_ne_nil hvalue.detached
    exact (detached_append _ (List.cons_ne_nil _ _)).mpr hequals

mutual

/-- A statement that is read fits, and no operation follows it. -/
theorem parseStatement_fits (room : Nat) (tokens : List Token) {s : Statement}
    {rest : Rest tokens} (h : parseStatement room tokens = some (s, rest)) :
    Fits room s.nesting s.tokens rest.1 ∧ EndsProduct rest.1 ∧ EndsSum rest.1 := by
  -- The cases are those of the parser: an assignment in either spelling, or a sum.
  unfold parseStatement at h
  split at h
  · split at h
    · cases h
    · next hroom =>
        split at h
        · cases h
        · next hvalue =>
            cases h
            rcases parseStatement_fits _ _ hvalue with ⟨hfits, hends⟩
            exact ⟨hfits.assign hroom, hends⟩
  · split at h
    · cases h
    · next hroom =>
        split at h
        · cases h
        · next hvalue =>
            cases h
            rcases parseStatement_fits _ _ hvalue with ⟨hfits, hends⟩
            exact ⟨hfits.assign hroom, hends⟩
  · split at h
    · cases h
    · next hfirst =>
        split at h
        · cases h
        · next htail =>
            cases h
            rcases parseProduct_fits _ _ hfirst with ⟨hp, hends⟩
            exact parseSumTail_fits _ _ _ hp hends htail
termination_by (tokens.length, 4)

/-- A sum that goes on with a sum that fits does so too. -/
theorem parseSumTail_fits (room : Nat) (left : SumTree) (tokens : List Token) {s : SumTree}
    {rest : RestOrAll tokens} (hleft : Fits room left.nesting left.tokens tokens)
    (hends : EndsProduct tokens) (h : parseSumTail room left tokens = some (s, rest)) :
    Fits room s.nesting s.tokens rest.1 ∧ EndsProduct rest.1 ∧ EndsSum rest.1 := by
  match tokens, rest, hleft, hends, h with
  | [], _, hleft, hends, h =>
      unfold parseSumTail at h
      cases h
      exact ⟨hleft, hends, endsSum_nil⟩
  | token :: tokens', _, hleft, hends, h =>
      unfold parseSumTail at h
      split at h
      · next hop =>
          -- No operation follows, and the sum is what it was.
          cases h
          refine ⟨hleft, hends, fun token' htoken => ?_⟩
          rw [← Option.some.inj htoken]
          exact hop
      · split at h
        · cases h
        · next hnext =>
            split at h
            · cases h
            · next htail =>
                cases h
                rcases parseProduct_fits _ _ hnext with ⟨hp, hends'⟩
                have ih := parseSumTail_fits _ _ _ (hleft.joinSum hp) hends' htail
                exact ih
termination_by (tokens.length, 0)

/-- A product that is read fits, and no operation of a product follows it. -/
theorem parseProduct_fits (room : Nat) (tokens : List Token) {p : ProductTree}
    {rest : Rest tokens} (h : parseProduct room tokens = some (p, rest)) :
    Fits room p.nesting p.tokens rest.1 ∧ EndsProduct rest.1 := by
  unfold parseProduct at h
  split at h
  · cases h
  · next hfirst =>
      split at h
      · cases h
      · next htail =>
          cases h
          exact parseProductTail_fits _ _ _ (parseFactor_fits _ _ hfirst) htail
termination_by (tokens.length, 2)

/-- A product that goes on with a product that fits does so too. -/
theorem parseProductTail_fits (room : Nat) (left : ProductTree) (tokens : List Token)
    {p : ProductTree} {rest : RestOrAll tokens}
    (hleft : Fits room left.nesting left.tokens tokens)
    (h : parseProductTail room left tokens = some (p, rest)) :
    Fits room p.nesting p.tokens rest.1 ∧ EndsProduct rest.1 := by
  match tokens, rest, hleft, h with
  | [], _, hleft, h =>
      unfold parseProductTail at h
      cases h
      exact ⟨hleft, endsProduct_nil⟩
  | token :: tokens', _, hleft, h =>
      unfold parseProductTail at h
      split at h
      · next hop =>
          -- No operation follows, and the product is what it was.
          cases h
          refine ⟨hleft, fun token' htoken => ?_⟩
          rw [← Option.some.inj htoken]
          exact hop
      · split at h
        · cases h
        · next hnext =>
            split at h
            · cases h
            · next htail =>
                cases h
                have hf := parseFactor_fits _ _ hnext
                have ih := parseProductTail_fits _ _ _ (hleft.joinProduct hf) htail
                exact ih
termination_by (tokens.length, 0)

/-- A factor that is read fits. -/
theorem parseFactor_fits (room : Nat) (tokens : List Token) {f : Factor}
    {rest : Rest tokens} (h : parseFactor room tokens = some (f, rest)) :
    Fits room f.nesting f.tokens rest.1 := by
  unfold parseFactor at h
  split at h
  · cases h
    exact ⟨Nat.zero_le _, detached_of_getLast? _ rfl (fun _ => nofun)⟩
  · cases h
    exact ⟨Nat.zero_le _, detached_of_getLast? _ rfl (fun _ => nofun)⟩
  · split at h
    · cases h
    · next hhead =>
        -- A name is a factor only where no equals sign follows.
        cases h
        exact ⟨Nat.zero_le _, fun _ _ => hhead⟩
  · split at h
    · cases h
    · next hroom =>
        split at h
        · next hinner =>
            cases h
            rcases parseStatement_fits _ _ hinner with ⟨hs, _⟩
            have hnesting := hs.nesting_le
            refine ⟨?_, detached_of_getLast? .closeParen ?_ (fun _ => nofun)⟩
            · rw [Factor.nesting]
              omega
            · rw [Factor.tokens, ← List.cons_append, List.getLast?_concat]
        · cases h
  · cases h
termination_by (tokens.length, 1)

end

theorem endsStatement_of_ne_nil {rest : List Token} (hne : rest ≠ [])
    (hproduct : EndsProduct rest) (hsum : EndsSum rest) : EndsStatement rest := by
  cases rest with
  | nil => exact absurd rfl hne
  | cons token rest => exact ⟨hproduct token rfl, hsum token rfl⟩

theorem SumOp.token_ne_endOfText (op : SumOp) : .endOfText ≠ op.token := by
  cases op <;> exact nofun

theorem ProductOp.token_ne_endOfText (op : ProductOp) : .endOfText ≠ op.token := by
  cases op <;> exact nofun

mutual

/-- A statement is written without the end of the text. -/
theorem Statement.endOfText_notMem (s : Statement) : .endOfText ∉ s.tokens := by
  match s with
  | .assign spelled name value =>
      have hvalue := value.endOfText_notMem
      cases spelled <;>
        simp only [Statement.tokens, if_true, Bool.false_eq_true, if_false, List.nil_append,
          List.singleton_append, List.mem_cons, reduceCtorEq, false_or, hvalue,
          not_false_eq_true]
  | .sum s => exact s.endOfText_notMem

/-- A sum is written without the end of the text. -/
theorem SumTree.endOfText_notMem (s : SumTree) : .endOfText ∉ s.tokens := by
  match s with
  | .single p => exact p.endOfText_notMem
  | .join s op p =>
      simp only [SumTree.tokens, List.mem_append, List.mem_cons, op.token_ne_endOfText,
        s.endOfText_notMem, p.endOfText_notMem, or_self, not_false_eq_true]

/-- A product is written without the end of the text. -/
theorem ProductTree.endOfText_notMem (p : ProductTree) : .endOfText ∉ p.tokens := by
  match p with
  | .single f => exact f.endOfText_notMem
  | .join p op f =>
      simp only [ProductTree.tokens, List.mem_append, List.mem_cons, op.token_ne_endOfText,
        p.endOfText_notMem, f.endOfText_notMem, or_self, not_false_eq_true]

/-- A factor is written without the end of the text. -/
theorem Factor.endOfText_notMem (f : Factor) : .endOfText ∉ f.tokens := by
  match f with
  | .number _ => exact nofun
  | .negated _ => exact nofun
  | .name _ => exact nofun
  | .group s =>
      simp only [Factor.tokens, List.mem_cons, List.mem_append, List.not_mem_nil, reduceCtorEq,
        s.endOfText_notMem, or_self, not_false_eq_true]

end

end Calculator
