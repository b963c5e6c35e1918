import Calculator.Proofs.Separators
import Calculator.Token.Lexer
import Mathlib.Data.List.GetD
import Mathlib.Data.List.TakeWhile

/-!
# Tokens One at a Time

The tokens that a lexer hands out one at a time are the tokens of its text, and they come to an
end.

A lexer knows a text and a position. All that it makes of them is made of the characters that
are left, and these are what a scanner is given. So a lexer is seen as a scanner here, and each
of its functions moves it forward by some count of characters: a run of one kind by the length
of the run, a numeral by its digits and its sign, any other character by itself. That a token
moves it by one character at least is read off from these counts. A run may be empty, but the
first character of a token belongs to the run, or else it has been taken before the run begins.

What holds of one call then holds of any number of them. Each call that finds a token leaves
fewer characters, so no more of them find one than the text has characters.

## Main definitions

* `Lexer.rest`: The characters that are left.
* `Lexer.forward`: The lexer some characters further.
* `Lexer.toScanner`: The lexer as a scanner, which forgets what it has read.
* `Lexer.Within`: The position is not behind the end.

## Theorems

* `Scanner.take_eq`: The calls of a scanner yield its tokens and then the end for ever.
* `Lexer.skipWhile_eq`: A run of one kind is skipped by its length.
* `Lexer.exists_scanAt`, `Lexer.exists_scan`: A token moves the lexer forward, by one character
  at least.
* `Lexer.next_toScanner`: A call is a call of the scanner.
* `Lexer.next_eq_endOfText_iff`: The end is found where nothing but separators is left.
* `Lexer.Within.after`: Calls do not leave the text.
* `Lexer.Within.next_advances`: A token takes a character, and the end takes all that is left.
* `Lexer.drain_eq`: The calls find the tokens of the text, and then the end.
* `Lexer.take_ofText`: All this of the lexer of a text.
-/

namespace Calculator

namespace Scanner

/-- A text has no more tokens than characters. -/
theorem length_tokensOf_le (afterOperand : Bool) (text : List Char) :
    (tokensOf afterOperand text).length ≤ text.length := by
  induction hlength : text.length using Nat.strongRecOn generalizing afterOperand text with
  | _ length ih =>
      cases htext : text.dropWhile isSeparator with
      | nil =>
          rw [tokensOf_of_dropWhile_nil htext]
          exact Nat.zero_le length
      | cons first rest =>
          have hlt := scanLexeme_length_lt htext afterOperand
          rw [hlength] at hlt
          have hrest := ih _ hlt (scanLexeme afterOperand first rest).1.endsOperand _ rfl
          rw [tokensOf_of_dropWhile_cons htext, List.length_cons]
          omega

/-- The next token is the mark of the end where nothing but separators is left. -/
theorem next_eq_endOfText_iff (s : Scanner) :
    s.next.1 = .endOfText ↔ s.rest.dropWhile isSeparator = [] := by
  cases hrest : s.rest.dropWhile isSeparator with
  | nil =>
      rw [next_of_dropWhile_nil hrest]
      exact ⟨fun _ => rfl, fun _ => rfl⟩
  | cons first rest =>
      have hne := (scanLexeme_ne s.afterOperand first rest).1
      rw [next_of_dropWhile_cons hrest]
      exact ⟨fun h => absurd h hne, fun h => absurd h (List.cons_ne_nil first rest)⟩

theorem tokens_of_next_ne {s : Scanner} (h : s.next.1 ≠ .endOfText) :
    s.tokens = s.next.1 :: s.next.2.tokens := by
  rw [Ne, next_eq_endOfText_iff] at h
  obtain ⟨first, rest, hrest⟩ := List.exists_cons_of_ne_nil h
  exact tokens_of_dropWhile_cons hrest

/-- The tokens of the first calls are the first tokens of the text, and behind the last of them
    every call yields the mark of the end. -/
theorem take_eq (count : Nat) (s : Scanner) :
    s.take count = (List.range count).map fun i => s.tokens.getD i .endOfText := by
  induction count generalizing s with
  | zero => rfl
  | succ count ih =>
      rw [take, ih, List.range_succ_eq_map, List.map_cons, List.map_map]
      cases hrest : s.rest.dropWhile isSeparator with
      | nil =>
          rw [next_of_dropWhile_nil hrest, tokens_of_dropWhile_nil hrest,
            tokens_of_dropWhile_nil rfl]
          rfl
      | cons first rest =>
          rw [tokens_of_dropWhile_cons hrest]
          rfl

end Scanner

namespace Lexer

/-- The characters that are left. -/
def rest (l : Lexer) : List Char :=
  l.input.drop l.position

/-- The lexer some characters further. -/
def forward (count : Nat) (l : Lexer) : Lexer :=
  { l with position := l.position + count }

/-- The lexer as a scanner of what is left, which has forgotten all else. -/
def toScanner (l : Lexer) : Scanner :=
  { afterOperand := l.previous.any Token.endsOperand, rest := l.rest }

/-- The position is not behind the end of the text. -/
def Within (l : Lexer) : Prop :=
  l.position ≤ l.input.length

theorem rest_forward (count : Nat) (l : Lexer) : (l.forward count).rest = l.rest.drop count := by
  simp only [rest, forward, List.drop_drop]

theorem forward_advance (count : Nat) (l : Lexer) :
    l.advance.forward count = l.forward (count + 1) := by
  simp only [forward, advance, Nat.add_assoc, Nat.add_comm 1 count]

theorem current_eq (l : Lexer) : l.current = l.rest.head? := by
  simp only [current, rest, List.head?_drop]

theorem lookahead_eq (l : Lexer) : l.lookahead = l.rest.tail.head? := by
  simp only [lookahead, rest, List.tail_drop, List.head?_drop]

variable {l : Lexer} {c : Char} {tail : List Char}

theorem current_of_rest_nil (h : l.rest = []) : l.current = none := by
  rw [current_eq, h, List.head?_nil]

theorem current_of_rest_cons (h : l.rest = c :: tail) : l.current = some c := by
  rw [current_eq, h, List.head?_cons]

theorem rest_advance (h : l.rest = c :: tail) : l.advance.rest = tail := by
  have hone := rest_forward 1 l
  rw [h] at hone
  exact hone

theorem textFrom_forward (count : Nat) (l : Lexer) :
    (l.forward count).textFrom l.position = l.rest.take count := by
  simp only [textFrom, forward, rest, Nat.add_sub_cancel_left]

/-- A run of one kind is skipped by its length. -/
theorem skipWhile_eq (p : Char → Bool) (l : Lexer) :
    l.skipWhile p = l.forward (l.rest.takeWhile p).length := by
  -- The loop goes along what is left, whatever has been read before.
  induction hrest : l.rest generalizing l with
  | nil => exact skipWhile_of_current_eq_none (current_of_rest_nil hrest)
  | cons c tail ih =>
      rw [skipWhile_of_current_eq_some (current_of_rest_cons hrest)]
      by_cases hc : p c = true
      · rw [if_pos hc, List.takeWhile_cons_of_pos hc, List.length_cons,
          ih l.advance (rest_advance hrest), forward_advance]
      · rw [if_neg hc, List.takeWhile_cons_of_neg hc]
        rfl

/-- The characters of a run are taken, and what is behind the run is left. -/
theorem take_drop_length_takeWhile (p : Char → Bool) (text : List Char) :
    text.take (text.takeWhile p).length = text.takeWhile p ∧
      text.drop (text.takeWhile p).length = text.dropWhile p := by
  have hsplit : text.takeWhile p ++ text.dropWhile p = text := List.takeWhile_append_dropWhile
  have htake : (text.takeWhile p ++ text.dropWhile p).take (text.takeWhile p).length = _ :=
    List.take_left
  have hdrop : (text.takeWhile p ++ text.dropWhile p).drop (text.takeWhile p).length = _ :=
    List.drop_left
  rw [hsplit] at htake hdrop
  exact ⟨htake, hdrop⟩

theorem textFrom_run (h : l.rest = c :: tail) (p : Char → Bool) :
    (l.forward ((tail.takeWhile p).length + 1)).textFrom l.position = c :: tail.takeWhile p := by
  rw [textFrom_forward, h, List.take_succ_cons, (take_drop_length_takeWhile p tail).1]

/-- A numeral starts where the scanner says so. -/
theorem startsNumeral_eq (h : l.rest = c :: tail) :
    l.startsNumeral c = Calculator.startsNumeral (l.previous.any Token.endsOperand) c tail := by
  have hlookahead : l.lookahead = tail.head? := by rw [lookahead_eq, h, List.tail_cons]
  unfold startsNumeral Calculator.startsNumeral
  rw [hlookahead]
  by_cases hdigit : isNumeralChar c = true
  · rw [if_pos hdigit, hdigit, Bool.true_or]
  · rw [if_neg hdigit, eq_false_of_ne_true hdigit, Bool.false_or]
    by_cases hminus : c = '-'
    · subst hminus
      cases l.previous.any Token.endsOperand <;> rfl
    · have hne : (c != '-') = true := bne_iff_ne.mpr hminus
      have heq : (c == '-') = false := beq_eq_false_iff_ne.mpr hminus
      rw [hne, heq, Bool.true_or, if_pos rfl]
      rfl

/-- A numeral is its first character and the digits and points behind it. -/
theorem scanNumeral_eq (h : l.rest = c :: tail) (hfirst : c = '-' ∨ isNumeralChar c = true) :
    l.scanNumeral = ((Calculator.scanNumeral c tail).1,
      l.forward ((tail.takeWhile isNumeralChar).length + 1)) := by
  have hcurrent : l.current = some c := current_of_rest_cons h
  -- The sign is taken before the run, and a digit or a point with the run.
  have hbehind : (if l.current = some '-' then l.advance else l).skipWhile isNumeralChar =
      l.forward ((tail.takeWhile isNumeralChar).length + 1) := by
    by_cases hminus : c = '-'
    · rw [hcurrent, if_pos (congrArg some hminus), skipWhile_eq, rest_advance h, forward_advance]
    · have hdigit : isNumeralChar c = true := hfirst.resolve_left hminus
      rw [hcurrent, if_neg (mt Option.some.inj hminus), skipWhile_eq, h,
        List.takeWhile_cons_of_pos hdigit, List.length_cons]
  unfold scanNumeral
  dsimp only
  rw [hbehind, textFrom_run h]
  rfl

/-- A word is its first character and the alphabetic ones behind it. -/
theorem scanWord_eq (h : l.rest = c :: tail) (hfirst : isAlphabetic c = true) :
    l.scanWord = ((Calculator.scanWord c tail).1,
      l.forward ((tail.takeWhile isAlphabetic).length + 1)) := by
  unfold scanWord
  dsimp only
  rw [skipWhile_eq, h, List.takeWhile_cons_of_pos hfirst, List.length_cons, textFrom_run h]
  rfl

/-- A token that is found at the position is the one that the scanner finds there. It moves the
    lexer forward, by one character at least. -/
theorem exists_scanAt (h : l.rest = c :: tail) :
    ∃ count ≤ tail.length,
      l.scanAt c =
          ((scanLexeme (l.previous.any Token.endsOperand) c tail).1, l.forward (count + 1)) ∧
        tail.drop count = (scanLexeme (l.previous.any Token.endsOperand) c tail).2 := by
  have hrun (p : Char → Bool) : (tail.takeWhile p).length ≤ tail.length :=
    (List.takeWhile_prefix p).length_le
  -- The cases are those of the scanner, which asks the same questions in the same order.
  unfold scanAt scanLexeme
  rw [startsNumeral_eq h]
  split
  · next hstarts =>
      exact ⟨_, hrun isNumeralChar, scanNumeral_eq h (eq_minus_or_of_startsNumeral hstarts),
        (take_drop_length_takeWhile isNumeralChar tail).2⟩
  · cases Token.ofPunctuation? c with
    | some token => exact ⟨0, Nat.zero_le _, rfl, rfl⟩
    | none =>
        dsimp only
        by_cases hword : isAlphabetic c = true
        · rw [if_pos hword, if_pos hword]
          exact ⟨_, hrun isAlphabetic, scanWord_eq h hword,
            (take_drop_length_takeWhile isAlphabetic tail).2⟩
        · rw [if_neg hword, if_neg hword]
          exact ⟨0, Nat.zero_le _, rfl, rfl⟩

/-- A token with the separators before it is the next one of the scanner. It moves the lexer
    forward to what the scanner has left, by one character at least unless it is the mark of the
    end. -/
theorem exists_scan (l : Lexer) :
    ∃ count ≤ l.rest.length,
      l.scan = (l.toScanner.next.1, l.forward count) ∧
        l.rest.drop count = l.toScanner.next.2.rest ∧
        (l.toScanner.next.1 ≠ .endOfText → 0 < count) := by
  induction hrest : l.rest generalizing l with
  | nil =>
      have hnext : l.toScanner.next = (.endOfText, { afterOperand := false, rest := [] }) :=
        Scanner.next_of_dropWhile_nil (by rw [toScanner, hrest, List.dropWhile_nil])
      rw [scan_of_current_eq_none (current_of_rest_nil hrest), hnext]
      exact ⟨0, Nat.le_refl _, rfl, rfl, fun hne => absurd rfl hne⟩
  | cons c tail ih =>
      rw [scan_of_current_eq_some (current_of_rest_cons hrest)]
      by_cases hc : isSeparator c = true
      · -- A separator is one character more, for the lexer as for the scanner.
        have hadvance : l.advance.rest = tail := rest_advance hrest
        have hnext : l.toScanner.next = l.advance.toScanner.next := by
          simp only [Scanner.next, toScanner, hrest, hadvance, List.dropWhile_cons_of_pos hc]
          rfl
        rcases ih l.advance hadvance with ⟨count, hle, hscan, hdrop, -⟩
        rw [if_pos hc, hnext, hscan, forward_advance]
        exact ⟨count + 1, Nat.succ_le_succ hle, rfl, hdrop, fun _ => Nat.succ_pos count⟩
      · rcases exists_scanAt hrest with ⟨count, hle, hscan, hdrop⟩
        have hnext : l.toScanner.next =
            ((scanLexeme (l.previous.any Token.endsOperand) c tail).1,
              { afterOperand :=
                  (scanLexeme (l.previous.any Token.endsOperand) c tail).1.endsOperand
                rest := (scanLexeme (l.previous.any Token.endsOperand) c tail).2 }) :=
          Scanner.next_of_dropWhile_cons (by
            rw [toScanner, hrest, List.dropWhile_cons_of_neg hc])
        rw [if_neg hc, hnext, hscan]
        exact ⟨count + 1, Nat.succ_le_succ hle, rfl, hdrop, fun _ => Nat.succ_pos count⟩

/-- A call is a call of the scanner. -/
theorem next_toScanner (l : Lexer) :
    l.next.1 = l.toScanner.next.1 ∧ l.next.2.toScanner = l.toScanner.next.2 := by
  rcases l.exists_scan with ⟨count, -, hscan, hdrop, -⟩
  -- The lexer keeps its previous token and the scanner one bit of it.
  have hoperand : l.toScanner.next.2.afterOperand = l.toScanner.next.1.endsOperand := by
    unfold Scanner.next
    split <;> rfl
  have hrest : l.next.2.rest = l.toScanner.next.2.rest := by
    rw [next, hscan, ← hdrop]
    exact rest_forward count l
  refine ⟨by rw [next, hscan], ?_⟩
  rw [toScanner, hrest, next, hscan]
  simp only [Option.any_some, ← hoperand]

/-- A call moves the lexer forward, by one character at least unless it finds the end, and
    remembers what it has found. -/
theorem exists_next (l : Lexer) :
    ∃ count ≤ l.rest.length,
      l.next.2 = { l.forward count with previous := some l.next.1 } ∧
        l.next.2.rest = l.rest.drop count ∧
        (l.next.1 ≠ .endOfText → 0 < count) := by
  rcases l.exists_scan with ⟨count, hle, hscan, -, hpos⟩
  have hbehind : l.next.2 = { l.forward count with previous := some l.next.1 } := by
    rw [next, hscan]
  refine ⟨count, hle, hbehind, ?_, ?_⟩
  · rw [hbehind]
    exact rest_forward count l
  · rw [l.next_toScanner.1]
    exact hpos

theorem take_toScanner (count : Nat) (l : Lexer) : l.take count = l.toScanner.take count := by
  induction count generalizing l with
  | zero => rfl
  | succ count ih =>
      rw [take, Scanner.take, ih, l.next_toScanner.1, l.next_toScanner.2]

/-- A call yields the mark of the end where nothing but separators is left. -/
theorem next_eq_endOfText_iff (l : Lexer) : l.next.1 = .endOfText ↔ IsGap l.rest := by
  rw [l.next_toScanner.1, Scanner.next_eq_endOfText_iff]
  exact List.dropWhile_eq_nil_iff

theorem rest_next_eq_nil (h : l.next.1 = .endOfText) : l.next.2.rest = [] := by
  have hgap : l.rest.dropWhile isSeparator = [] :=
    List.dropWhile_eq_nil_iff.mpr (l.next_eq_endOfText_iff.mp h)
  have hscanner := congrArg Scanner.rest l.next_toScanner.2
  rw [Scanner.next_of_dropWhile_nil hgap] at hscanner
  exact hscanner

/-- A call does not change the text, and does not leave it. -/
theorem Within.next (h : l.Within) : l.next.2.input = l.input ∧ l.next.2.Within := by
  rcases l.exists_next with ⟨count, hle, hbehind, -, -⟩
  rw [hbehind]
  refine ⟨rfl, ?_⟩
  simp only [Within, rest, forward, List.length_drop] at h hle ⊢
  omega

/-- Any number of calls do not change the text, and do not leave it. -/
theorem Within.after (h : l.Within) (count : Nat) :
    (l.after count).input = l.input ∧ (l.after count).Within := by
  induction count generalizing l with
  | zero => exact ⟨rfl, h⟩
  | succ count ih =>
      have hbehind := ih h.next.2
      exact ⟨hbehind.1.trans h.next.1, hbehind.2⟩

/-- Where nothing is left a call yields the mark of the end and stays where it is. -/
theorem next_of_rest_eq_nil (h : l.rest = []) :
    l.next = (.endOfText, { l with previous := some .endOfText }) := by
  have hend : l.next.1 = .endOfText :=
    l.next_eq_endOfText_iff.mpr (by rw [h]; exact List.forall_mem_nil _)
  rcases l.exists_next with ⟨count, hle, hbehind, -, -⟩
  obtain rfl : count = 0 := Nat.le_zero.mp (by rwa [h] at hle)
  rw [hend] at hbehind
  exact Prod.ext hend hbehind

/-- A call that finds a token takes a character, and one that finds the end takes all that is
    left and changes nothing if it is made again. -/
theorem Within.next_advances (h : l.Within) :
    if l.next.1 = .endOfText then
      l.next.2.position = l.input.length ∧ l.next.2.next = l.next
    else
      l.position < l.next.2.position ∧ l.next.2.position ≤ l.input.length := by
  rcases l.exists_next with ⟨count, hle, hbehind, hrest, hpos⟩
  have hposition : l.next.2.position = l.position + count := by rw [hbehind]; rfl
  have hlength : l.rest.length = l.input.length - l.position := List.length_drop
  unfold Within at h
  split
  · next hend =>
      -- Nothing is left behind the end, so the call has moved over all that was left before.
      have hnil := rest_next_eq_nil hend
      have hall : l.rest.length ≤ count := List.drop_eq_nil_iff.mp (hrest.symm.trans hnil)
      -- The lexer remembers the end already, so another call leaves it as it is.
      have hsame : { l.next.2 with previous := some .endOfText } = l.next.2 := by
        rw [hbehind, hend]
      refine ⟨by omega, ?_⟩
      rw [next_of_rest_eq_nil hnil, hsame]
      exact Prod.ext hend.symm rfl
  · next hne =>
      have hcount := hpos hne
      omega

/-- The calls find the tokens of the text and then the end of it, if there is one call more than
    characters are left. -/
theorem drain_eq {calls : Nat} (h : l.rest.length < calls) :
    l.drain calls = some l.toScanner.tokens := by
  -- A call that finds a token leaves fewer characters for the calls that are left.
  induction calls generalizing l with
  | zero => exact absurd h (Nat.not_lt_zero _)
  | succ calls ih =>
      rcases l.exists_next with ⟨count, hle, -, hbehind, hpos⟩
      unfold drain
      by_cases hend : l.next.1 = .endOfText
      · have hgap : l.toScanner.rest.dropWhile isSeparator = [] :=
          List.dropWhile_eq_nil_iff.mpr (l.next_eq_endOfText_iff.mp hend)
        rw [if_pos (Token.isEnd_iff.mpr hend), Scanner.tokens_of_dropWhile_nil hgap]
      · have hcount := hpos hend
        have hshorter : l.next.2.rest.length < calls := by
          rw [hbehind, List.length_drop]
          omega
        have htokens : l.toScanner.tokens = l.next.1 :: l.next.2.toScanner.tokens := by
          rw [l.next_toScanner.1, l.next_toScanner.2]
          refine Scanner.tokens_of_next_ne ?_
          rwa [← l.next_toScanner.1]
        rw [if_neg (mt Token.isEnd_iff.mp hend), ih hshorter, htokens]
        rfl

end Lexer

/-- Behind the tokens of a text there are only marks of its end. -/
theorem getD_tokenize (text : String) (i : Nat) :
    (tokenize text).getD i .endOfText = (Scanner.ofText text).tokens.getD i .endOfText := by
  rw [tokenize]
  by_cases h : i < (Scanner.ofText text).tokens.length
  · rw [List.getD_append _ _ _ _ h]
  · have hle := Nat.le_of_not_lt h
    rw [List.getD_append_right _ _ _ _ hle, List.getD_eq_default _ _ hle]
    exact List.getElem?_getD_replicate_default_eq Token.endOfText 2 _

/-- A lexer yields the tokens of its text in their order and then the mark of the end for ever,
    and each call is one of the scanner. A call finds the end where nothing but separators is
    left; the lexer is then at the end of the text, where another call changes nothing. A call
    that finds a token takes one character at least. So the end is found by as many calls as the
    text has characters and one more, and the tokens before it are no more than the
    characters. -/
theorem Lexer.take_ofText (text : String) :
    (∀ count,
      (ofText text).take count =
          (List.range count).map (fun i => (tokenize text).getD i .endOfText) ∧
        (Scanner.ofText text).take count = (ofText text).take count) ∧
      (∀ count,
        let l := (ofText text).after count
        (l.next.1, l.next.2.toScanner) = l.toScanner.next ∧
          (l.next.1 = .endOfText ↔ IsGap (text.toList.drop l.position)) ∧
          if l.next.1 = .endOfText then
            l.next.2.position = text.length ∧ l.next.2.next = l.next
          else
            l.position < l.next.2.position ∧ l.next.2.position ≤ text.length) ∧
      ∃ tokens, (ofText text).drain (text.length + 1) = some tokens ∧
        tokenize text = tokens ++ [.endOfText, .endOfText] ∧
        .endOfText ∉ tokens ∧ tokens.length ≤ text.length := by
  have hscanner : (ofText text).toScanner = Scanner.ofText text := rfl
  have hlength : text.toList.length = text.length := String.length_toList
  refine ⟨fun count => ⟨?_, ?_⟩, fun count => ?_, (Scanner.ofText text).tokens, ?_, rfl, ?_, ?_⟩
  · rw [take_toScanner, hscanner]
    simp only [Scanner.take_eq, getD_tokenize]
  · rw [take_toScanner, hscanner]
  · -- Each lexer that is reached has the same input and a position within it.
    have hwithin : (ofText text).Within := Nat.zero_le _
    have hafter := hwithin.after count
    have hadvances := hafter.2.next_advances
    have hinput : ((ofText text).after count).input = text.toList := hafter.1
    rw [hinput, hlength] at hadvances
    refine ⟨?_, ?_, hadvances⟩
    · rw [(next_toScanner _).1, (next_toScanner _).2]
    · rw [next_eq_endOfText_iff, rest, hinput]
  · have hcalls : (ofText text).rest.length < text.length + 1 :=
      Nat.lt_succ_of_le (Nat.le_of_eq hlength)
    rw [drain_eq hcalls, hscanner]
  · exact Scanner.endOfText_notMem_tokensOf false text.toList
  · rw [← hlength]
    exact Scanner.length_tokensOf_le false text.toList

end Calculator
