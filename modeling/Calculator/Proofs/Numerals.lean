import Calculator.Binary64.Arithmetic
import Calculator.Proofs.Scanning

/-!
# Written Numerals

The numerals that a user writes, and the number each of them stands for.

A numeral is digits with a point among them or without one, and it needs one digit in all.
Its value is the binary number nearest to the decimal that the digits write, and a numeral
that is too large for the format is no numeral. All this is part of the type, so what is
said about a `Numeral` has no further conditions.

The reader of numerals is handed any text, and checks for points and signs before it looks
at digits. On a numeral none of these checks fails. With a minus sign in front, it reads
the number of the other sign, because rounding treats the signs alike.

## Main definitions

* `Numeral`: Digits with at most one point, and a value in the format.
* `Numeral.text`, `Numeral.value`: Its written form and its number.

## Theorems

* `Numeral.ofNumeral?_digits`: Digits are read as the decimal that they write.
* `Binary64.ofNumeral_signed`: What is read from digits and points behind a sign.
* `Binary64.ofNumeral_minus`: Digits and points that are read as a number are read behind a
  minus sign as the number of the other sign.
* `Binary64.isOk_ofNumeral_signed`: Whether they are read as a number does not depend on a sign.
* `Binary64.ofNumeral_text`: A numeral is read as its value.
* `Numeral.tokensOf_text`, `Numeral.tokensOf_minus_text`: A numeral is scanned as one
  token, and so is a minus sign with a numeral where no operand has ended.
-/

namespace Calculator

namespace Binary64

/-- Rounding treats the two signs alike. -/
theorem round_not (negative : Bool) (num den : Nat) :
    round (!negative) num den = (round negative num den).neg := by
  unfold round
  split <;> rfl

theorem isFinite_neg (x : Binary64) : x.neg.isFinite = x.isFinite := by
  cases x <;> rfl

end Binary64

namespace Decimal

/-- The decimal that digits before and after a point write. -/
def ofDigits (whole fraction : List Char) : Decimal :=
  { negative := false
    coefficient := Nat.ofDigitChars 10 (whole ++ fraction) 0
    exponent := -(fraction.length : Int) }

/-- A decimal with a sign of its own, behind another sign. -/
def withSign (negative : Bool) (d : Decimal) : Decimal :=
  { d with negative := negative ^^ d.negative }

theorem toBinary64_withSign (negative : Bool) (d : Decimal) :
    (d.withSign negative).toBinary64 =
      if negative then d.toBinary64.neg else d.toBinary64 := by
  cases negative with
  | false => rw [withSign, Bool.false_xor]; rfl
  | true =>
      rcases d with ⟨negative, coefficient, exponent | exponent⟩ <;>
        simp only [withSign, Bool.true_xor, toBinary64, Binary64.round_not, if_true]

theorem isFinite_toBinary64_withSign (negative : Bool) (d : Decimal) :
    (d.withSign negative).toBinary64.isFinite = d.toBinary64.isFinite := by
  rw [toBinary64_withSign]
  cases negative with
  | false => rfl
  | true => exact Binary64.isFinite_neg _

/-- A sign in front of numeral characters is split off. -/
theorem splitSign_append (negative : Bool) {text : List Char}
    (h : ∀ c ∈ text, isNumeralChar c = true) :
    splitSign (signText negative ++ text) = (negative, text) := by
  cases negative with
  | true => rfl
  | false =>
      -- No sign is a numeral character.
      rw [signText, if_neg Bool.false_ne_true, List.nil_append]
      unfold splitSign
      split
      · exact absurd (h '-' List.mem_cons_self) (by decide)
      · exact absurd (h '+' List.mem_cons_self) (by decide)
      · rfl

end Decimal

/-- Digits before a point, and after it if there is one, with one digit at least, that
    write a number in the range of the format. -/
structure Numeral where
  whole : List Char
  fraction : Option (List Char)
  whole_all : whole.all Char.isDigit = true
  fraction_all : (fraction.getD []).all Char.isDigit = true
  has_digit : whole ++ fraction.getD [] ≠ []
  finite : (Decimal.ofDigits whole (fraction.getD [])).toBinary64.isFinite = true

namespace Numeral

/-- The point of a numeral and the digits behind it. -/
def fractionText : Option (List Char) → List Char
  | none => []
  | some digits => '.' :: digits

/-- The written form of a numeral. -/
def text (n : Numeral) : List Char :=
  n.whole ++ fractionText n.fraction

theorem whole_digits (n : Numeral) (c : Char) (h : c ∈ n.whole) : c.isDigit = true :=
  List.all_eq_true.mp n.whole_all c h

theorem fraction_digits (n : Numeral) (c : Char) (h : c ∈ n.fraction.getD []) :
    c.isDigit = true :=
  List.all_eq_true.mp n.fraction_all c h

/-- The decimal that a numeral writes. -/
def decimal (n : Numeral) : Decimal :=
  .ofDigits n.whole (n.fraction.getD [])

/-- The number that a numeral stands for. -/
def value (n : Numeral) : Binary64 :=
  n.decimal.toBinary64

theorem isNumeralChar_of_isDigit {c : Char} (h : c.isDigit = true) : isNumeralChar c = true := by
  rw [isNumeralChar, h, Bool.true_or]

theorem ne_point_of_isDigit {c : Char} (h : c.isDigit = true) : c ≠ '.' := by
  intro heq
  rw [heq] at h
  exact absurd h (by decide)

section Digits

variable {whole : List Char} {fraction : Option (List Char)}

/-- Digits are written with digits and points. -/
theorem isNumeralChar_of_mem_digits (hwhole : ∀ c ∈ whole, c.isDigit = true)
    (hfraction : ∀ c ∈ fraction.getD [], c.isDigit = true) :
    ∀ c ∈ whole ++ fractionText fraction, isNumeralChar c = true := by
  intro c hc
  rcases List.mem_append.mp hc with hmem | hmem
  · exact isNumeralChar_of_isDigit (hwhole c hmem)
  · cases fraction with
    | none => cases hmem
    | some digits =>
        rcases List.mem_cons.mp hmem with rfl | hmem
        · decide
        · exact isNumeralChar_of_isDigit (hfraction c hmem)

/-- There is at most one point. -/
theorem count_point_le (hwhole : ∀ c ∈ whole, c.isDigit = true)
    (hfraction : ∀ c ∈ fraction.getD [], c.isDigit = true) :
    (whole ++ fractionText fraction).count '.' ≤ 1 := by
  have hcount {digits : List Char} (h : ∀ c ∈ digits, c.isDigit = true) :
      digits.count '.' = 0 :=
    List.count_eq_zero_of_not_mem fun hmem => ne_point_of_isDigit (h _ hmem) rfl
  rw [List.count_append, hcount hwhole, Nat.zero_add]
  cases fraction with
  | none => exact Nat.zero_le 1
  | some digits =>
      rw [fractionText, List.count_cons_self]
      exact Nat.le_of_eq (congrArg (· + 1) (hcount hfraction))

/-- Behind the digits before the point come the point and its digits, and nothing more. -/
theorem splitFraction_fractionText (hfraction : ∀ c ∈ fraction.getD [], c.isDigit = true) :
    Decimal.splitFraction (fractionText fraction) = (fraction.getD [], []) := by
  cases fraction with
  | none => rfl
  | some digits =>
      have htake : (digits ++ []).takeWhile Char.isDigit = digits ++ [].takeWhile Char.isDigit :=
        List.takeWhile_append_of_pos hfraction
      have hdrop : (digits ++ []).dropWhile Char.isDigit = [].dropWhile Char.isDigit :=
        List.dropWhile_append_of_pos hfraction
      simp only [List.append_nil, List.takeWhile_nil, List.dropWhile_nil] at htake hdrop
      rw [fractionText, Decimal.splitFraction, htake, hdrop]
      rfl

theorem span_digits (hwhole : ∀ c ∈ whole, c.isDigit = true) (fraction : Option (List Char)) :
    (whole ++ fractionText fraction).takeWhile Char.isDigit = whole ∧
      (whole ++ fractionText fraction).dropWhile Char.isDigit = fractionText fraction := by
  rw [List.takeWhile_append_of_pos hwhole, List.dropWhile_append_of_pos hwhole]
  cases fraction with
  | none => exact ⟨List.append_nil _, rfl⟩
  | some digits => exact ⟨List.append_nil _, rfl⟩

/-- Digits are read as the decimal that they write, if there are any. -/
theorem ofNumeral?_digits (hwhole : ∀ c ∈ whole, c.isDigit = true)
    (hfraction : ∀ c ∈ fraction.getD [], c.isDigit = true) :
    Decimal.ofNumeral? (whole ++ fractionText fraction) =
      if whole ++ fraction.getD [] = [] then none
      else some (.ofDigits whole (fraction.getD [])) := by
  have hsign : Decimal.splitSign (whole ++ fractionText fraction) =
      (false, whole ++ fractionText fraction) :=
    Decimal.splitSign_append false (isNumeralChar_of_mem_digits hwhole hfraction)
  rcases span_digits hwhole fraction with ⟨htake, hdrop⟩
  rw [Decimal.ofNumeral?, hsign]
  dsimp only
  rw [htake, hdrop, splitFraction_fractionText hfraction]
  simp only [Bool.and_eq_true, List.isEmpty_iff, List.append_eq_nil_iff]
  split
  · rfl
  · rw [Decimal.exponentPart?, Option.map_some, Decimal.ofDigits, Int.zero_sub]

end Digits

theorem isNumeralChar_of_mem {n : Numeral} {c : Char} (h : c ∈ n.text) :
    isNumeralChar c = true :=
  isNumeralChar_of_mem_digits n.whole_digits n.fraction_digits c h

/-- A numeral is written with at least one character. -/
theorem text_ne_nil (n : Numeral) : n.text ≠ [] := by
  intro h
  rcases List.append_eq_nil_iff.mp h with ⟨hwhole, hfraction⟩
  have hdigit := n.has_digit
  cases hsome : n.fraction with
  | none =>
      rw [hsome, hwhole] at hdigit
      exact hdigit rfl
  | some digits =>
      rw [hsome] at hfraction
      cases hfraction

theorem ofNumeral?_text (n : Numeral) : Decimal.ofNumeral? n.text = some n.decimal :=
  (ofNumeral?_digits n.whole_digits n.fraction_digits).trans (if_neg n.has_digit)

/-- A character of a numeral has no lower case. -/
theorem toLower_of_isNumeralChar {c : Char} (h : isNumeralChar c = true) : c.toLower = c := by
  have hle : c.val ≤ '9'.val := by
    rw [isNumeralChar, Bool.or_eq_true, Char.isDigit, Bool.and_eq_true, decide_eq_true_iff,
      decide_eq_true_iff, beq_iff_eq] at h
    rcases h with ⟨_, hnine⟩ | rfl
    · exact hnine
    · decide
  have hupper : ¬('A'.val ≤ c.val ∧ c.val ≤ 'Z'.val) := by
    intro hcase
    exact absurd (UInt32.le_trans hcase.1 hle) (by decide)
  exact dif_neg hupper

end Numeral

section Signed

variable {digits : List Char}

/-- No digits and points name an infinity or not-a-number. -/
theorem isNonFiniteName_signed (hdigits : ∀ c ∈ digits, isNumeralChar c = true)
    (negative : Bool) : isNonFiniteName (Decimal.signText negative ++ digits) = false := by
  have hlower : digits.map Char.toLower = digits := by
    conv => rhs; rw [← List.map_id digits]
    exact List.map_congr_left fun c hc => Numeral.toLower_of_isNumeralChar (hdigits c hc)
  -- Each of the names begins with a letter.
  have hname {name : String} {c : Char} (hc : c ∈ name.toList)
      (hletter : isNumeralChar c = false) : String.ofList digits ≠ name := by
    intro heq
    rw [← heq, String.toList_ofList] at hc
    rw [hdigits c hc] at hletter
    cases hletter
  have hi : 'i' ∈ "inf".toList ∧ 'i' ∈ "infinity".toList := by decide
  have ha : 'a' ∈ "nan".toList := by decide
  have hinf := hname hi.1 (by decide)
  have hinfinity := hname hi.2 (by decide)
  have hnan := hname ha (by decide)
  rw [isNonFiniteName, Decimal.splitSign_append negative hdigits, hlower]
  simp only [List.contains_cons, List.contains_nil, beq_eq_false_iff_ne.mpr hinf,
    beq_eq_false_iff_ne.mpr hinfinity, beq_eq_false_iff_ne.mpr hnan, Bool.or_false]

/-- Behind a sign, digits and points write the decimal of that sign. -/
theorem Decimal.ofNumeral?_signed (hdigits : ∀ c ∈ digits, isNumeralChar c = true)
    (negative : Bool) : Decimal.ofNumeral? (signText negative ++ digits) =
      (Decimal.ofNumeral? digits).map (Decimal.withSign negative) := by
  have hnone : splitSign digits = (false, digits) := splitSign_append false hdigits
  rw [ofNumeral?, ofNumeral?, splitSign_append negative hdigits, hnone]
  dsimp only
  split
  · rfl
  · rw [Option.map_map]
    congr 1
    funext exponent
    rw [Function.comp_apply, withSign, Bool.xor_false]

/-- Digits and points behind a sign are read as their decimal. What the reader checks before
    that, the number of points apart, is met by all of them. -/
theorem Binary64.ofNumeral_signed (hdigits : ∀ c ∈ digits, isNumeralChar c = true)
    (hne : digits ≠ []) (negative : Bool) :
    Binary64.ofNumeral (String.ofList (Decimal.signText negative ++ digits)) =
      if 1 < digits.count '.' then
        .error (.tooManyPeriods (String.ofList (Decimal.signText negative ++ digits)))
      else
        match (Decimal.ofNumeral? digits).map (Decimal.withSign negative) with
        | none => .error .malformed
        | some decimal =>
            if decimal.toBinary64.isFinite then .ok decimal.toBinary64
            else .error (.outOfRange (String.ofList (Decimal.signText negative ++ digits))) := by
  have hcount : (Decimal.signText negative ++ digits).count '.' = digits.count '.' := by
    cases negative with
    | false => rfl
    | true => exact List.count_cons_of_ne (by decide)
  -- The two checks for a minus that is not in front and for an empty text never apply here.
  have hsigns : ¬ (Decimal.signText negative ++ digits).tail.contains '-' = true := by
    rw [List.contains_iff_mem]
    intro hmem
    have hmem' : '-' ∈ digits := by
      cases negative with
      | false => exact List.mem_of_mem_tail hmem
      | true => exact hmem
    exact absurd (hdigits '-' hmem') (by decide)
  have hempty : ¬ (Decimal.signText negative ++ digits).isEmpty = true := by
    rw [List.isEmpty_iff]
    exact List.append_ne_nil_of_right_ne_nil _ hne
  rewrite [Binary64.ofNumeral, String.toList_ofList, hcount, if_neg hsigns, if_neg hempty,
    if_neg (ne_true_of_eq_false (isNonFiniteName_signed hdigits negative)),
    Decimal.ofNumeral?_signed hdigits]
  rfl

/-- Digits and points that are read as a number are read behind a minus sign as the number of
    the other sign. -/
theorem Binary64.ofNumeral_minus (hdigits : ∀ c ∈ digits, isNumeralChar c = true)
    {value : Binary64} (h : Binary64.ofNumeral (String.ofList digits) = .ok value) :
    Binary64.ofNumeral (String.ofList ('-' :: digits)) = .ok value.neg := by
  have hne : digits ≠ [] := by
    rintro rfl
    cases h
  have hread := Binary64.ofNumeral_signed hdigits hne false
  have hsigned := Binary64.ofNumeral_signed hdigits hne true
  have htext : String.ofList (Decimal.signText false ++ digits) = String.ofList digits := rfl
  have htext' : String.ofList (Decimal.signText true ++ digits) = String.ofList ('-' :: digits) :=
    rfl
  rw [htext, h] at hread
  rw [htext'] at hsigned
  -- What has been checked on the digits by themselves is checked in the same way here.
  rw [hsigned]
  split at hread
  · cases hread
  · next hpoints =>
      rw [if_neg hpoints]
      cases hdecimal : Decimal.ofNumeral? digits with
      | none =>
          rw [hdecimal] at hread
          cases hread
      | some d =>
          rw [hdecimal] at hread
          simp only [Option.map_some, Decimal.toBinary64_withSign, if_true, Binary64.isFinite_neg,
            Bool.false_eq_true, if_false] at hread ⊢
          split at hread
          · next hfinite => rw [if_pos hfinite, Except.ok.inj hread]
          · cases hread

/-- Whether digits and points are read as a number does not depend on a sign before them. -/
theorem Binary64.isOk_ofNumeral_signed (hdigits : ∀ c ∈ digits, isNumeralChar c = true)
    (hne : digits ≠ []) (negative : Bool) :
    (Binary64.ofNumeral (String.ofList (Decimal.signText negative ++ digits))).isOk =
      (Binary64.ofNumeral (String.ofList digits)).isOk := by
  have hplain := Binary64.ofNumeral_signed hdigits hne false
  have htext : Decimal.signText false ++ digits = digits := rfl
  have hok (finite : Bool) (value : Binary64) (e : NumeralError) :
      (if finite = true then Except.ok value else Except.error e).isOk = finite := by
    cases finite <;> rfl
  rw [htext] at hplain
  rw [Binary64.ofNumeral_signed hdigits hne negative, hplain]
  -- Neither the points nor the size of a number depend on its sign.
  by_cases hpoints : 1 < digits.count '.'
  · rw [if_pos hpoints, if_pos hpoints]
    rfl
  · rw [if_neg hpoints, if_neg hpoints]
    cases Decimal.ofNumeral? digits with
    | none => rfl
    | some d => simp only [Option.map_some, hok, Decimal.isFinite_toBinary64_withSign]

end Signed

/-- A numeral is read as its value, and behind a minus sign as the number of the other
    sign. -/
theorem Binary64.ofNumeral_text (n : Numeral) (negative : Bool) :
    Binary64.ofNumeral (String.ofList (Decimal.signText negative ++ n.text)) =
      .ok (if negative then n.value.neg else n.value) := by
  have hpoints : ¬ 1 < n.text.count '.' :=
    Nat.not_lt.mpr (Numeral.count_point_le n.whole_digits n.fraction_digits)
  have hsigned : (n.decimal.withSign negative).toBinary64.isFinite = true :=
    (Decimal.isFinite_toBinary64_withSign negative _).trans n.finite
  rw [ofNumeral_signed (fun _ hc => Numeral.isNumeralChar_of_mem hc) n.text_ne_nil, if_neg hpoints,
    n.ofNumeral?_text, Option.map_some]
  dsimp only
  rw [if_pos hsigned, Decimal.toBinary64_withSign]
  rfl

/-- A numeral with a sign is scanned as its number. -/
theorem Token.ofNumeral_text (n : Numeral) (negative : Bool) :
    Token.ofNumeral (String.ofList (Decimal.signText negative ++ n.text)) =
      .number (if negative then n.value.neg else n.value) := by
  rw [Token.ofNumeral, Binary64.ofNumeral_text]

namespace Numeral

/-- A numeral is scanned as one token. -/
theorem tokensOf_text (n : Numeral) (afterOperand : Bool) :
    Scanner.tokensOf afterOperand n.text = [.number n.value] := by
  have htoken := Token.ofNumeral_text n false
  rw [Decimal.signText, if_neg Bool.false_ne_true, List.nil_append] at htoken
  cases htext : n.text with
  | nil => exact absurd htext n.text_ne_nil
  | cons first rest =>
      have hnumeral (c : Char) (hc : c ∈ first :: rest) : isNumeralChar c = true :=
        isNumeralChar_of_mem (htext ▸ hc)
      have hstarts : startsNumeral afterOperand first rest = true := by
        rw [startsNumeral, hnumeral first List.mem_cons_self, Bool.true_or]
      rw [Scanner.tokensOf_of_startsNumeral hstarts
        fun c hc => hnumeral c (List.mem_cons_of_mem _ hc), ← htext, htoken]
      rfl

/-- A minus sign with a numeral is scanned as one token where no operand has ended. -/
theorem tokensOf_minus_text (n : Numeral) :
    Scanner.tokensOf false ('-' :: n.text) = [.number n.value.neg] := by
  have htoken := Token.ofNumeral_text n true
  have hstarts : startsNumeral false '-' n.text = true := by
    cases htext : n.text with
    | nil => exact absurd htext n.text_ne_nil
    | cons first rest =>
        have hfirst : isNumeralChar first = true :=
          isNumeralChar_of_mem (htext ▸ List.mem_cons_self)
        rw [startsNumeral, List.head?_cons, Option.any_some, hfirst]
        rfl
  rw [Scanner.tokensOf_of_startsNumeral hstarts fun c hc => isNumeralChar_of_mem hc]
  exact congrArg (fun token => [token]) htoken

end Numeral

end Calculator
