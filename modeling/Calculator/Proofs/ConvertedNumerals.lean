import Calculator.Proofs.CorrectRounding
import Calculator.Proofs.Lexemes
import Calculator.Proofs.Numerals

/-!
# Conversion of Numerals

What becomes of a numeral that is scanned in a text.

The scanner takes any run of digits and points for a numeral, with a minus sign in front of it
or without one, and only then asks whether it is one. The rules are few. Of points there may be
one, of digits there must be one, and the decimal that they write must not be beyond the
format. If all is well the token is the number that the decimal is correctly rounded to, with
the sign that is written; otherwise it is the complaint about the first rule that is broken.

A text that is handed to the reader by itself can be wrong in two more ways, by a sign inside
of it and by having no characters. The scanner hands it no such text, so none of its tokens is
a complaint about that.

## Main definitions

* `Decimal.written`: The decimal that digits and points write.
* `IsConverted`: The token of a numeral by the rules.

## Theorems

* `Decimal.ofNumeral?_of_count_le`: Digits with at most one point are read as what they write.
* `isConverted_ofNumeral`: A numeral is converted by the rules.
* `Lexeme.eq_ofNumeral`: A lexeme of digits and points is converted as a numeral.
* `exists_pieces_isConverted`: Every numeral of a text is converted by the rules.
-/

namespace Calculator

/-- The decimal that digits and points write behind a sign: all the digits, and as many places
    as there are characters behind the first point. -/
def Decimal.written (negative : Bool) (digits : List Char) : Decimal :=
  { negative
    coefficient := Nat.ofDigitChars 10 (digits.filter Char.isDigit) 0
    exponent := -((digits.dropWhile (· != '.')).tail.length : Int) }

/-- Digits with at most one point are those before it and those behind it. -/
theorem exists_digits_of_count_le {digits : List Char}
    (hdigits : ∀ c ∈ digits, isNumeralChar c = true) (hcount : digits.count '.' ≤ 1) :
    ∃ whole fraction, digits = whole ++ Numeral.fractionText fraction ∧
      (∀ c ∈ whole, c.isDigit = true) ∧ ∀ c ∈ fraction.getD [], c.isDigit = true := by
  have hdigit {part : List Char} (hmem : ∀ c ∈ part, c ∈ digits) (hpoint : part.count '.' = 0) :
      ∀ c ∈ part, c.isDigit = true := by
    intro c hc
    have hkind := hdigits c (hmem c hc)
    rw [isNumeralChar, Bool.or_eq_true, beq_iff_eq] at hkind
    rcases hkind with hdigit | rfl
    · exact hdigit
    · exact absurd hc (List.count_eq_zero.mp hpoint)
  -- The only point there is separates the digits, and without one there is no fraction.
  by_cases hpoint : '.' ∈ digits
  · obtain ⟨front, back, rfl⟩ := List.append_of_mem hpoint
    rw [List.count_append, List.count_cons_self] at hcount
    refine ⟨front, some back, rfl, hdigit (fun c hc => List.mem_append_left _ hc) (by omega),
      hdigit (fun c hc => ?_) (Nat.eq_zero_of_le_zero (by omega : back.count '.' ≤ 0))⟩
    exact List.mem_append_right _ (List.mem_cons_of_mem _ hc)
  · refine ⟨digits, none, (List.append_nil _).symm, hdigit (fun _ hc => hc) ?_, by simp⟩
    exact List.count_eq_zero.mpr hpoint

/-- The digits that are written are those before and behind the point. -/
theorem filter_isDigit {whole : List Char} {fraction : Option (List Char)}
    (hwhole : ∀ c ∈ whole, c.isDigit = true)
    (hfraction : ∀ c ∈ fraction.getD [], c.isDigit = true) :
    (whole ++ Numeral.fractionText fraction).filter Char.isDigit = whole ++ fraction.getD [] := by
  rw [List.filter_append, List.filter_eq_self.mpr hwhole]
  cases fraction with
  | none => rfl
  | some digits =>
      rw [Option.getD_some] at hfraction
      rw [Numeral.fractionText, List.filter_cons_of_neg (by decide),
        List.filter_eq_self.mpr hfraction, Option.getD_some]

/-- Digits before and behind a point write their decimal. -/
theorem Decimal.written_digits {whole : List Char} {fraction : Option (List Char)}
    (hwhole : ∀ c ∈ whole, c.isDigit = true)
    (hfraction : ∀ c ∈ fraction.getD [], c.isDigit = true) (negative : Bool) :
    written negative (whole ++ Numeral.fractionText fraction) =
      (ofDigits whole (fraction.getD [])).withSign negative := by
  have hplaces : ((whole ++ Numeral.fractionText fraction).dropWhile (· != '.')).tail =
      fraction.getD [] := by
    rw [List.dropWhile_append_of_pos fun c hc =>
      bne_iff_ne.mpr (Numeral.ne_point_of_isDigit (hwhole c hc))]
    cases fraction <;> rfl
  rw [written, filter_isDigit hwhole hfraction, hplaces, withSign, ofDigits, Bool.xor_false]

/-- Digits with at most one point are read as the decimal that they write, if there is a
    digit. -/
theorem Decimal.ofNumeral?_of_count_le {digits : List Char}
    (hdigits : ∀ c ∈ digits, isNumeralChar c = true) (hcount : digits.count '.' ≤ 1)
    (negative : Bool) : (ofNumeral? digits).map (withSign negative) =
      if digits.any Char.isDigit then some (written negative digits) else none := by
  rcases exists_digits_of_count_le hdigits hcount with ⟨whole, fraction, rfl, hwhole, hfraction⟩
  have hany : (whole ++ Numeral.fractionText fraction).any Char.isDigit = false ↔
      whole ++ fraction.getD [] = [] := by
    rw [List.any_eq_false, ← List.filter_eq_nil_iff, filter_isDigit hwhole hfraction]
  rw [Numeral.ofNumeral?_digits hwhole hfraction]
  by_cases hnil : whole ++ fraction.getD [] = []
  · rw [if_pos hnil, hany.mpr hnil]
    rfl
  · rw [if_neg hnil, Bool.eq_true_of_not_eq_false (hany.not.mpr hnil), Option.map_some,
      written_digits hwhole hfraction, if_pos rfl]

/-- The token of the numeral that some digits and points are behind a sign. -/
structure IsConverted (negative : Bool) (digits : List Char) (token : Token) : Prop where
  isNumber_iff : (∃ x, token = .number x) ↔
    digits.count '.' ≤ 1 ∧ digits.any Char.isDigit = true ∧
      (Decimal.written negative digits).magnitude < Binary64.overflowBound
  isRounding : ∀ x, token = .number x →
    Binary64.IsRounding negative (Decimal.written negative digits).magnitude x
  tooManyPeriods : 1 < digits.count '.' → token = .malformed ("too many periods in '" ++
    String.ofList (Decimal.signText negative ++ digits) ++ "'")
  noDigit : digits.count '.' ≤ 1 → digits.any Char.isDigit = false →
    token = .malformed "failed to parse number: invalid float literal"
  outOfRange : digits.count '.' ≤ 1 → digits.any Char.isDigit = true →
    Binary64.overflowBound ≤ (Decimal.written negative digits).magnitude →
    token = .malformed ("failed to parse number: '" ++
      String.ofList (Decimal.signText negative ++ digits) ++ "' is out of range")

theorem not_number (message : String) : ¬ ∃ x, Token.malformed message = .number x := by
  rintro ⟨x, h⟩
  cases h

variable {negative : Bool} {digits : List Char}

/-- Digits and points behind a sign are converted by the rules. -/
theorem isConverted_ofNumeral (hdigits : ∀ c ∈ digits, isNumeralChar c = true) (hne : digits ≠ [])
    (negative : Bool) : IsConverted negative digits
      (.ofNumeral (String.ofList (Decimal.signText negative ++ digits))) := by
  rw [Token.ofNumeral, Binary64.ofNumeral_signed hdigits hne]
  -- The cases come in the order of the reader: points, then digits, then the range.
  by_cases hpoints : 1 < digits.count '.'
  · rw [if_pos hpoints]
    exact
      { isNumber_iff := iff_of_false (not_number _) fun h => absurd h.1 (Nat.not_le.mpr hpoints)
        isRounding := fun x h => absurd ⟨x, h⟩ (not_number _)
        tooManyPeriods := fun _ => rfl
        noDigit := fun h => absurd h (Nat.not_le.mpr hpoints)
        outOfRange := fun h => absurd h (Nat.not_le.mpr hpoints) }
  rw [if_neg hpoints, Decimal.ofNumeral?_of_count_le hdigits (Nat.le_of_not_lt hpoints)]
  by_cases hany : digits.any Char.isDigit = true
  · rw [if_pos hany]
    dsimp only
    by_cases hfinite : (Decimal.written negative digits).toBinary64.isFinite = true
    · have hbelow := (Decimal.isFinite_toBinary64_iff _).mp hfinite
      rw [if_pos hfinite]
      exact
        { isNumber_iff := iff_of_true ⟨_, rfl⟩ ⟨Nat.le_of_not_lt hpoints, hany, hbelow⟩
          isRounding := fun _ h => (Decimal.toBinary64_eq_iff _ _).mp (Token.number.inj h)
          tooManyPeriods := fun h => absurd h hpoints
          noDigit := fun _ h => absurd (hany.symm.trans h) (by decide)
          outOfRange := fun _ _ h => absurd hbelow (not_lt.mpr h) }
    · have hbeyond := (Decimal.isFinite_toBinary64_iff _).not.mp hfinite
      rw [if_neg hfinite]
      exact
        { isNumber_iff := iff_of_false (not_number _) fun h => absurd h.2.2 hbeyond
          isRounding := fun x h => absurd ⟨x, h⟩ (not_number _)
          tooManyPeriods := fun h => absurd h hpoints
          noDigit := fun _ h => absurd (hany.symm.trans h) (by decide)
          outOfRange := fun _ _ _ => rfl }
  · rw [if_neg hany]
    exact
      { isNumber_iff := iff_of_false (not_number _) fun h => absurd h.2.1 hany
        isRounding := fun x h => absurd ⟨x, h⟩ (not_number _)
        tooManyPeriods := fun h => absurd h hpoints
        noDigit := fun _ _ => rfl
        outOfRange := fun _ h => absurd h hany }

/-- A numeral that is no number is complained about in one of three ways. -/
theorem IsConverted.message_cases {message : String}
    (h : IsConverted negative digits (.malformed message)) :
    (∃ text, message = "too many periods in '" ++ text) ∨
      message = "failed to parse number: invalid float literal" ∨
      ∃ text, message = "failed to parse number: '" ++ text := by
  by_cases hpoints : 1 < digits.count '.'
  · have hmessage := Token.malformed.inj (h.tooManyPeriods hpoints)
    exact .inl ⟨_, hmessage.trans String.append_assoc⟩
  have hcount := Nat.le_of_not_lt hpoints
  by_cases hany : digits.any Char.isDigit = true
  · -- Below the bound it would be a number.
    by_cases hbelow : (Decimal.written negative digits).magnitude < Binary64.overflowBound
    · rcases h.isNumber_iff.mpr ⟨hcount, hany, hbelow⟩ with ⟨_, hnumber⟩
      cases hnumber
    · have hmessage := Token.malformed.inj (h.outOfRange hcount hany (not_lt.mp hbelow))
      exact .inr (.inr ⟨_, hmessage.trans String.append_assoc⟩)
  · exact .inr (.inl (Token.malformed.inj (h.noDigit hcount (eq_false_of_ne_true hany))))

/-- A lexeme of digits and points is converted as a numeral. -/
theorem Lexeme.eq_ofNumeral_digits {previous : Option Token} {following : List Char}
    {token : Token} (h : Lexeme previous following digits token)
    (hdigits : ∀ c ∈ digits, isNumeralChar c = true) :
    token = .ofNumeral (String.ofList digits) := by
  have hword (hrun : MaximalRun isAlphabetic digits following) : False := by
    rcases hrun.exists_cons with ⟨first, rest, rfl, hfirst, -⟩
    have hnumeral := hdigits first List.mem_cons_self
    rw [isNumeralChar_of_isAlphabetic hfirst] at hnumeral
    cases hnumeral
  -- Only a numeral begins with a character of a numeral.
  cases h with
  | numeral hrun => rfl
  | negative hrun hprevious => exact absurd (hdigits '-' List.mem_cons_self) (by decide)
  | letWord hrun hlet => exact (hword hrun).elim
  | name hrun hname => exact (hword hrun).elim
  | punctuation htoken hsign =>
      have hnumeral := hdigits _ List.mem_cons_self
      rw [(kinds_of_ofPunctuation? htoken).2.1] at hnumeral
      cases hnumeral
  | unknown hseparator hnumeral hletter hpunctuation =>
      have hnumeral' := hdigits _ List.mem_cons_self
      rw [hnumeral] at hnumeral'
      cases hnumeral'

/-- A lexeme of digits and points behind a sign is converted as a numeral. -/
theorem Lexeme.eq_ofNumeral {previous : Option Token} {following : List Char} {token : Token}
    (h : Lexeme previous following (Decimal.signText negative ++ digits) token)
    (hdigits : ∀ c ∈ digits, isNumeralChar c = true) (hne : digits ≠ []) :
    token = .ofNumeral (String.ofList (Decimal.signText negative ++ digits)) := by
  cases negative with
  | false => exact h.eq_ofNumeral_digits hdigits
  | true =>
      rcases h.of_minus with ⟨-, -, htoken⟩ | ⟨-, hnil, -⟩
      · exact htoken
      · exact absurd hnil hne

/-- A lexeme that is complained about is a numeral that is converted by the rules, or it is an
    unknown character. -/
theorem Lexeme.malformed_cases {previous : Option Token} {following lexeme : List Char}
    {token : Token} (h : Lexeme previous following lexeme token) {message : String}
    (htoken : token = .malformed message) :
    (∃ negative digits, IsConverted negative digits (.malformed message)) ∨
      ∃ text, message = "unknown character " ++ text := by
  cases h with
  | numeral hrun =>
      have hconverted := isConverted_ofNumeral hrun.all hrun.ne_nil false
      exact .inl ⟨_, _, htoken ▸ hconverted⟩
  | negative hrun hprevious =>
      have hconverted := isConverted_ofNumeral hrun.all hrun.ne_nil true
      exact .inl ⟨_, _, htoken ▸ hconverted⟩
  | letWord hrun hlet => cases htoken
  | name hrun hname => cases htoken
  | punctuation hpunctuation hsign =>
      rw [htoken] at hpunctuation
      unfold Token.ofPunctuation? at hpunctuation
      split at hpunctuation <;> cases hpunctuation
  | unknown hseparator hnumeral hletter hpunctuation =>
      exact .inr ⟨_, (Token.malformed.inj htoken).symm⟩

/-- Texts that differ in a character of their beginnings are different. -/
theorem append_ne_of_getElem? {front front' : String} (i : Nat) (hi : i < front.toList.length)
    (hi' : i < front'.toList.length) (h : front.toList[i]? ≠ front'.toList[i]?)
    (back back' : String) : front ++ back ≠ front' ++ back' := by
  intro heq
  have hlists := congrArg (fun text : String => text.toList[i]?) heq
  simp only [String.toList_append, List.getElem?_append_left hi, List.getElem?_append_left hi']
    at hlists
  exact h hlists

/-- No lexeme is complained about as having a sign inside of it or as having no characters. -/
theorem Lexeme.message_ne {previous : Option Token} {following lexeme : List Char}
    {message : String} (h : Lexeme previous following lexeme (.malformed message)) :
    (∀ found, message ≠ "- can only appear at the start of a number, found: " ++ found) ∧
      message ≠ "failed to parse number: cannot parse float from empty string" := by
  -- The messages differ at their first letter or at the first one behind what they share, whatever
  -- the text at their ends.
  have hempty : "failed to parse number: cannot parse float from empty string" =
      "failed to parse number: cannot parse float from empty string" ++ "" := rfl
  have hinvalid : "failed to parse number: invalid float literal" =
      "failed to parse number: invalid float literal" ++ "" := rfl
  rw [hempty]
  rcases h.malformed_cases rfl with ⟨negative, digits, hconverted⟩ | ⟨text, rfl⟩
  · rcases hconverted.message_cases with ⟨text, rfl⟩ | rfl | ⟨text, rfl⟩
    · exact ⟨append_ne_of_getElem? 0 (by decide) (by decide) (by decide) _,
        append_ne_of_getElem? 0 (by decide) (by decide) (by decide) _ _⟩
    · rw [hinvalid]
      exact ⟨append_ne_of_getElem? 0 (by decide) (by decide) (by decide) _,
        append_ne_of_getElem? 24 (by decide) (by decide) (by decide) _ _⟩
    · exact ⟨append_ne_of_getElem? 0 (by decide) (by decide) (by decide) _,
        append_ne_of_getElem? 24 (by decide) (by decide) (by decide) _ _⟩
  · exact ⟨append_ne_of_getElem? 0 (by decide) (by decide) (by decide) _,
      append_ne_of_getElem? 0 (by decide) (by decide) (by decide) _ _⟩

theorem WellCut.lexeme_of_mem {previous : Option Token} {trailing : List Char}
    {pieces : List Piece} (h : WellCut previous trailing pieces) {piece : Piece}
    (hpiece : piece ∈ pieces) :
    ∃ previous' following, Lexeme previous' following piece.lexeme piece.token := by
  obtain ⟨before, after, rfl⟩ := List.append_of_mem hpiece
  exact ⟨_, _, h.lexeme_at.2⟩

/-- Every numeral of a text is converted by the rules: it is the number that its decimal is
    correctly rounded to if it has at most one point and a digit and is below the bound, and
    otherwise it is the complaint about the first of these that it lacks. So every number
    among the tokens is finite, and no token is a complaint about a sign inside of a numeral or
    about one without characters. -/
theorem exists_pieces_isConverted (text : String) :
    ∃ pieces trailing,
      tokenize text = pieces.map Piece.token ++ [.endOfText, .endOfText] ∧
        text.toList = pieces.flatMap Piece.text ++ trailing ∧
        WellCut none trailing pieces ∧
        (∀ piece ∈ pieces, ∀ negative digits,
          piece.lexeme = Decimal.signText negative ++ digits → digits ≠ [] →
            (∀ c ∈ digits, isNumeralChar c = true) → IsConverted negative digits piece.token) ∧
        ∀ token ∈ tokenize text,
          (∀ x, token = .number x → x.isFinite = true) ∧
            ∀ message, token = .malformed message →
              (∀ found, message ≠
                "- can only appear at the start of a number, found: " ++ found) ∧
              message ≠ "failed to parse number: cannot parse float from empty string" := by
  rcases exists_wellCut none text.toList with ⟨pieces, trailing, htext, hcut⟩
  have htokens : tokenize text = pieces.map Piece.token ++ [.endOfText, .endOfText] := by
    rw [tokenize, Scanner.ofText, htext]
    exact congrArg (· ++ [.endOfText, .endOfText]) hcut.tokensOf
  refine ⟨pieces, trailing, htokens, htext, hcut, ?_, ?_⟩
  · intro piece hpiece negative digits hlexeme hne hdigits
    rcases hcut.lexeme_of_mem hpiece with ⟨previous, following, h⟩
    rw [hlexeme] at h
    rw [h.eq_ofNumeral hdigits hne]
    exact isConverted_ofNumeral hdigits hne negative
  · intro token htoken
    refine ⟨?_, ?_⟩
    · -- The tokens behind the pieces are no numbers, and those of the pieces have been scanned.
      rintro x rfl
      rcases List.mem_append.mp htoken with hmem | hmem
      · exact Scanner.isFinite_of_mem_tokensOf hmem
      · simp only [List.mem_cons, reduceCtorEq, List.not_mem_nil, or_self] at hmem
    · rintro message rfl
      rw [htokens] at htoken
      rcases List.mem_append.mp htoken with hmem | hmem
      · rcases List.mem_map.mp hmem with ⟨piece, hpiece, hmessage⟩
        rcases hcut.lexeme_of_mem hpiece with ⟨previous, following, h⟩
        rw [hmessage] at h
        exact h.message_ne
      · simp only [List.mem_cons, reduceCtorEq, List.not_mem_nil, or_self] at hmem

end Calculator
