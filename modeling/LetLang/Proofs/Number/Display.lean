import LetLang.Evaluation
import LetLang.Proofs.Number.Matching
import LetLang.Proofs.Number.Numeral
import LetLang.Proofs.Token.Spacing
import LetLang.Proofs.Tree.Run

/-!
# Displayed numbers are programs

The text that is displayed for a whole number is a run of digits, and for any other number
from `0.0001` on it is digits around a point, with a minus sign before them where the
number is negative. Such a text is a program: a number literal, or a minus sign before one.
Its value is the number that was displayed. Only the sign of a zero is lost.
-/

namespace LetLang

namespace Binary64

/-- The rational number that a finite number stands for. -/
def value (x : Float) : ℚ :=
  match view x with
  | .finite negative units => (if negative then -1 else 1) * (units / unitsPerOne)
  | _ => 0

theorem abs_value
    {x : Float} {negative : Bool} {units : Nat}
    (h : view x = .finite negative units) :
    |value x| = units / unitsPerOne := by
  have hquotient : (0 : ℚ) ≤ units / unitsPerOne := by positivity
  rw [value, h]
  dsimp only
  generalize (units / unitsPerOne : ℚ) = quotient at hquotient ⊢
  cases negative with
  | false => simp [abs_of_nonneg hquotient]
  | true => simp [abs_of_nonneg hquotient]

/-- A number with an integral value has no part of a one among its units. -/
theorem mod_eq_zero_of_integral
    {x : Float} {negative : Bool} {units : Nat}
    (h : view x = .finite negative units)
    (hint : ∃ n : ℤ, value x = n) :
    units % unitsPerOne = 0 := by
  obtain ⟨n, hn⟩ := hint
  have hone : (unitsPerOne : ℚ) ≠ 0 := by
    exact_mod_cast unitsPerOne_pos.ne'
  have habs := abs_value h
  rw [hn, eq_div_iff hone, ← Int.cast_abs, ← Int.natCast_natAbs] at habs
  have hunits : n.natAbs * unitsPerOne = units := by
    exact_mod_cast habs
  rw [← hunits, Nat.mul_mod_left]

theorem le_of_ten_thousandth_le
    {x : Float} {negative : Bool} {units : Nat}
    (h : view x = .finite negative units)
    (hle : 1 / 10 ^ 4 ≤ |value x|) :
    unitsPerOne ≤ 10 ^ 4 * units := by
  have hone : (0 : ℚ) < unitsPerOne := by
    exact_mod_cast unitsPerOne_pos
  rw [abs_value h, div_le_div_iff₀ (by norm_num) hone] at hle
  have hcast : ((unitsPerOne : Nat) : ℚ) ≤ ((10 ^ 4 * units : Nat) : ℚ) := by
    push_cast
    linarith
  exact_mod_cast hcast

/-- The number of no units equals zero, whatever its sign. -/
theorem beq_zero_of_view
    {x : Float} {negative : Bool}
    (h : view x = .finite negative 0) :
    (0 == x) = true := by
  have hzero : (0 : Float) = ofUnits false 0 := by
    decide +kernel
  have hmatches := matches_ofUnits_zero false negative
  rw [ofUnits_of_view h, ← hzero] at hmatches
  rcases hmatches with hbeq | ⟨hnan, _⟩
  · exact hbeq
  · cases hnan

end Binary64

open Binary64

namespace Decimal

theorem Writes.isNumeral
    {grains : Nat} {text : List Char}
    (h : Writes grains text) :
    Lexeme.IsNumeral text := by
  obtain ⟨whole, fraction, rfl, hne, _, hwhole, hfraction, _⟩ := h
  have hpoint : ∀ {digits : List Char}, (∀ c ∈ digits, c.isDigit = true) →
      digits.count '.' = 0 := by
    intro digits hdigits
    refine List.count_eq_zero.mpr fun hmem => ?_
    cases hdigits _ hmem
  refine ⟨?_, ?_, ?_⟩
  · intro c hc
    rcases List.mem_append.mp hc with hc | hc
    · simp [Lexeme.isNumeralChar, hwhole c hc]
    · rcases List.mem_cons.mp hc with rfl | hc
      · rfl
      · simp [Lexeme.isNumeralChar, hfraction c hc]
  · rw [List.count_append, List.count_cons_self, hpoint hwhole, hpoint hfraction]
  · obtain ⟨c, cs, rfl⟩ := List.exists_cons_of_ne_nil hne
    exact ⟨c, List.mem_append_left _ List.mem_cons_self, hwhole c List.mem_cons_self⟩

theorem isNumeral_toDigits
    (n : Nat) :
    Lexeme.IsNumeral (Nat.toDigits 10 n) := by
  refine ⟨?_, ?_, ?_⟩
  · intro c hc
    simp [Lexeme.isNumeralChar, isDigit_of_mem_toDigits hc]
  · rw [List.count_eq_zero.mpr]
    · exact Nat.zero_le 1
    · intro hmem
      cases isDigit_of_mem_toDigits hmem
  · obtain ⟨c, cs, heq⟩ :=
      List.exists_cons_of_ne_nil (Nat.toDigits_ne_nil (b := 10) (n := n))
    rw [heq]
    refine ⟨c, List.mem_cons_self, isDigit_of_mem_toDigits (n := n) ?_⟩
    rw [heq]
    exact List.mem_cons_self

/-- Digits without a point are read as the number nearest to their value. -/
theorem read_toDigits
    (n : Nat) :
    read (Nat.toDigits 10 n) = ofBits false (nearestBits n 1) := by
  have hwhole : ∀ c ∈ Nat.toDigits 10 n, decide (c ≠ '.') = true := by
    intro c hc
    rw [decide_eq_true_eq]
    rintro rfl
    cases isDigit_of_mem_toDigits hc
  have htake : (Nat.toDigits 10 n).takeWhile (· ≠ '.') = Nat.toDigits 10 n := by
    rw [List.takeWhile_eq_self_iff]
    exact hwhole
  have hdrop : (Nat.toDigits 10 n).dropWhile (· ≠ '.') = [] := by
    rw [List.dropWhile_eq_nil_iff]
    exact hwhole
  simp only [read, htake, hdrop, List.drop_nil, List.append_nil, List.length_nil,
    Nat.ofDigitChars_ten_toDigits, ofRatio]

/-- What is displayed for a finite number is a numeral behind its sign, unless the numeral
needs an exponent. The numeral is read as the magnitude of the number. -/
theorem exists_display_eq
    {x : Float} {negative : Bool} {units : Nat}
    (hview : view x = .finite negative units)
    (hx : (∃ n : ℤ, value x = n) ∨ 1 / 10 ^ 4 ≤ |value x|) :
    ∃ digits, Lexeme.IsNumeral digits ∧ read digits =
      ofBits false (nearestBits units unitsPerOne) ∧
      display x = String.ofList (sign (negative && units != 0) ++ digits) := by
  by_cases hwhole : units % unitsPerOne = 0
  · refine ⟨Nat.toDigits 10 (units / unitsPerOne), isNumeral_toDigits _, ?_, ?_⟩
    · rw [read_toDigits, nearestBits_eq_of_ratio_eq Nat.one_pos unitsPerOne_pos]
      rw [Nat.div_mul_cancel (Nat.dvd_of_mod_eq_zero hwhole), Nat.mul_one]
    · rw [display, hview]
      exact if_pos hwhole
  · have hunits : units ≠ 0 := by
      rintro rfl
      exact hwhole (Nat.zero_mod _)
    have hsize := hx.resolve_left (mt (mod_eq_zero_of_integral hview) hwhole)
    obtain ⟨hhigh, hbits⟩ := lt_of_not_whole hview hwhole
    rw [← (magnitude_of_view hview).2] at hbits
    have hrender := render_shortest (le_of_ten_thousandth_le hview hsize) hhigh hbits
    have hwrites := writes_positional (shortest_pos (Nat.pos_of_ne_zero hunits))
    refine ⟨_, hwrites.isNumeral, ?_, ?_⟩
    · rw [hwrites.read_eq, (shortest_spec units).1]
    · have hnumeral : numeral x =
          String.ofList (sign negative ++ layout.render (.ofGrains (shortest units))) := by
        rw [numeral, hview]
        dsimp only
        rw [if_neg hunits]
      rw [display, hview]
      dsimp only
      rw [if_neg hwhole, hnumeral, hrender, bne_iff_ne.mpr hunits, Bool.and_true]

end Decimal

/-- A numeral is a program, and so is a numeral behind a minus sign. -/
theorem evaluateSource_numeral
    {digits : List Char}
    (h : Lexeme.IsNumeral digits)
    (negative : Bool) (c : Chain) :
    evaluateSource (String.ofList (Decimal.sign negative ++ digits)) c =
      .ok (.number (if negative then -(Decimal.read digits)
        else Decimal.read digits)) c := by
  have hspelled : (Lexeme.number (String.ofList digits)).Spelled digits :=
    ⟨String.toList_ofList.symm, h⟩
  have hends : (Lexeme.number (String.ofList digits)).EndsBefore [] := by
    simp [Lexeme.EndsBefore]
  have hread : ∀ pos, TokenStream.read pos digits =
      .ok ⟨[⟨.number (String.ofList digits), pos⟩], pos.after digits⟩ := by
    intro pos
    have hword := TokenStream.read_spelled pos hspelled hends
    rw [List.append_nil, TokenStream.read] at hword
    exact hword
  cases negative with
  | false =>
      have htokens : tokenize (String.ofList (Decimal.sign false ++ digits)) =
          .ok ⟨[⟨.number (String.ofList digits), .start⟩], Pos.start.after digits⟩ := by
        rw [tokenize, String.toList_ofList]
        exact hread .start
      have hprogram : parse (String.ofList (Decimal.sign false ++ digits)) =
          .ok (.program .unknown
            [.number .start (Decimal.read (String.ofList digits).toList)]) :=
        parse_of_tokenize htokens
      rw [evaluateSource, hprogram, String.toList_ofList]
      simp only [Node.evaluate, evaluateAll]
      rfl
  | true =>
      have hminus : (Lexeme.operator (.binary (.arith .sub))).Spelled ['-'] := rfl
      have htokens : tokenize (String.ofList (Decimal.sign true ++ digits)) =
          .ok ⟨[⟨.operator (.binary (.arith .sub)), .start⟩,
            ⟨.number (String.ofList digits), Pos.start.next '-'⟩],
            (Pos.start.next '-').after digits⟩ := by
        rw [tokenize, String.toList_ofList]
        refine (TokenStream.read_spelled .start hminus trivial).trans ?_
        rw [hread]
        rfl
      have hprogram : parse (String.ofList (Decimal.sign true ++ digits)) =
          .ok (.program .unknown
            [.unary .start "-" (.number (Pos.start.next '-')
              (Decimal.read (String.ofList digits).toList))]) :=
        parse_of_tokenize htokens
      rw [evaluateSource, hprogram, String.toList_ofList]
      simp only [Node.evaluate, evaluateAll]
      rfl

/-- What is displayed for a finite number, unless its numeral needs an exponent, is a
program whose value is the number. For minus zero the value is zero. -/
theorem display_reads_back
    {x : Float}
    (hnan : x.isNaN = false)
    (hinf : x.isInf = false)
    (hx : (∃ n : ℤ, value x = n) ∨ 1 / 10 ^ 4 ≤ |value x|)
    (c : Chain) :
    ∃ y, evaluateSource (Decimal.display x) c = .ok (.number y) c ∧ (y == x) = true ∧
      ((x == 0) = true → y = 0) := by
  obtain ⟨negative, units, hview⟩ := view_of_finite hnan hinf
  obtain ⟨digits, hnumeral, hread, hdisplay⟩ := Decimal.exists_display_eq hview hx
  have heval := evaluateSource_numeral hnumeral (negative && units != 0) c
  rw [← hdisplay, hread] at heval
  refine ⟨_, heval, ?_⟩
  by_cases hunits : units = 0
  · subst hunits
    have hzero : ofBits false 0 = 0 := by
      decide +kernel
    rw [bne_self_eq_false, Bool.and_false, if_neg Bool.false_ne_true,
      nearestBits_zero, hzero]
    exact ⟨beq_zero_of_view hview, fun _ => rfl⟩
  · have hsigned : (if negative = true then -ofBits false (nearestBits units unitsPerOne)
        else ofBits false (nearestBits units unitsPerOne)) = x := by
      rw [neg_ofBits (nearestBits_le _ _), ← ofUnits_of_view hview, ofUnits, ofRatio]
      cases negative with
      | false => rfl
      | true => rfl
    rw [bne_iff_ne.mpr hunits, Bool.and_true, hsigned]
    refine ⟨beq_self_iff.mpr hnan, fun hbeq => ?_⟩
    obtain ⟨sign, hzero⟩ := view_of_beq_zero hbeq
    rw [hview] at hzero
    cases hzero
    exact absurd rfl hunits

/-- The number next to minus three tenths is displayed with seventeen digits, and these are
read back. -/
theorem display_reads_back_sum :
    (-(0.1 + 0.2) : Float).isNaN = false ∧ (-(0.1 + 0.2) : Float).isInf = false ∧
    1 / 10 ^ 4 ≤ |value (-(0.1 + 0.2))| ∧
    ∃ y, evaluateSource (Decimal.display (-(0.1 + 0.2))) (.single []) =
      .ok (.number y) (.single []) ∧
      (y == -(0.1 + 0.2)) = true ∧ ((-(0.1 + 0.2) == (0 : Float)) = true → y = 0) := by
  have hnan : (-(0.1 + 0.2) : Float).isNaN = false := by
    decide +kernel
  have hinf : (-(0.1 + 0.2) : Float).isInf = false := by
    decide +kernel
  have hsize : 1 / 10 ^ 4 ≤ |value (-(0.1 + 0.2))| := by
    decide +kernel
  exact ⟨hnan, hinf, hsize, display_reads_back hnan hinf (.inr hsize) (.single [])⟩

end LetLang
