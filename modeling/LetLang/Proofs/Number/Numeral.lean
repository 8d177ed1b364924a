import LetLang.Proofs.Number.Rounding

/-!
# What numerals stand for

A number is written with as few digits as read back as the number. The value of a
positional numeral is a quotient, of its digits by a power of ten, and it is the number of
grains that was written down. So a positional numeral is read as the number it was made
from. The written value stays between the powers of ten around the exact one, which is why
every number from `0.0001` on that is not whole has a positional numeral.
-/

namespace LetLang
namespace Decimal

open Binary64

theorem grain_eq
    {a b : Nat}
    (h : a + b = 1074) :
    grain = 10 ^ a * 10 ^ b := by
  unfold grain
  rw [← Nat.pow_add, ← h, Nat.pow_eq]

theorem grain_pos :
    0 < grain := by
  have hpower : ∀ k, 0 < Nat.pow 10 k := fun k => Nat.pow_pos (by decide)
  unfold grain
  exact hpower 1074

theorem ten_pow_eq_mul_grain
    {a k : Nat}
    (h : a + 1074 = k) :
    10 ^ k = 10 ^ a * grain := by
  rw [grain_eq (show k - a + 0 = 1074 by omega), Nat.pow_zero, Nat.mul_one, ← Nat.pow_add]
  congr 1
  omega

section Digits

/-- The value of digits. -/
abbrev valueOf (digits : List Char) : Nat :=
  Nat.ofDigitChars 10 digits 0

theorem valueOf_append_zeros
    (digits : List Char) (k : Nat) :
    valueOf (digits ++ List.replicate k '0') = valueOf digits * 10 ^ k := by
  rw [valueOf, Nat.ofDigitChars_append, Nat.ofDigitChars_replicate_zero, Nat.mul_comm]

theorem valueOf_zeros_append
    (digits : List Char) (k : Nat) :
    valueOf (List.replicate k '0' ++ digits) = valueOf digits := by
  rw [valueOf, Nat.ofDigitChars_append, Nat.ofDigitChars_replicate_zero, Nat.mul_zero]

theorem isDigit_of_mem_toDigits
    {n : Nat} {c : Char}
    (hc : c ∈ Nat.toDigits 10 n) :
    c.isDigit = true := by
  exact Nat.isDigit_of_mem_toDigits (by decide) (by decide) hc

/-- The digits of a positive number are some significant ones and zeros behind them. -/
theorem exists_significant
    {n : Nat}
    (hn : 0 < n) :
    ∃ digits k, Nat.toDigits 10 n = digits ++ List.replicate k '0' ∧
      Text.dropTrailing (· == '0') (Nat.toDigits 10 n) = digits ∧ digits ≠ [] ∧
      (∀ c ∈ digits, c.isDigit = true) ∧ n = valueOf digits * 10 ^ k := by
  have hvalue : valueOf (Nat.toDigits 10 n) = n := Nat.ofDigitChars_ten_toDigits
  have hdigit : ∀ c ∈ Nat.toDigits 10 n, c.isDigit = true :=
    fun _ => isDigit_of_mem_toDigits
  generalize Nat.toDigits 10 n = all at hvalue hdigit
  have hzeros : (all.reverse.takeWhile (· == '0')).reverse =
      List.replicate (all.reverse.takeWhile (· == '0')).length '0' := by
    rw [List.eq_replicate_iff]
    refine ⟨by simp, ?_⟩
    intro c hc
    rw [List.mem_reverse] at hc
    simpa using List.mem_takeWhile_imp hc
  have hsplit : all = Text.dropTrailing (· == '0') all ++
      List.replicate (all.reverse.takeWhile (· == '0')).length '0' := by
    rw [← hzeros, Text.dropTrailing, ← List.reverse_append,
      List.takeWhile_append_dropWhile, List.reverse_reverse]
  generalize (all.reverse.takeWhile (· == '0')).length = k at hsplit
  have hn' : n = valueOf (Text.dropTrailing (· == '0') all) * 10 ^ k := by
    rw [← valueOf_append_zeros, ← hsplit, hvalue]
  refine ⟨_, k, hsplit, rfl, ?_, ?_, hn'⟩
  · intro hnil
    rw [hnil, valueOf, Nat.ofDigitChars_nil, Nat.zero_mul] at hn'
    omega
  · intro c hc
    rw [hsplit] at hdigit
    exact hdigit c (List.mem_append_left _ hc)

theorem lt_length_toDigits_iff
    {n k : Nat}
    (hn : 0 < n) :
    k < (Nat.toDigits 10 n).length ↔ 10 ^ k ≤ n := by
  rcases Nat.eq_zero_or_pos k with rfl | hk
  · exact iff_of_true Nat.length_toDigits_pos hn
  · rw [← not_le, Nat.length_toDigits_le_iff (by decide) hk, not_lt]

end Digits

/-- The text is digits around a point, and stands for so many grains. -/
def Writes (grains : Nat) (text : List Char) : Prop :=
  ∃ whole fraction, text = whole ++ '.' :: fraction ∧ whole ≠ [] ∧ fraction ≠ [] ∧
    (∀ c ∈ whole, c.isDigit = true) ∧ (∀ c ∈ fraction, c.isDigit = true) ∧
    grains * 10 ^ fraction.length = valueOf (whole ++ fraction) * grain

namespace Writes

variable {grains grains' : Nat} {text : List Char}

/-- The point divides the text into its two parts. -/
theorem takeWhile_append
    {whole : List Char} (fraction : List Char)
    (h : ∀ c ∈ whole, c.isDigit = true) :
    (whole ++ '.' :: fraction).takeWhile (· ≠ '.') = whole ∧
      ((whole ++ '.' :: fraction).dropWhile (· ≠ '.')).drop 1 = fraction := by
  have hwhole : ∀ c ∈ whole, decide (c ≠ '.') = true := by
    intro c hc
    rw [decide_eq_true_eq]
    rintro rfl
    cases h _ hc
  rw [List.takeWhile_append_of_pos hwhole, List.dropWhile_append_of_pos hwhole]
  simp

/-- A positional numeral is read as the number nearest to its grains. -/
theorem read_eq
    (h : Writes grains text) :
    read text = ofBits false (nearestBits grains grain) := by
  obtain ⟨whole, fraction, rfl, _, _, hwhole, _, hvalue⟩ := h
  obtain ⟨htake, hdrop⟩ := takeWhile_append fraction hwhole
  have hpower : 0 < 10 ^ fraction.length := Nat.pow_pos (by decide)
  simp only [read, htake, hdrop, ofRatio]
  rw [Nat.pow_eq, nearestBits_eq_of_ratio_eq hpower grain_pos hvalue.symm]

/-- A positional numeral stands for one number of grains. -/
theorem eq
    (h : Writes grains text)
    (h' : Writes grains' text) :
    grains = grains' := by
  obtain ⟨whole, fraction, rfl, _, _, hwhole, _, hvalue⟩ := h
  obtain ⟨whole', fraction', htext, _, _, hwhole', _, hvalue'⟩ := h'
  obtain ⟨htake, hdrop⟩ := takeWhile_append fraction hwhole
  obtain ⟨htake', hdrop'⟩ := takeWhile_append fraction' hwhole'
  rw [← htext, htake] at htake'
  rw [← htext, hdrop] at hdrop'
  subst htake' hdrop'
  have hpower : 0 < 10 ^ fraction.length := Nat.pow_pos (by decide)
  exact Nat.eq_of_mul_eq_mul_right hpower (hvalue.trans hvalue'.symm)

theorem zero :
    Writes 0 ['0', '.', '0'] := by
  exact ⟨['0'], ['0'], rfl,
    by simp, by simp, by simp, by simp, by simp [valueOf, Nat.ofDigitChars]⟩

end Writes

section Positional

variable {digits : List Char} {k n : Nat}

theorem isDigit_of_mem_zeros
    {c : Char}
    (hc : c ∈ List.replicate n '0') :
    c.isDigit = true := by
  rw [List.eq_of_mem_replicate hc]
  rfl

/-- The digits end before the point, and zeros follow up to it. -/
theorem writes_padded
    (hne : digits ≠ [])
    (hdigit : ∀ c ∈ digits, c.isDigit = true)
    (hk : n + 1074 = k) :
    Writes (valueOf digits * 10 ^ k) (digits ++ List.replicate n '0' ++ '.' :: ['0']) := by
  refine ⟨digits ++ List.replicate n '0', ['0'], rfl,
    by simp [hne], by simp, ?_, by simp, ?_⟩
  · exact List.forall_mem_append.mpr ⟨hdigit, fun _ => isDigit_of_mem_zeros⟩
  · have hone : ['0'] = List.replicate 1 '0' := rfl
    rw [hone, valueOf_append_zeros, valueOf_append_zeros, ten_pow_eq_mul_grain hk,
      List.length_replicate]
    ring

/-- The point stands among the digits. -/
theorem writes_split
    (hne : digits.take n ≠ [])
    (hrest : digits.drop n ≠ [])
    (hdigit : ∀ c ∈ digits, c.isDigit = true)
    (hk : k + (digits.length - n) = 1074) :
    Writes (valueOf digits * 10 ^ k) (digits.take n ++ '.' :: digits.drop n) := by
  refine ⟨digits.take n, digits.drop n, rfl, hne, hrest, ?_, ?_, ?_⟩
  · exact fun c hc => hdigit c (List.mem_of_mem_take hc)
  · exact fun c hc => hdigit c (List.mem_of_mem_drop hc)
  · rw [List.take_append_drop, List.length_drop, grain_eq hk]
    ring

/-- The digits begin behind the point, after some zeros. -/
theorem writes_fraction
    (hne : digits ≠ [])
    (hdigit : ∀ c ∈ digits, c.isDigit = true)
    (hk : k + (n + digits.length) = 1074) :
    Writes (valueOf digits * 10 ^ k) ('0' :: '.' :: List.replicate n '0' ++ digits) := by
  refine ⟨['0'], List.replicate n '0' ++ digits, rfl,
    by simp, by simp [hne], by simp, ?_, ?_⟩
  · exact List.forall_mem_append.mpr ⟨fun _ => isDigit_of_mem_zeros, hdigit⟩
  · have hfirst : valueOf (['0'] ++ (List.replicate n '0' ++ digits)) =
        valueOf digits := by
      rw [← valueOf_zeros_append digits (n + 1), List.replicate_succ]
      rfl
    rw [hfirst, List.length_append, List.length_replicate, grain_eq hk]
    ring

/-- The positional form of a number of grains stands for it. -/
theorem writes_positional
    {grains : Nat}
    (hgrains : 0 < grains) :
    Writes grains (Scientific.ofGrains grains).positional := by
  obtain ⟨digits, k, htext, hdrop, hne, hdigit, hvalue⟩ := exists_significant hgrains
  have hlength : (Nat.toDigits 10 grains).length = digits.length + k := by
    rw [htext, List.length_append, List.length_replicate]
  simp only [Scientific.ofGrains, hdrop, hlength, Scientific.positional]
  rw [hvalue]
  split
  · rename_i e he
    have hk : digits.length + k = e + 1075 := by
      have he' : ((digits.length + k : Nat) : Int) - 1075 = (e : Int) := he
      omega
    by_cases hfraction : digits.length ≤ e + 1
    · rw [List.take_of_length_le hfraction, List.drop_of_length_le hfraction]
      exact writes_padded hne hdigit (by omega)
    · have hpad : e + 1 - (digits.take (e + 1)).length = 0 := by
        rw [List.length_take]
        omega
      have hrest : digits.drop (e + 1) ≠ [] := by
        rw [Ne, List.drop_eq_nil_iff]
        omega
      rw [hpad, List.replicate_zero, List.append_nil, List.isEmpty_eq_false_iff.mpr hrest]
      exact writes_split (by simp [hne]) hrest hdigit (by omega)
  · rename_i e he
    have hk : digits.length + k + e = 1074 := by
      have he' : ((digits.length + k : Nat) : Int) - 1075 = Int.negSucc e := he
      omega
    exact writes_fraction hne hdigit (by omega)

end Positional

section Shortest

/-- How many grains make so many units. -/
def grainsOf (units : Nat) : Nat :=
  units * Nat.pow 5 1074

theorem grainsOf_mul_unitsPerOne
    (units : Nat) :
    grainsOf units * unitsPerOne = units * grain := by
  unfold grainsOf grain unitsPerOne
  -- with the exponent as a number, the powers would be computed
  generalize 1074 = k
  rw [Nat.pow_eq, Nat.pow_eq, Nat.pow_eq, Nat.mul_assoc, ← Nat.mul_pow]

/-- What is rounded to some digits is accepted, and one of the two neighbours of
the value. -/
theorem roundedTo_eq_some
    {accepts : Nat → Bool} {value digits grains : Nat}
    (h : roundedTo accepts value digits = some grains) :
    let step := 10 ^ ((Nat.toDigits 10 value).length - digits)
    accepts grains = true ∧ (grains = value / step * step ∨
      grains = (value / step + 1) * step) := by
  unfold roundedTo at h
  dsimp only [Nat.pow_eq] at h ⊢
  generalize 10 ^ ((Nat.toDigits 10 value).length - digits) = step at h ⊢
  rw [← Nat.succ_mul] at h
  split at h
  · rename_i hlow hhigh
    cases h
    have hnear : roundDiv value step = value / step ∨
        roundDiv value step = value / step + 1 := by
      unfold roundDiv
      dsimp only
      grind
    rcases hnear with hnear | hnear
    · rw [hnear]
      exact ⟨hlow, .inl rfl⟩
    · rw [hnear]
      exact ⟨hhigh, .inr rfl⟩
  · rename_i hlow _
    cases h
    exact ⟨hlow, .inl rfl⟩
  · rename_i _ hhigh
    cases h
    exact ⟨hhigh, .inr rfl⟩
  · cases h

/-- The shortest numeral reads back as its number. It is the exact value, or stands next to
it among the numerals with some zeros at the end. -/
theorem shortest_spec
    (units : Nat) :
    nearestBits (shortest units) grain = nearestBits units unitsPerOne ∧
    (shortest units = grainsOf units ∨
      ∃ k, k < (Nat.toDigits 10 (grainsOf units)).length ∧
        (shortest units = grainsOf units / 10 ^ k * 10 ^ k ∨
          shortest units = (grainsOf units / 10 ^ k + 1) * 10 ^ k)) := by
  have hexact : nearestBits (grainsOf units) grain = nearestBits units unitsPerOne :=
    nearestBits_eq_of_ratio_eq grain_pos unitsPerOne_pos (grainsOf_mul_unitsPerOne units)
  have hshortest : shortest units = ((List.range 17).findSome? fun n =>
      roundedTo (fun grains => nearestBits grains grain == nearestBits units unitsPerOne)
        (grainsOf units) (n + 1)).getD
        (grainsOf units) := by
    unfold shortest grainsOf
    rfl
  rw [hshortest]
  generalize grainsOf units = value at hexact ⊢
  cases hfind : (List.range 17).findSome? fun n =>
      roundedTo (fun grains => nearestBits grains grain == nearestBits units unitsPerOne)
        value (n + 1) with
  | none => exact ⟨hexact, .inl rfl⟩
  | some grains =>
      rw [Option.getD_some]
      obtain ⟨n, _, hn⟩ := List.exists_of_findSome?_eq_some hfind
      obtain ⟨haccepts, hplace⟩ := roundedTo_eq_some hn
      have hlength := Nat.length_toDigits_pos (b := 10) (n := value)
      exact ⟨eq_of_beq haccepts, .inr ⟨_, by omega, hplace⟩⟩

theorem ten_pow_le_cut
    {a k n : Nat}
    (ha : 10 ^ a ≤ n)
    (hk : 10 ^ k ≤ n) :
    10 ^ a ≤ n / 10 ^ k * 10 ^ k := by
  have hpower : 0 < 10 ^ k := Nat.pow_pos (by decide)
  rcases Nat.le_total k a with hle | hle
  · rw [← Nat.sub_add_cancel hle, Nat.pow_add] at ha ⊢
    exact Nat.mul_le_mul_right _ ((Nat.le_div_iff_mul_le hpower).mpr ha)
  · calc 10 ^ a ≤ 10 ^ k := Nat.pow_le_pow_right (by decide) hle
      _ = 1 * 10 ^ k := (Nat.one_mul _).symm
      _ ≤ n / 10 ^ k * 10 ^ k :=
        Nat.mul_le_mul_right _ ((Nat.one_le_div_iff hpower).mpr hk)

theorem next_le_ten_pow
    {b k n : Nat}
    (hb : n < 10 ^ b)
    (hk : k ≤ b) :
    (n / 10 ^ k + 1) * 10 ^ k ≤ 10 ^ b := by
  rw [← Nat.sub_add_cancel hk, Nat.pow_add] at hb ⊢
  exact Nat.mul_le_mul_right _ (Nat.div_lt_of_lt_mul (by rwa [Nat.mul_comm]))

/-- The shortest numeral stays between the powers of ten around the exact value. -/
theorem shortest_bounds
    {units a b : Nat}
    (ha : 10 ^ a ≤ grainsOf units)
    (hb : grainsOf units < 10 ^ b) :
    10 ^ a ≤ shortest units ∧ shortest units ≤ 10 ^ b := by
  have hspec := (shortest_spec units).2
  generalize grainsOf units = value at ha hb hspec
  rcases hspec with heq | ⟨k, hk, hplace⟩
  · rw [heq]
    exact ⟨ha, hb.le⟩
  · have hkn :=
      (lt_length_toDigits_iff (Nat.lt_of_lt_of_le (Nat.pow_pos (by decide)) ha)).mp hk
    have hkb := (Nat.pow_lt_pow_iff_right (by decide)).mp (Nat.lt_of_le_of_lt hkn hb)
    have hlow := ten_pow_le_cut ha hkn
    have hhigh := next_le_ten_pow hb hkb.le
    have hstep : value / 10 ^ k * 10 ^ k ≤ (value / 10 ^ k + 1) * 10 ^ k :=
      Nat.mul_le_mul_right _ (Nat.le_succ _)
    rcases hplace with heq | heq
    · rw [heq]
      exact ⟨hlow, hstep.trans hhigh⟩
    · rw [heq]
      exact ⟨hlow.trans hstep, hhigh⟩

theorem nearestBits_pos
    {units : Nat}
    (h : 0 < units) :
    0 < nearestBits units unitsPerOne := by
  have hround : units.log2 - 52 = 0 → roundDiv (units * unitsPerOne)
      (unitsPerOne * Nat.pow 2 (units.log2 - 52)) = units := by
    intro hshift
    rw [hshift, Nat.pow_eq, Nat.pow_zero, Nat.mul_one,
      roundDiv_mul_right_self unitsPerOne_pos]
  simp only [nearestBits, Nat.mul_div_cancel _ unitsPerOne_pos]
  generalize roundDiv (units * unitsPerOne) (unitsPerOne * Nat.pow 2 (units.log2 - 52))
    = rounded at hround ⊢
  unfold infinityBits fractionSize
  omega

theorem shortest_pos
    {units : Nat}
    (h : 0 < units) :
    0 < shortest units := by
  refine Nat.pos_of_ne_zero fun hzero => ?_
  have hbits := (shortest_spec units).1
  rw [hzero, nearestBits_zero] at hbits
  have hpos := nearestBits_pos h
  omega

theorem nearestBits_ten_pow_sixteen :
    1075 * fractionSize ≤ nearestBits (10 ^ 16) 1 := by
  decide +kernel

theorem ten_pow_le_grainsOf
    {units : Nat}
    (hlow : unitsPerOne ≤ 10 ^ 4 * units) :
    10 ^ 1070 ≤ grainsOf units := by
  have hgrain : grain ≤ grainsOf units * 10 ^ 4 := by
    refine Nat.le_of_mul_le_mul_right ?_ unitsPerOne_pos
    calc grain * unitsPerOne ≤ grain * (10 ^ 4 * units) := Nat.mul_le_mul_left _ hlow
      _ = grainsOf units * 10 ^ 4 * unitsPerOne := by
        rw [Nat.mul_right_comm (grainsOf units), grainsOf_mul_unitsPerOne units]
        ring
  rw [grain_eq (show 1070 + 4 = 1074 from rfl)] at hgrain
  exact Nat.le_of_mul_le_mul_right hgrain (by decide)

theorem grainsOf_lt_ten_pow
    {units : Nat}
    (hhigh : units < 2 * fractionSize * unitsPerOne) :
    grainsOf units < 10 ^ 1090 := by
  rw [ten_pow_eq_mul_grain (show 16 + 1074 = 1090 from rfl)]
  refine Nat.lt_of_mul_lt_mul_right (a := unitsPerOne) ?_
  calc grainsOf units * unitsPerOne = units * grain := grainsOf_mul_unitsPerOne units
    _ < 2 * fractionSize * unitsPerOne * grain :=
      Nat.mul_lt_mul_of_pos_right hhigh grain_pos
    _ = 2 * fractionSize * (grain * unitsPerOne) := by ring
    _ ≤ 10 ^ 16 * (grain * unitsPerOne) := Nat.mul_le_mul_right _ (by decide)
    _ = 10 ^ 16 * grain * unitsPerOne := (Nat.mul_assoc _ _ _).symm

/-- As a numeral, `10 ^ 16` would read back as a whole number. -/
theorem shortest_ne_ten_pow
    {units : Nat}
    (hbits : nearestBits units unitsPerOne < 1075 * fractionSize) :
    shortest units ≠ 10 ^ 1090 := by
  intro heq
  have hread := (shortest_spec units).1
  have hratio : nearestBits (10 ^ 16 * grain) grain = nearestBits (10 ^ 16) 1 :=
    nearestBits_eq_of_ratio_eq grain_pos Nat.one_pos (Nat.mul_one _)
  rw [heq, ten_pow_eq_mul_grain (show 16 + 1074 = 1090 from rfl), hratio] at hread
  have hlarge := nearestBits_ten_pow_sixteen
  omega

/-- Numbers from `0.0001` on that are not whole are written without an exponent. -/
theorem render_shortest
    {units : Nat}
    (hlow : unitsPerOne ≤ 10 ^ 4 * units)
    (hhigh : units < 2 * fractionSize * unitsPerOne)
    (hbits : nearestBits units unitsPerOne < 1075 * fractionSize) :
    layout.render (.ofGrains (shortest units)) =
      (Scientific.ofGrains (shortest units)).positional := by
  obtain ⟨hmin, hmax⟩ :=
    shortest_bounds (ten_pow_le_grainsOf hlow) (grainsOf_lt_ten_pow hhigh)
  have hpos : 0 < shortest units := Nat.lt_of_lt_of_le (Nat.pow_pos (by decide)) hmin
  have hfirst := (lt_length_toDigits_iff hpos).mpr hmin
  have hlast : ¬ 1090 < (Nat.toDigits 10 (shortest units)).length := by
    rw [lt_length_toDigits_iff hpos, not_le]
    exact Nat.lt_of_le_of_ne hmax (shortest_ne_ten_pow hbits)
  have hexponent : -4 ≤ (Scientific.ofGrains (shortest units)).exponent ∧
      (Scientific.ofGrains (shortest units)).exponent < 16 := by
    simp only [Scientific.ofGrains]
    omega
  exact if_pos hexponent

end Shortest

end Decimal
end LetLang
