import LetLang.Proofs.Number.Fields

/-!
# Rounding to the nearest number

The number nearest to a quotient depends on the value of the quotient alone, and a quotient
that is a number is rounded to it. So every finite number is the nearest to its own units,
and the bit pattern below its sign can be had from them.
-/

namespace LetLang
namespace Binary64

open Float.Model

theorem unitsPerOne_pos :
    0 < unitsPerOne := by
  have hpower : ∀ k, 0 < Nat.pow 2 k := fun k => Nat.two_pow_pos k
  unfold unitsPerOne
  exact hpower 1074

theorem roundDiv_mul_left
    {k : Nat}
    (hk : 0 < k)
    (num den : Nat) :
    roundDiv (k * num) (k * den) = roundDiv num den := by
  have htwice : 2 * (k * num % (k * den)) = k * (2 * (num % den)) := by
    rw [Nat.mul_mod_mul_left, Nat.mul_left_comm]
  simp only [roundDiv, Nat.mul_div_mul_left num den hk, htwice, Nat.mul_lt_mul_left hk]

theorem roundDiv_mul_right_self
    {den : Nat}
    (hden : 0 < den)
    (q : Nat) :
    roundDiv (q * den) den = q := by
  simp [roundDiv, Nat.mul_div_cancel q hden, hden]

theorem nearestBits_mul_left
    {k : Nat}
    (hk : 0 < k)
    (num den : Nat) :
    nearestBits (k * num) (k * den) = nearestBits num den := by
  simp only [nearestBits, Nat.mul_assoc, Nat.mul_div_mul_left _ den hk,
    roundDiv_mul_left hk]

theorem nearestBits_zero
    (den : Nat) :
    nearestBits 0 den = 0 := by
  simp [nearestBits, roundDiv]

/-- Equal quotients have the same nearest number. -/
theorem nearestBits_eq_of_ratio_eq
    {num den num' den' : Nat}
    (hden : 0 < den)
    (hden' : 0 < den')
    (h : num * den' = num' * den) :
    nearestBits num den = nearestBits num' den' := by
  rw [← nearestBits_mul_left hden' num den, ← nearestBits_mul_left hden num' den',
    Nat.mul_comm den' num, h, Nat.mul_comm num' den, Nat.mul_comm den' den]

/-- A significand of at most fifty-three bits, of exactly so many if it is shifted, is kept
as it is. -/
theorem nearestBits_significand
    {significand shift : Nat}
    (hsize : significand < 2 * fractionSize)
    (hnormal : shift = 0 ∨ fractionSize ≤ significand) :
    nearestBits (significand * Nat.pow 2 shift) unitsPerOne =
      min (significand + shift * fractionSize) infinityBits := by
  have hpower : 0 < Nat.pow 2 shift := Nat.pow_pos (by decide)
  have hlog : (significand * Nat.pow 2 shift).log2 - 52 = shift := by
    rcases hnormal with rfl | hnormal
    · have hone : significand * Nat.pow 2 0 = significand := Nat.mul_one _
      rw [hone]
      by_cases hzero : significand = 0
      · simp [hzero]
      · have hlt := (Nat.log2_lt hzero).mpr (show significand < 2 ^ 53 from hsize)
        omega
    · have hne : significand ≠ 0 := by
        unfold fractionSize at hnormal
        omega
      have hlow : 2 ^ (52 + shift) ≤ significand * Nat.pow 2 shift := by
        rw [Nat.pow_add]
        exact Nat.mul_le_mul_right _ hnormal
      have hhigh : significand * Nat.pow 2 shift < 2 ^ (52 + shift + 1) := by
        rw [Nat.add_right_comm, Nat.pow_add]
        exact Nat.mul_lt_mul_of_pos_right hsize hpower
      have hlog := (Nat.log2_eq_iff (Nat.mul_ne_zero hne hpower.ne')).mpr ⟨hlow, hhigh⟩
      omega
  have hround : roundDiv (significand * Nat.pow 2 shift * unitsPerOne)
      (unitsPerOne * Nat.pow 2 shift) = significand := by
    rw [Nat.mul_assoc, Nat.mul_comm unitsPerOne]
    exact roundDiv_mul_right_self (Nat.mul_pos hpower unitsPerOne_pos) significand
  simp only [nearestBits, Nat.mul_div_cancel _ unitsPerOne_pos, hlog, hround]

/-- The bit pattern of a number, without its sign. -/
def magnitude (x : Float) : Nat :=
  x.toBits.toNat % signBit

theorem toBits_toNat
    (x : Float) :
    x.toBits.toNat =
      (if signBit ≤ x.toBits.toNat then signBit + magnitude x else magnitude x) := by
  have hlt := x.toBits.toNat_lt
  unfold magnitude signBit
  split
  · omega
  · omega

/-- The sign and the magnitude make the number. -/
theorem ofBits_magnitude
    (x : Float) :
    ofBits (decide (signBit ≤ x.toBits.toNat)) (magnitude x) = x := by
  have hbits : (if decide (signBit ≤ x.toBits.toNat) = true then
      signBit + magnitude x else magnitude x) =
      x.toBits.toNat := by
    rw [toBits_toNat x]
    simp only [decide_eq_true_eq, ← toBits_toNat x]
  rw [ofBits, hbits, UInt64.ofNat_toNat, Float.ofBits_toBits]

/-- A finite number has the sign that its view shows, and its units are rounded to
its magnitude. -/
theorem magnitude_of_view
    {x : Float} {negative : Bool} {units : Nat}
    (h : view x = .finite negative units) :
    decide (signBit ≤ x.toBits.toNat) = negative ∧
      nearestBits units unitsPerOne = magnitude x := by
  unfold view at h
  dsimp only at h
  have hfraction : x.toBits.toNat % fractionSize < fractionSize := Nat.mod_lt _ (by decide)
  split at h
  · split at h
    · cases h
    · cases h
  · rename_i hexponent
    split at h
    · rename_i hzero
      cases h
      refine ⟨rfl, ?_⟩
      have hone : x.toBits.toNat % fractionSize =
          x.toBits.toNat % fractionSize * Nat.pow 2 0 := (Nat.mul_one _).symm
      rw [hone, nearestBits_significand (by omega) (Or.inl rfl)]
      unfold magnitude signBit fractionSize infinityBits exponentSize at *
      omega
    · rename_i hnonzero
      cases h
      refine ⟨rfl, ?_⟩
      rw [nearestBits_significand (by omega) (Or.inr (by omega))]
      unfold magnitude signBit fractionSize infinityBits exponentSize at *
      omega

/-- A finite number is the nearest to its own units. -/
theorem ofUnits_of_view
    {x : Float} {negative : Bool} {units : Nat}
    (h : view x = .finite negative units) :
    ofUnits negative units = x := by
  obtain ⟨hsign, hmagnitude⟩ := magnitude_of_view h
  rw [ofUnits, ofRatio, hmagnitude, ← hsign, ofBits_magnitude]

/-- The pattern with the sign is that of the negated number. -/
theorem unpack_eq_neg
    (b c : BitVec 64)
    (hb : b.toNat < signBit)
    (hc : c.toNat = signBit + b.toNat) :
    UnpackedFloat.unpack Format.binary64 c =
      (UnpackedFloat.unpack Format.binary64 b).neg := by
  have hexponent : @UnpackedFloat.unpackExponent Format.binary64 c =
      @UnpackedFloat.unpackExponent Format.binary64 b := by
    rw [← BitVec.toNat_inj, toNat_unpackExponent, toNat_unpackExponent, hc]
    unfold signBit fractionSize exponentSize
    omega
  have hmantissa : @UnpackedFloat.unpackMantissa Format.binary64 c =
      @UnpackedFloat.unpackMantissa Format.binary64 b := by
    rw [← BitVec.toNat_inj, toNat_unpackMantissa, toNat_unpackMantissa, hc]
    unfold signBit fractionSize
    omega
  have hpositive : UnpackedFloat.Sign.ofBitVec
      (@UnpackedFloat.unpackSign Format.binary64 b) = .positive := by
    have hsign := isNegative_unpackSign b
    rw [decide_eq_false (Nat.not_le_of_lt hb)] at hsign
    cases h : UnpackedFloat.Sign.ofBitVec
      (@UnpackedFloat.unpackSign Format.binary64 b) with
    | positive => rfl
    | negative =>
        rw [h] at hsign
        cases hsign
  have hnegative : UnpackedFloat.Sign.ofBitVec
      (@UnpackedFloat.unpackSign Format.binary64 c) = .negative := by
    have hsign := isNegative_unpackSign c
    rw [decide_eq_true (hc ▸ Nat.le_add_right _ _)] at hsign
    exact eq_of_beq hsign
  simp only [UnpackedFloat.unpack, hexponent, hmantissa, hpositive, hnegative]
  split
  · split <;> rfl
  · split
    · split <;> rfl
    · rfl

/-- Up to infinity, a bit pattern is kept as it is. -/
theorem toBits_ofBits
    {bits : Nat}
    (hbits : bits ≤ infinityBits) :
    (ofBits false bits).toBits = UInt64.ofNat bits := by
  have hpack :=
    @UnpackedFloat.pack_unpack Format.binary64 (UInt64.ofNat bits).toBitVec (by decide)
  have hnumber := not_notANumber_of_le hbits
  rw [UnpackedFloat.isNaNBits, decide_eq_false hnumber, if_neg Bool.false_ne_true] at hpack
  exact congrArg UInt64.ofBitVec hpack

/-- Negation changes the sign. -/
theorem neg_ofBits
    {bits : Nat}
    (hbits : bits ≤ infinityBits) :
    -(ofBits false bits) = ofBits true bits := by
  have hmax : infinityBits < signBit := by decide
  have hlow : (UInt64.ofNat bits).toBitVec.toNat = bits :=
    UInt64.toNat_ofNat_of_lt' (Nat.lt_of_le_of_lt hbits (by decide))
  have hhigh : (UInt64.ofNat (signBit + bits)).toBitVec.toNat = signBit + bits :=
    UInt64.toNat_ofNat_of_lt'
      (Nat.lt_of_le_of_lt (Nat.add_le_add_left hbits _) (by decide))
  have hunpack : (ofBits false bits).toModel.unpack =
      UnpackedFloat.unpack Format.binary64 (UInt64.ofNat bits).toBitVec :=
    congrArg (fun b : UInt64 => UnpackedFloat.unpack Format.binary64 b.toBitVec)
      (toBits_ofBits hbits)
  have hneg := unpack_eq_neg (UInt64.ofNat bits).toBitVec
    (UInt64.ofNat (signBit + bits)).toBitVec (by omega) (by omega)
  change Float.ofModel (Float.Model.pack (ofBits false bits).toModel.unpack.neg) = _
  rw [hunpack, ← hneg]
  rfl

/-- There is one infinite number of each sign. -/
theorem eq_ofBits_of_view_infinite
    {x : Float} {negative : Bool}
    (h : view x = .infinite negative) :
    x = ofBits negative infinityBits := by
  have hbits := ofBits_magnitude x
  unfold view at h
  dsimp only at h
  split at h
  · split at h
    · rename_i hexponent hfraction
      cases h
      have hmagnitude : magnitude x = infinityBits := by
        unfold magnitude signBit infinityBits
        unfold fractionSize exponentSize at *
        omega
      rw [← hmagnitude]
      exact hbits.symm
    · cases h
  · split at h
    · cases h
    · cases h

/-- A number that is not whole is less than `2 ^ 53`. -/
theorem lt_of_not_whole
    {x : Float} {negative : Bool} {units : Nat}
    (h : view x = .finite negative units)
    (hwhole : units % unitsPerOne ≠ 0) :
    units < 2 * fractionSize * unitsPerOne ∧ magnitude x < 1075 * fractionSize := by
  unfold view at h
  dsimp only at h
  have hfraction : x.toBits.toNat % fractionSize < fractionSize := Nat.mod_lt _ (by decide)
  split at h
  · split at h
    · cases h
    · cases h
  · split at h
    · rename_i hzero
      cases h
      constructor
      · exact Nat.lt_of_lt_of_le (by omega) (Nat.le_mul_of_pos_right _ unitsPerOne_pos)
      · unfold magnitude signBit
        unfold fractionSize exponentSize at *
        omega
    · rename_i hnonzero
      cases h
      have hsmall : x.toBits.toNat / fractionSize % exponentSize - 1 < 1074 := by
        by_contra hlarge
        refine hwhole (Nat.mod_eq_zero_of_dvd (Nat.dvd_mul_left_of_dvd ?_ _))
        have hpower : ∀ m k, k ≤ m → Nat.pow 2 k ∣ Nat.pow 2 m :=
          fun m k hle => Nat.pow_dvd_pow 2 hle
        unfold unitsPerOne
        exact hpower _ 1074 (Nat.le_of_not_lt hlarge)
      constructor
      · have hpower : ∀ m k, m < k → Nat.pow 2 m ≤ Nat.pow 2 k := fun m k hlt =>
          Nat.pow_le_pow_right (by decide) hlt.le
        refine Nat.lt_of_lt_of_le
          (Nat.mul_lt_mul_of_pos_right (by omega) (Nat.pow_pos (by decide)))
          (Nat.mul_le_mul_left (2 * fractionSize) ?_)
        unfold unitsPerOne
        exact hpower _ 1074 hsmall
      · unfold magnitude signBit
        unfold fractionSize exponentSize at *
        omega

end Binary64
end LetLang
