import LetLang.Number.Decimal
import Mathlib

/-!
# The fields of binary64 numbers

Which bit patterns are no numbers, and what is left of a bit pattern when a number is made
from it. Every numeral is read as a number, possibly an infinite one, and every number
equals itself.
-/

namespace LetLang
namespace Binary64

open Float.Model

theorem unpack_eq_notANumber_iff
    {format : Format} (b : BitVec format.numBits) :
    UnpackedFloat.unpack format b = .notANumber ↔
      UnpackedFloat.unpackExponent b = -1#_ ∧ UnpackedFloat.unpackMantissa b ≠ 0#_ := by
  unfold UnpackedFloat.unpack
  dsimp only
  constructor
  · intro h
    split at h
    · rename_i hexponent
      split at h
      · cases h
      · rename_i hmantissa
        exact ⟨hexponent, hmantissa⟩
    · split at h
      · split at h
        · cases h
        · cases h
      · cases h
  · rintro ⟨hexponent, hmantissa⟩
    rw [if_pos hexponent, if_neg hmantissa]

/-- Packing gives a bit pattern that is no number only for what is none. -/
theorem unpack_pack_ne_notANumber
    {format : Format} {f : UnpackedFloat}
    (hf : f ≠ .notANumber) :
    UnpackedFloat.unpack format (UnpackedFloat.pack format f) ≠ .notANumber := by
  rw [Ne, unpack_eq_notANumber_iff]
  have hpos := format.he
  fun_cases UnpackedFloat.pack format f with
  | case1 => exact absurd rfl hf
  | case2 sign => simp [UnpackedFloat.packedInfinity]
  | case3 sign => simp [UnpackedFloat.packedZero]
  | case4 sign m e hm biased hlarge => simp [UnpackedFloat.packedInfinity]
  | case5 sign m e hm mantissaBits biased hsmall hnormal =>
      rintro ⟨hexponent, _⟩
      rw [UnpackedFloat.unpackExponent_packComponents, ← BitVec.toNat_inj,
        BitVec.neg_one_eq_allOnes, BitVec.toNat_allOnes, BitVec.toNat_ofNat,
        Nat.mod_eq_of_lt (by omega)] at hexponent
      omega
  | case6 sign m e hm mantissaBits biased hsmall hsubnormal =>
      rintro ⟨hexponent, _⟩
      rw [UnpackedFloat.unpackExponent_packComponents, BitVec.neg_one_eq_allOnes,
        ← BitVec.toNat_inj, BitVec.toNat_allOnes, BitVec.toNat_zero] at hexponent
      have hlarge := Nat.one_lt_two_pow (Nat.pos_iff_ne_zero.mp hpos)
      omega

/-- A number equals itself. -/
theorem beq_self_of_unpack
    {x : Float}
    (hx : x.toModel.unpack ≠ .notANumber) :
    (x == x) = true := by
  exact (UnpackedFloat.beq_iff_ne_notANumber_and_eq _ _).mpr ⟨hx, hx, Or.inl rfl⟩

theorem beq_self_iff
    {x : Float} :
    (x == x) = true ↔ x.isNaN = false := by
  have hnan : x.isNaN = true ↔ x.toModel.unpack = .notANumber := UnpackedFloat.isNaN_iff
  constructor
  · intro h
    obtain ⟨hne, _, _⟩ := (UnpackedFloat.beq_iff_ne_notANumber_and_eq _ _).mp h
    exact Bool.eq_false_iff.mpr (mt hnan.mp hne)
  · intro h
    exact beq_self_of_unpack (mt hnan.mpr (Bool.eq_false_iff.mp h))

theorem toNat_unpackExponent
    (b : BitVec 64) :
    (@UnpackedFloat.unpackExponent Format.binary64 b).toNat =
      b.toNat / fractionSize % exponentSize := by
  unfold UnpackedFloat.unpackExponent
  rw [BitVec.toNat_cast, BitVec.extractLsb_toNat, Nat.shiftRight_eq_div_pow]
  rfl

theorem toNat_unpackMantissa
    (b : BitVec 64) :
    (@UnpackedFloat.unpackMantissa Format.binary64 b).toNat = b.toNat % fractionSize := by
  unfold UnpackedFloat.unpackMantissa
  rw [BitVec.toNat_cast, BitVec.extractLsb_toNat, Nat.shiftRight_zero]
  rfl

/-- A bit pattern no greater than that of infinity stands for a number. -/
theorem not_notANumber_of_le
    {bits : Nat}
    (hbits : bits ≤ infinityBits) :
    ¬ (@UnpackedFloat.unpackExponent Format.binary64 (UInt64.ofNat bits).toBitVec = -1#_ ∧
      @UnpackedFloat.unpackMantissa Format.binary64
        (UInt64.ofNat bits).toBitVec ≠ 0#_) := by
  rintro ⟨hexponent, hmantissa⟩
  have hlt : bits < UInt64.size := Nat.lt_of_le_of_lt hbits (by decide)
  have hnat : (UInt64.ofNat bits).toBitVec.toNat = bits := UInt64.toNat_ofNat_of_lt' hlt
  apply hmantissa
  have hones : bits / fractionSize % exponentSize = 0x7FF := by
    rw [← hnat, ← toNat_unpackExponent]
    exact congrArg BitVec.toNat hexponent
  rw [← BitVec.toNat_inj]
  refine (toNat_unpackMantissa _).trans ?_
  change (UInt64.ofNat bits).toBitVec.toNat % fractionSize = 0
  rw [hnat]
  unfold infinityBits at hbits
  unfold fractionSize exponentSize at *
  omega

theorem beq_self_ofBits
    {bits : Nat}
    (hbits : bits ≤ infinityBits) :
    (ofBits false bits == ofBits false bits) = true := by
  apply beq_self_of_unpack
  apply unpack_pack_ne_notANumber
  rw [Ne, unpack_eq_notANumber_iff]
  exact not_notANumber_of_le hbits

theorem unpackExponent_eq_iff
    (b : BitVec 64) {n : Nat}
    (hn : n < exponentSize) :
    @UnpackedFloat.unpackExponent Format.binary64 b = BitVec.ofNat 11 n ↔
      b.toNat / fractionSize % exponentSize = n := by
  rw [← BitVec.toNat_inj, toNat_unpackExponent, BitVec.toNat_ofNat]
  change _ = n % exponentSize ↔ _
  rw [Nat.mod_eq_of_lt hn]

theorem unpackMantissa_eq_zero_iff
    (b : BitVec 64) :
    @UnpackedFloat.unpackMantissa Format.binary64 b = 0#52 ↔
      b.toNat % fractionSize = 0 := by
  rw [← BitVec.toNat_inj, toNat_unpackMantissa, BitVec.toNat_ofNat]
  rfl

theorem isNegative_unpackSign
    (b : BitVec 64) :
    (UnpackedFloat.Sign.ofBitVec
      (@UnpackedFloat.unpackSign Format.binary64 b) == .negative) =
      decide (signBit ≤ b.toNat) := by
  have hlt := b.isLt
  have hsign : (@UnpackedFloat.unpackSign Format.binary64 b).toNat =
      b.toNat / signBit := by
    unfold UnpackedFloat.unpackSign
    rw [BitVec.toNat_cast, BitVec.extractLsb_toNat, Nat.shiftRight_eq_div_pow]
    change b.toNat / signBit % 2 = _
    unfold signBit
    omega
  unfold UnpackedFloat.Sign.ofBitVec
  by_cases h : signBit ≤ b.toNat
  · have hne : @UnpackedFloat.unpackSign Format.binary64 b ≠ 0#1 := by
      rw [Ne, ← BitVec.toNat_inj, hsign, BitVec.toNat_ofNat]
      unfold signBit at *
      omega
    rw [if_neg hne, decide_eq_true h]
    rfl
  · have heq : @UnpackedFloat.unpackSign Format.binary64 b = 0#1 := by
      rw [← BitVec.toNat_inj, hsign, BitVec.toNat_ofNat]
      unfold signBit at *
      omega
    rw [if_pos heq, decide_eq_false h]
    rfl

/-- What the fields of a number say, in both readings of its bit pattern. -/
theorem view_of_unpack
    (x : Float) :
    match x.toModel.unpack with
    | .notANumber => view x = .notANumber
    | .infinity sign => view x = .infinite (sign == .negative)
    | .zero sign => view x = .finite (sign == .negative) 0
    | .finite .. => ∃ negative units, view x = .finite negative units := by
  have hones : @UnpackedFloat.unpackExponent Format.binary64
      x.toModel.toBits.toBitVec = -1#11 ↔
      x.toBits.toNat / fractionSize % exponentSize = 0x7FF :=
    unpackExponent_eq_iff _ (by decide)
  have hzero : @UnpackedFloat.unpackExponent Format.binary64
      x.toModel.toBits.toBitVec = 0#11 ↔
      x.toBits.toNat / fractionSize % exponentSize = 0 :=
    unpackExponent_eq_iff _ (by decide)
  have hmantissa : @UnpackedFloat.unpackMantissa Format.binary64
      x.toModel.toBits.toBitVec = 0#52 ↔
      x.toBits.toNat % fractionSize = 0 :=
    unpackMantissa_eq_zero_iff _
  have hsign := isNegative_unpackSign x.toModel.toBits.toBitVec
  unfold Float.Model.unpack UnpackedFloat.unpack view
  dsimp only
  by_cases h₁ : x.toBits.toNat / fractionSize % exponentSize = 0x7FF
  · by_cases h₂ : x.toBits.toNat % fractionSize = 0
    · rw [if_pos (hones.mpr h₁), if_pos (hmantissa.mpr h₂), if_pos h₁, if_pos h₂]
      exact congrArg View.infinite hsign.symm
    · rw [if_pos (hones.mpr h₁), if_neg (mt hmantissa.mp h₂), if_pos h₁, if_neg h₂]
  · by_cases h₂ : x.toBits.toNat / fractionSize % exponentSize = 0
    · by_cases h₃ : x.toBits.toNat % fractionSize = 0
      · rw [if_neg (mt hones.mp h₁), if_pos (hzero.mpr h₂), dif_pos (hmantissa.mpr h₃),
          if_neg h₁, if_pos h₂, h₃]
        exact congrArg (View.finite · 0) hsign.symm
      · rw [if_neg (mt hones.mp h₁), if_pos (hzero.mpr h₂), dif_neg (mt hmantissa.mp h₃),
          if_neg h₁, if_pos h₂]
        exact ⟨_, _, rfl⟩
    · rw [if_neg (mt hones.mp h₁), if_neg (mt hzero.mp h₂), if_neg h₁, if_neg h₂]
      exact ⟨_, _, rfl⟩

theorem unpack_zero :
    (0 : Float).toModel.unpack = .zero .positive := by
  have hbits : (0 : Float).toModel.toBits = 0 := by
    decide +kernel
  unfold Float.Model.unpack
  rw [hbits]
  rfl

theorem view_of_isNaN
    {x : Float}
    (h : x.isNaN = true) :
    view x = .notANumber := by
  have hview := view_of_unpack x
  have hunpack : x.toModel.unpack = .notANumber := UnpackedFloat.isNaN_iff.mp h
  simpa only [hunpack] using hview

/-- An infinite number is positive or negative. -/
theorem view_of_isInf
    {x : Float}
    (h : x.isInf = true) :
    view x = .infinite (decide (¬ x > 0)) := by
  have hview := view_of_unpack x
  have hlt : decide (x > 0) =
      ((0 : Float).toModel.unpack.compare x.toModel.unpack == some .lt) := by
    rw [Bool.eq_iff_iff, decide_eq_true_iff]
    change Float.lt 0 x = true ↔ _
    unfold Float.lt
    rw [decide_eq_true_iff]
    exact Iff.rfl
  change x.toModel.unpack.isInf = true at h
  rw [decide_not, hlt, unpack_zero]
  cases hunpack : x.toModel.unpack with
  | infinity sign =>
      simp only [hunpack] at hview
      rw [hview]
      cases sign <;> rfl
  | _ => simp [hunpack, UnpackedFloat.isInf] at h

theorem view_of_finite
    {x : Float}
    (hnan : x.isNaN = false)
    (hinf : x.isInf = false) :
    ∃ negative units, view x = .finite negative units := by
  have hview := view_of_unpack x
  change x.toModel.unpack.isNaN = false at hnan
  change x.toModel.unpack.isInf = false at hinf
  cases hunpack : x.toModel.unpack with
  | notANumber =>
      rw [UnpackedFloat.isNaN_iff.mpr hunpack] at hnan
      cases hnan
  | infinity sign => simp [hunpack, UnpackedFloat.isInf] at hinf
  | zero sign =>
      simp only [hunpack] at hview
      exact ⟨_, _, hview⟩
  | finite sign m e hm => simpa only [hunpack] using hview

theorem view_of_beq_zero
    {x : Float}
    (h : (x == 0) = true) :
    ∃ negative, view x = .finite negative 0 := by
  have hview := view_of_unpack x
  obtain ⟨_, _, hzeros⟩ := (UnpackedFloat.beq_iff_ne_notANumber_and_eq _ _).mp h
  rw [unpack_zero] at hzeros
  rcases hzeros with hx | ⟨hx, _⟩ | ⟨hx, _⟩
  all_goals
    simp only [hx] at hview
    exact ⟨_, hview⟩

/-- There is no remainder of an infinite number, nor of a division by zero. -/
theorem remainder_eq_notANumber
    {x y : Float}
    (h : (y == 0) = true ∨ x.isInf = true) :
    remainder x y = notANumber := by
  unfold remainder
  rcases h with hzero | hinf
  · obtain ⟨negative, hy⟩ := view_of_beq_zero hzero
    rw [hy]
    cases view x with
    | finite sign units => exact if_pos rfl
    | _ => rfl
  · rw [view_of_isInf hinf]

theorem nearestBits_le
    (num den : Nat) :
    nearestBits num den ≤ infinityBits := by
  exact Nat.min_le_right _ _

end Binary64

/-- What a numeral is read as equals itself: it is never the number that results where
there is none. -/
theorem Decimal.beq_self_read
    (numeral : List Char) :
    (read numeral == read numeral) = true := by
  exact Binary64.beq_self_ofBits (Binary64.nearestBits_le _ _)

end LetLang
