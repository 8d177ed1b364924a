import LetLang.Proofs.Number.Fields
import LetLang.Value.Operation

/-!
# Numbers that cannot be told apart

Two numbers match if they are equal as numbers or if neither of them is one. Apart from a
number and itself, only the two zeros match. Their sign shows nowhere: the operations of
the language take matching operands to matching results, as long as nothing is divided by
zero, comparisons answer the same, and both zeros are written as `0`.
-/

namespace LetLang
namespace Binary64

open Float.Model

/-- Equal up to the sign of zero. -/
inductive SameUpToSign : UnpackedFloat → UnpackedFloat → Prop
  | refl (u : UnpackedFloat) :
      SameUpToSign u u
  | zero (s t : UnpackedFloat.Sign) :
      SameUpToSign (.zero s) (.zero t)

namespace SameUpToSign

variable {u u' v v' : UnpackedFloat} {format : Format}

theorem trans
    (h : SameUpToSign u u')
    (h' : SameUpToSign u' v) :
    SameUpToSign u v := by
  cases h with
  | refl => exact h'
  | zero s t =>
      cases h' with
      | refl => exact .zero s t
      | zero _ r => exact .zero s r

/-- An operation that does not look at the sign of a zero on either side takes operands
that are the same up to it to results that are. -/
theorem lift₂
    {f : UnpackedFloat → UnpackedFloat → UnpackedFloat}
    (hleft : ∀ s t v, SameUpToSign (f (.zero s) v) (f (.zero t) v))
    (hright : ∀ u s t, SameUpToSign (f u (.zero s)) (f u (.zero t)))
    (hu : SameUpToSign u u')
    (hv : SameUpToSign v v') :
    SameUpToSign (f u v) (f u' v') := by
  have hfirst : SameUpToSign (f u v) (f u' v) := by
    cases hu with
    | refl => exact .refl _
    | zero s t => exact hleft s t v
  have hsecond : SameUpToSign (f u' v) (f u' v') := by
    cases hv with
    | refl => exact .refl _
    | zero s t => exact hright u' s t
  exact hfirst.trans hsecond

theorem add
    (hu : SameUpToSign u u')
    (hv : SameUpToSign v v') :
    SameUpToSign (u.add format v) (u'.add format v') := by
  have hzeros : ∀ s t s' t', SameUpToSign (UnpackedFloat.add format (.zero s) (.zero t))
      (UnpackedFloat.add format (.zero s') (.zero t')) := by
    intro s t s' t'
    cases s <;> cases t <;> cases s' <;> cases t' <;> exact .zero _ _
  refine lift₂ ?_ ?_ hu hv
  · intro s t v
    cases v with
    | zero r => exact hzeros s r t r
    | _ => exact .refl _
  · intro u s t
    cases u with
    | zero r => exact hzeros r s r t
    | _ => exact .refl _

theorem sub
    (hu : SameUpToSign u u')
    (hv : SameUpToSign v v') :
    SameUpToSign (u.sub format v) (u'.sub format v') := by
  have hzeros : ∀ s t s' t', SameUpToSign (UnpackedFloat.sub format (.zero s) (.zero t))
      (UnpackedFloat.sub format (.zero s') (.zero t')) := by
    intro s t s' t'
    cases s <;> cases t <;> cases s' <;> cases t' <;> exact .zero _ _
  refine lift₂ ?_ ?_ hu hv
  · intro s t v
    cases v with
    | zero r => exact hzeros s r t r
    | _ => exact .refl _
  · intro u s t
    cases u with
    | zero r => exact hzeros r s r t
    | _ => exact .refl _

theorem mul
    (hu : SameUpToSign u u')
    (hv : SameUpToSign v v') :
    SameUpToSign (u.mul format v) (u'.mul format v') := by
  refine lift₂ ?_ ?_ hu hv
  · intro s t v
    cases v with
    | zero r | finite => exact .zero _ _
    | _ => exact .refl _
  · intro u s t
    cases u with
    | zero r | finite => exact .zero _ _
    | _ => exact .refl _

/-- A divisor other than zero is the same on both sides. -/
theorem div
    (hu : SameUpToSign u u')
    (hv : SameUpToSign v v')
    (hne : ∀ s, v ≠ .zero s) :
    SameUpToSign (u.div format v) (u'.div format v') := by
  cases hv with
  | zero s t => exact absurd rfl (hne s)
  | refl =>
      cases hu with
      | refl => exact .refl _
      | zero s t =>
          cases v with
          | zero r => exact absurd rfl (hne r)
          | infinity | finite => exact .zero _ _
          | notANumber => exact .refl _

theorem neg
    (h : SameUpToSign u u') :
    SameUpToSign u.neg u'.neg := by
  cases h with
  | refl => exact .refl _
  | zero s t => exact .zero _ _

/-- Zeros compare alike with everything. -/
theorem compare_eq
    (hu : SameUpToSign u u')
    (hv : SameUpToSign v v') :
    u.compare v = u'.compare v' := by
  have hfirst : u.compare v = u'.compare v := by
    cases hu with
    | refl => rfl
    | zero s t => cases v with
      | infinity sign => cases sign <;> rfl
      | finite sign => cases sign <;> rfl
      | _ => rfl
  have hsecond : u'.compare v = u'.compare v' := by
    cases hv with
    | refl => rfl
    | zero s t => cases u' with
      | infinity sign => cases sign <;> rfl
      | finite sign => cases sign <;> rfl
      | _ => rfl
  exact hfirst.trans hsecond

end SameUpToSign

/-- The numbers are equal, or neither of them is a number. -/
def Matches (x y : Float) : Prop :=
  (x == y) = true ∨ x.isNaN = true ∧ y.isNaN = true

/-- A number matches nothing but itself, apart from the two zeros. -/
theorem matches_iff
    {x y : Float} :
    Matches x y ↔ SameUpToSign x.toModel.unpack y.toModel.unpack := by
  have hnan : ∀ z : Float, z.isNaN = true ↔ z.toModel.unpack = .notANumber :=
    fun z => UnpackedFloat.isNaN_iff
  have hbeq := UnpackedFloat.beq_iff_ne_notANumber_and_eq x.toModel.unpack y.toModel.unpack
  unfold Matches
  rw [hnan, hnan]
  change (x.toModel.unpack.beq y.toModel.unpack = true ∨ _) ↔ _
  rw [hbeq]
  generalize x.toModel.unpack = u
  generalize y.toModel.unpack = v
  constructor
  · rintro (⟨_, _, rfl | ⟨rfl, rfl⟩ | ⟨rfl, rfl⟩⟩ | ⟨rfl, rfl⟩)
    · exact .refl u
    · exact .zero _ _
    · exact .zero _ _
    · exact .refl _
  · intro h
    cases h with
    | refl =>
        by_cases hu : u = .notANumber
        · exact Or.inr ⟨hu, hu⟩
        · exact Or.inl ⟨hu, hu, Or.inl rfl⟩
    | zero s t =>
        refine Or.inl ⟨by simp, by simp, ?_⟩
        cases s <;> cases t <;> simp

theorem Matches.refl
    (x : Float) :
    Matches x x := by
  exact matches_iff.mpr (.refl _)

/-- What is the same up to the sign of zero is packed into numbers that match. -/
theorem matches_pack
    {u v : UnpackedFloat}
    (h : SameUpToSign u v) :
    Matches (.ofModel (.pack u)) (.ofModel (.pack v)) := by
  refine matches_iff.mpr ?_
  cases h with
  | refl => exact .refl _
  | zero s t =>
      have hzero : ∀ r, (pack (.zero r)).unpack = .zero r :=
        fun r => UnpackedFloat.unpack_packedZero
      rw [hzero, hzero]
      exact .zero s t

theorem view_of_zero
    {x : Float} {s : UnpackedFloat.Sign}
    (h : x.toModel.unpack = .zero s) :
    view x = .finite (s == .negative) 0 := by
  have hview := view_of_unpack x
  simpa only [h] using hview

/-- Numbers that match are the same number or both zero. -/
theorem Matches.cases
    {x y : Float}
    (h : Matches x y) :
    x = y ∨ ∃ s t, view x = .finite s 0 ∧ view y = .finite t 0 := by
  have hsame := matches_iff.mp h
  generalize hx : x.toModel.unpack = u at hsame
  generalize hy : y.toModel.unpack = v at hsame
  cases hsame with
  | refl =>
      left
      have hbits :=
        (UnpackedFloat.unpack_inj_of_valid x.toModel.valid y.toModel.valid).mp
          (hx.trans hy.symm)
      exact Float.toBits_inj.mp (UInt64.toBitVec_inj.mp hbits)
  | zero s t => exact Or.inr ⟨_, _, view_of_zero hx, view_of_zero hy⟩

/-- No units make a zero, with either sign. -/
theorem matches_ofUnits_zero
    (s t : Bool) :
    Matches (ofUnits s 0) (ofUnits t 0) := by
  have hbits : nearestBits 0 unitsPerOne = 0 := by
    simp [nearestBits, roundDiv]
  unfold ofUnits ofRatio
  rw [hbits]
  cases s <;> cases t <;> exact matches_iff.mpr (.zero _ _)

theorem remainder_of_view_zero
    (x : Float) {y : Float} {s : Bool}
    (hy : view y = .finite s 0) :
    remainder x y = notANumber := by
  unfold remainder
  rw [hy]
  cases view x with
  | finite r units => exact if_pos rfl
  | _ => rfl

/-- The remainder of either zero is a zero, and there is none of a division by either. -/
theorem Matches.remainder
    {x x' y y' : Float}
    (hx : Matches x x')
    (hy : Matches y y') :
    Matches (remainder x y) (remainder x' y') := by
  rcases hy.cases with rfl | ⟨s, t, hvy, hvy'⟩
  · rcases hx.cases with rfl | ⟨s, t, hvx, hvx'⟩
    · exact .refl _
    · unfold Binary64.remainder
      rw [hvx, hvx']
      cases view y with
      | notANumber => exact .refl _
      | infinite r => exact hx
      | finite r units =>
          dsimp only
          split
          · exact .refl _
          · rw [Nat.zero_mod]
            exact matches_ofUnits_zero s t
  · rw [remainder_of_view_zero x hvy, remainder_of_view_zero x' hvy']
    exact .refl _

theorem beq_zero_of_unpack
    {x : Float} {s : UnpackedFloat.Sign}
    (h : x.toModel.unpack = .zero s) :
    (x == 0) = true := by
  change x.toModel.unpack.beq (0 : Float).toModel.unpack = true
  rw [h, unpack_zero]
  rfl

/-- The operators compute matching results from matching operands, unless they divide
by zero. -/
theorem Matches.compute
    {x x' y y' : Float}
    (hx : Matches x x')
    (hy : Matches y y')
    (op : ArithOp)
    (hzero : op = .div → (y == 0) = false) :
    Matches (op.compute x y) (op.compute x' y') := by
  have hu := matches_iff.mp hx
  have hv := matches_iff.mp hy
  cases op with
  | add => exact matches_pack (hu.add hv)
  | sub => exact matches_pack (hu.sub hv)
  | mul => exact matches_pack (hu.mul hv)
  | div =>
      have hdivisor : ∀ s, y.toModel.unpack ≠ .zero s := by
        intro s hs
        rw [beq_zero_of_unpack hs] at hzero
        cases hzero rfl
      exact matches_pack (hu.div hv hdivisor)
  | rem => exact hx.remainder hy

theorem Matches.neg
    {x y : Float}
    (h : Matches x y) :
    Matches (-x) (-y) := by
  exact matches_pack (matches_iff.mp h).neg

section Comparisons

variable {x x' y y' : Float}

theorem lt_iff_compare :
    x < y ↔ x.toModel.unpack.compare y.toModel.unpack = some .lt := by
  change Float.lt x y = true ↔ _
  unfold Float.lt
  rw [decide_eq_true_iff]
  exact beq_iff_eq

theorem le_iff_compare :
    x ≤ y ↔ (x.toModel.unpack.compare y.toModel.unpack).any (·.isLE) = true := by
  change Float.le x y = true ↔ _
  unfold Float.le
  rw [decide_eq_true_iff]
  exact Iff.rfl

theorem Matches.beq_eq
    (hx : Matches x x')
    (hy : Matches y y') :
    (x == y) = (x' == y') := by
  have hcompare := (matches_iff.mp hx).compare_eq (matches_iff.mp hy)
  exact congrArg (· == some .eq) hcompare

theorem Matches.lt_iff
    (hx : Matches x x')
    (hy : Matches y y') :
    x < y ↔ x' < y' := by
  rw [lt_iff_compare, lt_iff_compare, (matches_iff.mp hx).compare_eq (matches_iff.mp hy)]

theorem Matches.le_iff
    (hx : Matches x x')
    (hy : Matches y y') :
    x ≤ y ↔ x' ≤ y' := by
  rw [le_iff_compare, le_iff_compare, (matches_iff.mp hx).compare_eq (matches_iff.mp hy)]

/-- The logical operators answer the same on matching operands. -/
theorem Matches.decides_eq
    (hx : Matches x x')
    (hy : Matches y y')
    (op : LogicOp) :
    op.decides x y = op.decides x' y' := by
  have hzero := Matches.refl 0
  cases op with
  | and | or => simp only [LogicOp.decides, bne, hx.beq_eq hzero, hy.beq_eq hzero]
  | gt => exact decide_eq_decide.mpr (hy.lt_iff hx)
  | lt => exact decide_eq_decide.mpr (hx.lt_iff hy)
  | ge => exact decide_eq_decide.mpr (hy.le_iff hx)
  | le => exact decide_eq_decide.mpr (hx.le_iff hy)
  | eq => exact hx.beq_eq hy
  | ne => exact congrArg not (hx.beq_eq hy)

end Comparisons

/-- Numbers that match are written alike. -/
theorem Matches.display_eq
    {x y : Float}
    (h : Matches x y) :
    Decimal.display x = Decimal.display y := by
  rcases h.cases with rfl | ⟨s, t, hx, hy⟩
  · rfl
  · unfold Decimal.display
    rw [hx, hy]
    simp

end Binary64
end LetLang
