import LetLang.Proofs.Number.Numeral
import LetLang.Proofs.Text.Quoted

/-!
# Numerals tell numbers apart

A numeral shows the digits and the exponent of the grains from which it is made, with an
exponent part or without. These grains read back as the number. So two numbers with the
same numeral are the same number, and not only equal: zero and minus zero have different
numerals. Numerals consist of digits, letters, points and signs.
-/

namespace LetLang
namespace Decimal

open Binary64

/-- The digits before the exponent, with a point behind the first if there are others. -/
def mantissa (digits : List Char) : List Char :=
  digits.take 1 ++ (if (digits.drop 1).isEmpty then [] else '.' :: digits.drop 1)

theorem exponential_eq
    (width : Nat) (s : Scientific) :
    s.exponential width = mantissa s.digits ++
      'e' :: (if s.exponent < 0 then '-' else '+') ::
      (List.replicate (width - (Nat.toDigits 10 s.exponent.natAbs).length) '0' ++
        Nat.toDigits 10 s.exponent.natAbs) := by
  simp only [Scientific.exponential, mantissa, List.append_assoc, List.cons_append]

theorem mem_mantissa
    {digits : List Char} {c : Char}
    (hc : c ∈ mantissa digits) :
    c = '.' ∨ c ∈ digits := by
  unfold mantissa at hc
  rcases List.mem_append.mp hc with hc | hc
  · exact .inr (List.mem_of_mem_take hc)
  · split at hc
    · cases hc
    · rcases List.mem_cons.mp hc with hc | hc
      · exact .inl hc
      · exact .inr (List.mem_of_mem_drop hc)

theorem filter_mantissa
    {digits : List Char}
    (h : ∀ c ∈ digits, c.isDigit = true) :
    (mantissa digits).filter Char.isDigit = digits := by
  have hfilter : digits.filter Char.isDigit = digits := List.filter_eq_self.mpr h
  cases digits with
  | nil => rfl
  | cons d digits =>
      cases digits with
      | nil => exact hfilter
      | cons e digits => exact hfilter

/-- The exponential form shows the digits and the exponent. -/
theorem exponential_inj
    {width : Nat} {s t : Scientific}
    (hs : ∀ c ∈ s.digits, c.isDigit = true)
    (ht : ∀ c ∈ t.digits, c.isDigit = true)
    (h : s.exponential width = t.exponential width) :
    s = t := by
  have he : ∀ {digits : List Char}, (∀ c ∈ digits, c.isDigit = true) →
      'e' ∉ mantissa digits := by
    intro digits hdigits hmem
    rcases mem_mantissa hmem with hpoint | hmem
    · cases hpoint
    · cases hdigits _ hmem
  rw [exponential_eq, exponential_eq] at h
  obtain ⟨hmantissa, hpower⟩ := Text.eq_of_append_cons_eq (he hs) (he ht) h
  obtain ⟨hsign, hvalue⟩ := List.cons.inj hpower
  have hdigits : s.digits = t.digits := by
    rw [← filter_mantissa hs, ← filter_mantissa ht, hmantissa]
  have habs : s.exponent.natAbs = t.exponent.natAbs := by
    have hvalues := congrArg valueOf hvalue
    rw [valueOf_zeros_append, valueOf_zeros_append, valueOf, valueOf,
      Nat.ofDigitChars_ten_toDigits, Nat.ofDigitChars_ten_toDigits] at hvalues
    exact hvalues
  have hexponent : s.exponent = t.exponent := by
    by_cases hneg : s.exponent < 0
    · by_cases hneg' : t.exponent < 0
      · omega
      · rw [if_pos hneg, if_neg hneg'] at hsign
        cases hsign
    · by_cases hneg' : t.exponent < 0
      · rw [if_neg hneg, if_pos hneg'] at hsign
        cases hsign
      · omega
  cases s
  cases t
  exact congrArg₂ Scientific.mk hdigits hexponent

theorem ofGrains_inj
    {grains grains' : Nat}
    (hpos : 0 < grains)
    (hpos' : 0 < grains')
    (h : Scientific.ofGrains grains = Scientific.ofGrains grains') :
    grains = grains' := by
  obtain ⟨digits, k, htext, hdrop, _, _, hvalue⟩ := exists_significant hpos
  obtain ⟨digits', k', htext', hdrop', _, _, hvalue'⟩ := exists_significant hpos'
  simp only [Scientific.ofGrains, hdrop, hdrop', Scientific.mk.injEq] at h
  obtain ⟨rfl, hexponent⟩ := h
  have hlength := congrArg List.length htext
  have hlength' := congrArg List.length htext'
  rw [List.length_append, List.length_replicate] at hlength hlength'
  have hk : k = k' := by
    omega
  rw [hvalue, hvalue', hk]

/-- The text is the numeral of so many grains, with or without an exponent. -/
inductive Shows (grains : Nat) : List Char → Prop
  | positional
      {text : List Char}
      (h : Writes grains text) :
      Shows grains text
  | exponential
      (h : 0 < grains) :
      Shows grains ((Scientific.ofGrains grains).exponential layout.exponentWidth)

theorem isDigit_ofGrains
    {grains : Nat}
    (hpos : 0 < grains) :
    ∀ c ∈ (Scientific.ofGrains grains).digits, c.isDigit = true := by
  obtain ⟨digits, _, _, hdrop, _, hdigit, _⟩ := exists_significant hpos
  simp only [Scientific.ofGrains, hdrop]
  exact hdigit

theorem Writes.not_mem
    {grains : Nat} {text : List Char}
    (h : Writes grains text) :
    'e' ∉ text := by
  obtain ⟨whole, fraction, rfl, _, _, hwhole, hfraction, _⟩ := h
  intro hmem
  rcases List.mem_append.mp hmem with hmem | hmem
  · cases hwhole _ hmem
  · rcases List.mem_cons.mp hmem with hmem | hmem
    · cases hmem
    · cases hfraction _ hmem

theorem mem_exponential
    (width : Nat) (s : Scientific) :
    'e' ∈ s.exponential width := by
  simp [Scientific.exponential]

/-- A numeral tells the grains that it shows. -/
theorem Shows.eq
    {grains grains' : Nat} {text : List Char}
    (h : Shows grains text)
    (h' : Shows grains' text) :
    grains = grains' := by
  cases h with
  | positional hwrites =>
      cases h' with
      | positional hwrites' => exact hwrites.eq hwrites'
      | exponential hpos => exact absurd (mem_exponential _ _) hwrites.not_mem
  | exponential hpos =>
      generalize htext : (Scientific.ofGrains grains).exponential
        layout.exponentWidth = text at h'
      cases h' with
      | positional hwrites => exact absurd (htext ▸ mem_exponential _ _) hwrites.not_mem
      | exponential hpos' =>
          exact ofGrains_inj hpos hpos'
            (exponential_inj (isDigit_ofGrains hpos) (isDigit_ofGrains hpos') htext)

/-- The numeral of a finite number without its sign. -/
def written (units : Nat) : List Char :=
  if units = 0 then ['0', '.', '0'] else layout.render (.ofGrains (shortest units))

/-- How many grains the numeral of a finite number shows. -/
def shown (units : Nat) : Nat :=
  if units = 0 then 0 else shortest units

theorem shows_written
    (units : Nat) :
    Shows (shown units) (written units) := by
  unfold shown written
  split
  · exact .positional .zero
  · rename_i hunits
    have hpos := shortest_pos (Nat.pos_of_ne_zero hunits)
    unfold Layout.render
    split
    · exact .positional (writes_positional hpos)
    · exact .exponential hpos

theorem nearestBits_shown
    (units : Nat) :
    nearestBits (shown units) grain = nearestBits units unitsPerOne := by
  unfold shown
  split
  · rename_i hunits
    rw [hunits, nearestBits_zero, nearestBits_zero]
  · exact (shortest_spec units).1

theorem Shows.head_isDigit
    {grains : Nat} {text : List Char}
    (h : Shows grains text) :
    ∃ c, text.head? = some c ∧ c.isDigit = true := by
  cases h with
  | positional hwrites =>
      obtain ⟨whole, fraction, rfl, hne, _, hwhole, _, _⟩ := hwrites
      obtain ⟨c, cs, rfl⟩ := List.exists_cons_of_ne_nil hne
      exact ⟨c, rfl, hwhole c List.mem_cons_self⟩
  | exponential hpos =>
      obtain ⟨digits, _, _, hdrop, hne, hdigit, _⟩ := exists_significant hpos
      obtain ⟨c, cs, rfl⟩ := List.exists_cons_of_ne_nil hne
      refine ⟨c, ?_, hdigit c List.mem_cons_self⟩
      rw [exponential_eq, Scientific.ofGrains, hdrop]
      rfl

theorem sign_append_inj
    {s t : Bool} {u v : List Char}
    (hu : ∀ c ∈ u.head?, c ≠ '-')
    (hv : ∀ c ∈ v.head?, c ≠ '-')
    (h : sign s ++ u = sign t ++ v) :
    s = t ∧ u = v := by
  cases s with
  | false =>
      cases t with
      | false => exact ⟨rfl, h⟩
      | true =>
          have hhead := congrArg List.head? h
          exact absurd rfl (hu '-' hhead)
  | true =>
      cases t with
      | false =>
          have hhead := congrArg List.head? h
          exact absurd rfl (hv '-' hhead.symm)
      | true => exact ⟨rfl, (List.cons.inj h).2⟩

theorem toList_numeral_of_finite
    {x : Float} {negative : Bool} {units : Nat}
    (h : view x = .finite negative units) :
    (numeral x).toList = sign negative ++ written units := by
  rw [numeral, h]
  exact String.toList_ofList

theorem toList_numeral_of_infinite
    {x : Float} {negative : Bool}
    (h : view x = .infinite negative) :
    (numeral x).toList = sign negative ++ ['i', 'n', 'f'] := by
  rw [numeral, h]
  exact String.toList_ofList

theorem written_ne_inf
    (units : Nat) :
    written units ≠ ['i', 'n', 'f'] := by
  intro h
  obtain ⟨c, hhead, hdigit⟩ := (shows_written units).head_isDigit
  rw [h] at hhead
  cases hhead
  cases hdigit

/-- No two numbers have the same numeral. -/
theorem numeral_inj
    {x y : Float}
    (hx : x.isNaN = false)
    (hy : y.isNaN = false)
    (h : numeral x = numeral y) :
    x = y := by
  have hview : ∀ {z : Float}, z.isNaN = false →
      (∃ s, view z = .infinite s) ∨ ∃ s units, view z = .finite s units := by
    intro z hz
    cases hinf : z.isInf with
    | true => exact .inl ⟨_, view_of_isInf hinf⟩
    | false => exact .inr (view_of_finite hz hinf)
  have hunsigned : ∀ units, ∀ c ∈ (written units).head?, c ≠ '-' := by
    rintro units c hc rfl
    obtain ⟨d, hhead, hdigit⟩ := (shows_written units).head_isDigit
    rw [hhead] at hc
    cases hc
    cases hdigit
  have hinf : ∀ c ∈ ['i', 'n', 'f'].head?, c ≠ '-' := by
    simp
  have htext := congrArg String.toList h
  rcases hview hx with ⟨s, hx⟩ | ⟨s, u, hx⟩
  · rcases hview hy with ⟨t, hy⟩ | ⟨t, v, hy⟩
    · rw [toList_numeral_of_infinite hx, toList_numeral_of_infinite hy] at htext
      obtain ⟨rfl, _⟩ := sign_append_inj hinf hinf htext
      rw [eq_ofBits_of_view_infinite hx, eq_ofBits_of_view_infinite hy]
    · rw [toList_numeral_of_infinite hx, toList_numeral_of_finite hy] at htext
      exact absurd (sign_append_inj hinf (hunsigned v) htext).2.symm (written_ne_inf v)
  · rcases hview hy with ⟨t, hy⟩ | ⟨t, v, hy⟩
    · rw [toList_numeral_of_finite hx, toList_numeral_of_infinite hy] at htext
      exact absurd (sign_append_inj (hunsigned u) hinf htext).2 (written_ne_inf u)
    · rw [toList_numeral_of_finite hx, toList_numeral_of_finite hy] at htext
      obtain ⟨rfl, hwritten⟩ := sign_append_inj (hunsigned u) (hunsigned v) htext
      have hshown : shown u = shown v := (shows_written u).eq (hwritten ▸ shows_written v)
      rw [← ofUnits_of_view hx, ← ofUnits_of_view hy, ofUnits, ofUnits, ofRatio, ofRatio,
        ← nearestBits_shown u, ← nearestBits_shown v, hshown]

/-- The characters of numerals: digits, letters, a point and signs. -/
def IsNumeralText (text : List Char) : Prop :=
  ∀ c ∈ text, c.isAlphanum = true ∨ c ∈ ['.', '+', '-']

theorem isNumeralText_append
    {u v : List Char}
    (hu : IsNumeralText u)
    (hv : IsNumeralText v) :
    IsNumeralText (u ++ v) := by
  intro c hc
  rcases List.mem_append.mp hc with hc | hc
  · exact hu c hc
  · exact hv c hc

theorem isNumeralText_of_isDigit
    {text : List Char}
    (h : ∀ c ∈ text, c.isDigit = true) :
    IsNumeralText text := by
  intro c hc
  left
  rw [Char.isAlphanum, h c hc, Bool.or_true]

theorem isNumeralText_of_all
    {text : List Char}
    (h : text.all Char.isAlphanum = true) :
    IsNumeralText text := by
  exact fun c hc => .inl (List.all_eq_true.mp h c hc)

theorem isNumeralText_toDigits
    (n : Nat) :
    IsNumeralText (Nat.toDigits 10 n) := by
  exact isNumeralText_of_isDigit fun c hc => isDigit_of_mem_toDigits hc

theorem isNumeralText_sign
    (negative : Bool) :
    IsNumeralText (sign negative) := by
  cases negative with
  | false => exact List.forall_mem_nil _
  | true => exact List.forall_mem_singleton.mpr (.inr (by simp))

theorem Shows.isNumeralText
    {grains : Nat} {text : List Char}
    (h : Shows grains text) :
    IsNumeralText text := by
  cases h with
  | positional hwrites =>
      obtain ⟨whole, fraction, rfl, _, _, hwhole, hfraction, _⟩ := hwrites
      refine isNumeralText_append (isNumeralText_of_isDigit hwhole) ?_
      exact List.forall_mem_cons.mpr ⟨.inr (by simp), isNumeralText_of_isDigit hfraction⟩
  | exponential hpos =>
      rw [exponential_eq]
      refine isNumeralText_append ?_
        (List.forall_mem_cons.mpr ⟨.inl rfl, List.forall_mem_cons.mpr ⟨?_, ?_⟩⟩)
      · intro c hc
        rcases mem_mantissa hc with rfl | hc
        · exact .inr (by simp)
        · exact isNumeralText_of_isDigit (isDigit_ofGrains hpos) c hc
      · split
        · exact .inr (by simp)
        · exact .inr (by simp)
      · refine isNumeralText_append ?_ (isNumeralText_toDigits _)
        intro c hc
        rw [List.eq_of_mem_replicate hc]
        exact .inl rfl

theorem isNumeralText_numeral
    (x : Float) :
    IsNumeralText (numeral x).toList := by
  cases hview : view x with
  | notANumber =>
      rw [numeral, hview]
      exact isNumeralText_of_all (show "nan".toList.all Char.isAlphanum = true from rfl)
  | infinite negative =>
      rw [toList_numeral_of_infinite hview]
      exact isNumeralText_append (isNumeralText_sign _) (isNumeralText_of_all rfl)
  | finite negative units =>
      rw [toList_numeral_of_finite hview]
      exact isNumeralText_append (isNumeralText_sign _) (shows_written units).isNumeralText

end Decimal
end LetLang
