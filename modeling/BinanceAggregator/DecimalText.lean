import BinanceAggregator.DecimalRange

/-!
The texts `Decimal::to_string` writes are literals, one for each raw value, that `Decimal::parse`
reads back.
-/

namespace BinanceAggregator

namespace Decimal

open Literal

/-- The distance of the raw value from zero, as `to_string` computes it. -/
def magnitude (d : Decimal) : ℕ := (if d.raw < 0 then -d.raw else d.raw).toUInt64.toNat

lemma toNat_toUInt64_of_nonneg {x : Int64} (h : 0 ≤ x.toInt) :
    (x.toUInt64.toNat : ℤ) = x.toInt := by
  have hnat : x.toUInt64.toNat = x.toBitVec.toNat := rfl
  have hint : x.toInt = x.toBitVec.toInt := rfl
  rw [hint, BitVec.toInt_eq_toNat_cond] at h ⊢
  rw [hnat]
  split_ifs at h ⊢ <;> omega

/-- The negation of a raw value does not overflow, except that of the smallest one. -/
lemma toInt_neg_of_lt {r : Int64} (h : -2 ^ 63 < r.toInt) : (-r).toInt = -r.toInt := by
  have hlt := r.toInt_lt
  rw [Int64.toInt_neg]
  exact Int.bmod_eq_of_le_mul_two (by omega) (by omega)

lemma magnitude_eq_abs {d : Decimal} (h : -2 ^ 63 < d.raw.toInt) :
    (d.magnitude : ℤ) = if d.raw < 0 then -d.raw.toInt else d.raw.toInt := by
  have hzero : (0 : Int64).toInt = 0 := rfl
  unfold magnitude
  split_ifs with hneg
  · rw [Int64.lt_iff_toInt_lt, hzero] at hneg
    have hpos : 0 ≤ (-d.raw).toInt := by
      rw [toInt_neg_of_lt h]
      omega
    rw [toNat_toUInt64_of_nonneg hpos, toInt_neg_of_lt h]
  · rw [Int64.lt_iff_toInt_lt, hzero] at hneg
    exact toNat_toUInt64_of_nonneg (by omega)

/-! ### The fraction -/

/-- A fraction with its leading zeros. -/
def padded (n : ℕ) : Str := List.replicate (kScale - (natText n).length) (byte '0') ++ natText n

lemma allDigits_padded (n : ℕ) : AllDigits (padded n) := by
  intro c hc
  rcases List.mem_append.mp hc with hc | hc
  · rw [List.eq_of_mem_replicate hc]
    decide
  · exact allDigits_natText n c hc

lemma length_padded {n : ℕ} (h : n < 10 ^ kScale) : (padded n).length = kScale := by
  have hlen := length_natText_le (by decide) h
  rw [padded, List.length_append, List.length_replicate]
  omega

lemma numeral_padded (n : ℕ) : numeral (padded n) = n := by
  rw [padded, numeral_zeros_append, numeral_natText]

/-- The zeros are trimmed off the end. -/
lemma fractionText_isPrefix (n : ℕ) : fractionText n <+: padded n := List.rdropWhile_prefix _ _

lemma allDigits_fractionText (n : ℕ) : AllDigits (fractionText n) := fun c hc =>
  allDigits_padded n c ((fractionText_isPrefix n).subset hc)

lemma length_fractionText_le {n : ℕ} (h : n < 10 ^ kScale) : (fractionText n).length ≤ kScale :=
  (fractionText_isPrefix n).length_le.trans_eq (length_padded h)

/-- Trimming the zeros off a fraction and padding it again gives its value. -/
lemma numeral_fractionText {n : ℕ} (h : n < 10 ^ kScale) :
    numeral (fractionText n) * 10 ^ (kScale - (fractionText n).length) = n := by
  have htrim := numeral_rdropWhile_zeros (padded n)
  rw [length_padded h, numeral_padded] at htrim
  exact htrim

/-! ### The literal of a decimal -/

lemma mod_lt_pow (n : ℕ) : n % kScaleFactor.toNat < 10 ^ kScale :=
  Nat.mod_lt n (by decide)

/-- The literal `to_string` writes. -/
def literal (d : Decimal) : Literal where
  sign := if d.raw < 0 then some .minus else none
  integer := natText (d.magnitude / kScaleFactor.toNat)
  fraction := fractionText (d.magnitude % kScaleFactor.toNat)
  integer_ne_nil := natText_ne_nil _
  integer_digits := allDigits_natText _
  fraction_digits := allDigits_fractionText _
  fraction_length := length_fractionText_le (mod_lt_pow _)

lemma text_literal (d : Decimal) : d.literal.text = toText d := by
  have hsign : signText (if d.raw < 0 then some .minus else none) =
      if d.raw < 0 then [byte '-'] else [] := by
    split_ifs <;> rfl
  show signText (if d.raw < 0 then some .minus else none) ++ (natText _ ++ pointText _) = toText d
  rw [hsign, ← List.append_assoc]
  rfl

lemma magnitude_literal (d : Decimal) : d.literal.magnitude = d.magnitude := by
  have hfrac := numeral_fractionText (mod_lt_pow d.magnitude)
  have hsplit := Nat.div_add_mod' d.magnitude kScaleFactor.toNat
  rw [Literal.magnitude, literal, numeral_natText]
  rw [show kScale = 8 from rfl] at hfrac
  rw [hfrac]
  exact hsplit

/-- The literal denotes the decimal. -/
lemma scaled_literal {d : Decimal} (h : -2 ^ 63 < d.raw.toInt) :
    d.literal.scaled = d.raw.toInt := by
  have hmag := magnitude_eq_abs h
  rw [scaled, magnitude_literal, hmag, negative, literal]
  split_ifs <;> simp_all

lemma magnitude_lt {d : Decimal} (h : -2 ^ 63 < d.raw.toInt) : d.magnitude < 2 ^ 63 := by
  have hmag := magnitude_eq_abs h
  have hlt := d.raw.toInt_lt
  split_ifs at hmag <;> omega

/-- What is written is read back. -/
lemma parse_toText {d : Decimal} (h : -2 ^ 63 < d.raw.toInt) : parse (toText d) = .ok d := by
  rw [← text_literal, parse_text, scaled_literal h, Int64.ofInt_toInt]

/-- A literal in its canonical form: no `+`, no superfluous zero. -/
structure Canonical (l : Literal) : Prop where
  sign : l.sign ≠ some .plus
  integer : l.integer.head? = some (byte '0') → l.integer = [byte '0']
  fraction : l.fraction.getLast? ≠ some (byte '0')

lemma fractionText_eq_nil_iff {n : ℕ} (h : n < 10 ^ kScale) : fractionText n = [] ↔ n = 0 := by
  constructor
  · intro hnil
    have hval := numeral_fractionText h
    rw [hnil] at hval
    simpa using hval.symm
  · rintro rfl
    decide

/-- The last digit of a fraction is one that the trimming has left. -/
lemma getLast?_fractionText (n : ℕ) : (fractionText n).getLast? ≠ some (byte '0') := by
  intro hlast
  have hne : (padded n).rdropWhile (· = byte '0') ≠ [] := by
    intro hnil
    rw [show fractionText n = _ from hnil] at hlast
    cases hlast
  have hnot := List.rdropWhile_last_not (· = byte '0') (padded n) hne
  have hlast' := (List.getLast?_eq_some_getLast hne).symm.trans hlast
  exact hnot (by simpa using hlast')

lemma canonical_literal (d : Decimal) : Canonical d.literal := by
  refine ⟨?_, ?_, getLast?_fractionText _⟩
  · unfold literal
    split_ifs <;> simp
  · intro hhead
    show natText (d.magnitude / kScaleFactor.toNat) = [byte '0']
    rw [head_natText hhead]
    rfl

/-- **Round trip and canonical form.** Every raw value but the smallest is read back from the text
it is written as, without an overflow in the writing or the reading, and the text is canonical:
a sign only for a negative value, no leading zero, a point only if there is a fraction, and no
trailing zero. -/
theorem toText_roundtrip {r : Int64} (h : -2 ^ 63 < r.toInt) :
    parse (toText (fromRaw r)) = .ok (fromRaw r) ∧ InRange (-r.toInt) ∧
    ∃ l : Literal, l.text = toText (fromRaw r) ∧ (∀ x ∈ l.operations, InRange x) ∧
      Canonical l ∧ (l.sign = some .minus ↔ r.toInt < 0) ∧
      (l.fraction ≠ [] ↔ r.toInt.natAbs % 10 ^ 8 ≠ 0) := by
  have hlt := r.toInt_lt
  have hmag : (fromRaw r).magnitude = r.toInt.natAbs := by
    have habs := magnitude_eq_abs (d := fromRaw r) h
    have hzero : (0 : Int64).toInt = 0 := rfl
    simp only [fromRaw, Int64.lt_iff_toInt_lt, hzero] at habs
    unfold fromRaw
    split_ifs at habs <;> omega
  refine ⟨parse_toText h, ⟨by omega, by omega⟩, (fromRaw r).literal, text_literal _, ?_,
    canonical_literal _, ?_, ?_⟩
  · rw [operations_inRange_iff, magnitude_literal]
    exact magnitude_lt h
  · have hzero : (0 : Int64).toInt = 0 := rfl
    simp [literal, fromRaw, Int64.lt_iff_toInt_lt, hzero]
  · rw [← hmag]
    exact (fractionText_eq_nil_iff (mod_lt_pow _)).not

/-- The largest raw value. -/
theorem toText_roundtrip_max :
    (-2 ^ 63 < (9223372036854775807 : Int64).toInt) ∧
    parse (toText (fromRaw 9223372036854775807)) = .ok (fromRaw 9223372036854775807) :=
  ⟨by decide, (toText_roundtrip (r := 9223372036854775807) (by decide)).1⟩

end Decimal

end BinanceAggregator
