import BinanceAggregator.Literal
import BinanceAggregator.TradeParser

/-!
When the arithmetic of `Decimal::parse` stays within 64 bits.

The operations of `parse` on a literal are listed with the results they have over the integers.
All of them lie between zero and the magnitude of the scaled value, or are its negation, so that
they stay in range exactly if the magnitude does. Nothing in `parse` checks this: a literal that
is too large is accepted with a wrong value, and so is the price or the quantity of a trade.
-/

namespace BinanceAggregator

namespace Literal

/-- A value of a signed 64-bit integer. -/
def InRange (x : ℤ) : Prop := -2 ^ 63 ≤ x ∧ x < 2 ^ 63

/-- The results of `value * 10` and `value * 10 + digit` in a loop over digits. -/
def digitSteps (value : ℤ) : Str → List ℤ
  | [] => []
  | c :: cs => value * 10 :: (value * 10 + digitOf c) :: digitSteps (value * 10 + digitOf c) cs

/-- The results of `value *= 10`, taken `n` times. -/
def scaleSteps (value : ℤ) : ℕ → List ℤ
  | 0 => []
  | n + 1 => value * 10 :: scaleSteps (value * 10) n

/-- The results over the integers of the signed operations of `parse` on a literal, in their
order: the loop over the integer part, the loop over the fraction, the padding of the fraction,
the scaling of the integer part, the sum, and the negation. -/
def operations (l : Literal) : List ℤ :=
  digitSteps 0 l.integer ++ digitSteps 0 l.fraction ++
    scaleSteps (numeral l.fraction) (Decimal.kScale - l.fraction.length) ++
    [numeral l.integer * Decimal.kScaleFactor, l.magnitude] ++
    if l.negative then [-(l.magnitude : ℤ)] else []

variable {l : Literal}

/-- The values of a loop over digits grow up to the last one. -/
lemma mem_digitSteps {w : Str} {a x : ℤ} (ha : 0 ≤ a) (hx : x ∈ digitSteps a w) :
    0 ≤ x ∧ x ≤ a * 10 ^ w.length + numeral w := by
  induction w generalizing a with
  | nil => cases hx
  | cons c w ih =>
      have hb : 0 ≤ a * 10 + digitOf c := by positivity
      have hpow : (1 : ℤ) ≤ 10 ^ w.length := one_le_pow₀ (by norm_num)
      have hlast : a * 10 ^ (c :: w).length + numeral (c :: w) =
          (a * 10 + digitOf c) * 10 ^ w.length + numeral w := by
        rw [numeral_cons, List.length_cons]
        push_cast
        ring
      -- the value after the digit, which the remaining digits do not make smaller
      have hgrow : a * 10 + digitOf c ≤ (a * 10 + digitOf c) * 10 ^ w.length + numeral w :=
        (le_mul_of_one_le_right hb hpow).trans (le_add_of_nonneg_right (Int.natCast_nonneg _))
      rw [hlast]
      rcases List.mem_cons.mp hx with rfl | hx
      · exact ⟨by positivity, (le_add_of_nonneg_right (Int.natCast_nonneg _)).trans hgrow⟩
      · rcases List.mem_cons.mp hx with rfl | hx
        · exact ⟨hb, hgrow⟩
        · exact ih hb hx

lemma mem_scaleSteps {n : ℕ} {a x : ℤ} (ha : 0 ≤ a) (hx : x ∈ scaleSteps a n) :
    0 ≤ x ∧ x ≤ a * 10 ^ n := by
  induction n generalizing a with
  | zero => cases hx
  | succ n ih =>
      have hb : 0 ≤ a * 10 := by positivity
      have hlast : a * 10 ^ (n + 1) = a * 10 * 10 ^ n := by ring
      rw [hlast]
      rcases List.mem_cons.mp hx with rfl | hx
      · exact ⟨hb, le_mul_of_one_le_right hb (one_le_pow₀ (by norm_num))⟩
      · exact ih hb hx

/-- Every operation has a result between zero and the magnitude, or is the negation. -/
lemma mem_operations {x : ℤ} (hx : x ∈ l.operations) :
    0 ≤ x ∧ x ≤ l.magnitude ∨ x = -(l.magnitude : ℤ) := by
  have hmag : (l.magnitude : ℤ) =
      numeral l.integer * 10 ^ 8 + numeral l.fraction * 10 ^ (8 - l.fraction.length) := by
    rw [magnitude]
    push_cast
    rfl
  have hint : (numeral l.integer : ℤ) ≤ numeral l.integer * 10 ^ 8 :=
    le_mul_of_one_le_right (Int.natCast_nonneg _) (by norm_num)
  have hfrac : (numeral l.fraction : ℤ) ≤ numeral l.fraction * 10 ^ (8 - l.fraction.length) :=
    le_mul_of_one_le_right (Int.natCast_nonneg _) (one_le_pow₀ (by norm_num))
  have h0 := Int.natCast_nonneg (numeral l.integer)
  have h1 := Int.natCast_nonneg (numeral l.fraction)
  simp only [operations, List.mem_append, List.mem_cons, List.not_mem_nil, or_false] at hx
  rcases hx with (((hx | hx) | hx) | hx | hx) | hx
  · have hle := mem_digitSteps le_rfl hx
    left
    omega
  · have hle := mem_digitSteps le_rfl hx
    left
    omega
  · have hle := mem_scaleSteps h1 hx
    rw [show Decimal.kScale = 8 from rfl] at hle
    left
    omega
  · rw [show Decimal.kScaleFactor = 10 ^ 8 from rfl] at hx
    left
    omega
  · left
    omega
  · split_ifs at hx
    · exact .inr (List.mem_singleton.mp hx)
    · cases hx

/-- No operation leaves its range exactly if the magnitude of the scaled value does not. -/
lemma operations_inRange_iff : (∀ x ∈ l.operations, InRange x) ↔ l.magnitude < 2 ^ 63 := by
  constructor
  · intro h
    have hmag := (h l.magnitude (by simp [operations])).2
    exact_mod_cast hmag
  · intro h x hx
    unfold InRange
    rcases mem_operations hx with hx | hx <;> omega

end Literal

namespace Decimal

open Literal

/-- What `parse` is expected to do with a text. -/
structure NeverWrong (text : Str) : Prop where
  /-- A value that is returned is the one denoted, and no operation has left its range. -/
  exact_of_ok : ∀ d, parse text = .ok d → ∃ l : Literal, l.text = text ∧
    (d.raw.toInt : ℚ) = l.value * 10 ^ 8 ∧ ∀ x ∈ l.operations, InRange x
  /-- A number that does not fit is rejected. -/
  rejected : ∀ l : Literal, l.text = text →
    ¬ (-2 ^ 63 ≤ l.value * 10 ^ 8 ∧ l.value * 10 ^ 8 < 2 ^ 63) → ∃ e, parse text = .error e
  /-- A trade has the price and the quantity of its message. -/
  trade : ∀ jsonParse rawMessage root t, TradeParser.parse jsonParse rawMessage = some t →
    jsonParse rawMessage = some root →
    (TradeParser.payloadString root (ascii "p") = .ok text → ∃ l : Literal, l.text = text ∧
      (t.price.raw.toInt : ℚ) = l.value * 10 ^ 8) ∧
    (TradeParser.payloadString root (ascii "q") = .ok text → ∃ l : Literal, l.text = text ∧
      (t.quantity.raw.toInt : ℚ) = l.value * 10 ^ 8)

/-- The values returned for the literals that are small enough. -/
lemma exact_of_fits {text : Str} {d : Decimal} (h : parse text = .ok d)
    (hfits : ∀ l : Literal, l.text = text → |l.value| * 10 ^ 8 ≤ 2 ^ 63 - 1) :
    ∃ l : Literal, l.text = text ∧ (d.raw.toInt : ℚ) = l.value * 10 ^ 8 ∧
      ∀ x ∈ l.operations, InRange x := by
  obtain ⟨l, rfl⟩ := exists_literal h
  have hmag := abs_value_le_iff.mp (hfits l rfl)
  refine ⟨l, rfl, ?_, operations_inRange_iff.mpr hmag⟩
  rw [parse_text] at h
  cases h
  rw [toInt_scaled hmag, scaled_eq]

/-- **`Decimal::parse` is right exactly on what fits.** A text is parsed as it should be if and
only if it is not a literal at all, or denotes a number that is of magnitude at most `2 ^ 63 - 1`
in units of `1e-8`. -/
theorem neverWrong_iff (text : Str) :
    NeverWrong text ↔ ∀ l : Literal, l.text = text → |l.value| * 10 ^ 8 ≤ 2 ^ 63 - 1 := by
  constructor
  · rintro h l rfl
    obtain ⟨m, hm, -, hops⟩ := h.exact_of_ok _ (parse_text l)
    rw [text_injective hm] at hops
    exact abs_value_le_iff.mpr (operations_inRange_iff.mp hops)
  · intro hfits
    refine ⟨fun d hd => exact_of_fits hd hfits, ?_, ?_⟩
    · rintro l rfl hout
      refine absurd ?_ hout
      have habs : |l.value * 10 ^ 8| ≤ 2 ^ 63 - 1 := by
        rw [abs_mul, abs_of_pos (by norm_num : (0 : ℚ) < 10 ^ 8)]
        exact hfits l rfl
      obtain ⟨hlow, hhigh⟩ := abs_le.mp habs
      constructor <;> linarith
    · intro jsonParse rawMessage root t ht hroot
      obtain ⟨root', hroot', -, p, q, hp, hq, hprice, hquantity⟩ := TradeParser.parse_eq_some ht
      cases hroot.symm.trans hroot'
      constructor
      · intro htext
        cases hp.symm.trans htext
        obtain ⟨l, hl, hval, -⟩ := exact_of_fits hprice hfits
        exact ⟨l, hl, hval⟩
      · intro htext
        cases hq.symm.trans htext
        obtain ⟨l, hl, hval, -⟩ := exact_of_fits hquantity hfits
        exact ⟨l, hl, hval⟩

/-- A number with more digits than 64 bits hold. -/
def tooLarge : Literal where
  sign := none
  integer := ascii "100000000000"
  fraction := []
  integer_ne_nil := by decide
  integer_digits := List.all_eq_true.mp rfl
  fraction_digits := List.all_eq_true.mp rfl
  fraction_length := by decide

/-- It is accepted, as a negative number. -/
theorem parse_tooLarge :
    parse (ascii "100000000000") = .ok ⟨-8446744073709551616⟩ ∧
      ¬ NeverWrong (ascii "100000000000") := by
  have hparse : parse (ascii "100000000000") = .ok ⟨-8446744073709551616⟩ := by decide
  have htext : tooLarge.text = ascii "100000000000" := by decide
  refine ⟨hparse, fun h => ?_⟩
  obtain ⟨l, hl, -, hops⟩ := h.exact_of_ok _ hparse
  rw [text_injective (hl.trans htext.symm)] at hops
  exact absurd (operations_inRange_iff.mp hops) (by decide)

end Decimal

end BinanceAggregator
