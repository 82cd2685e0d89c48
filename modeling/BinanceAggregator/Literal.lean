import Mathlib.Algebra.Order.Field.Basic
import Mathlib.Algebra.Order.Field.Rat
import Mathlib.Tactic.FieldSimp
import Mathlib.Tactic.Linarith
import Mathlib.Tactic.Positivity
import BinanceAggregator.Decimal
import BinanceAggregator.Bytes

/-!
Decimal literals, the numbers they denote, and what `Decimal::parse` makes of them.

Every literal is accepted and nothing else is. The arithmetic of `parse` is that of the
integers modulo `2 ^ 64`, so that the value it returns is the one denoted, scaled and reduced;
it is the right one as long as the magnitude of the scaled value fits into 63 bits, and then no
operation on the way leaves its range either.
-/

namespace BinanceAggregator

inductive Sign
  | plus
  | minus
  deriving DecidableEq

/-- A decimal literal, `[+-]?[0-9]+(\.[0-9]{1,8})?`. A literal without a point has no
fractional digits. -/
structure Literal where
  sign : Option Sign
  integer : Str
  fraction : Str
  integer_ne_nil : integer ≠ []
  integer_digits : AllDigits integer
  fraction_digits : AllDigits fraction
  fraction_length : fraction.length ≤ Decimal.kScale

namespace Literal

def signText : Option Sign → Str
  | none => []
  | some .plus => [byte '+']
  | some .minus => [byte '-']

def pointText (fraction : Str) : Str := if fraction = [] then [] else byte '.' :: fraction

variable (l : Literal)

def text : Str := signText l.sign ++ (l.integer ++ pointText l.fraction)

def negative : Bool := l.sign = some .minus

/-- The number a literal denotes. -/
def value : ℚ :=
  (if l.negative then -1 else 1) *
    (numeral l.integer + numeral l.fraction / 10 ^ l.fraction.length)

/-- The number without its sign, in units of the last fractional digit. -/
def magnitude : ℕ :=
  numeral l.integer * 10 ^ 8 + numeral l.fraction * 10 ^ (8 - l.fraction.length)

def scaled : ℤ := if l.negative then -l.magnitude else l.magnitude

variable {l}

lemma magnitude_eq :
    (l.magnitude : ℚ) =
      (numeral l.integer + numeral l.fraction / 10 ^ l.fraction.length) * 10 ^ 8 := by
  have hlen : l.fraction.length ≤ 8 := l.fraction_length
  have hpow : (10 : ℚ) ^ (8 - l.fraction.length) = 10 ^ 8 / 10 ^ l.fraction.length :=
    pow_sub₀ 10 (by norm_num) hlen
  rw [magnitude]
  push_cast
  rw [hpow]
  ring

lemma scaled_eq : (l.scaled : ℚ) = l.value * 10 ^ 8 := by
  rw [scaled, value, mul_assoc, ← magnitude_eq]
  split_ifs <;> simp

lemma abs_value : |l.value| * 10 ^ 8 = l.magnitude := by
  have hnonneg : (0 : ℚ) ≤ numeral l.integer + numeral l.fraction / 10 ^ l.fraction.length := by
    positivity
  rw [magnitude_eq, value, abs_mul, abs_of_nonneg hnonneg]
  split_ifs <;> simp

lemma abs_value_le_iff : |l.value| * 10 ^ 8 ≤ 2 ^ 63 - 1 ↔ l.magnitude < 2 ^ 63 := by
  rw [abs_value, Nat.lt_iff_add_one_le, ← Nat.cast_le (α := ℚ)]
  push_cast
  constructor <;> intro h <;> linarith

/-! ### The text determines the literal -/

lemma pointText_injective : Function.Injective pointText := by
  intro f g h
  unfold pointText at h
  split_ifs at h with hf hg hg
  · rw [hf, hg]
  · exact (List.cons.inj h).2

/-- The digits in front of the point. -/
lemma takeWhile_digits {w : Str} (hw : AllDigits w) (f : Str) :
    (w ++ pointText f).takeWhile isDigit = w := by
  have hpoint : (pointText f).takeWhile isDigit = [] := by
    unfold pointText
    split_ifs
    · rfl
    · exact List.takeWhile_cons_of_neg (by decide)
  rw [List.takeWhile_append_of_pos hw, hpoint, List.append_nil]

/-- A digit is not a sign. -/
lemma signText_cancel {s s' : Option Sign} {u u' : Str} (hu : u.head?.any isDigit = true)
    (hu' : u'.head?.any isDigit = true) (h : signText s ++ u = signText s' ++ u') :
    s = s' ∧ u = u' := by
  have hplus : isDigit (byte '+') = false := by decide
  have hminus : isDigit (byte '-') = false := by decide
  have hne : byte '+' ≠ byte '-' := by decide
  rcases s with _ | _ | _ <;> rcases s' with _ | _ | _ <;>
    simp only [signText, List.nil_append, List.cons_append, List.cons.injEq] at h <;>
    first
    | exact ⟨rfl, h⟩
    | exact ⟨rfl, h.2⟩
    | exact absurd h.1 hne
    | exact absurd h.1 hne.symm
    | (subst h; simp_all)

lemma head_isDigit (l : Literal) :
    (l.integer ++ pointText l.fraction).head?.any isDigit = true := by
  obtain ⟨c, cs, hc⟩ := List.exists_cons_of_ne_nil l.integer_ne_nil
  rw [hc]
  exact l.integer_digits c (hc ▸ List.mem_cons_self)

lemma text_injective : Function.Injective text := by
  intro l m h
  obtain ⟨hsign, hrest⟩ := signText_cancel (head_isDigit l) (head_isDigit m) h
  have hint : l.integer = m.integer := by
    rw [← takeWhile_digits l.integer_digits l.fraction, hrest,
      takeWhile_digits m.integer_digits m.fraction]
  rw [hint] at hrest
  have hfrac := pointText_injective (List.append_cancel_left hrest)
  obtain ⟨s, w, f, _, _, _, _⟩ := l
  obtain ⟨s', w', f', _, _, _, _⟩ := m
  cases hsign
  cases hint
  cases hfrac
  rfl

end Literal

namespace Decimal

open Literal

/-! ### The loops -/

lemma digitVal_eq (c : UInt8) : digitVal c = Int64.ofInt (digitOf c) :=
  Int64.ofInt_eq_ofNat.symm

lemma append_digit (a : ℤ) (c : UInt8) :
    Int64.ofInt a * 10 + digitVal c = Int64.ofInt (a * 10 + digitOf c) := by
  rw [digitVal_eq, Int64.ofInt_add, Int64.ofInt_mul]
  rfl

/-- The loop over the integer part takes the digits in front. -/
lemma integerLoop_append {w rest : Str} (hw : AllDigits w) (hrest : startsWithDigit rest = false)
    (a : ℤ) : integerLoop (Int64.ofInt a) (w ++ rest) =
      (Int64.ofInt (a * 10 ^ w.length + numeral w), rest) := by
  induction w generalizing a with
  | nil =>
      cases rest with
      | nil => simp [integerLoop]
      | cons c cs =>
          rw [startsWithDigit] at hrest
          simp [integerLoop, hrest]
  | cons c w ih =>
      have hc := hw c List.mem_cons_self
      rw [List.cons_append, integerLoop, if_pos hc, append_digit,
        ih fun d hd => hw d (List.mem_cons_of_mem c hd), numeral_cons, List.length_cons]
      congr 2
      push_cast
      ring

/-- So does the loop over the fraction, as long as there are not too many. -/
lemma fractionLoop_append {text w rest : Str} (hw : AllDigits w)
    (hrest : startsWithDigit rest = false) {k : ℕ} (hk : k + w.length ≤ kScale) (a : ℤ) :
    fractionLoop text (Int64.ofInt a) k (w ++ rest) =
      .ok (Int64.ofInt (a * 10 ^ w.length + numeral w), k + w.length, rest) := by
  induction w generalizing a k with
  | nil =>
      cases rest with
      | nil => simp [fractionLoop]
      | cons c cs =>
          rw [startsWithDigit] at hrest
          simp [fractionLoop, hrest]
  | cons c w ih =>
      have hc := hw c List.mem_cons_self
      rw [List.length_cons] at hk
      rw [List.cons_append, fractionLoop, if_pos hc, if_neg (by omega), append_digit,
        ih (fun d hd => hw d (List.mem_cons_of_mem c hd)) (by omega), numeral_cons,
        List.length_cons]
      congr 3
      · push_cast
        ring
      · omega

lemma scaleUp_eq (a : ℤ) (n : ℕ) : scaleUp (Int64.ofInt a) n = Int64.ofInt (a * 10 ^ n) := by
  induction n generalizing a with
  | zero => simp [scaleUp]
  | succ n ih =>
      have hstep : Int64.ofInt a * 10 = Int64.ofInt (a * 10) := (Int64.ofInt_mul a 10).symm
      rw [scaleUp, hstep, ih]
      congr 1
      ring

/-- The part after the integer digits of a literal. -/
lemma fraction_pointText {text f : Str} (hf : AllDigits f) (hlen : f.length ≤ kScale) :
    fraction text (pointText f) = .ok (Int64.ofInt (numeral f), f.length, []) := by
  unfold pointText
  split_ifs with hnil
  · subst hnil
    rfl
  · have hloop : fractionLoop text (Int64.ofInt 0) 0 (f ++ []) =
        .ok (Int64.ofInt (0 * 10 ^ f.length + numeral f), 0 + f.length, []) :=
      fractionLoop_append hf rfl (by simpa using hlen) 0
    obtain ⟨c, cs, rfl⟩ := List.exists_cons_of_ne_nil hnil
    have hc : startsWithDigit (c :: cs) = true := hf c List.mem_cons_self
    rw [fraction, if_pos rfl, if_pos hc]
    simpa using hloop

/-! ### Literals are accepted, and nothing else is -/

/-- What `parse` does once it has read the sign and found a digit. -/
lemma parse_signText (sign : Option Sign) {u : Str} (hu : startsWithDigit u = true) :
    parse (signText sign ++ u) = (do
      let (fractionalPart, fractionalDigits, rest) ←
        fraction (signText sign ++ u) (integerLoop 0 u).2
      if rest = [] then
        let raw := (integerLoop 0 u).1 * Int64.ofInt kScaleFactor +
          scaleUp fractionalPart (kScale - fractionalDigits)
        return fromRaw (if sign = some .minus then -raw else raw)
      else throw (ascii "Decimal string contains invalid characters: " ++ (signText sign ++ u))) := by
  obtain _ | ⟨c, cs⟩ := u
  · cases hu
  rcases sign with _ | _ | _
  · -- a digit is not a sign
    have hc := isDigit_iff.mp hu
    have hplus : c ≠ byte '+' := by
      rintro rfl
      exact absurd hc (by decide)
    have hminus : c ≠ byte '-' := by
      rintro rfl
      exact absurd hc (by decide)
    simp only [signText, List.nil_append, parse, hplus, hminus, or_self, if_false, hu, if_true]
    rfl
  · simp only [signText, List.cons_append, List.nil_append, parse, true_or, if_true, hu]
    rfl
  · simp only [signText, List.cons_append, List.nil_append, parse, or_true, if_true, hu]

lemma startsWithDigit_append {w rest : Str} (hne : w ≠ []) (hw : AllDigits w) :
    startsWithDigit (w ++ rest) = true := by
  obtain ⟨c, cs, rfl⟩ := List.exists_cons_of_ne_nil hne
  exact hw c List.mem_cons_self

lemma startsWithDigit_pointText (f : Str) : startsWithDigit (pointText f) = false := by
  unfold pointText
  split_ifs
  · rfl
  · show isDigit (byte '.') = false
    decide

/-- Every literal is accepted. The arithmetic wraps around, so that the result is the scaled
value of the literal reduced to 64 bits. -/
lemma parse_text (l : Literal) : parse l.text = .ok ⟨Int64.ofInt l.scaled⟩ := by
  have hint := integerLoop_append l.integer_digits (startsWithDigit_pointText l.fraction) 0
  rw [show Int64.ofInt 0 = 0 from rfl, Int.zero_mul, Int.zero_add] at hint
  have hraw : Int64.ofInt (numeral l.integer) * Int64.ofInt kScaleFactor +
      scaleUp (Int64.ofInt (numeral l.fraction)) (kScale - l.fraction.length) =
        Int64.ofInt l.magnitude := by
    rw [scaleUp_eq, ← Int64.ofInt_mul, ← Int64.ofInt_add, magnitude]
    push_cast
    rfl
  rw [text, parse_signText _ (startsWithDigit_append l.integer_ne_nil l.integer_digits), hint,
    fraction_pointText l.fraction_digits l.fraction_length]
  show Except.ok (fromRaw (if l.sign = some .minus then _ else _)) = _
  rw [hraw, scaled, negative, fromRaw]
  split_ifs with h h'
  · rw [Int64.ofInt_neg]
  · simp [h] at h'
  · simp_all
  · rfl

/-- The loop over the integer part leaves what follows the digits. -/
lemma integerLoop_rest (a : Int64) (u : Str) : startsWithDigit (integerLoop a u).2 = false ∧
    ∃ w, AllDigits w ∧ u = w ++ (integerLoop a u).2 := by
  induction u generalizing a with
  | nil => exact ⟨rfl, [], by simp [AllDigits], rfl⟩
  | cons c u ih =>
      rw [integerLoop]
      split_ifs with hc
      · obtain ⟨hrest, w, hw, hu⟩ := ih (a * 10 + digitVal c)
        exact ⟨hrest, c :: w, List.forall_mem_cons.mpr ⟨hc, hw⟩, by rw [List.cons_append, ← hu]⟩
      · exact ⟨by simpa [startsWithDigit] using hc, [], by simp [AllDigits], rfl⟩

lemma fractionLoop_ok {text cs : Str} {a x : Int64} {k n : ℕ}
    (h : fractionLoop text a k cs = .ok (x, n, [])) (hk : k ≤ kScale) :
    AllDigits cs ∧ k + cs.length ≤ kScale := by
  induction cs generalizing a k with
  | nil => exact ⟨by simp [AllDigits], hk⟩
  | cons c cs ih =>
      rw [fractionLoop] at h
      split_ifs at h with hc hfull
      · obtain ⟨hcs, hlen⟩ := ih h (by omega)
        exact ⟨List.forall_mem_cons.mpr ⟨hc, hcs⟩, by rw [List.length_cons]; omega⟩
      · cases h

lemma fraction_ok {text rest : Str} {x : Int64} {n : ℕ}
    (h : fraction text rest = .ok (x, n, [])) :
    ∃ f, AllDigits f ∧ f.length ≤ kScale ∧ rest = pointText f := by
  cases rest with
  | nil => exact ⟨[], by simp [AllDigits], by simp, rfl⟩
  | cons c cs =>
      rw [fraction] at h
      split_ifs at h with hc hcs
      · obtain ⟨hdigits, hlen⟩ := fractionLoop_ok h (Nat.zero_le _)
        rw [Nat.zero_add] at hlen
        refine ⟨cs, hdigits, hlen, ?_⟩
        have hne : cs ≠ [] := by
          rintro rfl
          cases hcs
        rw [pointText, if_neg hne, hc]
      · cases h

/-- What is accepted starts with a digit after its sign. -/
lemma exists_sign {text : Str} {d : Decimal} (h : parse text = .ok d) :
    ∃ sign u, text = signText sign ++ u ∧ startsWithDigit u = true := by
  cases text with
  | nil => cases h
  | cons c cs =>
      have hu : startsWithDigit (if c = byte '+' ∨ c = byte '-' then cs else c :: cs) = true := by
        by_contra hno
        simp only [parse, if_neg hno] at h
        cases h
      split_ifs at hu with hc
      · rcases hc with rfl | rfl
        · exact ⟨some .plus, cs, rfl, hu⟩
        · exact ⟨some .minus, cs, rfl, hu⟩
      · exact ⟨none, c :: cs, rfl, hu⟩

/-- What is accepted is a literal. -/
lemma exists_literal {text : Str} {d : Decimal} (h : parse text = .ok d) :
    ∃ l : Literal, l.text = text := by
  obtain ⟨sign, u, rfl, hu⟩ := exists_sign h
  rw [parse_signText sign hu] at h
  obtain ⟨hrest, w, hw, hu'⟩ := integerLoop_rest 0 u
  have hne : w ≠ [] := by
    rintro rfl
    rw [← List.nil_append (integerLoop 0 u).2, ← hu', hu] at hrest
    cases hrest
  cases hf : fraction (signText sign ++ u) (integerLoop 0 u).2 with
  | error e =>
      rw [hf] at h
      cases h
  | ok r =>
      obtain ⟨x, n, rest⟩ := r
      have hnil : rest = [] := by
        by_contra hno
        rw [hf] at h
        change (if rest = [] then _ else _) = _ at h
        rw [if_neg hno] at h
        cases h
      rw [hnil] at hf
      obtain ⟨f, hdigits, hlen, hpoint⟩ := fraction_ok hf
      exact ⟨⟨sign, w, f, hne, hw, hdigits, hlen⟩, by rw [text, ← hpoint, ← hu']⟩

/-- Reducing to 64 bits changes nothing if the magnitude fits into 63. -/
lemma toInt_scaled {l : Literal} (h : l.magnitude < 2 ^ 63) :
    (Int64.ofInt l.scaled).toInt = l.scaled := by
  have hrange : -2 ^ 63 ≤ l.scaled ∧ l.scaled < 2 ^ 63 := by
    unfold scaled
    split_ifs <;> omega
  exact Int64.toInt_ofInt_of_le hrange.1 hrange.2

/-- **`Decimal::parse` accepts exactly its grammar.** It returns a value for the literals and for
no other string, and the value it returns is the number the literal denotes, in units of `1e-8`,
as long as that number is of magnitude at most `2 ^ 63 - 1`. -/
theorem parse_grammar (text : Str) :
    ((∃ d, parse text = .ok d) ↔ ∃ l : Literal, l.text = text) ∧
    ∀ l : Literal, l.text = text → |l.value| * 10 ^ 8 ≤ 2 ^ 63 - 1 →
      ∃ d, parse text = .ok d ∧ (d.raw.toInt : ℚ) = l.value * 10 ^ 8 := by
  refine ⟨⟨?_, ?_⟩, ?_⟩
  · rintro ⟨d, hd⟩
    exact exists_literal hd
  · rintro ⟨l, rfl⟩
    exact ⟨_, parse_text l⟩
  · rintro l rfl hfits
    refine ⟨_, parse_text l, ?_⟩
    rw [toInt_scaled (abs_value_le_iff.mp hfits), scaled_eq]

/-- The literal `-12.50`. -/
def signedLiteral : Literal where
  sign := some .minus
  integer := ascii "12"
  fraction := ascii "50"
  integer_ne_nil := by decide
  integer_digits := List.all_eq_true.mp rfl
  fraction_digits := List.all_eq_true.mp rfl
  fraction_length := by decide

/-- It is read as the number it denotes, and a point without digits after it is no literal. -/
theorem parse_grammar_signed :
    (∃ d, parse (ascii "-12.50") = .ok d ∧ (d.raw.toInt : ℚ) = -(25 / 2) * 10 ^ 8) ∧
    ¬ ∃ l : Literal, l.text = ascii "12." := by
  have hvalue : signedLiteral.value = -(25 / 2) := by
    have hint : numeral (ascii "12") = 12 ∧ numeral (ascii "50") = 50 := by decide
    have hneg : signedLiteral.negative = true := rfl
    rw [value, if_pos hneg]
    simp only [signedLiteral, hint.1, hint.2, show (ascii "50").length = 2 from rfl]
    norm_num
  constructor
  · obtain ⟨d, hd, hraw⟩ := (parse_grammar (ascii "-12.50")).2 signedLiteral rfl
      (by rw [hvalue]; norm_num)
    exact ⟨d, hd, by rw [hraw, hvalue]⟩
  · rw [← (parse_grammar (ascii "12.")).1]
    rintro ⟨d, hd⟩
    cases hd

end Decimal

end BinanceAggregator
