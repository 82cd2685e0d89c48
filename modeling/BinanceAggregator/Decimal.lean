import Mathlib.Order.Basic
import Mathlib.Data.List.DropRight
import Mathlib.Algebra.Group.Defs
import Mathlib.Tactic.Lemma
import BinanceAggregator.Bytes

/-!
Fixed-point decimals with eight fractional digits, held in a signed 64-bit integer.

Signed operations wrap around, as the target machines do; where a statement depends on a
value staying in range it says so.
-/

namespace BinanceAggregator

/-- `agg::util::Decimal`. -/
@[ext]
structure Decimal where
  raw : Int64 := 0
  deriving DecidableEq, Repr

namespace Decimal

def kScale : ℕ := 8

def kScaleFactor : ℤ := 100000000

def fromRaw (raw : Int64) : Decimal := ⟨raw⟩

instance : Add Decimal := ⟨fun lhs rhs => fromRaw (lhs.raw + rhs.raw)⟩

/-- The product is taken in 128 bits, which hold the product of any two 64-bit values, then
divided with truncation, and the quotient is narrowed back to 64 bits. -/
instance : Mul Decimal :=
  ⟨fun lhs rhs => fromRaw (Int64.ofInt ((lhs.raw.toInt * rhs.raw.toInt).tdiv kScaleFactor))⟩

/-- Decimals are compared by their raw values. -/
instance : LinearOrder Decimal :=
  LinearOrder.lift' (fun d => d.raw.toInt) fun _ _ h => Decimal.ext (Int64.toInt_inj.mp h)

@[simp] lemma add_raw (a b : Decimal) : (a + b).raw = a.raw + b.raw := rfl

lemma mul_raw (a b : Decimal) :
    (a * b).raw = Int64.ofInt ((a.raw.toInt * b.raw.toInt).tdiv kScaleFactor) := rfl

instance : Zero Decimal := ⟨{}⟩

instance : AddCommMonoid Decimal where
  add_assoc _ _ _ := Decimal.ext (Int64.add_assoc _ _ _)
  add_comm _ _ := Decimal.ext (Int64.add_comm _ _)
  zero_add _ := Decimal.ext (Int64.zero_add _)
  add_zero _ := Decimal.ext (Int64.add_zero _)
  nsmul := nsmulRec

/-- The 128-bit product of two raw values never overflows. -/
lemma product_in_range (a b : Decimal) :
    -2 ^ 127 ≤ a.raw.toInt * b.raw.toInt ∧ a.raw.toInt * b.raw.toInt < 2 ^ 127 := by
  have h : (a.raw.toInt * b.raw.toInt).natAbs ≤ 2 ^ 63 * 2 ^ 63 := by
    rw [Int.natAbs_mul]
    have ha := a.raw.le_toInt
    have ha' := a.raw.toInt_lt
    have hb := b.raw.le_toInt
    have hb' := b.raw.toInt_lt
    exact Nat.mul_le_mul (by omega) (by omega)
  omega

/-! ### Reading -/

/-- `text[idx] - '0'`, for a digit. -/
def digitVal (c : UInt8) : Int64 := Int64.ofNat (c - byte '0').toNat

def startsWithDigit : Str → Bool
  | [] => false
  | c :: _ => isDigit c

/-- The loop over the integer part: the value so far and what is left of the text. -/
def integerLoop (integerPart : Int64) : Str → Int64 × Str
  | [] => (integerPart, [])
  | c :: cs =>
    if isDigit c then integerLoop (integerPart * 10 + digitVal c) cs else (integerPart, c :: cs)

/-- The loop over the fraction of `text`: the value so far, the number of its digits, and what
is left. -/
def fractionLoop (text : Str) (fractionalPart : Int64) (fractionalDigits : ℕ) :
    Str → Except Str (Int64 × ℕ × Str)
  | [] => .ok (fractionalPart, fractionalDigits, [])
  | c :: cs =>
    if isDigit c then
      if kScale ≤ fractionalDigits then
        .error (ascii "Decimal string exceeds supported precision: " ++ text)
      else fractionLoop text (fractionalPart * 10 + digitVal c) (fractionalDigits + 1) cs
    else .ok (fractionalPart, fractionalDigits, c :: cs)

/-- The part of the text from the decimal point on, if there is one. -/
def fraction (text : Str) : Str → Except Str (Int64 × ℕ × Str)
  | [] => .ok (0, 0, [])
  | c :: cs =>
    if c = byte '.' then
      if startsWithDigit cs then fractionLoop text 0 0 cs
      else .error (ascii "Decimal string must have digits after '.': " ++ text)
    else .ok (0, 0, c :: cs)

/-- `fractional_part *= 10`, `n` times. -/
def scaleUp (fractionalPart : Int64) : ℕ → Int64
  | 0 => fractionalPart
  | n + 1 => scaleUp (fractionalPart * 10) n

/-- `Decimal::parse`; the error is the message of the `std::invalid_argument` it throws. -/
def parse (text : Str) : Except Str Decimal :=
  match text with
  | [] => .error (ascii "Decimal string must not be empty")
  | c :: cs => do
    let negative := c = byte '-'
    let unsigned := if c = byte '+' ∨ c = byte '-' then cs else c :: cs
    if startsWithDigit unsigned then
      let (integerPart, rest) := integerLoop 0 unsigned
      let (fractionalPart, fractionalDigits, rest) ← fraction text rest
      if rest = [] then
        let raw := integerPart * Int64.ofInt kScaleFactor +
          scaleUp fractionalPart (kScale - fractionalDigits)
        return fromRaw (if negative then -raw else raw)
      else throw (ascii "Decimal string contains invalid characters: " ++ text)
    else throw (ascii "Decimal string must contain an integer part: " ++ text)

/-! ### Writing -/

/-- The fraction with leading zeros up to eight digits and without its trailing zeros. -/
def fractionText (fractionalPart : ℕ) : Str :=
  let digits := natText fractionalPart
  (List.replicate (kScale - digits.length) (byte '0') ++ digits).rdropWhile (· = byte '0')

/-- `Decimal::to_string`. -/
def toText (d : Decimal) : Str :=
  let negative := d.raw < 0
  let magnitude := (if negative then -d.raw else d.raw).toUInt64.toNat
  let integerPart := magnitude / kScaleFactor.toNat
  let fractional := fractionText (magnitude % kScaleFactor.toNat)
  (if negative then [byte '-'] else []) ++ natText integerPart ++
    (if fractional = [] then [] else byte '.' :: fractional)

example : parse (ascii "43012.10") = .ok ⟨4301210000000⟩ := by decide
example : toText ⟨-4301210000000⟩ = ascii "-43012.1" := by decide
example : parse (ascii "1.") = .error (ascii "Decimal string must have digits after '.': 1.") := by
  decide

end Decimal

end BinanceAggregator
