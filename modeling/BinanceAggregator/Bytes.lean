import Mathlib.Data.Nat.Digits.Lemmas
import Mathlib.Data.List.DropRight
import Mathlib.Tactic.Ring

/-!
Byte strings, as `std::string` holds them, and the numerals among them.

Every text of the program goes through two library functions on them, the test for a digit and the
rendering of a number. The rendering of a number is a numeral without a leading zero, and reading it
gives the number back. Zeros in front of a numeral do not count, and each zero after it multiplies
by ten.
-/

namespace BinanceAggregator

/-- A `std::string`: any bytes, compared as `char_traits<char>` compares them, byte by byte
and unsigned. -/
abbrev Str := List UInt8

/-- A character of a string literal. -/
def byte (c : Char) : UInt8 := c.toNat.toUInt8

/-- A string literal of the source; all of them are ASCII. -/
def ascii (s : String) : Str := s.toList.map byte

/-- What holds of every byte can be checked byte by byte. -/
theorem forall_byte {p : UInt8 → Prop} (h : ∀ i : Fin 256, p (.ofFin i)) (c : UInt8) : p c :=
  h c.toFin

/-- `std::isdigit` in the C locale. -/
def isDigit (c : UInt8) : Bool := byte '0' ≤ c && c ≤ byte '9'

/-- `std::to_string` of an unsigned number. -/
def natText (n : ℕ) : Str :=
  if n = 0 then [byte '0'] else (Nat.digits 10 n).reverse.map fun d => byte '0' + d.toUInt8

/-! ### Numerals -/

/-- The value of a digit. -/
def digitOf (c : UInt8) : ℕ := (c - byte '0').toNat

/-- The number a string of digits denotes. -/
def numeral (w : Str) : ℕ := w.foldl (fun v c => v * 10 + digitOf c) 0

def AllDigits (w : Str) : Prop := ∀ c ∈ w, isDigit c = true

lemma foldl_numeral (v : ℕ) (w : Str) :
    w.foldl (fun v c => v * 10 + digitOf c) v = v * 10 ^ w.length + numeral w := by
  induction w generalizing v with
  | nil => simp [numeral]
  | cons c w ih =>
      rw [numeral, List.foldl_cons, List.foldl_cons, ih, ih (0 * 10 + digitOf c), List.length_cons]
      ring

@[simp] lemma numeral_nil : numeral [] = 0 := rfl

lemma numeral_cons (c : UInt8) (w : Str) :
    numeral (c :: w) = digitOf c * 10 ^ w.length + numeral w := by
  rw [numeral, List.foldl_cons, foldl_numeral, Nat.zero_mul, Nat.zero_add]

lemma numeral_append (u v : Str) : numeral (u ++ v) = numeral u * 10 ^ v.length + numeral v := by
  rw [numeral, List.foldl_append, foldl_numeral, ← numeral]

lemma digitOf_zero : digitOf (byte '0') = 0 := by decide

lemma isDigit_iff {c : UInt8} : isDigit c = true ↔ 48 ≤ c.toNat ∧ c.toNat ≤ 57 := by
  have h0 : (byte '0').toNat = 48 := by decide
  have h9 : (byte '9').toNat = 57 := by decide
  simp [isDigit, UInt8.le_iff_toNat_le, h0, h9]

/-- The digit that denotes a number below ten. -/
lemma digit_spec : ∀ d < 10, isDigit (byte '0' + d.toUInt8) = true ∧
    digitOf (byte '0' + d.toUInt8) = d := by
  decide

@[simp] lemma numeral_replicate_zero (k : ℕ) : numeral (List.replicate k (byte '0')) = 0 := by
  induction k with
  | zero => rfl
  | succ k ih => rw [List.replicate_succ, numeral_cons, digitOf_zero, ih, Nat.zero_mul]

/-! ### The rendering of a number -/

lemma natText_ne_nil (n : ℕ) : natText n ≠ [] := by
  unfold natText
  split_ifs with h
  · simp
  · simpa [Nat.digits_eq_nil_iff_eq_zero] using h

lemma allDigits_natText (n : ℕ) : AllDigits (natText n) := by
  unfold natText
  split_ifs with h
  · intro c hc
    rw [List.mem_singleton.mp hc]
    decide
  · intro c hc
    obtain ⟨d, hd, rfl⟩ := List.mem_map.mp hc
    exact (digit_spec d (Nat.digits_lt_base (by omega) (List.mem_reverse.mp hd))).1

/-- Reading a string of digits, least significant digit first. -/
lemma numeral_reverse_map {ds : List ℕ} (h : ∀ d ∈ ds, d < 10) :
    numeral (ds.reverse.map fun d => byte '0' + d.toUInt8) = Nat.ofDigits 10 ds := by
  induction ds with
  | nil => rfl
  | cons d ds ih =>
      have hd := (digit_spec d (h d List.mem_cons_self)).2
      rw [List.reverse_cons, List.map_append, numeral_append,
        ih fun e he => h e (List.mem_cons_of_mem d he), List.map_singleton, numeral_cons, hd,
        Nat.ofDigits_cons]
      simp
      ring

/-- What is rendered is read back. -/
@[simp] lemma numeral_natText (n : ℕ) : numeral (natText n) = n := by
  unfold natText
  split_ifs with h
  · rw [h]
    decide
  · rw [numeral_reverse_map fun d hd => Nat.digits_lt_base (by omega) hd, Nat.ofDigits_digits]

lemma natText_injective : Function.Injective natText :=
  Function.LeftInverse.injective numeral_natText

/-- A number is rendered without a leading zero, unless it is zero. -/
lemma head_natText {n : ℕ} (h : (natText n).head? = some (byte '0')) : n = 0 := by
  by_contra hn
  have hne : Nat.digits 10 n ≠ [] := Nat.digits_ne_nil_iff_ne_zero.mpr hn
  have hlast : (Nat.digits 10 n).getLast hne < 10 :=
    Nat.digits_lt_base (by omega) (List.getLast_mem hne)
  rw [natText, if_neg hn, List.head?_map, List.head?_reverse, List.getLast?_eq_some_getLast hne,
    Option.map_some, Option.some.injEq] at h
  have hzero := (digit_spec _ hlast).2
  rw [h, digitOf_zero] at hzero
  exact Nat.getLast_digit_ne_zero 10 hn hzero.symm

/-- The rendering of a number has no more digits than the number. -/
lemma length_natText_le {n k : ℕ} (hk : 0 < k) (h : n < 10 ^ k) : (natText n).length ≤ k := by
  unfold natText
  split_ifs with hn
  · exact hk
  · simpa using (Nat.digits_length_le_iff (by omega) n).mpr h

/-! ### Zeros in front and at the end -/

lemma numeral_zeros_append (k : ℕ) (w : Str) :
    numeral (List.replicate k (byte '0') ++ w) = numeral w := by
  rw [numeral_append, numeral_replicate_zero, Nat.zero_mul, Nat.zero_add]

/-- A string without its trailing zeros, and the zeros. -/
lemma rdropWhile_append_zeros (w : Str) : ∃ k,
    w = w.rdropWhile (· = byte '0') ++ List.replicate k (byte '0') := by
  refine ⟨(w.rtakeWhile (· = byte '0')).length, ?_⟩
  have hzeros : w.rtakeWhile (· = byte '0') =
      List.replicate (w.rtakeWhile (· = byte '0')).length (byte '0') := by
    refine List.eq_replicate_iff.mpr ⟨rfl, fun c hc => ?_⟩
    simpa using List.mem_rtakeWhile_imp hc
  rw [← hzeros, List.rdropWhile_append_rtakeWhile]

lemma numeral_rdropWhile_zeros (w : Str) :
    numeral (w.rdropWhile (· = byte '0')) *
      10 ^ (w.length - (w.rdropWhile (· = byte '0')).length) = numeral w := by
  obtain ⟨k, hk⟩ := rdropWhile_append_zeros w
  have hlen : w.length = (w.rdropWhile (· = byte '0')).length + k := by
    conv_lhs => rw [hk]
    simp
  conv_rhs => rw [hk, numeral_append, numeral_replicate_zero, List.length_replicate]
  rw [hlen, Nat.add_sub_cancel_left, Nat.add_zero]

end BinanceAggregator
