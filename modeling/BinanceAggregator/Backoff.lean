import Mathlib.Data.Nat.Prime.Basic
import Mathlib.Tactic.Ring

/-!
The delays between connection attempts.

The delay doubles with the number of the attempt, up to a cap. The counter is set back after an
attempt that ended in the read loop, whether a message was read or not. It was meant to be set
back after an attempt that read a message, and the two differ at an attempt whose first read
fails.
-/

namespace BinanceAggregator

/-- `agg::config::ReconnectConfig`, as the loader accepts it. -/
structure ReconnectConfig where
  initialBackoffMs : UInt64
  maxBackoffMs : UInt64
  positive : 0 < initialBackoffMs
  ordered : initialBackoffMs ≤ maxBackoffMs

/-- The default configuration. -/
def ReconnectConfig.default : ReconnectConfig := ⟨500, 30000, by decide, by decide⟩

/-- `agg::net::ConnectionStage`. -/
inductive ConnectionStage
  | resolve
  | tcpConnect
  | tlsHandshake
  | webSocketHandshake
  | read
  deriving DecidableEq

/-- How a connection attempt ended: before the read loop, or in it after some messages. -/
inductive Outcome
  | failed (stage : ConnectionStage)
  | read (messages : ℕ)
  deriving DecidableEq

/-- Whether an attempt read a message. -/
def Outcome.readSome : Outcome → Bool
  | .read messages => 0 < messages
  | .failed _ => false

namespace Backoff

/-! ### The delay of an attempt -/

/-- The loop of `base_delay_for_attempt`. -/
def doubling (maxMs : UInt64) : ℕ → UInt64 → UInt64
  | 0, delayMs => delayMs
  | n + 1, delayMs => if delayMs < maxMs then doubling maxMs n (delayMs * 2) else delayMs

def baseDelayForAttempt (R : ReconnectConfig) (attempt : UInt32) : UInt64 :=
  let delayMs := doubling R.maxBackoffMs attempt.toNat R.initialBackoffMs
  if R.maxBackoffMs < delayMs then R.maxBackoffMs else delayMs

/-- Below the cap the loop has doubled every time, in 64 bits. -/
lemma doubling_toNat {maxMs d : UInt64} {n : ℕ} (h : doubling maxMs n d < maxMs) :
    (doubling maxMs n d).toNat = d.toNat * 2 ^ n % 2 ^ 64 := by
  induction n generalizing d with
  | zero =>
      have := d.toNat_lt
      simp only [doubling]
      omega
  | succ n ih =>
      have hd : d < maxMs := by
        unfold doubling at h
        split_ifs at h with hd
        · exact hd
        · exact h
      have hloop : doubling maxMs (n + 1) d = doubling maxMs n (d * 2) := if_pos hd
      rw [hloop] at h ⊢
      rw [ih h, UInt64.toNat_mul]
      have htwo : (2 : UInt64).toNat = 2 := rfl
      have hpow : d.toNat * 2 ^ (n + 1) = d.toNat * 2 * 2 ^ n := by ring
      rw [htwo, hpow, Nat.mod_mul_mod]

/-- Doubling a number that is not zero never gives it back. -/
lemma ne_of_doubled {d n : ℕ} (hd : 0 < d) (hlt : d < 2 ^ 64) (hn : 0 < n) :
    d * 2 ^ n % 2 ^ 64 ≠ d := by
  intro h
  obtain ⟨m, hm⟩ : ∃ m, 2 ^ n = m + 1 := ⟨2 ^ n - 1, by have := Nat.two_pow_pos n; omega⟩
  have hcop : Nat.Coprime (2 ^ 64) m := by
    have hodd : ¬ 2 ∣ m := by
      obtain ⟨k, rfl⟩ : ∃ k, n = k + 1 := ⟨n - 1, by omega⟩
      rw [pow_succ] at hm
      omega
    exact Nat.Coprime.pow_left 64 ((Nat.Prime.coprime_iff_not_dvd Nat.prime_two).mpr hodd)
  have hdvd : 2 ^ 64 ∣ d * m := by
    have hsplit : d * 2 ^ n = d * m + d := by rw [hm]; ring
    rw [hsplit] at h
    have hdiv := Nat.mod_add_div (d * m + d) (2 ^ 64)
    rw [h] at hdiv
    exact ⟨(d * m + d) / 2 ^ 64, by omega⟩
  have hle := Nat.le_of_dvd hd (hcop.dvd_of_dvd_mul_right hdvd)
  omega

lemma baseDelay_zero (R : ReconnectConfig) : baseDelayForAttempt R 0 = R.initialBackoffMs :=
  if_neg (UInt64.not_lt.mpr R.ordered)

/-- With one bound for all delays there is one delay. -/
lemma baseDelay_of_eq {R : ReconnectConfig} (h : R.initialBackoffMs = R.maxBackoffMs)
    (attempt : UInt32) : baseDelayForAttempt R attempt = R.initialBackoffMs := by
  have hloop : doubling R.maxBackoffMs attempt.toNat R.initialBackoffMs = R.initialBackoffMs := by
    cases attempt.toNat with
    | zero => rfl
    | succ n => exact if_neg (h ▸ UInt64.lt_irrefl _)
  unfold baseDelayForAttempt
  rw [hloop, if_neg (UInt64.not_lt.mpr R.ordered)]

/-- Otherwise only the first delay is the initial one. -/
lemma baseDelay_eq_initial {R : ReconnectConfig} (h : R.initialBackoffMs ≠ R.maxBackoffMs)
    {attempt : UInt32} (ha : baseDelayForAttempt R attempt = R.initialBackoffMs) : attempt = 0 := by
  obtain ⟨d, hd⟩ : ∃ d, d = doubling R.maxBackoffMs attempt.toNat R.initialBackoffMs := ⟨_, rfl⟩
  unfold baseDelayForAttempt at ha
  rw [← hd] at ha
  change (if R.maxBackoffMs < d then R.maxBackoffMs else d) = R.initialBackoffMs at ha
  split_ifs at ha with hlt
  · exact absurd ha.symm h
  · -- the delay is the initial one, and so below the cap
    have hle := UInt64.le_iff_toNat_le.mp R.ordered
    have hne : R.initialBackoffMs.toNat ≠ R.maxBackoffMs.toNat := fun he => h (UInt64.toNat_inj.mp he)
    have hcap : d < R.maxBackoffMs := by
      rw [ha, UInt64.lt_iff_toNat_lt]
      omega
    have htoNat := doubling_toNat (hd ▸ hcap)
    rw [← hd, ha] at htoNat
    by_contra hzero
    have hpos : 0 < attempt.toNat :=
      Nat.pos_of_ne_zero fun hz => hzero (UInt32.toNat_inj.mp (by simpa using hz))
    exact ne_of_doubled (UInt64.lt_iff_toNat_lt.mp R.positive) R.initialBackoffMs.toNat_lt hpos
      htoNat.symm

/-! ### The closed form -/

/-- What `base_delay_for_attempt` returns: the unsigned count as a signed number of milliseconds. -/
def baseDelay (R : ReconnectConfig) (attempt : UInt32) : Int64 :=
  (baseDelayForAttempt R attempt).toInt64

/-- The delay in exact arithmetic. -/
def exactDelay (R : ReconnectConfig) (attempt : UInt32) : ℕ :=
  min (R.initialBackoffMs.toNat * 2 ^ attempt.toNat) R.maxBackoffMs.toNat

/-- As long as no doubling leaves 63 bits the loop does what it is meant to: either the cap is
reached before, or the last value is small enough. -/
lemma min_doubling {maxMs d : UInt64} {n : ℕ}
    (h : maxMs.toNat < 2 ^ 63 ∨ d.toNat * 2 ^ n < 2 ^ 63) :
    min (doubling maxMs n d).toNat maxMs.toNat = min (d.toNat * 2 ^ n) maxMs.toNat := by
  induction n generalizing d with
  | zero => simp [doubling]
  | succ n ih =>
      have hpow : d.toNat * 2 ^ (n + 1) = d.toNat * 2 * 2 ^ n := by ring
      have hone : 1 ≤ 2 ^ n := Nat.one_le_two_pow
      rw [hpow] at h ⊢
      have hle : d.toNat * 2 ≤ d.toNat * 2 * 2 ^ n := Nat.le_mul_of_pos_right _ hone
      unfold doubling
      split_ifs with hd
      · rw [UInt64.lt_iff_toNat_lt] at hd
        have htwice : (d * 2).toNat = d.toNat * 2 := by
          have htwo : (2 : UInt64).toNat = 2 := rfl
          rw [UInt64.toNat_mul, htwo]
          exact Nat.mod_eq_of_lt (by omega)
        rw [ih (htwice ▸ h), htwice]
      · -- the cap is reached, and doubling would only go beyond it
        rw [UInt64.lt_iff_toNat_lt] at hd
        omega

lemma baseDelayForAttempt_toNat {R : ReconnectConfig} {attempt : UInt32}
    (h : R.maxBackoffMs.toNat < 2 ^ 63 ∨ R.initialBackoffMs.toNat * 2 ^ attempt.toNat < 2 ^ 63) :
    (baseDelayForAttempt R attempt).toNat = exactDelay R attempt := by
  have hmin := min_doubling h
  rw [exactDelay, ← hmin, baseDelayForAttempt]
  split_ifs with hlt <;> rw [UInt64.lt_iff_toNat_lt] at hlt <;> omega

/-- A count below `2 ^ 63` keeps its value as a signed one. -/
lemma toInt_toInt64 {x : UInt64} (h : x.toNat < 2 ^ 63) : x.toInt64.toInt = x.toNat := by
  change x.toBitVec.toInt = (x.toBitVec.toNat : ℤ)
  exact BitVec.toInt_eq_toNat_of_lt (by have : x.toBitVec.toNat = x.toNat := rfl; omega)

lemma exactDelay_lt_iff (R : ReconnectConfig) (attempt : UInt32) : exactDelay R attempt < 2 ^ 63 ↔
    R.maxBackoffMs.toNat < 2 ^ 63 ∨ R.initialBackoffMs.toNat * 2 ^ attempt.toNat < 2 ^ 63 := by
  unfold exactDelay
  omega

/-- The delay is the exact one if and only if that has a place among the signed numbers. -/
lemma baseDelay_eq_iff (R : ReconnectConfig) (attempt : UInt32) :
    (baseDelay R attempt).toInt = exactDelay R attempt ↔
      R.maxBackoffMs.toNat < 2 ^ 63 ∨ R.initialBackoffMs.toNat * 2 ^ attempt.toNat < 2 ^ 63 := by
  constructor
  · intro h
    rw [← exactDelay_lt_iff]
    have hlt := (baseDelay R attempt).toInt_lt
    omega
  · intro h
    have htoNat := baseDelayForAttempt_toNat h
    rw [← exactDelay_lt_iff, ← htoNat] at h
    rw [baseDelay, toInt_toInt64 h, htoNat]

lemma exactDelay_pos (R : ReconnectConfig) (attempt : UInt32) : 0 < exactDelay R attempt := by
  have hpos : 0 < R.initialBackoffMs.toNat := UInt64.lt_iff_toNat_lt.mp R.positive
  have hle := UInt64.le_iff_toNat_le.mp R.ordered
  have hprod : 0 < R.initialBackoffMs.toNat * 2 ^ attempt.toNat :=
    Nat.mul_pos hpos (Nat.two_pow_pos _)
  unfold exactDelay
  omega

lemma exactDelay_mono (R : ReconnectConfig) {a b : UInt32} (h : a ≤ b) :
    exactDelay R a ≤ exactDelay R b := by
  have hpow : 2 ^ a.toNat ≤ 2 ^ b.toNat :=
    Nat.pow_le_pow_right (by decide) (UInt32.le_iff_toNat_le.mp h)
  have hprod : R.initialBackoffMs.toNat * 2 ^ a.toNat ≤ R.initialBackoffMs.toNat * 2 ^ b.toNat :=
    Nat.mul_le_mul_left _ hpow
  unfold exactDelay
  omega

/-- **When the backoff has its closed form.** The delay of an attempt is the initial one doubled
that many times, or the cap, exactly if one of the two is below `2 ^ 63`. With a cap below
`2 ^ 63` all delays are positive, not above the cap, and do not decrease. -/
theorem baseDelay_closed_form (R : ReconnectConfig) :
    (∀ attempt, (baseDelay R attempt).toInt =
        min (R.initialBackoffMs.toNat * 2 ^ attempt.toNat) R.maxBackoffMs.toNat ↔
      R.maxBackoffMs.toNat < 2 ^ 63 ∨
        R.initialBackoffMs.toNat * 2 ^ attempt.toNat < 2 ^ 63) ∧
    (R.maxBackoffMs.toNat < 2 ^ 63 →
      (∀ attempt, 0 < (baseDelay R attempt).toInt ∧
        (baseDelay R attempt).toInt ≤ R.maxBackoffMs.toNat) ∧
      ∀ a b, a ≤ b → (baseDelay R a).toInt ≤ (baseDelay R b).toInt) := by
  refine ⟨baseDelay_eq_iff R, fun hcap => ?_⟩
  have hdelay (attempt : UInt32) := (baseDelay_eq_iff R attempt).mpr (.inl hcap)
  refine ⟨fun attempt => ?_, fun a b hab => ?_⟩
  · have hpos := exactDelay_pos R attempt
    have hle : exactDelay R attempt ≤ R.maxBackoffMs.toNat := Nat.min_le_right _ _
    rw [hdelay]
    omega
  · have hmono := exactDelay_mono R hab
    rw [hdelay, hdelay]
    omega

/-- Bounds that the loader accepts and a signed count cannot hold. -/
def endless : ReconnectConfig := ⟨9223372036854775808, 9223372036854775808, by decide, by decide⟩

/-- The first delay is negative, so that there is no wait at all. -/
theorem endless_baseDelay : (baseDelay endless 0).toInt = -9223372036854775808 ∧
    (baseDelay endless 0).toInt ≠
      min (endless.initialBackoffMs.toNat * 2 ^ (0 : UInt32).toNat) endless.maxBackoffMs.toNat := by
  decide

/-! ### The counter -/

variable (os : List Outcome)

/-- The number of attempts since the most recent one, up to the `n`-th, that read a message; the
number of the attempt if there was none. -/
def since : ℕ → ℕ
  | 0 => 0
  | n + 1 => if os[n + 1]?.any Outcome.readSome then 0 else since n + 1

/-- The counter of the policy during the wait after the `n`-th attempt. -/
def attemptAt : ℕ → UInt32
  | 0 => 0
  | n + 1 => match os[n + 1]? with
    | some (.failed _) => attemptAt n + 1
    | _ => 0

/-- The counter of the policy before the `n`-th attempt. -/
def before : ℕ → UInt32
  | 0 => 0
  | n + 1 => attemptAt os n + 1

variable {os}

lemma attemptAt_of_read {n k : ℕ} (h : os[n]? = some (.read k)) : attemptAt os n = 0 := by
  cases n with
  | zero => rfl
  | succ n =>
      unfold attemptAt
      rw [h]

lemma attemptAt_of_failed {n : ℕ} {stage : ConnectionStage} (h : os[n]? = some (.failed stage)) :
    attemptAt os n = before os n := by
  cases n with
  | zero => rfl
  | succ n =>
      unfold attemptAt
      rw [h]
      rfl

/-- Later attempts do not change the counter of the earlier ones. -/
lemma attemptAt_append (more : List Outcome) {n : ℕ} (h : n < os.length) :
    attemptAt (os ++ more) n = attemptAt os n := by
  induction n with
  | zero => rfl
  | succ n ih =>
      unfold attemptAt
      rw [List.getElem?_append_left h, ih (by omega)]

lemma before_append (more : List Outcome) {n : ℕ} (h : n ≤ os.length) :
    before (os ++ more) n = before os n := by
  cases n with
  | zero => rfl
  | succ n => rw [before, before, attemptAt_append more (by omega)]

lemma ofNat_eq_zero_iff {n : ℕ} : UInt32.ofNat n = 0 ↔ 2 ^ 32 ∣ n := by
  rw [← UInt32.toNat_inj, UInt32.toNat_ofNat']
  exact ⟨Nat.dvd_of_mod_eq_zero, Nat.mod_eq_zero_of_dvd⟩

/-- As long as the counter is only set back where it is zero anyway, or after a message, it counts
the attempts since a message. -/
lemma attemptAt_eq_since {n : ℕ} (hn : n < os.length)
    (h : ∀ m ≤ n, os[m]? = some (.read 0) → 2 ^ 32 ∣ since os m) :
    attemptAt os n = UInt32.ofNat (since os n) := by
  induction n with
  | zero => rfl
  | succ n ih =>
      have hprev := ih (by omega) fun m hm => h m (by omega)
      obtain ⟨o, ho⟩ : ∃ o, os[n + 1]? = some o := ⟨_, List.getElem?_eq_getElem hn⟩
      cases o with
      | failed stage =>
          have hsince : since os (n + 1) = since os n + 1 := by
            simp [since, ho, Outcome.readSome]
          rw [attemptAt_of_failed ho, hsince, before, hprev, UInt32.ofNat_add]
          rfl
      | read k =>
          rw [attemptAt_of_read ho]
          cases k with
          | zero => exact (ofNat_eq_zero_iff.mpr (h (n + 1) le_rfl ho)).symm
          | succ k =>
              have hsince : since os (n + 1) = 0 := by simp [since, ho, Outcome.readSome]
              rw [hsince]
              rfl

/-- **When the delays are the intended ones**: all delays are the same, or the counter is never
set back without a message while it should count on. -/
theorem delays_iff (R : ReconnectConfig) {N : ℕ} (hN : N ≤ os.length) :
    (∀ n < N, baseDelayForAttempt R (attemptAt os n) =
      baseDelayForAttempt R (UInt32.ofNat (since os n))) ↔
    R.initialBackoffMs = R.maxBackoffMs ∨
      ∀ n < N, os[n]? = some (.read 0) → 2 ^ 32 ∣ since os n := by
  constructor
  · intro h
    by_cases hR : R.initialBackoffMs = R.maxBackoffMs
    · exact .inl hR
    · refine .inr fun n hn ho => ?_
      have hdelay := h n hn
      rw [attemptAt_of_read ho, baseDelay_zero] at hdelay
      exact ofNat_eq_zero_iff.mp (baseDelay_eq_initial hR hdelay.symm)
  · rintro (hR | h) n hn
    · rw [baseDelay_of_eq hR, baseDelay_of_eq hR]
    · rw [attemptAt_eq_since (by omega) fun m hm => h m (by omega)]

end Backoff

end BinanceAggregator
