import Mathlib.Algebra.Order.Round
import Mathlib.Data.Rat.Floor
import Mathlib.Order.Monotone.Defs
import Mathlib.Tactic.Linarith
import Mathlib.Tactic.NormNum
import BinanceAggregator.Reconnects

/-!
The delays between the connections of the network stage.

A new connection is made only after the timer of a wait has run out, and each wait has been given
a delay of its own, which lies within bounds. How long a timer then takes is up to the system, and
nothing is said about it. The delay is the one of the attempt, spread by a random amount. In 64-bit
floating point the spread is not exact, but as long as the delays are not beyond the integers that
a `double` can hold, the result is never outside the bounds that exact arithmetic gives, rounded to
whole milliseconds.
-/

namespace BinanceAggregator

/-! ### Rounded arithmetic

A floating-point operation rounds the exact result. Of the rounding it is used only that it is
monotone and that it keeps the integers that the significand has room for. Whatever lies between two
such integers is therefore rounded to something between them, so that bounds by integers survive
every operation. -/

/-- The rounding of a floating-point format with 53 bits of significand. -/
structure Rounding where
  round : ℚ → ℚ
  mono : Monotone round
  exact : ∀ n : ℤ, |n| ≤ 2 ^ 53 → round n = n

namespace Rounding

variable {F : Rounding} {x : ℚ} {n : ℤ}

/-- No rounding at all. -/
def none : Rounding := ⟨id, monotone_id, fun _ _ => rfl⟩

lemma round_le (hn : |n| ≤ 2 ^ 53) (h : x ≤ n) : F.round x ≤ n := by
  rw [← F.exact n hn]
  exact F.mono h

lemma le_round (hn : |n| ≤ 2 ^ 53) (h : n ≤ x) : (n : ℚ) ≤ F.round x := by
  rw [← F.exact n hn]
  exact F.mono h

end Rounding

/-! ### The spread of a delay -/

namespace Backoff

/-- What `std::uniform_real_distribution` draws lies between its bounds. -/
def Draws (draw : ℚ → ℚ → ℚ) : Prop := ∀ lo hi, lo ≤ hi → lo ≤ draw lo hi ∧ draw lo hi ≤ hi

/-- `apply_jitter`, for a delay in milliseconds. -/
def applyJitter (F : Rounding) (draw : ℚ → ℚ → ℚ) (jitterRatio : ℚ) (base : ℤ) : ℤ :=
  if jitterRatio ≤ 0 then base
  else
    let baseMs := F.round base
    let spread := F.round (baseMs * jitterRatio)
    let jitteredMs := draw (F.round (baseMs - spread)) (F.round (baseMs + spread))
    ⌊max 0 jitteredMs⌋

/-- The spread in exact arithmetic, rounded up. -/
def spreadMs (jitterRatio : ℚ) (base : ℤ) : ℤ := ⌈base * jitterRatio⌉

variable {F : Rounding} {draw : ℚ → ℚ → ℚ} {ratio : ℚ} {base : ℤ}

lemma spreadMs_bounds (h0 : 0 ≤ ratio) (h1 : ratio ≤ 1) (hb : 0 ≤ base) :
    0 ≤ spreadMs ratio base ∧ spreadMs ratio base ≤ base := by
  have hcast : (0 : ℚ) ≤ base := by exact_mod_cast hb
  refine ⟨Int.ceil_nonneg (mul_nonneg hcast h0), Int.ceil_le.mpr ?_⟩
  exact mul_le_of_le_one_right hcast h1

/-- The result is a whole number of milliseconds within the spread; in particular it is not
negative and has a place in 64 bits. -/
lemma applyJitter_bounds (hdraw : Draws draw) (h0 : 0 ≤ ratio) (h1 : ratio ≤ 1) (hb : 0 ≤ base)
    (hb' : base ≤ 2 ^ 52) : base - spreadMs ratio base ≤ applyJitter F draw ratio base ∧
      applyJitter F draw ratio base ≤ base + spreadMs ratio base := by
  obtain ⟨hs0, hs1⟩ := spreadMs_bounds h0 h1 hb
  unfold applyJitter
  split_ifs with hratio
  · omega
  · -- the base is exact, and the rounded spread is between 0 and the exact one rounded up
    have hbase : F.round base = base := F.exact base (by rw [abs_of_nonneg hb]; omega)
    have hspread0 : (0 : ℚ) ≤ F.round (base * ratio) := by
      have hprod : ((0 : ℤ) : ℚ) ≤ base * ratio := by
        exact_mod_cast mul_nonneg (by exact_mod_cast hb : (0 : ℚ) ≤ base) h0
      exact_mod_cast Rounding.le_round (F := F) (by norm_num) hprod
    have hspread : F.round (base * ratio) ≤ spreadMs ratio base :=
      Rounding.round_le (by rw [abs_of_nonneg hs0]; omega) (Int.le_ceil _)
    have hlo : ((base - spreadMs ratio base : ℤ) : ℚ) ≤
        F.round (base - F.round (base * ratio)) := by
      refine Rounding.le_round (by rw [abs_of_nonneg (by omega)]; omega) ?_
      push_cast
      linarith
    have hhi : F.round (base + F.round (base * ratio)) ≤
        ((base + spreadMs ratio base : ℤ) : ℚ) := by
      refine Rounding.round_le (by rw [abs_of_nonneg (by omega)]; omega) ?_
      push_cast
      linarith
    have horder : F.round (base - F.round (base * ratio)) ≤
        F.round (base + F.round (base * ratio)) := F.mono (by linarith)
    obtain ⟨hd1, hd2⟩ := hdraw _ _ horder
    simp only [hbase]
    constructor
    · exact Int.le_floor.mpr (le_max_of_le_right (hlo.trans hd1))
    · have hnonneg : (0 : ℚ) ≤ ((base + spreadMs ratio base : ℤ) : ℚ) := by
        exact_mod_cast (by omega : 0 ≤ base + spreadMs ratio base)
      have hmax := Int.floor_mono (max_le hnonneg (hd2.trans hhi))
      rwa [Int.floor_intCast] at hmax

/-- A longer delay is not spread below a shorter one's lower bound. -/
lemma lower_mono {b b' : ℤ} (h1 : ratio ≤ 1) (h : b ≤ b') :
    b - spreadMs ratio b ≤ b' - spreadMs ratio b' := by
  have hcast : (b : ℚ) ≤ b' := by exact_mod_cast h
  have hle : spreadMs ratio b' ≤ spreadMs ratio b + (b' - b) := by
    refine Int.ceil_le.mpr ?_
    have hceil : b * ratio ≤ (spreadMs ratio b : ℚ) := Int.le_ceil _
    push_cast
    nlinarith
  omega

lemma upper_mono {b b' : ℤ} (h0 : 0 ≤ ratio) (h : b ≤ b') :
    b + spreadMs ratio b ≤ b' + spreadMs ratio b' := by
  have hcast : (b : ℚ) ≤ b' := by exact_mod_cast h
  have hle : spreadMs ratio b ≤ spreadMs ratio b' :=
    Int.ceil_mono (mul_le_mul_of_nonneg_right hcast h0)
  omega

end Backoff

/-! ### Waits and connections -/

namespace Network

open Runs Backoff

variable {R : ReconnectConfig} {s s' : St} {a : Act} {tr : List Act}

/-- The connections begun in a history. -/
def connections (tr : List Act) : ℕ := tr.count .create

/-- The waits whose timer has run out. -/
def timeouts (tr : List Act) : ℕ := tr.count (.wake true)

/-- Where a connection may still be made without another wait. -/
def NetPc.paid : NetPc → ℕ
  | .testing | .lockingCreate | .creating | .acquiring true | .waiting true => 1
  | _ => 0

/-- Where a wait has its delay and its timer has not run out. -/
def NetPc.pending : NetPc → ℕ
  | .acquiring false | .waiting false | .asleep => 1
  | _ => 0

/-- Every connection but the first is paid for by a wait, and every wait by a delay. -/
structure Paid (tr : List Act) (s : St) : Prop where
  connections : connections tr + s.pc.paid ≤ timeouts tr + 1
  timeouts : timeouts tr + s.pc.pending ≤ (delays tr).length

lemma Paid.snoc (hs : Paid tr s)
    (hc : Network.connections [a] + s'.pc.paid ≤ Network.timeouts [a] + s.pc.paid)
    (ht : Network.timeouts [a] + s'.pc.pending ≤ (delays [a]).length + s.pc.pending) :
    Paid (tr ++ [a]) s' := by
  have h1 := hs.connections
  have h2 := hs.timeouts
  constructor
  · rw [Network.connections, Network.timeouts, List.count_append, List.count_append]
    unfold Network.connections Network.timeouts at h1 hc
    omega
  · rw [Network.timeouts, List.count_append, delays_snoc, List.length_append]
    unfold Network.timeouts at h2 ht
    omega

lemma step_paid (hs : Paid tr s) (h : Step R s a s') : Paid (tr ++ [a]) s' := by
  cases h with
  | waitStopped h _ => exact hs.snoc (Nat.zero_le _) (Nat.zero_le _)
  | @wake timedOut h =>
      refine hs.snoc ?_ ?_ <;> cases timedOut <;>
        simp [h, connections, timeouts, delays, NetPc.paid, NetPc.pending]
  | @lockWait timedOut h _ =>
      refine hs.snoc ?_ ?_ <;> cases timedOut <;>
        simp [h, connections, timeouts, delays, NetPc.paid, NetPc.pending]
  | stopCall _ | storeStop _ | policyLock _ _ | policySet _ | policyNotify _ _ | clientLock _ _
  | clientStop _ _ | clientAbsent _ _ | streamLock _ _ _ | close _ _ | unlockClient _ | join _ _ =>
      exact hs.snoc (le_of_eq (by simp [connections, timeouts]))
        (le_of_eq (by simp [timeouts, delays]))
  | policyWake _ h | testExit h _ | testLoop h _ | lockCreate h _ | create h | clientStart h _
  | succeed h _ _ _ | fail h _ | clientStopped h _ _ | clientGoesOn h _ _ | lockStream h _ _
  | emplace h _ | read h _ _ | push h | lockReset h _ | lockDestroy h _ _ | destroy h
  | checkExit h _ | checkClear h _ | checkWait h _ | lockClear h _ | clear h | delay h
  | waitOver h _ | waitSleep h _ =>
      refine hs.snoc ?_ ?_ <;>
        simp [h, connections, timeouts, delays, NetPc.paid, NetPc.pending]

lemma run_paid (h : run (step R) start tr = some s) : Paid tr s :=
  run_inv (P := Paid) ⟨by decide, by decide⟩ (fun _ hs ha => step_paid hs (step_cases ha)) h

/-- Every delay is that of some attempt. -/
lemma exists_attempt (h : run (step R) start tr = some s) :
    ∀ d ∈ delays tr, ∃ attempt, d = baseDelayForAttempt R attempt := by
  refine run_inv (P := fun tr _ => ∀ d ∈ delays tr, ∃ attempt, d = baseDelayForAttempt R attempt)
    (fun d hd => absurd hd List.not_mem_nil) ?_ h
  intro tr s a s' _ ih ha d hd
  rw [delays_snoc] at hd
  rcases List.mem_append.mp hd with hd | hd
  · exact ih d hd
  · cases step_cases ha with
    | delay _ => exact ⟨_, List.mem_singleton.mp hd⟩
    | _ => cases hd

/-- The delays lie between the initial one and the cap. -/
lemma exactDelay_bounds (R : ReconnectConfig) (attempt : UInt32) :
    R.initialBackoffMs.toNat ≤ exactDelay R attempt ∧
      exactDelay R attempt ≤ R.maxBackoffMs.toNat := by
  have hle := UInt64.le_iff_toNat_le.mp R.ordered
  have hdouble := Nat.le_mul_of_pos_right R.initialBackoffMs.toNat (Nat.two_pow_pos attempt.toNat)
  unfold exactDelay
  omega

/-- **The delays of the reconnects are bounded.** In every run, each connection but the first comes
after a wait whose timer has run out, and each wait has a delay of its own. With a ratio between 0
and 1 and a cap of at most `2 ^ 52` milliseconds every delay, spread in rounded arithmetic by
whatever is drawn, is at least the initial backoff and at most the cap, up to their spread rounded
up to whole milliseconds. -/
theorem paced (F : Rounding) {ratio : ℚ} (h0 : 0 ≤ ratio) (h1 : ratio ≤ 1)
    (hmax : R.maxBackoffMs.toNat ≤ 2 ^ 52) (h : run (step R) start tr = some s) :
    connections tr ≤ timeouts tr + 1 ∧ timeouts tr ≤ (delays tr).length ∧
    ∀ d ∈ delays tr, ∀ draw, Draws draw →
      R.initialBackoffMs.toNat - spreadMs ratio R.initialBackoffMs.toNat ≤
        applyJitter F draw ratio d.toInt64.toInt ∧
      applyJitter F draw ratio d.toInt64.toInt ≤
        R.maxBackoffMs.toNat + spreadMs ratio R.maxBackoffMs.toNat := by
  have hpaid := run_paid h
  refine ⟨Nat.le_of_add_right_le hpaid.connections, Nat.le_of_add_right_le hpaid.timeouts, ?_⟩
  intro d hd draw hdraw
  obtain ⟨attempt, rfl⟩ := exists_attempt h d hd
  obtain ⟨hlow, hhigh⟩ := exactDelay_bounds R attempt
  have hnat : (baseDelayForAttempt R attempt).toNat = exactDelay R attempt :=
    baseDelayForAttempt_toNat (.inl (by omega))
  have hint : (baseDelayForAttempt R attempt).toInt64.toInt = exactDelay R attempt := by
    rw [toInt_toInt64 (by omega), hnat]
  rw [hint]
  have hbounds := @applyJitter_bounds F draw ratio (exactDelay R attempt) hdraw h0 h1
    (by omega) (by omega)
  have hmono := @lower_mono ratio R.initialBackoffMs.toNat (exactDelay R attempt) h1 (by omega)
  have hmono' := @upper_mono ratio (exactDelay R attempt) R.maxBackoffMs.toNat h0 (by omega)
  omega

/-- Two connections, with the default configuration and the least that can be drawn. -/
theorem paced_dropAtOnce : connections dropAtOnce = 2 ∧ timeouts dropAtOnce = 2 ∧
    ∀ d ∈ delays dropAtOnce, 400 ≤ applyJitter .none (fun lo _ => lo) (1 / 5) d.toInt64.toInt ∧
      applyJitter .none (fun lo _ => lo) (1 / 5) d.toInt64.toInt ≤ 36000 := by
  have hr : run (step .default) start dropAtOnce = some _ := rfl
  have hdraw : Draws fun lo _ => lo := fun _ _ hle => ⟨le_refl _, hle⟩
  have h0 : (0 : ℚ) ≤ 1 / 5 := by norm_num
  obtain ⟨-, -, hdelays⟩ := paced .none h0 (by norm_num) (by decide) hr
  refine ⟨by decide, by decide, fun d hd => ?_⟩
  have hbounds := hdelays d hd _ hdraw
  have hlow : spreadMs (1 / 5) 500 = 100 := by norm_num [spreadMs]
  have hhigh : spreadMs (1 / 5) 30000 = 6000 := by norm_num [spreadMs]
  change 500 - spreadMs (1 / 5) 500 ≤ _ ∧ _ ≤ 30000 + spreadMs (1 / 5) 30000 at hbounds
  rw [hlow, hhigh] at hbounds
  omega

end Network

end BinanceAggregator
