import BinanceAggregator.PipelineFlush
import BinanceAggregator.Unsplit

/-!
A tick writes the windows that are over.

The writer compares the start of a window with the start of the window that is open by its clock.
Since every start is a multiple of the length of a window, a smaller start means that the whole
window lies before the reading of the clock, in exact arithmetic.
-/

namespace BinanceAggregator.Pipeline

open Runs MarketDataAggregator

variable {C : Config} {E : Env} {s s' : St C} {a : Act C} {tr : List (Act C)} {who : Flusher}
  {f f' : Flush C}

/-! ### Starts and the clock -/

lemma toNat_currentWindowStartMs (windowMs nowMs : UInt64) :
    (currentWindowStartMs windowMs nowMs).toNat =
      nowMs.toNat - nowMs.toNat % windowMs.toNat := by
  have hle : nowMs % windowMs ≤ nowMs := by
    rw [UInt64.le_iff_toNat_le, UInt64.toNat_mod]
    exact Nat.mod_le _ _
  rw [currentWindowStartMs, UInt64.toNat_sub_of_le _ _ hle, UInt64.toNat_mod]

/-- A window that starts before the open one has ended. -/
lemma end_le_of_lt {windowMs nowMs k : UInt64} (hk : k % windowMs = 0)
    (h : k < currentWindowStartMs windowMs nowMs) :
    k.toNat + windowMs.toNat ≤ nowMs.toNat := by
  rw [UInt64.lt_iff_toNat_lt, toNat_currentWindowStartMs] at h
  have hmod : k.toNat % windowMs.toNat = 0 := by
    rw [← UInt64.toNat_mod, hk]
    rfl
  -- both starts are multiples of the length
  have hk' := Nat.div_add_mod k.toNat windowMs.toNat
  have hnow := Nat.div_add_mod nowMs.toNat windowMs.toNat
  have hlt : windowMs.toNat * (k.toNat / windowMs.toNat) <
      windowMs.toNat * (nowMs.toNat / windowMs.toNat) := by omega
  have hstep : k.toNat / windowMs.toNat + 1 ≤ nowMs.toNat / windowMs.toNat :=
    Nat.lt_of_mul_lt_mul_left hlt
  have hmul := Nat.mul_le_mul_left windowMs.toNat hstep
  rw [Nat.mul_add, Nat.mul_one] at hmul
  omega

/-- A window that does not start before the open one has not ended. -/
lemma lt_end_of_not_lt {windowMs nowMs k : UInt64} (hw : 0 < windowMs)
    (h : ¬ k < currentWindowStartMs windowMs nowMs) :
    nowMs.toNat < k.toNat + windowMs.toNat := by
  rw [UInt64.lt_iff_toNat_lt, toNat_currentWindowStartMs] at h
  have hpos : 0 < windowMs.toNat := UInt64.lt_iff_toNat_lt.mp hw
  have hmod := Nat.mod_lt nowMs.toNat hpos
  omega

/-! ### The clock of a tick -/

/-- The last reading of the clock. -/
def lastClock (tr : List (Act C)) : Option UInt64 := (tr.filterMap Act.clock).getLast?

lemma lastClock_snoc (h : a.clock = none) : lastClock (tr ++ [a]) = lastClock tr := by
  simp [lastClock, h]

lemma lastClock_of_clock {nowMs : UInt64} (h : a.clock = some nowMs) :
    lastClock (tr ++ [a]) = some nowMs := by
  simp [lastClock, h]

lemma Advance.cut_eq (h : Advance E s who a f f') : f'.cut = f.cut ∧ a.clock = none := by
  cases h <;> exact ⟨rfl, rfl⟩

/-- A flush of the writer goes up to the start of the window that is open by its clock. -/
def Clocked (tr : List (Act C)) (s : St C) : Prop :=
  ∀ f, s.flushOf .writer = some f → ∃ nowMs, lastClock tr = some nowMs ∧
    f.cut = .completed (currentWindowStartMs C.windowMs nowMs)

lemma step_clocked (ih : Clocked tr s) (h : Step E s a s') : Clocked (tr ++ [a]) s' := by
  intro f' hf'
  cases step_flushChange h with
  | beside _ hc hsame =>
      rw [lastClock_snoc hc]
      exact ih f' ((hsame .writer).symm.trans hf')
  | begun who cut hb _ hset =>
      rw [hset] at hf'
      cases hb with
      | tick nowMs =>
          rw [if_pos rfl] at hf'
          obtain rfl := Option.some.inj hf'
          exact ⟨nowMs, lastClock_of_clock rfl, rfl⟩
      | stop =>
          rw [if_neg (by decide)] at hf'
          rw [lastClock_snoc rfl]
          exact ih f' hf'
  | advanced who f g hf hadv hset =>
      rw [lastClock_snoc hadv.cut_eq.2]
      rw [hset] at hf'
      split_ifs at hf' with hw
      · subst hw
        obtain rfl := Option.some.inj hf'
        rw [hadv.cut_eq.1]
        exact ih f hf
      · exact ih f' hf'
  | finished who cut he hf hset =>
      subst he
      rw [lastClock_snoc rfl]
      rw [hset] at hf'
      split_ifs at hf'
      exact ih f' hf'

lemma run_clocked (h : run (step E) (start C) tr = some s) : Clocked tr s :=
  run_inv (P := Clocked) (fun _ hf => by cases hf)
    (fun _ ih ha => step_clocked ih (step_cases ha)) h

/-- What a flush holds lies below its cut and starts at a multiple of the length. -/
def Below (f : Flush C) : Prop :=
  ∀ x ∈ f.pc.windows, f.cut.Takes x.windowStartMs ∧ x.windowStartMs % C.windowMs = 0

lemma below_advance (hb : Built s) (hadv : Advance E s who a f f') (hf : Below f) : Below f' := by
  cases hadv with
  | lock => exact hf
  | @extract cut i todo ws =>
      intro x hx
      rcases List.mem_append.mp hx with hx | hx
      · exact hf x hx
      · exact ⟨(takes_of_mem_extract hx).1, (hb.shards i).2 ▸ mod_of_mem_extract hx⟩
  | @merge cut ws =>
      intro x hx
      change x ∈ (writeWindows E ws).flatMap (·.windows) at hx
      rw [writeWindows_eq] at hx
      exact hf x ((snapshots_perm E.symbolSort ws).mem_iff.mp hx)
  | @write cut y todo => exact fun x hx => hf x (List.mem_append_right y.windows hx)

lemma run_below (h : run (step E) (start C) tr = some s) :
    ∀ who f, s.flushOf who = some f → Below f :=
  run_flush (fun _ _ hx => absurd hx List.not_mem_nil)
    (fun hr hadv hf => below_advance (run_built hr) hadv hf) h

/-! ### Closed windows -/

/-- **A tick writes closed windows.** A window that the writer writes has ended by the reading of
the clock with which the flush began; and after a shard has been extracted, a window that it
holds has not. -/
theorem closed_windows (hw : 0 < C.windowMs) (h : run (step E) (start C) tr = some s) :
    (∀ u y v, tr = u ++ .write .writer y :: v → ∃ nowMs, lastClock u = some nowMs ∧
      ∀ x ∈ y.windows, x.windowStartMs.toNat + C.windowMs.toNat ≤ nowMs.toNat) ∧
    ∀ u i c l v m, tr = u ++ .extract .writer i c l :: v →
      run (step E) (start C) (u ++ [.extract .writer i c l]) = some m →
      ∃ nowMs, lastClock u = some nowMs ∧ ∀ symbol k x,
        (m.shards i).aggregator.windowStats symbol k = some x →
        nowMs.toNat < x.windowStartMs.toNat + C.windowMs.toNat := by
  refine ⟨fun u y v he => ?_, fun u i c l v m he hm => ?_⟩
  · subst he
    obtain ⟨m, m', hm, ha, -⟩ := run_split _ h
    cases step_cases ha with
    | @write _ cut _ todo hf =>
        obtain ⟨nowMs, hclock, hcut⟩ := run_clocked hm _ hf
        refine ⟨nowMs, hclock, fun x hx => ?_⟩
        obtain ⟨htakes, hmod⟩ := run_below hm _ _ hf x (List.mem_append_left _ hx)
        rw [hcut] at htakes
        exact end_le_of_lt hmod htakes
  · obtain ⟨m₀, hm₀, ha⟩ := (run_snoc _).mp hm
    have hstep := step_cases ha
    cases step_aggregators hstep with
    | keep _ _ hno _ _ => exact absurd rfl (hno _ _ _ _)
    | add j t he _ _ _ => cases he
    | extract who j f todo ws he hf _ hi _ =>
        obtain ⟨rfl, rfl, rfl, -⟩ := Act.extract.inj he
        obtain ⟨nowMs, hclock, hcut⟩ := run_clocked hm₀ _ hf
        refine ⟨nowMs, hclock, fun symbol k x hx => ?_⟩
        have hstart : x.windowStartMs = k :=
          congrArg Prod.snd ((m.shards i).aggregator.keyed _ _ _ hx).1
        rw [hi] at hx
        have hfind := ((m₀.shards i).aggregator.extract_spec f.cut).find symbol k
        rw [show ((m₀.shards i).aggregator.extract f.cut).2.windows.find symbol k = some x from hx]
          at hfind
        split_ifs at hfind with htakes
        rw [hcut] at htakes
        rw [hstart]
        exact lt_end_of_not_lt hw htakes

/-- The tick of a run with windows of half a second. -/
theorem closed_windows_twoWindows : ∃ u v,
    twoWindows = u ++ .write .writer ⟨0, [sampleWindow "BTCUSDT" 0]⟩ :: v ∧
    lastClock u = some 700 ∧ (sampleWindow "BTCUSDT" 0).windowStartMs.toNat + 500 ≤ 700 := by
  obtain ⟨s, hs, -⟩ := exists_returned sampleEnv twoWindows (by decide +kernel)
  have hsplit : twoWindows = twoWindows.take 17 ++
      .write .writer ⟨0, [sampleWindow "BTCUSDT" 0]⟩ :: twoWindows.drop 18 := rfl
  have hclock : lastClock (twoWindows.take 17) = some 700 := by decide +kernel
  obtain ⟨nowMs, hnow, hle⟩ := (closed_windows (by decide) hs).1 _ _ _ hsplit
  obtain rfl := Option.some.inj (hclock.symm.trans hnow)
  exact ⟨_, _, hsplit, hclock, hle _ List.mem_cons_self⟩

end BinanceAggregator.Pipeline
